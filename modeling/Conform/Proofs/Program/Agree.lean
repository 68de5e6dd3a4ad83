import Conform.Proofs.Program.Run
import Mathlib.Data.List.Forall2

/-!
# Programs whose runs agree

`Program.Agree` compares the runs of two programs from one state of the host: they give the same
value, or both fail, with failures that `similar` relates, and they leave the host in the same
state. There is one rule for each way of making a program.

A union tries programs in order, `Program.firstOf`. The first that does not refuse decides
(`decidedInOrder_firstOf`), and a union within a union tries the same programs in the same order
(`run_orElse_firstOf`).
-/

namespace Conform

/-- The same value, or failures that `similar` relates, in the same state of the host. -/
inductive AgreeOn {α σ : Type} (similar : CastError → CastError → Prop) :
    Except CastError α × σ → Except CastError α × σ → Prop
  | value (a : α) (s : σ) : AgreeOn similar (.ok a, s) (.ok a, s)
  | failure {e e' : CastError} (h : similar e e') (s : σ) :
    AgreeOn similar (.error e, s) (.error e', s)

/-- What ends in one way agrees with itself. -/
theorem AgreeOn.refl {α σ : Type} {similar : CastError → CastError → Prop}
    (hsimilar : ∀ e, similar e e) : ∀ ended : Except CastError α × σ, AgreeOn similar ended ended
  | (.ok a, s) => .value a s
  | (.error e, s) => .failure (hsimilar e) s

/-- Runs that agree up to equal failures are the same. -/
theorem AgreeOn.eq {α σ : Type} {ended ended' : Except CastError α × σ}
    (h : AgreeOn Eq ended ended') : ended = ended' := by
  cases h with
  | value a s => rfl
  | failure h s => rw [h]

namespace Program

variable {α β σ : Type} {answer : (request : Request) → StateM σ request.Reply} {s s' : σ}
  {similar : CastError → CastError → Prop} {p q : Program α}

/-- The runs of two programs from a state of the host agree. -/
def Agree (answer : (request : Request) → StateM σ request.Reply)
    (similar : CastError → CastError → Prop) (s : σ) (p q : Program α) : Prop :=
  AgreeOn similar ((p.run answer).run s) ((q.run answer).run s)

/-! ## Rules -/

/-- A value is given by both. -/
theorem Agree.pure (a : α) : Agree answer similar s (pure a) (pure a) := .value a s

/-- Similar errors are raised by both. -/
theorem Agree.throw {e e' : CastError} (h : similar e e') :
    Agree answer similar s (throw e : Program α) (throw e') := .failure h s

/-- A program agrees with itself. -/
theorem Agree.refl (hsimilar : ∀ e, similar e e) (p : Program α) : Agree answer similar s p p :=
  AgreeOn.refl hsimilar _

/-- Programs that agree may be followed by programs that agree on what the first ones gave. -/
theorem Agree.bind {f g : α → Program β} (hp : Agree answer similar s p q)
    (h : ∀ a s', (p.run answer).run s = (.ok a, s') → Agree answer similar s' (f a) (g a)) :
    Agree answer similar s (p >>= f) (q >>= g) := by
  rw [Agree, run_bind, run_bind]
  rw [Agree] at hp
  generalize (p.run answer).run s = left at hp h
  generalize (q.run answer).run s = right at hp
  cases hp with
  | value a s' => exact h a s' rfl
  | failure he s' => exact .failure he s'

/-- The run of a program that another stands behind. -/
theorem run_orElse (p : Program α) (other : Unit → Program α) (s : σ) :
    ((p.orElse other).run answer).run s = match (p.run answer).run s with
      | (.error (.coercion _), s') => ((other ()).run answer).run s'
      | ended => ended := by
  induction p generalizing s with
  | done result =>
    cases result with
    | ok a => rfl
    | error e => cases e <;> rfl
  | ask unions request resume ih => exact ih _ _
  | raise unions e next ih => exact ih s

/-- A run takes no notice of how many unions are open. -/
theorem run_inUnion (p : Program α) (s : σ) :
    (p.inUnion.run answer).run s = (p.run answer).run s := by
  induction p generalizing s with
  | done result => rfl
  | ask unions request resume ih => exact ih _ _
  | raise unions e next ih => exact ih s

/-- Whether its first program lies in a union does not matter to the run of a whole. -/
theorem run_inUnion_orElse (p : Program α) (other : Unit → Program α) (s : σ) :
    ((p.inUnion.orElse other).run answer).run s = ((p.orElse other).run answer).run s := by
  rw [run_orElse, run_orElse, run_inUnion]

/-- The mark of a union is no difference in a run. -/
theorem Agree.inUnion (hp : Agree answer similar s p q) :
    Agree answer similar s p.inUnion q.inUnion := by
  rw [Agree, run_inUnion, run_inUnion]
  exact hp

/-- Only what both programs have refused is left to the programs behind them. -/
theorem Agree.orElse {other other' : Unit → Program α}
    (hsimilar : ∀ e e', similar e e' → e.isCoercion = e'.isCoercion)
    (hp : Agree answer similar s p q)
    (hother : ∀ s', Agree answer similar s' (other ()) (other' ())) :
    Agree answer similar s (p.orElse other) (q.orElse other') := by
  rw [Agree, run_orElse, run_orElse]
  rw [Agree] at hp
  generalize (p.run answer).run s = left at hp
  generalize (q.run answer).run s = right at hp
  cases hp with
  | value a s' => exact .value a s'
  | @failure e e' he s' =>
    -- similar errors are both refusals or both not
    have hkind := hsimilar e e' he
    cases e with
    | coercion e =>
      cases e' with
      | coercion e' => exact hother s'
      | config e' | lookup e' | host e' => cases hkind
    | config e | lookup e | host e =>
      cases e' with
      | coercion e' => cases hkind
      | config e' | lookup e' | host e' => exact .failure he s'

/-! ## Programs in order -/

/-- Tries programs as the alternatives of a union: goes on with the next one as long as one refuses,
    and with `otherwise` behind the last. -/
def firstOf (otherwise : Program α) : List (Program α) → Program α
  | [] => otherwise
  | p :: rest => p.inUnion.orElse fun _ => firstOf otherwise rest

/-- The programs refuse one after the other, and take the host from one state to the other. -/
inductive Refuse (answer : (request : Request) → StateM σ request.Reply) :
    List (Program α) → σ → σ → Prop
  | nil (s : σ) : Refuse answer [] s s
  | cons {p : Program α} {rest : List (Program α)} {e : CoercionError} {s s₁ s' : σ}
      (first : (p.run answer).run s = (.error (.coercion e), s₁))
      (next : Refuse answer rest s₁ s') : Refuse answer (p :: rest) s s'

variable {otherwise : Program α} {ps qs : List (Program α)}

/-- The first of two lists is the first of one, or else the first of the other. -/
theorem firstOf_append (otherwise : Program α) (ps qs : List (Program α)) :
    firstOf otherwise (ps ++ qs) = firstOf (firstOf otherwise qs) ps := by
  induction ps with
  | nil => rfl
  | cons p rest ih => rw [List.cons_append, firstOf, firstOf, ih]

/-- Alternatives that agree one by one agree in the one that decides. -/
theorem Agree.firstOf {otherwise' : Program α}
    (hsimilar : ∀ e e', similar e e' → e.isCoercion = e'.isCoercion)
    (hps : List.Forall₂ (fun p q => ∀ s, Agree answer similar s p q) ps qs)
    (hotherwise : ∀ s, Agree answer similar s otherwise otherwise') (s : σ) :
    Agree answer similar s (firstOf otherwise ps) (firstOf otherwise' qs) := by
  induction hps generalizing s with
  | nil => exact hotherwise s
  | cons hp _ ih => exact (hp s).inUnion.orElse hsimilar ih

/-- Only the runs of what comes last matter. -/
theorem run_firstOf_congr {otherwise' : Program α}
    (h : ∀ s, (otherwise.run answer).run s = (otherwise'.run answer).run s)
    (ps : List (Program α)) (s : σ) :
    ((firstOf otherwise ps).run answer).run s = ((firstOf otherwise' ps).run answer).run s := by
  induction ps generalizing s with
  | nil => exact h s
  | cons p rest ih =>
    rw [firstOf, firstOf, run_orElse, run_orElse]
    simp only [ih]

/-- A run that comes to what the first program does that does not refuse, or to what `otherwise`
    does if all of them refuse. -/
inductive DecidedInOrder (answer : (request : Request) → StateM σ request.Reply)
    (otherwise : Program α) (ps : List (Program α)) (s : σ) (ended : Except CastError α × σ) : Prop
  | first (before : List (Program α)) (p : Program α) (after : List (Program α)) (s' : σ)
      (order : ps = before ++ p :: after) (refuse : Refuse answer before s s')
      (decides : ∀ e, ((p.run answer).run s').1 ≠ .error (.coercion e))
      (run : ended = (p.run answer).run s')
  | none (s' : σ) (refuse : Refuse answer ps s s') (run : ended = (otherwise.run answer).run s')

/-- Of alternatives the first that does not refuse decides. -/
theorem decidedInOrder_firstOf (otherwise : Program α) (ps : List (Program α)) (s : σ) :
    DecidedInOrder answer otherwise ps s (((firstOf otherwise ps).run answer).run s) := by
  induction ps generalizing s with
  | nil => exact .none s (.nil s) rfl
  | cons p rest ih =>
    rw [firstOf, run_orElse, run_inUnion]
    cases hp : (p.run answer).run s with
    | mk result s₁ =>
      -- a refusal leaves it to the rest, and all else decides
      match result with
      | .error (.coercion e) =>
        cases ih s₁ with
        | first before q after s' order refuse decides run =>
          exact .first (p :: before) q after s' (congrArg (p :: ·) order) (.cons hp refuse) decides
            run
        | none s' refuse run => exact .none s' (.cons hp refuse) run
      | .ok a => exact .first [] p rest s rfl (.nil s) (by rw [hp]; nofun) hp.symm
      | .error (.config e) => exact .first [] p rest s rfl (.nil s) (by rw [hp]; nofun) hp.symm
      | .error (.lookup e) => exact .first [] p rest s rfl (.nil s) (by rw [hp]; nofun) hp.symm
      | .error (.host e) => exact .first [] p rest s rfl (.nil s) (by rw [hp]; nofun) hp.symm

/-- If all programs refuse and `otherwise` would refuse as well, it is left to the program behind,
    which might have been tried in the place of `otherwise`. -/
theorem run_orElse_firstOf {e : CoercionError} (ps : List (Program α)) (other : Unit → Program α)
    (s : σ) :
    (((firstOf (throw (.coercion e)) ps).orElse other).run answer).run s =
      ((firstOf (other ()) ps).run answer).run s := by
  induction ps generalizing s with
  | nil => rfl
  | cons p rest ih =>
    rw [run_orElse, firstOf, firstOf, run_inUnion_orElse, run_inUnion_orElse, run_orElse,
      run_orElse]
    generalize (p.run answer).run s = ended
    obtain ⟨result, s₁⟩ := ended
    cases result with
    | ok a => rfl
    | error e =>
      cases e with
      | coercion e =>
        -- what is left of both is behind `p`
        have hrest := ih s₁
        rw [run_orElse] at hrest
        exact hrest
      | config e | lookup e | host e => rfl

end Program

end Conform
