import Conform.Proofs.Program.Agree

/-!
# Programs that keep the results of others

`p.KeptBy answer q` says that whatever `p` gives, `q` gives as well, and leaves the host in the same
state. Nothing is said of `q` where `p` fails. There is one rule for each way of making a program.
For programs in order, only what stands last may be replaced by a program that gives more
(`KeptBy.firstOf`): in any other place the new results would come before those of the programs
behind.
-/

namespace Conform.Program

variable {α β σ : Type} {answer : (request : Request) → StateM σ request.Reply} {p q r : Program α}

/-- Whatever the run of the one program gives, the run of the other gives as well, and leaves the
    host in the same state. -/
def KeptBy (answer : (request : Request) → StateM σ request.Reply) (p q : Program α) : Prop :=
  ∀ s a s', (p.run answer).run s = (.ok a, s') → (q.run answer).run s = (.ok a, s')

/-- A program keeps what it gives. -/
theorem KeptBy.refl (p : Program α) : p.KeptBy answer p := fun _ _ _ h => h

/-- What is kept twice is kept. -/
theorem KeptBy.trans (hpq : p.KeptBy answer q) (hqr : q.KeptBy answer r) : p.KeptBy answer r :=
  fun s a s' h => hqr s a s' (hpq s a s' h)

/-- A failure has no results to keep. -/
theorem KeptBy.throw (e : CastError) (q : Program α) : (throw e).KeptBy answer q := by
  intro s a s' h
  cases h

/-- Programs whose runs agree keep the results of each other. -/
theorem KeptBy.of_agree (h : ∀ s, Agree answer Eq s p q) : p.KeptBy answer q := by
  intro s a s' hp
  rw [← (h s).eq]
  exact hp

/-- A sequence keeps what it gives when its parts do. -/
theorem KeptBy.bind {f g : α → Program β} (hp : p.KeptBy answer q)
    (h : ∀ a, (f a).KeptBy answer (g a)) : (p >>= f).KeptBy answer (q >>= g) := by
  intro s b s' hrun
  obtain ⟨a, s₁, hfirst, hrest⟩ := run_bind_ok hrun
  rw [run_bind, hp s a s₁ hfirst]
  exact h a s₁ b s' hrest

/-- In a union, a program gives what it gives by itself. -/
theorem KeptBy.inUnion (hp : p.KeptBy answer q) : p.inUnion.KeptBy answer q.inUnion := by
  intro s a s' hrun
  rw [run_inUnion] at hrun ⊢
  exact hp s a s' hrun

/-- Behind one program, only what it refuses matters. -/
theorem KeptBy.orElse {other other' : Unit → Program α}
    (h : (other ()).KeptBy answer (other' ())) :
    (p.orElse other).KeptBy answer (p.orElse other') := by
  intro s a s' hrun
  rw [run_orElse] at hrun ⊢
  generalize (p.run answer).run s = ended at hrun ⊢
  obtain ⟨result, s₁⟩ := ended
  cases result with
  | ok b => exact hrun
  | error e =>
    cases e with
    -- only a refusal goes on, and to the program that keeps what the other gives
    | coercion e => exact h s₁ a s' hrun
    | config e | lookup e | host e => cases hrun

/-- Nothing is lost behind the last program, as there was only a failure. -/
theorem KeptBy.orElse_throw {e : CastError} {other : Unit → Program α} (hp : p.KeptBy answer q) :
    (p.orElse fun _ => Program.throw e).KeptBy answer (q.orElse other) := by
  intro s a s' hrun
  -- it cannot be the error that gave the value
  have hgives : (p.run answer).run s = (.ok a, s') := by
    rw [run_orElse] at hrun
    generalize (p.run answer).run s = ended at hrun ⊢
    obtain ⟨result, s₁⟩ := ended
    cases result with
    | ok b => exact hrun
    | error e => cases e <;> cases hrun
  rw [run_orElse, hp s a s' hgives]

/-- Of programs in order, the last may give more, and further ones may come behind it. -/
theorem KeptBy.firstOf {e : CastError} {otherwise : Program α} (hp : p.KeptBy answer q)
    (before after : List (Program α)) :
    (Program.firstOf (Program.throw e) (before ++ [p])).KeptBy answer
      (Program.firstOf otherwise (before ++ q :: after)) := by
  induction before with
  | nil => exact hp.inUnion.orElse_throw
  | cons first rest ih => exact .orElse ih

end Conform.Program
