import Conform.Proofs.Program.Outcome
import Mathlib.Data.List.Forall2

/-!
# Programs that settle in parallel

Two programs that put no requests settle in parallel if they come to related values, or if both
refuse the value. There is one rule for each way of making a program. Programs that are carried out
one after the other (`Program.inOrder`) may be carried out in another order, if each of them comes
to a value or refuses: whichever refuses first, the whole refuses (`Parallel.inOrder_perm`).
-/

namespace Conform.Program

variable {α β γ δ : Type} {rel : α → β → Prop} {rel' : γ → δ → Prop} {p : Program α} {q : Program β}

/-- A program settles in one way only. -/
theorem SettlesTo.unique {result result' : Except CastError α} (h : p.SettlesTo result)
    (h' : p.SettlesTo result') : result = result' := by
  induction p with
  | done found => exact h.symm.trans h'
  | ask unions request resume ih => exact h.elim
  | raise unions e next ih => exact ih h h'

/-- What a program settles to is among what it yields. -/
theorem Yields.of_settlesTo {replies : Replies} {good : α → Prop} {bad : CastError → Prop} {a : α}
    (h : p.Yields replies good bad) (hsettles : p.SettlesTo (.ok a)) : good a := by
  induction p with
  | done found => cases hsettles; exact h
  | ask unions request resume ih => exact hsettles.elim
  | raise unions e next ih => exact ih h hsettles

/-- Both programs give values, which are related, or both refuse. Neither puts a request. -/
inductive Parallel (rel : α → β → Prop) (p : Program α) (q : Program β) : Prop
  | values {a : α} {b : β} (left : p.SettlesTo (.ok a)) (right : q.SettlesTo (.ok b))
      (related : rel a b)
  | refusals {e e' : CoercionError} (left : p.SettlesTo (.error (.coercion e)))
      (right : q.SettlesTo (.error (.coercion e')))

namespace Parallel

/-- Related values run in parallel. -/
theorem pure {a : α} {b : β} (h : rel a b) :
    Parallel rel (Pure.pure a : Program α) (Pure.pure b : Program β) :=
  .values rfl rfl h

/-- The relation may be weakened. -/
theorem mono {other : α → β → Prop} (h : Parallel rel p q) (himp : ∀ a b, rel a b → other a b) :
    Parallel other p q := by
  cases h with
  | values left right related => exact .values left right (himp _ _ related)
  | refusals left right => exact .refusals left right

/-- In sequence, for values that are related the rest runs in parallel. -/
theorem bind {f : α → Program γ} {g : β → Program δ} (h : Parallel rel p q)
    (hnext : ∀ a b, rel a b → Parallel rel' (f a) (g b)) : Parallel rel' (p >>= f) (q >>= g) := by
  cases h with
  | values left right related =>
    cases hnext _ _ related with
    | values left' right' related' => exact .values (left.bind left') (right.bind right') related'
    | refusals left' right' => exact .refusals (left.bind left') (right.bind right')
  | refusals left right => exact .refusals (left.bind_error f) (right.bind_error g)

/-- Open unions do not matter to how programs settle. -/
theorem inUnion (h : Parallel rel p q) : Parallel rel p.inUnion q.inUnion := by
  cases h with
  | values left right related => exact .values left.inUnion right.inUnion related
  | refusals left right => exact .refusals left.inUnion right.inUnion

/-- What both have refused is left to the programs behind them. -/
theorem orElse {other : Unit → Program α} {other' : Unit → Program β} (h : Parallel rel p q)
    (hother : Parallel rel (other ()) (other' ())) :
    Parallel rel (p.orElse other) (q.orElse other') := by
  cases h with
  | values left right related => exact .values (left.orElse _) (right.orElse _) related
  | refusals left right =>
    cases hother with
    | values left' right' related =>
      exact .values (left.orElse_refused left') (right.orElse_refused right') related
    | refusals left' right' =>
      exact .refusals (left.orElse_refused left') (right.orElse_refused right')

/-- Relations are composed along a program that settles in parallel with two others. -/
theorem trans {other : β → γ → Prop} {r : Program γ} (h : Parallel rel p q)
    (h' : Parallel other q r) : Parallel (fun a c => ∃ b, rel a b ∧ other b c) p r := by
  -- a program settles to one result, so that the two relations meet in the middle
  cases h with
  | values left right related =>
    cases h' with
    | values left' right' related' =>
      cases right.unique left'
      exact .values left right' ⟨_, related, related'⟩
    | refusals left' right' => cases right.unique left'
  | refusals left right =>
    cases h' with
    | values left' right' related' => cases right.unique left'
    | refusals left' right' => exact .refusals left right'

/-- More is known of the values if the programs yield it. -/
theorem strengthen {replies : Replies} {good : α → Prop} {good' : β → Prop}
    {bad bad' : CastError → Prop} (h : Parallel rel p q) (hp : p.Yields replies good bad)
    (hq : q.Yields replies good' bad') : Parallel (fun a b => rel a b ∧ good a ∧ good' b) p q := by
  cases h with
  | values left right related =>
    exact .values left right ⟨related, hp.of_settlesTo left, hq.of_settlesTo right⟩
  | refusals left right => exact .refusals left right

/-- A program that settles in parallel with another settles in parallel with itself. -/
theorem self_right (h : Parallel rel p q) : Parallel Eq q q := by
  cases h with
  | values left right related => exact .values right right rfl
  | refusals left right => exact .refusals right right

end Parallel

/-! ## One after the other -/

/-- Carries out programs one after the other. -/
def inOrder : List (Program α) → Program (List α)
  | [] => pure []
  | p :: rest => do
    let a ← p
    let as ← inOrder rest
    pure (a :: as)

section InOrder

variable {rest : List (Program α)} {a : α} {as : List α} {e : CastError}

/-- A list of programs settles when the first does and the rest do. -/
theorem inOrder_settles (hp : p.SettlesTo (.ok a)) (hrest : (inOrder rest).SettlesTo (.ok as)) :
    (inOrder (p :: rest)).SettlesTo (.ok (a :: as)) :=
  hp.bind (hrest.bind (settlesTo_pure _))

/-- The error of the first is the error of the list. -/
theorem inOrder_fails_first (hp : p.SettlesTo (.error e)) (rest : List (Program α)) :
    (inOrder (p :: rest)).SettlesTo (.error e) :=
  hp.bind_error _

/-- After a first that settles it is the error of the rest. -/
theorem inOrder_fails_later (hp : p.SettlesTo (.ok a))
    (hrest : (inOrder rest).SettlesTo (.error e)) : (inOrder (p :: rest)).SettlesTo (.error e) :=
  hp.bind (hrest.bind_error _)

end InOrder

/-- Lists of programs run in parallel one by one. -/
theorem Parallel.inOrder {ps : List (Program α)} {qs : List (Program β)}
    (h : List.Forall₂ (Parallel rel) ps qs) :
    Parallel (List.Forall₂ rel) (Program.inOrder ps) (Program.inOrder qs) := by
  induction h with
  | nil => exact .pure .nil
  | cons hp _ ih => exact hp.bind fun a b hab => ih.bind fun as bs hrest => .pure (.cons hab hrest)

/-- Of programs that settle, the order does not matter but for the order of their values. -/
theorem Parallel.inOrder_perm {ps qs : List (Program α)} (hperm : ps.Perm qs)
    (hself : ∀ p ∈ ps, Parallel Eq p p) :
    Parallel List.Perm (Program.inOrder ps) (Program.inOrder qs) := by
  induction hperm with
  | nil => exact .pure .nil
  | cons p _ ih =>
    have ⟨hp, hrest⟩ := List.forall_mem_cons.mp hself
    refine hp.bind fun a b hab => (ih hrest).bind fun as bs hperm => .pure ?_
    rw [hab]
    exact hperm.cons b
  | swap p q rest =>
    have ⟨hq, hothers⟩ := List.forall_mem_cons.mp hself
    have ⟨hp, hrest⟩ := List.forall_mem_cons.mp hothers
    have hsame : Parallel Eq (Program.inOrder rest) (Program.inOrder rest) :=
      (Parallel.inOrder (List.forall₂_same.mpr hrest)).mono fun as bs h => List.forall₂_eq_eq_eq ▸ h
    -- if both give values, the rest decides; otherwise both orders come to a refusal
    cases hq with
    | values settlesq =>
      cases hp with
      | values settlesp =>
        cases hsame with
        | values left =>
          exact .values (inOrder_settles settlesq (inOrder_settles settlesp left))
            (inOrder_settles settlesp (inOrder_settles settlesq left)) (.swap ..)
        | refusals left =>
          exact .refusals (inOrder_fails_later settlesq (inOrder_fails_later settlesp left))
            (inOrder_fails_later settlesp (inOrder_fails_later settlesq left))
      | refusals failsp =>
        exact .refusals (inOrder_fails_later settlesq (inOrder_fails_first failsp rest))
          (inOrder_fails_first failsp _)
    | refusals failsq =>
      cases hp with
      | values settlesp =>
        exact .refusals (inOrder_fails_first failsq _)
          (inOrder_fails_later settlesp (inOrder_fails_first failsq rest))
      | refusals failsp =>
        exact .refusals (inOrder_fails_first failsq _) (inOrder_fails_first failsp _)
  -- the programs in between are the same ones
  | trans hfirst _ ih ih' =>
    have hmiddle : ∀ p ∈ _, Parallel Eq p p := fun p hp => hself p (hfirst.mem_iff.mpr hp)
    exact ((ih hself).trans (ih' hmiddle)).mono fun _ _ ⟨_, h, h'⟩ => h.trans h'

end Conform.Program
