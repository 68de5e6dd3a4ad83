import Conform.Proofs.Program.Parallel
import Conform.Proofs.Program.Run

/-!
# Runs of programs one after the other

`Program.GiveInOrder` tells, with the states of the host, how programs give values one after the
other. They do so exactly if the run of `Program.inOrder` gives these values (`run_inOrder_ok_iff`).
If it fails, it ends at the first program that fails, and with its failure
(`run_inOrder_error_iff`).
-/

namespace Conform.Program

variable {α β σ : Type} {answer : (request : Request) → StateM σ request.Reply} {p : Program α}
  {ps : List (Program α)} {s s' : σ}

/-- A run ends with a value behind a first program that gives one. -/
theorem run_bind_ok_iff {f : α → Program β} {b : β} :
    ((p >>= f).run answer).run s = (.ok b, s') ↔
      ∃ a s₁, (p.run answer).run s = (.ok a, s₁) ∧ ((f a).run answer).run s₁ = (.ok b, s') := by
  refine ⟨run_bind_ok, ?_⟩
  rintro ⟨a, s₁, hp, hf⟩
  rw [run_bind, hp]
  exact hf

/-- A run fails in the first program or behind it. -/
theorem run_bind_error_iff {f : α → Program β} {e : CastError} :
    ((p >>= f).run answer).run s = (.error e, s') ↔ (p.run answer).run s = (.error e, s') ∨
      ∃ a s₁, (p.run answer).run s = (.ok a, s₁) ∧ ((f a).run answer).run s₁ = (.error e, s') := by
  rw [run_bind]
  generalize (p.run answer).run s = first
  obtain ⟨result, s₁⟩ := first
  -- an error of the first part is the error of the whole
  cases result with
  | ok a =>
    constructor
    · exact fun h => .inr ⟨a, s₁, rfl, h⟩
    · rintro (h | ⟨a', s', h, hf⟩)
      · cases h
      · cases h; exact hf
  | error e' =>
    constructor
    · intro h; cases h; exact .inl rfl
    · rintro (h | ⟨a', s', h, hf⟩)
      · cases h; rfl
      · cases h

/-- A value that is only rewritten is there when it was given. -/
theorem run_bind_pure_ok_iff {f : α → β} {b : β} :
    ((p >>= fun a => pure (f a)).run answer).run s = (.ok b, s') ↔
      ∃ a, (p.run answer).run s = (.ok a, s') ∧ f a = b := by
  rw [run_bind_ok_iff]
  constructor
  · rintro ⟨a, s₁, hp, hf⟩
    cases hf
    exact ⟨a, hp, rfl⟩
  · rintro ⟨a, hp, rfl⟩
    exact ⟨a, s', hp, rfl⟩

/-- An error is not rewritten. -/
theorem run_bind_pure_error_iff {f : α → β} {e : CastError} :
    ((p >>= fun a => pure (f a)).run answer).run s = (.error e, s') ↔
      (p.run answer).run s = (.error e, s') := by
  rw [run_bind_error_iff]
  refine or_iff_left ?_
  rintro ⟨a, s₁, -, h⟩
  cases h

/-- The programs give these values one after the other, and take the host from one state to the
    other. -/
inductive GiveInOrder (answer : (request : Request) → StateM σ request.Reply) :
    List (Program α) → σ → List α → σ → Prop
  | nil (s : σ) : GiveInOrder answer [] s [] s
  | cons {p : Program α} {rest : List (Program α)} {a : α} {as : List α} {s s₁ s' : σ}
      (first : (p.run answer).run s = (.ok a, s₁)) (next : GiveInOrder answer rest s₁ as s') :
    GiveInOrder answer (p :: rest) s (a :: as) s'

/-- A list of programs gives values when each one does, in order. -/
theorem run_inOrder_ok_iff {as : List α} :
    ((inOrder ps).run answer).run s = (.ok as, s') ↔ GiveInOrder answer ps s as s' := by
  induction ps generalizing s as with
  | nil =>
    constructor
    · intro h; cases h; exact .nil _
    · intro h; cases h; rfl
  | cons p rest ih =>
    rw [inOrder, run_bind_ok_iff]
    constructor
    · rintro ⟨a, s₁, hp, h⟩
      obtain ⟨as, hrest, rfl⟩ := run_bind_pure_ok_iff.mp h
      exact .cons hp (ih.mp hrest)
    · intro h
      -- the rest starts in the state that the first program has left
      cases h with
      | cons first next => exact ⟨_, _, first, run_bind_pure_ok_iff.mpr ⟨_, ih.mpr next, rfl⟩⟩

/-- A list of programs fails with the first that fails, after those before it gave their values. -/
theorem run_inOrder_error_iff {e : CastError} :
    ((inOrder ps).run answer).run s = (.error e, s') ↔
      ∃ before p after as s₁, ps = before ++ p :: after ∧ GiveInOrder answer before s as s₁ ∧
        (p.run answer).run s₁ = (.error e, s') := by
  induction ps generalizing s with
  | nil =>
    refine iff_of_false (fun h => by cases h) ?_
    rintro ⟨before, p, after, as, s₁, h, -⟩
    simp at h
  -- the first one fails, or it gives a value and one of the rest fails
  | cons p rest ih =>
    rw [inOrder, run_bind_error_iff]
    simp only [run_bind_pure_error_iff, ih]
    constructor
    · rintro (hp | ⟨a, s₁, hp, before, q, after, as, s₂, rfl, hbefore, hq⟩)
      · exact ⟨[], p, rest, [], _, rfl, .nil _, hp⟩
      · exact ⟨p :: before, q, after, a :: as, s₂, rfl, .cons hp hbefore, hq⟩
    · rintro ⟨before, q, after, as, s₂, heq, hbefore, hq⟩
      cases hbefore with
      | nil => cases heq; exact .inl hq
      | cons first next =>
        obtain ⟨rfl, rfl⟩ := List.cons.inj heq
        exact .inr ⟨_, _, first, _, q, after, _, s₂, rfl, next, hq⟩

/-- Each value is that of a run of its program. -/
theorem GiveInOrder.forall₂ {as : List α} (h : GiveInOrder answer ps s as s') :
    List.Forall₂ (fun p a => ∃ s, ((p.run answer).run s).1 = .ok a) ps as := by
  induction h with
  | nil s => exact .nil
  | cons first _ ih => exact .cons ⟨_, congrArg Prod.fst first⟩ ih

/-- Programs that give a value from every state of the host give values one after the other. -/
theorem exists_giveInOrder {good : Program α → α → Prop}
    (h : ∀ p ∈ ps, ∃ a, good p a ∧ ∀ s, ((p.run answer).run s).1 = .ok a) (s : σ) :
    ∃ as s', GiveInOrder answer ps s as s' ∧ List.Forall₂ good ps as := by
  induction ps generalizing s with
  | nil => exact ⟨[], s, .nil s, .nil⟩
  | cons p rest ih =>
    obtain ⟨⟨a, hgood, hp⟩, hrest⟩ := List.forall_mem_cons.mp h
    obtain ⟨as, s', hnext, hothers⟩ := ih hrest ((p.run answer).run s).2
    exact ⟨a :: as, s', .cons (Prod.ext (hp s) rfl) hnext, .cons hgood hothers⟩

end Conform.Program
