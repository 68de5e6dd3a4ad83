import Conform.Proofs.Program.Outcome

/-!
# Runs of programs

What a run with a host comes to, and when two programs run alike: they end alike, and the host is
left in the same state. Under a host that keeps a log (`logged`) the state tells which requests
were put and in which order. If the replies do not depend on the state, neither do the results
(`Stateless.run_eq`).
-/

namespace Conform

/-- A failure without what was asked of the value. -/
def CastError.forgetExpected : CastError → CastError
  | .coercion e => .coercion { e with expected := "" }
  | e => e

variable {σ : Type} {answer : (request : Request) → StateM σ request.Reply}

/-- A host that logs the requests that are put to it. -/
def logged (answer : (request : Request) → StateM σ request.Reply) (request : Request) :
    StateM (σ × List Request) request.Reply := do
  let (s, log) ← get
  let (reply, s') := (answer request).run s
  set (s', log ++ [request])
  pure reply

namespace Program

variable {α β : Type} {s : σ}

/-- A sequence runs its second part from the state that the first has left. -/
theorem run_bind (p : Program α) (f : α → Program β) (s : σ) :
    ((p >>= f).run answer).run s = match (p.run answer).run s with
      | (.ok a, s') => ((f a).run answer).run s'
      | (.error e, s') => (.error e, s') := by
  show ((p.bind f).run answer).run s = _
  -- each reply leaves another state, from which the rest is run
  induction p generalizing s with
  | done result => cases result <;> rfl
  | ask unions request resume ih => exact ih _ _
  | raise unions e next ih => exact ih s

/-- A run that ends well has gone through the first program. -/
theorem run_bind_ok {p : Program α} {f : α → Program β} {b : β} {s' : σ}
    (h : ((p >>= f).run answer).run s = (.ok b, s')) :
    ∃ a s₁, (p.run answer).run s = (.ok a, s₁) ∧ ((f a).run answer).run s₁ = (.ok b, s') := by
  rw [run_bind] at h
  generalize (p.run answer).run s = first at h ⊢
  obtain ⟨result, s₁⟩ := first
  cases result with
  | ok a => exact ⟨a, s₁, rfl, h⟩
  | error e => cases h

/-- The replies of the host do not depend on its state. -/
def Stateless (answer : (request : Request) → StateM σ request.Reply) : Prop :=
  ∀ request s s', ((answer request).run s).1 = ((answer request).run s').1

/-- From whatever state, a program comes to the same result with such a host. -/
theorem Stateless.run_eq (h : Stateless answer) (p : Program α) (s s' : σ) :
    ((p.run answer).run s).1 = ((p.run answer).run s').1 := by
  induction p generalizing s s' with
  | done result => rfl
  | ask unions request resume ih =>
    -- the first replies are the same, so that the programs behind them are
    have hnext : ∀ s, ((ask unions request resume).run answer).run s =
        ((resume ((answer request).run s).1).run answer).run ((answer request).run s).2 :=
      fun s => rfl
    rw [hnext, hnext, h request s s']
    exact ih _ _ _
  | raise unions e next ih => exact ih s s'

/-- A log does not change a run, and the run adds to the log. -/
theorem run_logged (p : Program α) (s : σ) (log : List Request) :
    ∃ calls, (p.run (logged answer)).run (s, log) =
      (((p.run answer).run s).1, ((p.run answer).run s).2, log ++ calls) := by
  induction p generalizing s log with
  | done result => exact ⟨[], by rw [List.append_nil]; rfl⟩
  | ask unions request resume ih =>
    -- the request is logged first, and what the rest puts follows it
    obtain ⟨calls, h⟩ := ih ((answer request).run s).1 ((answer request).run s).2 (log ++ [request])
    refine ⟨request :: calls, ?_⟩
    rw [List.append_cons]
    exact h
  | raise unions e next ih => exact ih s log

/-- Two programs run alike from a state of the host. -/
structure RunAlike (answer : (request : Request) → StateM σ request.Reply) (s : σ)
    (p q : Program α) : Prop where
  result : ((p.run answer).run s).1.mapError CastError.forgetExpected =
    ((q.run answer).run s).1.mapError CastError.forgetExpected
  state : ((p.run answer).run s).2 = ((q.run answer).run s).2

/-- A program runs like itself. -/
theorem RunAlike.refl (p : Program α) : RunAlike answer s p p := ⟨rfl, rfl⟩

/-- Programs that run alike, and go on alike from what the first gives, run alike as a whole. -/
theorem RunAlike.bind {p q : Program α} {f g : α → Program β} (hp : RunAlike answer s p q)
    (h : ∀ a s', (p.run answer).run s = (.ok a, s') → RunAlike answer s' (f a) (g a)) :
    RunAlike answer s (p >>= f) (q >>= g) := by
  have hf : ((p >>= f).run answer).run s = _ := run_bind p f s
  have hg : ((q >>= g).run answer).run s = _ := run_bind q g s
  obtain ⟨hresult, hstate⟩ := hp
  -- only what the two first programs come to matters from here
  generalize (p.run answer).run s = left at hf h hresult hstate
  generalize (q.run answer).run s = right at hg hresult hstate
  obtain ⟨result, s'⟩ := left
  obtain ⟨result', s''⟩ := right
  cases hstate
  -- forgetting what was expected keeps apart values, failures, and a value from a failure
  cases result with
  | ok a =>
    cases result' with
    | ok b =>
      cases hresult
      have halike : RunAlike answer s' (f a) (g a) := h a s' rfl
      constructor
      · rw [hf, hg]; exact halike.result
      · rw [hf, hg]; exact halike.state
    | error e => cases hresult
  | error e =>
    cases result' with
    | ok b => cases hresult
    | error e' =>
      constructor
      · rw [hf, hg]
        have herror : e.forgetExpected = e'.forgetExpected := Except.error.inj hresult
        exact congrArg Except.error herror
      · rw [hf, hg]

end Program

end Conform
