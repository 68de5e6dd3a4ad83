import Conform.Proofs.Program.Run

/-!
# Programs that do the same until they are cut off

`Program.Follows` relates two programs that put the same requests and mark the same failures. The
second may mark more, and the first may be cut off: it fails where the second only marks something
and goes on. Such programs run alike, or the run of the first is the beginning of that of the second
(`Follows.run_logged`). There is one rule for each way of making a program; that for `orElse` is
about programs that are not cut off, as a union would go on with its next alternative.
-/

namespace Conform.Program

variable {α β : Type} {replies : Replies} {good good' : α → Prop} {fits : CastError → Prop}
  {cuts : CastError → CastError → Prop}

/-- The first program does what the second does. Up to where it is cut off, every mark `fits` and
    every value is `good`; `cuts` relates the failure with which it is cut off to the mark of the
    second. -/
inductive Follows (replies : Replies) (good : α → Prop) (fits : CastError → Prop)
    (cuts : CastError → CastError → Prop) : Program α → Program α → Prop
  | pure {a : α} (value : good a) : Follows replies good fits cuts (done (.ok a)) (done (.ok a))
  | fail (e : CastError) : Follows replies good fits cuts (done (.error e)) (done (.error e))
  | ask {unions : Nat} {request : Request} {p q : request.Reply → Program α}
      (next : ∀ reply, replies request reply → Follows replies good fits cuts (p reply) (q reply)) :
      Follows replies good fits cuts (ask unions request p) (ask unions request q)
  | raise {unions : Nat} {e : CastError} {p q : Program α} (fit : fits e)
      (next : Follows replies good fits cuts p q) :
      Follows replies good fits cuts (raise unions e p) (raise unions e q)
  /-- Only the second marks something. -/
  | mark {unions : Nat} {e : CastError} {p q : Program α} (fit : fits e)
      (next : Follows replies good fits cuts p q) :
      Follows replies good fits cuts p (raise unions e q)
  /-- The first fails, whatever the second goes on with. -/
  | cut {e e' : CastError} {q : Program α} (reached : cuts e e') :
      Follows replies good fits cuts (throw e) (raise 0 e' q)

namespace Follows

/-! ## Rules -/

/-- A program that raises a fitting error follows itself. -/
theorem throw {e : CastError} (h : fits e) :
    Follows replies good fits cuts (Program.throw e) (Program.throw e) :=
  .raise h (.fail e)

/-- A conversion follows itself, and gives what may be replied. -/
theorem convert {c : Converter} {v : Value} {good : Value → Prop}
    (h : ∀ w, replies (.convert c v) (.ok w) → good w) :
    Follows replies good fits cuts (Program.convert c v) (Program.convert c v) := by
  refine .ask fun reply hreply => ?_
  cases reply with
  | ok w => exact .pure (h w hreply)
  | error e => exact .fail e

/-- A call follows itself. -/
theorem call (c : Callable) (args : List Value) (kwargs : List (String × Value)) :
    Follows replies (fun _ => True) fits cuts (Program.call c args kwargs)
      (Program.call c args kwargs) := by
  refine .ask fun reply _ => ?_
  cases reply with
  | ok w => exact .pure trivial
  | error e => exact .fail _

/-- A default follows itself. -/
theorem produce (d : Default) :
    Follows replies (fun _ => True) fits cuts (Program.produce d) (Program.produce d) := by
  cases d with
  | value v => exact .pure trivial
  | factory f => exact .ask fun _ _ => .pure trivial

variable {p q : Program α}

/-- What is known of the value may be weakened. -/
theorem mono (h : Follows replies good fits cuts p q) (hgood : ∀ a, good a → good' a) :
    Follows replies good' fits cuts p q := by
  induction h with
  | pure value => exact .pure (hgood _ value)
  | fail e => exact .fail e
  | ask _ ih => exact .ask ih
  | raise fit _ ih => exact .raise fit ih
  | mark fit _ ih => exact .mark fit ih
  | cut reached => exact .cut reached

/-- Nothing follows where the first program is cut off. -/
theorem bind {f g : α → Program β} {good' : β → Prop} (h : Follows replies good fits cuts p q)
    (hf : ∀ a, good a → Follows replies good' fits cuts (f a) (g a)) :
    Follows replies good' fits cuts (p >>= f) (q >>= g) := by
  show Follows replies good' fits cuts (p.bind f) (q.bind g)
  induction h with
  | pure value => exact hf _ value
  | fail e => exact .fail e
  | ask _ ih => exact .ask ih
  | raise fit _ ih => exact .raise fit ih
  | mark fit _ ih => exact .mark fit ih
  | cut reached => exact .cut reached

/-- An open union is marked on both sides alike. -/
theorem inUnion (hcuts : ∀ e e', ¬ cuts e e') (h : Follows replies good fits cuts p q) :
    Follows replies good fits cuts p.inUnion q.inUnion := by
  induction h with
  | pure value => exact .pure value
  | fail e => exact .fail e
  | ask _ ih => exact .ask ih
  | raise fit _ ih => exact .raise fit ih
  | mark fit _ ih => exact .mark fit ih
  | cut reached => exact absurd reached (hcuts _ _)

/-- Where nothing is cut off, the refusal of one is the refusal of the other. -/
theorem orElse {other other' : Unit → Program α} (hcuts : ∀ e e', ¬ cuts e e')
    (h : Follows replies good fits cuts p q)
    (hother : Follows replies good fits cuts (other ()) (other' ())) :
    Follows replies good fits cuts (p.orElse other) (q.orElse other') := by
  induction h with
  | pure value => exact .pure value
  | fail e =>
    -- of the failures only a refusal lets the other programs go on
    cases e with
    | coercion e => exact hother
    | config e => exact .fail _
    | lookup e => exact .fail _
    | host message => exact .fail _
  | ask _ ih => exact .ask ih
  | raise fit _ ih => exact .raise fit ih
  | mark fit _ ih => exact .mark fit ih
  | cut reached => exact absurd reached (hcuts _ _)

end Follows

/-! ## Runs -/

variable {σ : Type} {answer : (request : Request) → StateM σ request.Reply}

/-- The marks that a run comes by, from a state of the host. -/
def raised (answer : (request : Request) → StateM σ request.Reply) :
    Program α → σ → List CastError
  | done _, _ => []
  | ask _ request resume, s =>
    (resume ((answer request).run s).1).raised answer ((answer request).run s).2
  | raise _ e next, s => e :: next.raised answer s

namespace Follows

variable {p q : Program α}

/-- The two run alike, or the first is cut off at a mark of the second, having put the first of the
    requests that the second puts. -/
theorem run_logged (hanswer : ∀ request s, replies request ((answer request).run s).1)
    (h : Follows replies good fits cuts p q) (s : σ) (log : List Request) :
    (p.run (logged answer)).run (s, log) = (q.run (logged answer)).run (s, log) ∨
      ∃ e e', cuts e e' ∧ e' ∈ q.raised answer s ∧
        ((p.run (logged answer)).run (s, log)).1 = .error e ∧
        ((p.run (logged answer)).run (s, log)).2.2 <+:
          ((q.run (logged answer)).run (s, log)).2.2 := by
  induction h generalizing s log with
  | pure value => exact .inl rfl
  | fail e => exact .inl rfl
  | @ask unions request p q _ ih =>
    -- both go on with the reply, in the state that it leaves
    exact ih _ (hanswer request s) ((answer request).run s).2 (log ++ [request])
  | @raise unions e p q _ _ ih =>
    obtain heq | ⟨e₁, e', hcut, hmem, hrun⟩ := ih s log
    · exact .inl heq
    · exact .inr ⟨e₁, e', hcut, List.mem_cons_of_mem e hmem, hrun⟩
  | @mark unions e p q _ _ ih =>
    obtain heq | ⟨e₁, e', hcut, hmem, hrun⟩ := ih s log
    · exact .inl heq
    · exact .inr ⟨e₁, e', hcut, List.mem_cons_of_mem e hmem, hrun⟩
  | @cut e e' q reached =>
    -- what is asked after the cut is only added behind the log
    obtain ⟨calls, hq⟩ := @Program.run_logged _ answer _ (Program.raise 0 e' q) s log
    refine .inr ⟨e, e', reached, List.mem_cons_self, rfl, ?_⟩
    rw [hq]
    exact List.prefix_append log calls

/-- Without cuts the first marks nothing that the second does not mark. -/
theorem raised_sublist (hanswer : ∀ request s, replies request ((answer request).run s).1)
    (hcuts : ∀ e e', ¬ cuts e e') (h : Follows replies good fits cuts p q) (s : σ) :
    (p.raised answer s).Sublist (q.raised answer s) := by
  induction h generalizing s with
  | pure | fail => exact List.nil_sublist _
  | ask _ ih => exact ih _ (hanswer _ s) _
  | raise _ _ ih => exact (ih s).cons_cons _
  | mark _ _ ih => exact (ih s).cons _
  | cut reached => exact absurd reached (hcuts _ _)

/-- Without cuts everything that the second marks fits. -/
theorem raised_fits (hanswer : ∀ request s, replies request ((answer request).run s).1)
    (hcuts : ∀ e e', ¬ cuts e e') (h : Follows replies good fits cuts p q) (s : σ) :
    ∀ e ∈ q.raised answer s, fits e := by
  induction h generalizing s with
  | pure | fail => exact fun _ he => absurd he List.not_mem_nil
  | ask _ ih => exact ih _ (hanswer _ s) _
  | raise fit _ ih | mark fit _ ih => exact List.forall_mem_cons.mpr ⟨fit, ih s⟩
  | cut reached => exact absurd reached (hcuts _ _)

end Follows

end Conform.Program
