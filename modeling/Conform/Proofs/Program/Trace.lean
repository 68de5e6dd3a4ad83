import Conform.Proofs.Program.Run

/-!
# What happens in a run

A trace lists what happens when a program is carried out: the requests with the replies of the
host, and the failures that the cast raises itself, each with the number of unions that are open
around it. `Program.Ends` says which traces and outcomes a program has, whatever the host replies,
and `Program.exists_ends_of_run` that a run with a host goes through one of them.

`Program.Orderly` says of all traces of a program that a failure ends it unless an open union
catches it, and that nothing else happens than what may happen. There is one rule for each way of
making a program. Only the alternatives of a union go on behind a failure
(`Program.Orderly.inUnion_orElse`).
-/

namespace Conform

/-- The failure of a host function. -/
def Request.failure? : (request : Request) → request.Reply → Option CastError
  | .convert .., .error e => some e
  | .call .., .error e => some (.ofHost e)
  | _, _ => none

/-- Something that happens in a run. -/
inductive Occurrence
  | asked (unions : Nat) (request : Request) (reply : request.Reply)
  | raised (unions : Nat) (e : CastError)

namespace Occurrence

/-- How many unions are open. -/
def unions : Occurrence → Nat
  | asked unions _ _ => unions
  | raised unions _ => unions

/-- What the host is asked. -/
def request? : Occurrence → Option Request
  | asked _ request _ => some request
  | raised .. => none

/-- The failure of the host, or that of the cast itself. -/
def failure? : Occurrence → Option CastError
  | asked _ request reply => request.failure? reply
  | raised _ e => some e

/-- The same in an alternative of a union. -/
def inUnion : Occurrence → Occurrence
  | asked unions request reply => asked (unions + 1) request reply
  | raised unions e => raised (unions + 1) e

/-- The failure if no open union catches it. A union catches refused values only. -/
def Uncaught (x : Occurrence) (e : CastError) : Prop :=
  x.failure? = some e ∧ (e.isCoercion = false ∨ x.unions = 0)

/-- A union does not change a failure. -/
theorem failure?_inUnion (x : Occurrence) : x.inUnion.failure? = x.failure? := by
  cases x <;> rfl

/-- One more union is open in an alternative. -/
theorem unions_inUnion (x : Occurrence) : x.inUnion.unions = x.unions + 1 := by
  cases x <;> rfl

/-- An open union lets pass whatever is not a refusal. -/
theorem uncaught_inUnion {x : Occurrence} {e : CastError} :
    x.inUnion.Uncaught e ↔ x.failure? = some e ∧ e.isCoercion = false := by
  rw [Uncaught, failure?_inUnion, unions_inUnion]
  constructor
  · rintro ⟨hfailure, hcoercion | hunions⟩
    · exact ⟨hfailure, hcoercion⟩
    · omega
  · exact fun ⟨hfailure, hcoercion⟩ => ⟨hfailure, .inl hcoercion⟩

/-- What is raised in an alternative of a union is raised there. -/
theorem eq_raised_of_inUnion {x : Occurrence} {unions : Nat} {e : CastError}
    (h : x.inUnion = .raised unions e) : ∃ unions', x = .raised unions' e := by
  cases x with
  | asked => cases h
  | raised unions' e' => cases h; exact ⟨unions', rfl⟩

end Occurrence

/-- The replies in a trace are those that a host gives in turn, from a state on. -/
def RepliesFrom {σ : Type} (answer : (request : Request) → StateM σ request.Reply) :
    σ → List Occurrence → Prop
  | _, [] => True
  | s, .asked _ request reply :: rest =>
    ((answer request).run s).1 = reply ∧ RepliesFrom answer ((answer request).run s).2 rest
  | s, .raised .. :: rest => RepliesFrom answer s rest

namespace Program

variable {α β : Type}

/-- The program can go through this trace to this outcome. -/
def Ends : Program α → List Occurrence → Except CastError α → Prop
  | done found, t, r => t = [] ∧ found = r
  | ask unions request resume, t, r =>
    ∃ reply rest, t = .asked unions request reply :: rest ∧ (resume reply).Ends rest r
  | raise unions e next, t, r => ∃ rest, t = .raised unions e :: rest ∧ next.Ends rest r

/-- A run with a host goes through a trace with the replies of this host. Its requests are those
    that the host is asked, in this order. -/
theorem exists_ends_of_run {σ : Type} (answer : (request : Request) → StateM σ request.Reply)
    (p : Program α) (s : σ) (log : List Request) :
    ∃ t, p.Ends t ((p.run answer).run s).1 ∧ RepliesFrom answer s t ∧
      ((p.run (logged answer)).run (s, log)).2.2 = log ++ t.filterMap Occurrence.request? := by
  -- along the program, with the reply that the host gives in its state
  induction p generalizing s log with
  | done result => exact ⟨[], ⟨rfl, rfl⟩, trivial, (List.append_nil log).symm⟩
  | ask unions request resume ih =>
    obtain ⟨t, hends, hreplies, hlog⟩ :=
      ih ((answer request).run s).1 ((answer request).run s).2 (log ++ [request])
    refine ⟨.asked unions request ((answer request).run s).1 :: t, ⟨_, t, rfl, hends⟩,
      ⟨rfl, hreplies⟩, ?_⟩
    rw [List.append_assoc] at hlog
    exact hlog
  | raise unions e next ih =>
    obtain ⟨t, hends, hreplies, hlog⟩ := ih s log
    exact ⟨.raised unions e :: t, ⟨t, rfl, hends⟩, hreplies, hlog⟩

/-- A program that goes on with another ends with the other, or fails by itself. -/
theorem Ends.of_bind {p : Program α} {f : α → Program β} {t : List Occurrence}
    {r : Except CastError β} (h : (p >>= f).Ends t r) :
    (∃ a t₁ t₂, t = t₁ ++ t₂ ∧ p.Ends t₁ (.ok a) ∧ (f a).Ends t₂ r) ∨
      ∃ e, r = .error e ∧ p.Ends t (.error e) := by
  replace h : (p.bind f).Ends t r := h
  -- what the first program goes through is the front of the trace
  induction p generalizing t with
  | done result =>
    cases result with
    | ok a => exact .inl ⟨a, [], t, rfl, ⟨rfl, rfl⟩, h⟩
    | error e => exact .inr ⟨e, h.2.symm, h.1, rfl⟩
  | ask unions request resume ih =>
    obtain ⟨reply, rest, rfl, h⟩ := h
    obtain ⟨a, t₁, t₂, rfl, hp, hf⟩ | ⟨e, rfl, hp⟩ := ih reply h
    · exact .inl ⟨a, .asked unions request reply :: t₁, t₂, rfl, ⟨reply, t₁, rfl, hp⟩, hf⟩
    · exact .inr ⟨e, rfl, reply, rest, rfl, hp⟩
  | raise unions e next ih =>
    obtain ⟨rest, rfl, h⟩ := h
    obtain ⟨a, t₁, t₂, rfl, hp, hf⟩ | ⟨e', rfl, hp⟩ := ih h
    · exact .inl ⟨a, .raised unions e :: t₁, t₂, rfl, ⟨t₁, rfl, hp⟩, hf⟩
    · exact .inr ⟨e', rfl, rest, rfl, hp⟩

/-- An alternative goes through what it goes through by itself, with one more union open. -/
theorem Ends.of_inUnion {p : Program α} {t : List Occurrence} {r : Except CastError α}
    (h : p.inUnion.Ends t r) : ∃ t', t = t'.map .inUnion ∧ p.Ends t' r := by
  -- every occurrence counts one union more
  induction p generalizing t with
  | done result =>
    obtain ⟨rfl, rfl⟩ := h
    exact ⟨[], rfl, rfl, rfl⟩
  | ask unions request resume ih =>
    obtain ⟨reply, rest, rfl, h⟩ := h
    obtain ⟨t', rfl, hp⟩ := ih reply h
    exact ⟨.asked unions request reply :: t', rfl, reply, t', rfl, hp⟩
  | raise unions e next ih =>
    obtain ⟨rest, rfl, h⟩ := h
    obtain ⟨t', rfl, hp⟩ := ih h
    exact ⟨.raised unions e :: t', rfl, t', rfl, hp⟩

/-- A program ends the whole, unless it refuses the value. -/
theorem Ends.of_orElse {p : Program α} {other : Unit → Program α} {t : List Occurrence}
    {r : Except CastError α} (h : (p.orElse other).Ends t r) :
    (∃ e t₁ t₂, t = t₁ ++ t₂ ∧ p.Ends t₁ (.error (.coercion e)) ∧ (other ()).Ends t₂ r) ∨
      p.Ends t r := by
  -- along the program: what happens first stays first
  induction p generalizing t with
  | done result =>
    cases result with
    | ok a => exact .inr h
    | error e =>
      cases e with
      -- only a refusal is caught
      | coercion e => exact .inl ⟨e, [], t, rfl, ⟨rfl, rfl⟩, h⟩
      | config | lookup | host => exact .inr h
  | ask unions request resume ih =>
    obtain ⟨reply, rest, rfl, h⟩ := h
    obtain ⟨e, t₁, t₂, rfl, hp, hother⟩ | hp := ih reply h
    · exact .inl ⟨e, .asked unions request reply :: t₁, t₂, rfl, ⟨reply, t₁, rfl, hp⟩, hother⟩
    · exact .inr ⟨reply, rest, rfl, hp⟩
  | raise unions e next ih =>
    obtain ⟨rest, rfl, h⟩ := h
    obtain ⟨e', t₁, t₂, rfl, hp, hother⟩ | hp := ih h
    · exact .inl ⟨e', .raised unions e :: t₁, t₂, rfl, ⟨t₁, rfl, hp⟩, hother⟩
    · exact .inr ⟨rest, rfl, hp⟩

/-! ## Where a program ends -/

/-- The failure in an outcome. -/
def failureOf : Except CastError α → Option CastError
  | .ok _ => none
  | .error e => some e

/-- Only an error has a failure. -/
theorem failureOf_eq_some {r : Except CastError α} {e : CastError} (h : failureOf r = some e) :
    r = .error e := by
  cases r with
  | ok a => cases h
  | error e' => cases h; rfl

/-- How failures relate a trace, in which only certain things may happen, to its outcome. -/
structure Abides (may : Occurrence → Prop) (t : List Occurrence) (r : Except CastError α) :
    Prop where
  /-- A failure that is not caught is the last thing that happens, and the outcome. -/
  stops : ∀ before x after e, t = before ++ x :: after → x.Uncaught e → after = [] ∧ r = .error e
  /-- An outcome that is a failure is that of the last thing that happened. -/
  last : ∀ e, r = .error e → ∃ before x, t = before ++ [x] ∧ x.failure? = some e
  /-- No failure is raised in the name of the host. -/
  own : ∀ unions message, .raised unions (.host message) ∉ t
  /-- Nothing else happens than what may happen. -/
  admitted : ∀ x ∈ t, may x

/-- Something in a trace of two parts lies in one of them. -/
private theorem split_of_append {t₁ t₂ before after : List Occurrence} {x : Occurrence}
    (h : t₁ ++ t₂ = before ++ x :: after) : x ∈ t₁ ∨ ∃ first, t₂ = first ++ x :: after := by
  obtain ⟨first, -, hfirst⟩ | ⟨rest, hrest, hafter⟩ := List.append_eq_append_iff.mp h
  · exact .inr ⟨first, hfirst⟩
  · -- `x` comes first in the second part if nothing of the first is left
    cases rest with
    | nil => exact .inr ⟨[], hafter.symm⟩
    | cons y rest =>
      cases hafter
      exact .inl (hrest ▸ List.mem_append_right before List.mem_cons_self)

/-- Something in the trace of an alternative is something that happens there by itself. -/
private theorem split_of_map {t before after : List Occurrence} {x : Occurrence}
    (h : t.map .inUnion = before ++ x :: after) :
    ∃ before' y after', t = before' ++ y :: after' ∧ y.inUnion = x ∧
      after'.map .inUnion = after := by
  obtain ⟨before', last, rfl, -, hlast⟩ := List.map_eq_append_iff.mp h
  obtain ⟨y, after', rfl, hy, hafter⟩ := List.map_eq_cons_iff.mp hlast
  exact ⟨before', y, after', rfl, hy, hafter⟩

namespace Abides

variable {may may' : Occurrence → Prop} {t t₁ t₂ : List Occurrence} {r : Except CastError α}

/-- More may be let happen. -/
theorem mono (h : Abides may t r) (himp : ∀ x, may x → may' x) : Abides may' t r :=
  ⟨h.stops, h.last, h.own, fun x hx => himp x (h.admitted x hx)⟩

/-- Nothing has stopped a program that gives a value. -/
theorem not_uncaught {a : α} (h : Abides may t (.ok a : Except CastError α)) {x : Occurrence}
    (hx : x ∈ t) (e : CastError) : ¬ x.Uncaught e := by
  intro huncaught
  obtain ⟨before, after, rfl⟩ := List.append_of_mem hx
  cases (h.stops before x after e rfl huncaught).2

/-- What follows decides, if nothing has stopped the program before. -/
theorem append {r₁ : Except CastError β} (h₁ : Abides may t₁ r₁)
    (hpassed : ∀ x ∈ t₁, ∀ e, ¬ x.Uncaught e) (h₂ : Abides may t₂ r) :
    Abides may (t₁ ++ t₂) r where
  stops := by
    intro before x after e ht hx
    -- what is not caught did not happen in the first part
    obtain hmem | ⟨first, hfirst⟩ := split_of_append ht
    · exact absurd hx (hpassed x hmem e)
    · exact h₂.stops first x after e hfirst hx
  last := by
    intro e hr
    obtain ⟨before, x, rfl, hx⟩ := h₂.last e hr
    exact ⟨t₁ ++ before, x, (List.append_assoc ..).symm, hx⟩
  own := by
    intro unions message hmem
    cases List.mem_append.mp hmem with
    | inl h => exact h₁.own unions message h
    | inr h => exact h₂.own unions message h
  admitted := by
    intro x hmem
    cases List.mem_append.mp hmem with
    | inl h => exact h₁.admitted x h
    | inr h => exact h₂.admitted x h

/-- A failure is passed on by what would have followed. -/
theorem error {e : CastError} (h : Abides may t (.error e : Except CastError β)) :
    Abides may t (.error e : Except CastError α) where
  stops := by
    intro before x after e' ht hx
    obtain ⟨hafter, he⟩ := h.stops before x after e' ht hx
    cases he
    exact ⟨hafter, rfl⟩
  last := by
    intro e' he
    cases he
    exact h.last e rfl
  own := h.own
  admitted := h.admitted

/-- An alternative ends its union as it would end by itself. -/
theorem inUnion (h : Abides (fun x => may x.inUnion) t r) : Abides may (t.map .inUnion) r where
  stops := by
    intro before x after e ht hx
    obtain ⟨before', y, after', hy, rfl, rfl⟩ := split_of_map ht
    -- what passes the open union was not caught in the alternative either
    obtain ⟨hfailure, hcoercion⟩ := Occurrence.uncaught_inUnion.mp hx
    have huncaught : y.Uncaught e := ⟨hfailure, .inl hcoercion⟩
    obtain ⟨rfl, he⟩ := h.stops before' y after' e hy huncaught
    exact ⟨rfl, he⟩
  last := by
    intro e he
    obtain ⟨before, x, rfl, hx⟩ := h.last e he
    refine ⟨before.map .inUnion, x.inUnion, by rw [List.map_append]; rfl, ?_⟩
    rw [Occurrence.failure?_inUnion]
    exact hx
  own := by
    intro unions message hmem
    obtain ⟨y, hy, heq⟩ := List.mem_map.mp hmem
    obtain ⟨unions', rfl⟩ := Occurrence.eq_raised_of_inUnion heq
    exact h.own unions' message hy
  admitted := by
    intro x hmem
    obtain ⟨y, hy, rfl⟩ := List.mem_map.mp hmem
    exact h.admitted y hy

/-- A union catches whatever has happened in an alternative that refuses the value. -/
theorem not_uncaught_inUnion {e : CoercionError}
    (h : Abides may t (.error (.coercion e) : Except CastError α)) {x : Occurrence}
    (hx : x ∈ t.map .inUnion) (e' : CastError) : ¬ x.Uncaught e' := by
  intro huncaught
  obtain ⟨y, hy, rfl⟩ := List.mem_map.mp hx
  obtain ⟨hfailure, hcoercion⟩ := Occurrence.uncaught_inUnion.mp huncaught
  obtain ⟨before, after, rfl⟩ := List.append_of_mem hy
  -- a failure that passes the union would have been the outcome of the alternative
  cases (h.stops before y after e' rfl ⟨hfailure, .inl hcoercion⟩).2
  cases hcoercion

/-- Nothing happens, and a value is given. -/
theorem nil {a : α} : Abides may [] (.ok a : Except CastError α) where
  stops := fun before x after e ht _ => by cases before <;> cases ht
  last := fun e he => by cases he
  own := fun _ _ h => absurd h List.not_mem_nil
  admitted := fun _ h => absurd h List.not_mem_nil

/-- One thing happens, and its failure is the outcome. -/
theorem singleton {x : Occurrence} (hmay : may x) (hfailure : x.failure? = failureOf r)
    (hown : ∀ unions message, x ≠ .raised unions (.host message)) : Abides may [x] r where
  stops := by
    intro before y after e ht hy
    cases before with
    | nil =>
      cases ht
      refine ⟨rfl, failureOf_eq_some ?_⟩
      rw [← hfailure]
      exact hy.1
    -- there is nothing before the only occurrence
    | cons z before => cases before <;> cases ht
  last := by
    intro e hr
    subst hr
    exact ⟨[], x, rfl, hfailure⟩
  own := fun unions message h => hown unions message (List.mem_singleton.mp h).symm
  admitted := fun y h => List.mem_singleton.mp h ▸ hmay

end Abides

/-! ## Making orderly programs -/

/-- Whatever the host replies, the program abides by its failures, and only what may happen
    happens. -/
def Orderly (may : Occurrence → Prop) (p : Program α) : Prop :=
  ∀ t r, p.Ends t r → Abides may t r

section Orderly

variable {may may' : Occurrence → Prop} {p : Program α}

/-- More may happen than does. -/
theorem Orderly.mono (h : p.Orderly may) (himp : ∀ x, may x → may' x) : p.Orderly may' :=
  fun t r hends => (h t r hends).mono himp

/-- Nothing happens. -/
theorem orderly_pure (a : α) : (pure a : Program α).Orderly may := by
  rintro t r ⟨rfl, rfl⟩
  exact .nil

/-- A program that fails by itself does not fail in the name of the host. -/
theorem orderly_throw {e : CastError} (hmay : may (.raised 0 e))
    (hown : ∀ message, e ≠ .host message) : (throw e : Program α).Orderly may := by
  rintro t r ⟨rest, rfl, rfl, rfl⟩
  refine .singleton hmay rfl fun unions message h => ?_
  cases h
  exact hown message rfl

/-- One conversion; its error is the last thing that happens. -/
theorem orderly_convert {c : Converter} {v : Value}
    (hmay : ∀ reply, may (.asked 0 (.convert c v) reply)) : (convert c v).Orderly may := by
  rintro t r ⟨reply, rest, rfl, rfl, rfl⟩
  cases reply with
  | ok w => exact .singleton (hmay _) rfl nofun
  | error e => exact .singleton (hmay _) rfl nofun

/-- One call; its error is the last thing that happens. -/
theorem orderly_call {c : Callable} {args : List Value} {kwargs : List (String × Value)}
    (hmay : ∀ reply, may (.asked 0 (.call c args kwargs) reply)) :
    (call c args kwargs).Orderly may := by
  rintro t r ⟨reply, rest, rfl, rfl, rfl⟩
  cases reply with
  | ok w => exact .singleton (hmay _) rfl nofun
  | error e => exact .singleton (hmay _) rfl nofun

/-- A factory does not fail. -/
theorem orderly_produce {d : Default}
    (hmay : ∀ f, d = .factory f → ∀ reply, may (.asked 0 (.produce f) reply)) :
    (produce d).Orderly may := by
  intro t r hends
  cases d with
  | value v =>
    obtain ⟨rfl, rfl⟩ := hends
    exact .nil
  | factory f =>
    obtain ⟨reply, rest, rfl, rfl, rfl⟩ := hends
    exact .singleton (hmay f rfl reply) rfl nofun

/-- A failure of the first program is that of the whole. -/
theorem Orderly.bind {f : α → Program β} (hp : p.Orderly may) (hf : ∀ a, (f a).Orderly may) :
    (p >>= f).Orderly may := by
  intro t r hends
  obtain ⟨a, t₁, t₂, rfl, hfirst, hnext⟩ | ⟨e, rfl, hfirst⟩ := hends.of_bind
  · have hvalue := hp t₁ _ hfirst
    exact hvalue.append (fun x => hvalue.not_uncaught) (hf a t₂ r hnext)
  · exact (hp t _ hfirst).error

/-- An alternative that refuses the value leaves it to the others, whatever has happened in it. -/
theorem Orderly.inUnion_orElse {other : Unit → Program α}
    (hp : p.Orderly fun x => may x.inUnion) (hother : (other ()).Orderly may) :
    (p.inUnion.orElse other).Orderly may := by
  intro t r hends
  obtain ⟨e, t₁, t₂, rfl, hfirst, hnext⟩ | hfirst := hends.of_orElse
  · obtain ⟨t', rfl, halone⟩ := hfirst.of_inUnion
    have hrefused := hp t' _ halone
    exact hrefused.inUnion.append (fun x => hrefused.not_uncaught_inUnion) (hother t₂ r hnext)
  · obtain ⟨t', rfl, halone⟩ := hfirst.of_inUnion
    exact (hp t' r halone).inUnion

end Orderly

end Program

end Conform
