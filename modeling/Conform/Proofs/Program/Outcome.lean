import Conform.Program

/-!
# Outcomes of programs

`Program.Yields` says what a program comes to whatever the host replies, within the replies that a
host may give: a value that is good, or a failure that is admitted. There is one rule for each way
of making a program, and `Yields.run` carries the statement over to a run with a host that keeps
state, which always ends. `Program.CanEnd` says of one result that some replies lead to it, and
`Program.SettlesTo` that the program comes to it without the host.
-/

namespace Conform

/-- Which replies a host may give to a request. -/
abbrev Replies := (request : Request) → request.Reply → Prop

/-- The replies that a host gives in some state. -/
def Replies.ofHost {σ : Type} (answer : (request : Request) → StateM σ request.Reply) : Replies :=
  fun request reply => ∃ s, ((answer request).run s).1 = reply

/-- What a host replies in some state it may reply. -/
theorem Replies.ofHost_run {σ : Type} (answer : (request : Request) → StateM σ request.Reply)
    (request : Request) (s : σ) : ofHost answer request ((answer request).run s).1 :=
  ⟨s, rfl⟩

namespace Program

variable {α β : Type} {replies : Replies} {good good' : α → Prop} {bad bad' : CastError → Prop}

/-- Whatever the host replies, the program ends with a value that is `good` or with a failure that
    is `bad`. -/
def Yields (replies : Replies) (good : α → Prop) (bad : CastError → Prop) : Program α → Prop
  | done (.ok a) => good a
  | done (.error e) => bad e
  | ask _ request resume => ∀ reply, replies request reply → (resume reply).Yields replies good bad
  | raise _ _ next => next.Yields replies good bad

/-- Some replies of the host lead to this result. -/
def CanEnd (replies : Replies) (result : Except CastError α) : Program α → Prop
  | done found => found = result
  | ask _ request resume => ∃ reply, replies request reply ∧ (resume reply).CanEnd replies result
  | raise _ _ next => next.CanEnd replies result

/-- A value is what it yields. -/
theorem yields_pure {a : α} (h : good a) : (pure a : Program α).Yields replies good bad := h

/-- Every program yields something. -/
theorem yields_any (p : Program α) : p.Yields replies (fun _ => True) (fun _ => True) := by
  induction p with
  | done result => cases result <;> trivial
  | ask unions request resume ih => exact fun reply _ => ih reply
  | raise unions e next ih => exact ih

/-- A default is the value that is given or one that the host makes. -/
theorem yields_produce {d : Default} {good : Value → Prop}
    (hvalue : ∀ v, d = .value v → good v)
    (hmade : ∀ f v, d = .factory f → replies (.produce f) v → good v) :
    (produce d).Yields replies good bad := by
  cases d with
  | value v => exact hvalue v rfl
  | factory f => exact fun v hv => hmade f v rfl hv

/-- Less may be said of the values and of the failures. -/
theorem Yields.mono {p : Program α} (h : p.Yields replies good bad)
    (hgood : ∀ a, good a → good' a) (hbad : ∀ e, bad e → bad' e) :
    p.Yields replies good' bad' := by
  induction p with
  | done result =>
    cases result with
    | ok a => exact hgood a h
    | error e => exact hbad e h
  | ask unions request resume ih => exact fun reply hreply => ih reply (h reply hreply)
  | raise unions e next ih => exact ih h

/-- Conditions on the value may be weakened. -/
theorem Yields.imp {p : Program α} (h : p.Yields replies good bad)
    (hgood : ∀ a, good a → good' a) : p.Yields replies good' bad :=
  h.mono hgood fun _ he => he

/-- What follows a program may rely on what the program yields. -/
theorem Yields.bind {p : Program α} {f : α → Program β} {good' : β → Prop}
    (hp : p.Yields replies good bad) (hf : ∀ a, good a → (f a).Yields replies good' bad) :
    (p >>= f).Yields replies good' bad := by
  show (p.bind f).Yields replies good' bad
  -- `f` stays fixed along the program, which only ever reaches it with a good value
  induction p with
  | done result =>
    cases result with
    | ok a => exact hf a hp
    | error e => exact hp
  | ask unions request resume ih => exact fun reply hreply => ih reply (hp reply hreply)
  | raise unions e next ih => exact ih hp

/-- What a program yields it can also end with. -/
theorem Yields.canEnd {p : Program α} (h : p.Yields replies good bad) :
    p.Yields replies (fun a => good a ∧ p.CanEnd replies (.ok a))
      (fun e => bad e ∧ p.CanEnd replies (.error e)) := by
  induction p with
  | done result =>
    cases result with
    | ok a => exact ⟨h, rfl⟩
    | error e => exact ⟨h, rfl⟩
  | ask unions request resume ih =>
    -- with the reply the program can end as its rest can end
    intro reply hreply
    exact (ih reply (h reply hreply)).mono (fun a ha => ⟨ha.1, reply, hreply, ha.2⟩)
      fun e he => ⟨he.1, reply, hreply, he.2⟩
  | raise unions e next ih => exact ih h

/-- A refused value leads to the other program, and nothing else is kept of the refusal. -/
theorem Yields.orElse {p : Program α} {other : Unit → Program α}
    (hp : p.Yields replies good bad') (hbad : ∀ e, e.isCoercion = false → bad' e → bad e)
    (hother : (∃ e, p.CanEnd replies (.error (.coercion e))) →
      (other ()).Yields replies good bad) :
    (p.orElse other).Yields replies good bad := by
  induction p with
  | done result =>
    cases result with
    | ok a => exact hp
    | error e =>
      -- of the failures only a refusal lets the other program go on
      cases e with
      | coercion e => exact hother ⟨e, rfl⟩
      | config e => exact hbad _ rfl hp
      | lookup e => exact hbad _ rfl hp
      | host message => exact hbad _ rfl hp
  | ask unions request resume ih =>
    intro reply hreply
    -- a refusal after this reply is a refusal of the whole program
    refine ih reply (hp reply hreply) fun hrefused => hother ?_
    obtain ⟨e, he⟩ := hrefused
    exact ⟨e, reply, hreply, he⟩
  | raise unions e next ih => exact ih hp hother

/-- An open union changes neither the values of a program nor its failures. -/
theorem Yields.inUnion {p : Program α} (h : p.Yields replies good bad) :
    p.inUnion.Yields replies good bad := by
  induction p with
  | done result => exact h
  | ask unions request resume ih => exact fun reply hreply => ih reply (h reply hreply)
  | raise unions e next ih => exact ih h

/-- A program ends in a union as it ends by itself. -/
theorem canEnd_inUnion {p : Program α} {result : Except CastError α} :
    p.inUnion.CanEnd replies result ↔ p.CanEnd replies result := by
  induction p with
  | done found => exact Iff.rfl
  | ask unions request resume ih =>
    exact exists_congr fun reply => and_congr_right fun _ => ih reply
  | raise unions e next ih => exact ih

/-- A run with a host that keeps to its replies ends, and it ends as the program says. -/
theorem Yields.run {σ : Type} {answer : (request : Request) → StateM σ request.Reply}
    (hanswer : ∀ request s, replies request ((answer request).run s).1) {p : Program α}
    (h : p.Yields replies good bad) (s : σ) :
    (∃ a, ((p.run answer).run s).1 = .ok a ∧ good a) ∨
      (∃ e, ((p.run answer).run s).1 = .error e ∧ bad e) := by
  induction p generalizing s with
  | done result =>
    cases result with
    | ok a => exact .inl ⟨a, rfl, h⟩
    | error e => exact .inr ⟨e, rfl, h⟩
  | ask unions request resume ih =>
    -- the run goes on from the state that the answer leaves
    have hreply : replies request ((answer request).run s).1 := hanswer request s
    exact ih _ (h _ hreply) ((answer request).run s).2
  | raise unions e next ih => exact ih h s

/-- What a run gives is good. -/
theorem Yields.of_run_ok {σ : Type} {answer : (request : Request) → StateM σ request.Reply}
    (hanswer : ∀ request s, replies request ((answer request).run s).1) {p : Program α}
    (h : p.Yields replies good bad) {a : α} {s s' : σ}
    (hrun : (p.run answer).run s = (.ok a, s')) : good a := by
  obtain ⟨b, hb, hgood⟩ | ⟨e, he, -⟩ := h.run hanswer s
  · rw [hrun] at hb; cases hb; exact hgood
  · rw [hrun] at he; cases he

/-- The program puts no request and ends with this result, whatever failures it marks before. -/
def SettlesTo (result : Except CastError α) : Program α → Prop
  | done found => found = result
  | ask .. => False
  | raise _ _ next => next.SettlesTo result

/-- A value is settled. -/
theorem settlesTo_pure (a : α) : (pure a : Program α).SettlesTo (.ok a) := rfl

/-- An error is settled. -/
theorem settlesTo_throw (e : CastError) : (throw e : Program α).SettlesTo (.error e) := rfl

/-- What settles to a value goes on with it, and no host has a say. -/
theorem SettlesTo.bind {p : Program α} {f : α → Program β} {a : α} {result : Except CastError β}
    (hp : p.SettlesTo (.ok a)) (hf : (f a).SettlesTo result) : (p >>= f).SettlesTo result := by
  show (p.bind f).SettlesTo result
  induction p with
  | done found => cases hp; exact hf
  | ask unions request resume ih => exact hp.elim
  | raise unions e next ih => exact ih hp

/-- A failure ends the whole. -/
theorem SettlesTo.bind_error {p : Program α} {e : CastError} (hp : p.SettlesTo (.error e))
    (f : α → Program β) : (p >>= f).SettlesTo (.error e) := by
  show (p.bind f).SettlesTo _
  induction p with
  | done found => cases hp; rfl
  | ask unions request resume ih => exact hp.elim
  | raise unions e next ih => exact ih hp

/-- An alternative that is good is the last that is tried. -/
theorem SettlesTo.orElse {p : Program α} {a : α} (hp : p.SettlesTo (.ok a))
    (other : Unit → Program α) : (p.orElse other).SettlesTo (.ok a) := by
  induction p with
  | done found => cases hp; rfl
  | ask unions request resume ih => exact hp.elim
  | raise unions e next ih => exact ih hp

/-- An alternative that refuses the value leaves it to the others. -/
theorem SettlesTo.orElse_refused {p : Program α} {e : CoercionError}
    (hp : p.SettlesTo (.error (.coercion e))) {other : Unit → Program α}
    {result : Except CastError α} (hother : (other ()).SettlesTo result) :
    (p.orElse other).SettlesTo result := by
  induction p with
  | done found => cases hp; exact hother
  | ask unions request resume ih => exact hp.elim
  | raise unions e next ih => exact ih hp

/-- An open union does not keep a program from settling. -/
theorem SettlesTo.inUnion {p : Program α} {result : Except CastError α} (hp : p.SettlesTo result) :
    p.inUnion.SettlesTo result := by
  induction p with
  | done found => exact hp
  | ask unions request resume ih => exact hp.elim
  | raise unions e next ih => exact ih hp

/-- A run with any host comes to the result and leaves the host as it is. -/
theorem SettlesTo.run {σ : Type} {p : Program α} {result : Except CastError α}
    (hp : p.SettlesTo result) (answer : (request : Request) → StateM σ request.Reply) (s : σ) :
    (p.run answer).run s = (result, s) := by
  induction p with
  | done found => cases hp; rfl
  | ask unions request resume ih => exact hp.elim
  | raise unions e next ih => exact ih hp

end Program

/-- A host whose factories number what they make, and whose other functions fail. -/
def numberingHost : (request : Request) → StateM Int64 request.Reply
  | .convert .. => pure (.error (.host "no converter"))
  | .call .. => pure (.error (.raised "no callable"))
  | .produce _ => do
    let i ← get
    set (i + 1)
    pure (.int i)

end Conform
