import Conform.Cast

/-!
# Scripted hosts

A `Script` is a host program given as data: it says what each callable, converter and factory does.
`Script.answer` answers the requests of a cast and logs each one, in order, before it is answered.
Callables and converters may make casts of their own, which may put requests in turn; such casts
nest at most as deep as the script has callables.
-/

namespace Conform

/-- What a callable does with its arguments. -/
inductive Action
  /-- Gives back a map with both kinds of arguments. -/
  | echo
  /-- Gives back a tuple of the positional arguments. -/
  | positional
  | const (v : Value)
  | fail (message : String)
  /-- Casts a map of the keyword arguments without a context. -/
  | cast (d : Descriptor)
  /-- Gives back a record of the keyword arguments. -/
  | record (name : String)
  /-- Gives back a new object. -/
  | object (typeName : String)

/-- What a converter does with a value. -/
inductive Conversion
  | identity
  /-- Gives back the text that messages show. -/
  | format
  | const (v : Value)
  /-- Gives back a record with the value as its only field `x`. -/
  | wrap (name : String)
  | fail (message : String)
  | lookup (root : String)
  /-- Refuses the value at the location `$custom`. -/
  | refuse (expected : String)
  /-- Casts the value without a context. -/
  | cast (d : Descriptor)

/-- What a factory makes. -/
inductive Supply
  | const (v : Value)
  /-- A number that grows by one with each value made. -/
  | counter (first : Int64)

/-- A request as it is logged. -/
inductive Event
  | call (name : String) (args : List Value) (kwargs : List (String × Value))
  | produce (field : String)
  | convert (index : Nat) (v : Value)

/-- What callables, converters and factories do. -/
structure Script where
  callables : List (Nat × Action)
  /-- A converter is logged by a position. -/
  converters : List (Nat × (Nat × Conversion))
  /-- A factory is logged by the name of its field. -/
  factories : List (Nat × (String × Supply))

/-- What a scripted host remembers. -/
structure Script.State where
  /-- The events so far, the last one first. -/
  log : List Event
  /-- How many values each factory has made. -/
  made : List (Nat × Nat)
  /-- An identity that no object has yet. -/
  nextId : Nat

namespace Script

/-- Logs an event. -/
def note (e : Event) : StateM State Unit :=
  modify fun s => { s with log := e :: s.log }

/-- What a factory makes next. -/
def supply (id : Nat) : Supply → StateM State Value
  | .const v => pure v
  | .counter first => do
    let s ← get
    let count := (Entries.find? id s.made).getD 0
    set { s with made := Entries.insert id (count + 1) s.made }
    pure (.int (first + Int64.ofNat count))

/-- What a callable gives back. Its own casts are made by `inner`. -/
def act (inner : Program Value → StateM State (Except CastError Value)) (args : List Value)
    (kwargs : List (String × Value)) : Action → StateM State (Except HostFailure Value)
  | .echo => pure (.ok (.ofFields [("args", .list args), ("kwargs", .ofFields kwargs)]))
  | .positional => pure (.ok (.tuple args))
  | .const v => pure (.ok v)
  | .fail message => pure (.error (.raised message))
  | .cast d => do
    let result ← inner (Conform.cast {} d (.ofFields kwargs))
    pure (result.mapError .forwarded)
  | .record name => pure (.ok (.record name kwargs))
  | .object typeName => do
    let s ← get
    set { s with nextId := s.nextId + 1 }
    pure (.ok (.object ⟨s.nextId, typeName⟩))

/-- What a converter gives back. Its own casts are made by `inner`. -/
def convert (inner : Program Value → StateM State (Except CastError Value)) (v : Value) :
    Conversion → StateM State (Except CastError Value)
  | .identity => pure (.ok v)
  | .format => pure (.ok (.text v.render))
  | .const w => pure (.ok w)
  | .wrap name => pure (.ok (.record name [("x", v)]))
  | .fail message => pure (.error (.host message))
  | .lookup root => pure (.error (.lookup (.unknownRoot root)))
  | .refuse expected => pure (.error (.coercion ⟨⟨"$custom", []⟩, v, expected, .wrongKind⟩))
  | .cast d => inner (Conform.cast {} d v)

/-- Answers a request. At most `depth` casts of the host itself may be under way inside of each
    other; what is not in the script fails. -/
def answer (script : Script) : Nat → (request : Request) → StateM State request.Reply
  | depth, .convert c v =>
    match Entries.find? c.id script.converters with
    | some (index, conversion) => do
      note (.convert index v)
      convert (nested depth) v conversion
    | none => pure (.error (.host "no converter"))
  | depth, .call c args kwargs => do
    note (.call c.name args kwargs)
    match Entries.find? c.id script.callables with
    | some action => act (nested depth) args kwargs action
    | none => pure (.error (.raised "no callable"))
  | _, .produce f =>
    match Entries.find? f.id script.factories with
    | some (field, s) => do
      note (.produce field)
      supply f.id s
    | none => pure .none
where
  /-- Makes a cast of the host itself. -/
  nested : Nat → Program Value → StateM State (Except CastError Value)
    | 0, _ => pure (.error (.host "casts of the host nest too deep"))
    | depth + 1, p => p.run (answer script depth)

/-- Carries out a program with a scripted host. -/
def run (script : Script) (p : Program Value) : StateM State (Except CastError Value) :=
  p.run (script.answer (script.callables.length + 1))

end Script

end Conform
