import Conform.Cast
import Conform.Proofs.Descriptor.Fields
import Conform.Proofs.Value.WellFormed

/-!
# Parts of descriptors

`Shape.parts` lists the types that a type is made of, and `Descriptor.Everywhere` says that
something holds of every node of a type. Data types (`Descriptor.IsData`) name nothing of the host
program but the factories of defaults.
-/

namespace Conform

/-- The types right below a node, in the order in which they are written. -/
def Shape.parts : Shape → List Descriptor
  | record _ fields _ => fields.map Field.type
  | partialRecord _ fields _ => fields.map Prod.snd
  | listOf element => [element]
  | setOf element => [element]
  | queueOf element => [element]
  | mapOf key value => [key, value]
  | tupleOf elements => elements
  | unionOf alternatives => alternatives
  | invocation path args kwargs => [path, args, kwargs]
  | inspectedInvocation path => [path]
  | _ => []

/-- Every node, from the root down, satisfies a condition on its identity and its shape. -/
inductive Descriptor.Everywhere (holds : Nat → Shape → Prop) : Descriptor → Prop
  | node {id : Nat} {shape : Shape} (root : holds id shape)
      (parts : ∀ d ∈ shape.parts, d.Everywhere holds) : Everywhere holds (.node id shape)

namespace Descriptor.Everywhere

variable {holds : Nat → Shape → Prop} {id : Nat} {shape : Shape}

/-- What holds everywhere holds at the root. -/
theorem root (h : (Descriptor.node id shape).Everywhere holds) : holds id shape := by
  cases h with
  | node root => exact root

/-- What holds everywhere holds everywhere in a part. -/
theorem part (h : (Descriptor.node id shape).Everywhere holds) {d : Descriptor}
    (hd : d ∈ shape.parts) : d.Everywhere holds := by
  cases h with
  | node _ parts => exact parts d hd

/-- What is implied by a condition that holds everywhere holds everywhere. -/
theorem mono {holds' : Nat → Shape → Prop} {d : Descriptor} (h : d.Everywhere holds)
    (himp : ∀ id shape, holds id shape → holds' id shape) : d.Everywhere holds' := by
  induction h with
  | node root _ ih => exact .node (himp _ _ root) ih

/-- Two conditions that hold everywhere hold together. -/
theorem and {holds' : Nat → Shape → Prop} {d : Descriptor} (h : d.Everywhere holds)
    (h' : d.Everywhere holds') : d.Everywhere fun id shape => holds id shape ∧ holds' id shape := by
  induction h with
  | node root _ ih => exact .node ⟨root, h'.root⟩ fun d hd => ih d hd (h'.part hd)

end Descriptor.Everywhere

/-- Everywhere is at the root and everywhere in the parts. -/
theorem Descriptor.everywhere_node {holds : Nat → Shape → Prop} {id : Nat} {shape : Shape} :
    (Descriptor.node id shape).Everywhere holds ↔
      holds id shape ∧ ∀ d ∈ shape.parts, d.Everywhere holds :=
  ⟨fun h => ⟨h.root, fun _ hd => h.part hd⟩, fun h => .node h.1 h.2⟩

/-- Neither a symbol nor a call, of which the host would decide what the value becomes. -/
def Shape.IsData : Shape → Prop
  | record _ _ constructor? => constructor? = none
  | symbolPath _ => False
  | invocation .. => False
  | inspectedInvocation _ => False
  | _ => True

/-- The declared names of a record are distinct, and so are its defaults well-formed. -/
def Shape.WellFormed : Shape → Prop
  | record _ fields _ =>
    (fields.map Field.name).Nodup ∧ ∀ f ∈ fields, ∀ v, f.default? = some (.value v) → v.WellFormed
  | partialRecord _ fields _ => (Entries.keys fields).Nodup
  | _ => True

namespace Descriptor

/-- A type without symbols, calls and constructors. -/
def IsData (d : Descriptor) : Prop :=
  d.Everywhere fun _ shape => shape.IsData

/-- A type whose records declare each name once and have well-formed defaults. -/
def WellFormed (d : Descriptor) : Prop :=
  d.Everywhere fun _ shape => shape.WellFormed

end Descriptor

/-- No type has a converter. -/
def Context.NoConversions (ctx : Context) : Prop :=
  ∀ id, ctx.converter? id = none

/-- A type is prepared by keeping it with its context. -/
theorem compile_eq_ok {ctx : Context} {d : Descriptor} {c : Coercion} (h : compile ctx d = .ok c) :
    c = ⟨d, ctx⟩ := by
  rw [compile] at h
  cases hcheck : d.check ctx 0 with
  | error e => rw [hcheck] at h; cases h
  | ok _ => rw [hcheck] at h; cases h; rfl

/-- With room for a location, the rule of the type applies, and its parts have less room. -/
theorem castWithin_succ (ctx : Context) (room : Nat) (d : Descriptor) (path : Path) (v : Value) :
    castWithin ctx (room + 1) d path v =
      d.apply ctx (castWithin ctx room) (castWithin ctx (room - 1)) path v := by
  cases room <;> rfl

/-- Casts a part of a value at its location, with the room that is left there. -/
def castAt (ctx : Context) (d : Descriptor) (path : Path) (v : Value) : Program Value :=
  castWithin ctx (ctx.config.limits.maxDepth + 1 - path.length) d path v

/-- At a path there is as much room left as the path has not used. -/
theorem castWithin_eq_castAt {ctx : Context} {room : Nat} {d : Descriptor} {path : Path} {v : Value}
    (h : room + path.length = ctx.config.limits.maxDepth + 1) :
    castWithin ctx room d path v = castAt ctx d path v := by
  rw [castAt, ← h, Nat.add_sub_cancel]

/-- The cast to a type that can be used is that of the whole value at its location. -/
theorem cast_of_compile {ctx : Context} {d : Descriptor} {c : Coercion}
    (h : compile ctx d = .ok c) (v : Value) : cast ctx d v = castAt ctx d [] v := by
  rw [cast, h, compile_eq_ok h]
  rfl

/-- Values are cast at their location, or the type cannot be used for any of them. -/
theorem cast_cases (ctx : Context) (d : Descriptor) :
    (∃ e, ∀ v, cast ctx d v = .throw (.config e)) ∨ ∀ v, cast ctx d v = castAt ctx d [] v := by
  cases hcompile : compile ctx d with
  | error e => exact .inl ⟨e, fun v => by rw [cast, hcompile]⟩
  | ok c => exact .inr (cast_of_compile hcompile)

end Conform
