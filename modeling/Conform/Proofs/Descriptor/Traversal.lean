import Conform.Proofs.Descriptor.Parts

/-!
# Going through a type

A type is gone through along its parts: `Descriptor.ofParts` is induction and `Descriptor.fold`
recursion over them. The height of a type and its nodes in preorder are instances. Neither looks
below a node that has a converter.
-/

namespace Conform

/-! ## Recursion over parts -/

/-- A part is smaller than the shape that it is a part of. -/
theorem Shape.sizeOf_lt_of_mem_parts {shape : Shape} {d : Descriptor} (hd : d ∈ shape.parts) :
    sizeOf d < sizeOf shape := by
  -- one case for each way in which a shape holds its parts
  cases shape with
  | record name fields constructor? =>
    obtain ⟨⟨fieldName, type, default?⟩, hf, rfl⟩ := List.mem_map.mp hd
    have hfield := List.sizeOf_lt_of_mem hf
    simp only [Field.mk.sizeOf_spec, Shape.record.sizeOf_spec] at hfield ⊢
    omega
  | partialRecord name fields total =>
    obtain ⟨⟨fieldName, type⟩, hf, rfl⟩ := List.mem_map.mp hd
    have hfield := List.sizeOf_lt_of_mem hf
    simp only [Prod.mk.sizeOf_spec, Shape.partialRecord.sizeOf_spec] at hfield ⊢
    omega
  | tupleOf elements | unionOf elements =>
    have helement : sizeOf d < sizeOf elements := List.sizeOf_lt_of_mem hd
    simp only [Shape.tupleOf.sizeOf_spec, Shape.unionOf.sizeOf_spec]
    omega
  | listOf element | setOf element | queueOf element | inspectedInvocation element =>
    rw [List.mem_singleton.mp hd]
    simp
  | mapOf key value =>
    obtain rfl | hd := List.mem_cons.mp hd
    · simp only [Shape.mapOf.sizeOf_spec]
      omega
    · rw [List.mem_singleton.mp hd]
      simp
  | invocation symbol args kwargs =>
    obtain rfl | hd := List.mem_cons.mp hd
    · simp only [Shape.invocation.sizeOf_spec]
      omega
    · obtain rfl | hd := List.mem_cons.mp hd
      · simp only [Shape.invocation.sizeOf_spec]
        omega
      · rw [List.mem_singleton.mp hd]
        simp
  | _ => cases hd

namespace Descriptor

/-- What holds of a type if it holds of its parts holds of every type. -/
theorem ofParts {holds : Descriptor → Prop}
    (h : ∀ id shape, (∀ d ∈ shape.parts, holds d) → holds (.node id shape)) :
    ∀ d : Descriptor, holds d
  | .node id shape => h id shape fun d _ => ofParts h d
termination_by d => sizeOf d
decreasing_by
  have hsize : sizeOf d < sizeOf shape := Shape.sizeOf_lt_of_mem_parts ‹_›
  simp only [Descriptor.node.sizeOf_spec]
  omega

/-- Combines, for every node from the leaves up, what has come of its parts. -/
def fold {α : Type} (combine : Nat → Shape → List α → α) : Descriptor → α
  | .node id shape => combine id shape (shape.parts.attach.map fun ⟨d, _⟩ => d.fold combine)
termination_by d => sizeOf d
decreasing_by
  have hsize : sizeOf d < sizeOf shape := Shape.sizeOf_lt_of_mem_parts ‹_›
  simp only [Descriptor.node.sizeOf_spec]
  omega

/-- A fold combines a node with the folds of its parts. -/
theorem fold_node {α : Type} (combine : Nat → Shape → List α → α) (id : Nat) (shape : Shape) :
    (Descriptor.node id shape).fold combine =
      combine id shape (shape.parts.map (fold combine)) := by
  rw [fold, List.attach_map_val]

end Descriptor

/-! ## Height and order -/

namespace Descriptor

variable (ctx : Context)

/-- The number of levels of a type. A node with a converter is a leaf. -/
def height : Descriptor → Nat :=
  fold fun id _ below => if (ctx.converter? id).isSome then 1 else 1 + below.foldr max 0

/-- The nodes in preorder, each with its level. A node with a converter is a leaf. -/
def preorder : Descriptor → (level : Nat) → List (Nat × Descriptor) :=
  fold fun id shape below level => (level, .node id shape) ::
    if (ctx.converter? id).isSome then [] else below.flatMap fun nodes => nodes (level + 1)

/-- A node that has no converter, and none of the nodes above it has one. -/
inductive Exposes : Descriptor → Nat → Shape → Prop
  | root {id : Nat} {shape : Shape} (plain : ctx.converter? id = none) :
    Exposes (.node id shape) id shape
  | part {id id' : Nat} {shape shape' : Shape} {d : Descriptor} (plain : ctx.converter? id = none)
      (hd : d ∈ shape.parts) (below : d.Exposes id' shape') : Exposes (.node id shape) id' shape'

variable {ctx} {id : Nat} {shape : Shape}

/-- A converted type is of height one: its parts do not count. -/
theorem height_of_converter {c : Converter} (h : ctx.converter? id = some c) :
    (node id shape).height ctx = 1 := by
  rw [height, fold_node, h]
  rfl

/-- A type that is not converted is one higher than its highest part. -/
theorem height_of_plain (h : ctx.converter? id = none) :
    (node id shape).height ctx = 1 + (shape.parts.map (height ctx)).foldr max 0 := by
  rw [height, fold_node, h]
  rfl

/-- A converted type is visited without its parts. -/
theorem preorder_of_converter {c : Converter} (h : ctx.converter? id = some c) (level : Nat) :
    (node id shape).preorder ctx level = [(level, node id shape)] := by
  rw [preorder, fold_node, h]
  rfl

/-- A type that is not converted is visited before its parts, each of them one level down. -/
theorem preorder_of_plain (h : ctx.converter? id = none) (level : Nat) :
    (node id shape).preorder ctx level =
      (level, node id shape) :: shape.parts.flatMap fun d => d.preorder ctx (level + 1) := by
  rw [preorder, fold_node, h]
  simp only [Option.isSome_none, Bool.false_eq_true, if_false, List.flatMap_map]

/-- A node is one level higher than the highest of its parts. -/
theorem height_le_iff (h : ctx.converter? id = none) {bound : Nat} :
    (node id shape).height ctx ≤ bound + 1 ↔ ∀ d ∈ shape.parts, d.height ctx ≤ bound := by
  have hmax (ds : List Descriptor) :
      (ds.map (height ctx)).foldr max 0 ≤ bound ↔ ∀ d ∈ ds, d.height ctx ≤ bound := by
    induction ds with
    | nil => simp
    | cons d rest ih => rw [List.map_cons, List.foldr_cons, max_le_iff, ih, List.forall_mem_cons]
  rw [← hmax, height_of_plain h]
  omega

/-- Every type has a height. -/
theorem one_le_height (ctx : Context) (d : Descriptor) : 1 ≤ d.height ctx := by
  obtain ⟨id, shape⟩ := d
  cases h : ctx.converter? id with
  | some c => exact (height_of_converter h).ge
  | none => rw [height_of_plain h]; exact Nat.le_add_right ..

/-- The root comes first. -/
theorem exists_preorder_eq_cons (ctx : Context) (d : Descriptor) (level : Nat) :
    ∃ below, d.preorder ctx level = (level, d) :: below := by
  obtain ⟨id, shape⟩ := d
  cases h : ctx.converter? id with
  | some c => exact ⟨[], preorder_of_converter h level⟩
  | none => exact ⟨_, preorder_of_plain h level⟩

/-- Nothing is exposed below a converter. -/
theorem not_exposes_of_converter {c : Converter} (h : ctx.converter? id = some c) {id' : Nat}
    {shape' : Shape} : ¬ (node id shape).Exposes ctx id' shape' := by
  intro hexposes
  cases hexposes with
  | root plain => rw [h] at plain; cases plain
  | part plain => rw [h] at plain; cases plain

/-- A node without a converter exposes itself and what its parts expose. -/
theorem forall_exposes_iff (h : ctx.converter? id = none) {holds : Shape → Prop} :
    (∀ id' shape', (node id shape).Exposes ctx id' shape' → holds shape') ↔
      holds shape ∧ ∀ d ∈ shape.parts, ∀ id' shape', d.Exposes ctx id' shape' → holds shape' := by
  constructor
  · intro hall
    refine ⟨hall id shape (.root h), fun d hd id' shape' hbelow => ?_⟩
    exact hall id' shape' (.part h hd hbelow)
  · rintro ⟨hroot, hparts⟩ id' shape' hexposes
    cases hexposes with
    | root => exact hroot
    | part _ hd hbelow => exact hparts _ hd id' shape' hbelow

end Descriptor

end Conform
