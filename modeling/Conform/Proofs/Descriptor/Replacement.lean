import Conform.Proofs.Compilation
import Mathlib.Data.List.Forall2

/-!
# Replacing parts of descriptors

`Shape.withParts` puts other types in the places of the parts of a shape and leaves the rest as it
is. What is written of a shape, and whether it can be used, depend on the parts only through what
is written of them and whether they can be used.
-/

namespace Conform

/-- The shape with these types in the places of its parts, as many as there are. -/
def Shape.withParts : Shape → List Descriptor → Shape
  | record name fields constructor?, parts =>
    record name (List.zipWith (fun f type => { f with type }) fields parts) constructor?
  | partialRecord name fields total, parts =>
    partialRecord name (List.zipWith (fun field type => (field.1, type)) fields parts) total
  | listOf _, [element] => listOf element
  | setOf _, [element] => setOf element
  | queueOf _, [element] => queueOf element
  | mapOf _ _, [key, value] => mapOf key value
  | tupleOf _, parts => tupleOf parts
  | unionOf _, parts => unionOf parts
  | invocation _ _ _, [path, args, kwargs] => invocation path args kwargs
  | inspectedInvocation _, [path] => inspectedInvocation path
  | shape, _ => shape

/-- Replacing each part by itself changes nothing. -/
theorem Shape.withParts_parts (shape : Shape) : shape.withParts shape.parts = shape := by
  cases shape with
  | record name fields constructor? =>
    simp only [parts, withParts, List.zipWith_map_right, List.zipWith_self]
    rw [List.map_id']
  | partialRecord name fields total =>
    simp only [parts, withParts, List.zipWith_map_right, List.zipWith_self]
    rw [List.map_id']
  | _ => rfl

/-- Two fields of the same name and with the same default, whose types are related. -/
structure Field.Corresponds {δ : Type} (rel : δ → δ → Prop) (f f' : Field δ) : Prop where
  name : f'.name = f.name
  default : f'.default? = f.default?
  type : rel f.type f'.type

variable {rel : Descriptor → Descriptor → Prop} {parts : List Descriptor}

/-- Fields with new types keep their names and defaults. -/
theorem Field.corresponds_withParts {fields : List (Field Descriptor)}
    (h : List.Forall₂ rel (fields.map Field.type) parts) :
    List.Forall₂ (Field.Corresponds rel) fields
      (List.zipWith (fun f type => { f with type }) fields parts) := by
  induction fields generalizing parts with
  | nil => exact .nil
  | cons f rest ih =>
    obtain ⟨type, types, hf, hrest, rfl⟩ := List.forall₂_cons_left_iff.mp h
    exact .cons ⟨rfl, rfl, hf⟩ (ih hrest)

/-- The entries of a partial record are fields without defaults. -/
theorem Field.corresponds_withParts_of_entries {fields : List (String × Descriptor)}
    (h : List.Forall₂ rel (fields.map Prod.snd) parts) :
    List.Forall₂ (Field.Corresponds rel) (fields.map fun field => ⟨field.1, field.2, none⟩)
      ((List.zipWith (fun field type => (field.1, type)) fields parts).map
        fun field => ⟨field.1, field.2, none⟩) := by
  induction fields generalizing parts with
  | nil => exact .nil
  | cons field rest ih =>
    obtain ⟨type, types, hf, hrest, rfl⟩ := List.forall₂_cons_left_iff.mp h
    exact .cons ⟨rfl, rfl, hf⟩ (ih hrest)

/-- The types of the fields are replaced. -/
theorem Shape.map_type_withParts {fields : List (Field Descriptor)}
    (h : (fields.map Field.type).length = parts.length) :
    (List.zipWith (fun f type => { f with type }) fields parts).map Field.type = parts := by
  induction fields generalizing parts with
  | nil => exact (List.length_eq_zero_iff.mp h.symm).symm
  | cons f rest ih =>
    cases parts with
    | nil => cases h
    | cons type types =>
      rw [List.zipWith_cons_cons, List.map_cons, ih (Nat.succ.inj h)]

/-- The new types are the types of the new fields. -/
theorem Shape.map_snd_withParts {fields : List (String × Descriptor)}
    (h : (fields.map Prod.snd).length = parts.length) :
    (List.zipWith (fun field type => (field.1, type)) fields parts).map Prod.snd = parts := by
  induction fields generalizing parts with
  | nil => exact (List.length_eq_zero_iff.mp h.symm).symm
  | cons f rest ih =>
    cases parts with
    | nil => cases h
    | cons type types =>
      rw [List.zipWith_cons_cons, List.map_cons, ih (Nat.succ.inj h)]

/-- The names stay. -/
theorem map_fst_withParts {fields : List (String × Descriptor)}
    (h : (fields.map Prod.snd).length = parts.length) :
    Entries.keys (List.zipWith (fun field type => (field.1, type)) fields parts) =
      Entries.keys fields := by
  induction fields generalizing parts with
  | nil => rfl
  | cons f rest ih =>
    cases parts with
    | nil => cases h
    | cons type types =>
      exact congrArg (f.1 :: ·) (ih (Nat.succ.inj h))

/-! ## What is written of a type -/

/-- Types that are rendered alike are rendered alike in a list. -/
theorem renderTypes_congr {ds : List Descriptor}
    (h : List.Forall₂ (fun d d' => d'.render = d.render) ds parts) :
    renderTypes parts = renderTypes ds := by
  induction h with
  | nil => rfl
  | cons hd _ ih => rw [renderTypes, renderTypes, hd, ih]

/-- Types that are written alike can replace each other in what is written of a shape. -/
theorem Shape.render_withParts {shape : Shape}
    (h : List.Forall₂ (fun d d' => d'.render = d.render) shape.parts parts) :
    (shape.withParts parts).render = shape.render := by
  cases shape with
  -- records are rendered by name
  | record | partialRecord => rfl
  | listOf | setOf | queueOf | inspectedInvocation =>
    cases h with
    | cons hpart hnil =>
      cases hnil
      simp only [withParts, render, hpart]
  | mapOf =>
    cases h with
    | cons hkey hrest =>
      cases hrest with
      | cons hvalue hnil =>
        cases hnil
        simp only [withParts, render, hkey, hvalue]
  | tupleOf | unionOf =>
    have hparts : renderTypes parts = renderTypes _ := renderTypes_congr h
    simp only [withParts, render, hparts, Shape.parts]
  | invocation =>
    cases h with
    | cons hpath hrest =>
      cases hrest with
      | cons hargs hrest =>
        cases hrest with
        | cons hkwargs hnil =>
          cases hnil
          simp only [withParts, render, hpath, hargs, hkwargs]
  | any | primitive | float | complex | decimal | literal | symbolPath => rfl

/-! ## Which types can be used -/

section Check

variable {ctx ctx' : Context} {depth : Nat}

/-- Two types that come to the same check in two contexts. What is written of them and whether they
    are symbol paths tells on the checks of the types around them. -/
structure Descriptor.ChecksAlike (ctx ctx' : Context) (depth : Nat) (d d' : Descriptor) : Prop where
  check : d'.check ctx' depth = d.check ctx depth
  render : d'.render = d.render
  symbolPath : d'.symbolPath?.isNone = d.symbolPath?.isNone

/-- Types that are checked alike are checked alike in a list. -/
theorem checkAll_congr {ds : List Descriptor}
    (h : List.Forall₂ (fun d d' => d'.check ctx' depth = d.check ctx depth) ds parts) :
    checkAll ctx' depth parts = checkAll ctx depth ds := by
  induction h with
  | nil => rfl
  | cons hd _ ih => rw [checkAll, checkAll, hd, ih]

/-- Types that come to the same checks can replace each other in the check of a shape. -/
theorem Shape.check_withParts {shape : Shape}
    (h : List.Forall₂ (Descriptor.ChecksAlike ctx ctx' depth) shape.parts parts) :
    (shape.withParts parts).check ctx' depth = shape.check ctx depth := by
  have hchecks : checkAll ctx' depth parts = checkAll ctx depth shape.parts :=
    checkAll_congr (h.imp fun _ _ h => h.check)
  have hlength : shape.parts.length = parts.length := h.length_eq
  cases shape with
  | record name fields constructor? =>
    -- names and defaults are not checked, only the types
    simp only [withParts, check, checkFields_eq_checkAll, map_type_withParts hlength]
    exact hchecks
  | partialRecord name fields total =>
    simp only [withParts, check, checkEntries_eq_checkAll, map_snd_withParts hlength]
    exact hchecks
  | listOf | setOf | queueOf =>
    cases h with
    | cons hpart hnil =>
      cases hnil
      exact hpart.check
  | mapOf =>
    cases h with
    | cons hkey hrest =>
      cases hrest with
      | cons hvalue hnil =>
        cases hnil
        simp only [withParts, check, hkey.check, hvalue.check]
  | tupleOf => exact hchecks
  | unionOf alternatives =>
    -- with the first alternative, or without any
    cases h with
    | nil => rfl
    | cons hfirst hrest =>
      simp only [withParts, check, List.isEmpty_cons]
      exact hchecks
  | invocation =>
    cases h with
    | cons hpath hrest =>
      cases hrest with
      | cons hargs hrest =>
        cases hrest with
        | cons hkwargs hnil =>
          cases hnil
          -- the first part must still be a symbol, and its text is in the error if it is not
          simp only [withParts, check, hpath.symbolPath, hpath.render, hpath.check, hargs.check,
            hkwargs.check]
  | inspectedInvocation =>
    cases h with
    | cons hpath hnil =>
      cases hnil
      simp only [withParts, check, hpath.symbolPath, hpath.render, hpath.check]
  | any | primitive | float | complex | decimal | literal | symbolPath => rfl

end Check

end Conform
