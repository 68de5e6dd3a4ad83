import Conform.Compilation
import Conform.Proofs.Descriptor.Traversal

/-!
# Checking types

The check of a shape looks for a defect of the shape itself and then checks its parts
(`Shape.check_eq`). So a type that can be used consists of types that can be used, unless the host
converts it (`Shape.check_parts`). How deep a type stands matters to its check in one way only:
the deeper check may fail because the type nests too deep. Otherwise it comes to the same,
`Descriptor.check_deeper`.
-/

namespace Conform

variable {ctx : Context}

/-- The failure of a type that nests too deep. -/
abbrev tooDeep (ctx : Context) : Except ConfigError Unit :=
  .error (.descriptorTooDeep ctx.config.limits.maxDescriptorDepth)

/-! ## Checks of several types -/

/-- Fields are checked as their types. -/
theorem checkFields_eq_checkAll (depth : Nat) (fields : List (Field Descriptor)) :
    checkFields ctx depth fields = checkAll ctx depth (fields.map Field.type) := by
  induction fields with
  | nil => rfl
  | cons f rest ih => rw [checkFields, List.map_cons, checkAll, ih]

/-- The entries of a partial record are checked as their types. -/
theorem checkEntries_eq_checkAll (depth : Nat) (fields : List (String × Descriptor)) :
    checkEntries ctx depth fields = checkAll ctx depth (fields.map Prod.snd) := by
  induction fields with
  | nil => rfl
  | cons f rest ih => rw [checkEntries, List.map_cons, checkAll, ih]

/-- A list of one type is checked as the type. -/
theorem checkAll_singleton (d : Descriptor) (depth : Nat) :
    checkAll ctx depth [d] = d.check ctx depth := by
  rw [checkAll]
  cases d.check ctx depth <;> rfl

/-- Several types can be used if each of them can; else the failure is that of one of them. -/
theorem checkAll_cases (depth : Nat) (ds : List Descriptor) :
    ((∀ d ∈ ds, d.check ctx depth = .ok ()) ∧ checkAll ctx depth ds = .ok ()) ∨
      ∃ d ∈ ds, ∃ e, d.check ctx depth = .error e ∧ checkAll ctx depth ds = .error e := by
  -- the first type that fails hides those behind it
  induction ds with
  | nil => exact .inl ⟨fun _ h => absurd h List.not_mem_nil, rfl⟩
  | cons d rest ih =>
    rw [checkAll]
    cases hd : d.check ctx depth with
    | error e => exact .inr ⟨d, List.mem_cons_self, e, hd, rfl⟩
    | ok _ =>
      obtain ⟨hall, hrest⟩ | ⟨d', hmem, e, hd', hrest⟩ := ih
      · exact .inl ⟨List.forall_mem_cons.mpr ⟨hd, hall⟩, hrest⟩
      · exact .inr ⟨d', List.mem_cons_of_mem d hmem, e, hd', hrest⟩

/-- A list of types passes when every one passes. -/
theorem checkAll_eq_ok_iff {depth : Nat} {ds : List Descriptor} :
    checkAll ctx depth ds = .ok () ↔ ∀ d ∈ ds, d.check ctx depth = .ok () := by
  obtain ⟨hall, hok⟩ | ⟨d, hd, e, herror, he⟩ := checkAll_cases depth ds
  · exact iff_of_true hok hall
  · refine iff_of_false (fun h => ?_) fun h => ?_
    · rw [he] at h; cases h
    · rw [h d hd] at herror; cases herror

/-! ## Defects of shapes -/

/-- What is wrong with a shape whatever its parts are: a union of nothing, or an invocation whose
    path is not a symbol path. -/
def Shape.defect? : Shape → Option ConfigError
  | unionOf [] => some (.emptyUnion (Shape.unionOf []).render)
  | invocation path _ _ | inspectedInvocation path =>
    if path.symbolPath?.isNone then some (.invocationPath path.render) else none
  | _ => none

/-- Passes unless there is a failure. -/
def passUnless : Option ConfigError → Except ConfigError Unit
  | none => .ok ()
  | some e => .error e

/-- The first of two errors is the one that is reported. -/
theorem passUnless_or (first next : Option ConfigError) :
    passUnless (first.or next) = passUnless first >>= fun _ => passUnless next := by
  cases first <;> rfl

/-- A shape is checked for a defect, and then its parts are checked in order. -/
theorem Shape.check_eq (shape : Shape) (depth : Nat) :
    shape.check ctx depth =
      passUnless shape.defect? >>= fun _ => checkAll ctx depth shape.parts := by
  -- only unions and calls have a defect of their own
  cases shape with
  | record name fields constructor? => exact checkFields_eq_checkAll depth fields
  | partialRecord name fields total => exact checkEntries_eq_checkAll depth fields
  | listOf element | setOf element | queueOf element =>
    exact (checkAll_singleton element depth).symm
  | mapOf key value =>
    show _ = checkAll ctx depth [key, value]
    rw [checkAll, checkAll_singleton]
    rfl
  | tupleOf elements => rfl
  | unionOf alternatives => cases alternatives <;> rfl
  | invocation symbol args kwargs =>
    rw [Shape.check, defect?]
    split
    · rfl
    · show _ = checkAll ctx depth [symbol, args, kwargs]
      rw [checkAll, checkAll, checkAll_singleton]
  | inspectedInvocation symbol =>
    rw [Shape.check, defect?]
    split
    · rfl
    · exact (checkAll_singleton symbol depth).symm
  | _ => rfl

/-- A shape can be used if it has no defect and its parts can be used. -/
theorem Shape.check_eq_ok_iff {shape : Shape} {depth : Nat} :
    shape.check ctx depth = .ok () ↔
      shape.defect? = none ∧ ∀ d ∈ shape.parts, d.check ctx depth = .ok () := by
  rw [check_eq, ← checkAll_eq_ok_iff]
  cases shape.defect? with
  | none => exact (and_iff_right rfl).symm
  | some e =>
    refine iff_of_false (fun h => ?_) fun h => absurd h.1 (Option.some_ne_none e)
    cases h

/-- The check of a shape checks its parts. -/
theorem Shape.check_parts {shape : Shape} {depth : Nat} (h : shape.check ctx depth = .ok ()) :
    ∀ d ∈ shape.parts, d.check ctx depth = .ok () :=
  (check_eq_ok_iff.mp h).2

/-- The path of an inspected invocation that can be used is a symbol path. -/
theorem Shape.check_inspected {symbol : Descriptor} {depth : Nat}
    (h : (Shape.inspectedInvocation symbol).check ctx depth = .ok ()) :
    symbol.symbolPath?.isSome := by
  have hdefect := (check_eq_ok_iff.mp h).1
  cases hpath : symbol.symbolPath? with
  | some spec => rfl
  | none => rw [defect?, hpath] at hdefect; cases hdefect

/-! ## Deeper checks -/

/-- Checks that agree up to a type that is too deep agree in sequence. -/
private theorem check_then {first first' next next' : Except ConfigError Unit}
    (hfirst : first = tooDeep ctx ∨ first = first') (hnext : next = tooDeep ctx ∨ next = next') :
    (first >>= fun _ => next) = tooDeep ctx ∨
      (first >>= fun _ => next) = first' >>= fun _ => next' := by
  cases hfirst with
  | inl h => left; rw [h]; rfl
  | inr h =>
    subst h
    cases first with
    | error e => right; rfl
    | ok _ => exact hnext

/-- Checking several types deeper comes to the same if that holds of each of them. -/
private theorem checkAll_deeper {ds : List Descriptor} {depth more : Nat}
    (h : ∀ d ∈ ds, d.check ctx (depth + more) = tooDeep ctx ∨
      d.check ctx (depth + more) = d.check ctx depth) :
    checkAll ctx (depth + more) ds = tooDeep ctx ∨
      checkAll ctx (depth + more) ds = checkAll ctx depth ds := by
  induction ds with
  | nil => exact .inr rfl
  | cons d rest ih =>
    obtain ⟨hd, hrest⟩ := List.forall_mem_cons.mp h
    exact check_then hd (ih hrest)

/-- A deeper check fails because the type nests too deep, or comes to the same. -/
theorem Descriptor.check_deeper (more : Nat) (d : Descriptor) (depth : Nat) :
    d.check ctx (depth + more) = tooDeep ctx ∨ d.check ctx (depth + more) = d.check ctx depth := by
  induction d using Descriptor.ofParts generalizing depth with
  | h id shape ih =>
    rw [Descriptor.check, Descriptor.check]
    -- what is too deep further up is too deep here as well
    by_cases hdeep : ctx.config.limits.maxDescriptorDepth < depth + more + 1
    · left; rw [if_pos hdeep]
    have hshallow : ¬ ctx.config.limits.maxDescriptorDepth < depth + 1 := by omega
    rw [if_neg hdeep, if_neg hshallow]
    by_cases hconverter : (ctx.converter? id).isSome
    · right; simp only [if_pos hconverter]
    · simp only [if_neg hconverter]
      rw [Nat.add_right_comm, Shape.check_eq, Shape.check_eq]
      exact check_then (.inr rfl) (checkAll_deeper fun d hd => ih d hd (depth + 1))

/-- The types of fields are checked alike further down, unless they are too deep there. -/
theorem checkFields_deeper (more : Nat) (fields : List (Field Descriptor)) (depth : Nat) :
    checkFields ctx (depth + more) fields = tooDeep ctx ∨
      checkFields ctx (depth + more) fields = checkFields ctx depth fields := by
  rw [checkFields_eq_checkAll, checkFields_eq_checkAll]
  exact checkAll_deeper fun d _ => d.check_deeper more depth

/-! ## Types that can be used -/

/-- A type that can be used does not nest too deep. -/
theorem Descriptor.depth_lt_of_check {d : Descriptor} {depth : Nat}
    (h : d.check ctx depth = .ok ()) : depth < ctx.config.limits.maxDescriptorDepth := by
  obtain ⟨id, shape⟩ := d
  rw [check] at h
  split at h
  · cases h
  · omega

/-- The check of a node checks its shape, unless the host converts it. -/
theorem Descriptor.check_shape {id : Nat} {shape : Shape} {depth : Nat}
    (h : (Descriptor.node id shape).check ctx depth = .ok ())
    (hconverter : ctx.converter? id = none) : shape.check ctx (depth + 1) = .ok () := by
  rw [Descriptor.check, hconverter] at h
  split at h
  · cases h
  · exact h

/-- A type that can be used at some depth. -/
def Descriptor.Usable (ctx : Context) (d : Descriptor) : Prop :=
  ∃ depth, d.check ctx depth = .ok ()

/-- A usable type without a converter has a usable shape. -/
theorem Descriptor.Usable.shape {id : Nat} {shape : Shape}
    (h : (Descriptor.node id shape).Usable ctx) (hconverter : ctx.converter? id = none) :
    ∃ depth, shape.check ctx depth = .ok () := by
  obtain ⟨depth, h⟩ := h
  exact ⟨depth + 1, Descriptor.check_shape h hconverter⟩

end Conform
