import Conform.Proofs.Compilation

/-!
# The first violation

A node violates a limit if it stands too deep, and it may have a defect of its own unless it is
converted. A type can be used if no node that is exposed violates anything; else its check gives the
violation that comes first in preorder. The check may also keep the depth in a counter, which it
leaves as it was (`counted_run`). Main statement: `compile_finds_first_violation`.
-/

namespace Conform

/-! ## What can be wrong with a node -/

variable {ctx : Context}

/-- What is wrong with a node at a level. A node that stands too deep is not looked at, and nothing
    else is wrong with one that is converted. -/
def Context.violation? (ctx : Context) : Nat × Descriptor → Option ConfigError
  | (level, .node id shape) =>
    if ctx.config.limits.maxDescriptorDepth < level then
      some (.descriptorTooDeep ctx.config.limits.maxDescriptorDepth)
    else if (ctx.converter? id).isSome then none
    else shape.defect?

/-- The violation that comes first when the type is gone through, with its root at a level. -/
def Descriptor.firstViolation? (ctx : Context) (d : Descriptor) (level : Nat) :
    Option ConfigError :=
  (d.preorder ctx level).findSome? ctx.violation?

/-- The first violation in several types. -/
def firstViolationAmong? (ctx : Context) (ds : List Descriptor) (level : Nat) :
    Option ConfigError :=
  (ds.flatMap fun d => d.preorder ctx level).findSome? ctx.violation?

/-- Types are searched one after the other. -/
theorem firstViolationAmong?_cons (d : Descriptor) (rest : List Descriptor) (level : Nat) :
    firstViolationAmong? ctx (d :: rest) level =
      (d.firstViolation? ctx level).or (firstViolationAmong? ctx rest level) := by
  rw [firstViolationAmong?, List.flatMap_cons, List.findSome?_append]
  rfl

namespace Descriptor

variable {level id : Nat} {shape : Shape}

/-- A root that stands too deep comes first, whatever is below it. -/
theorem firstViolation?_of_deep (h : ctx.config.limits.maxDescriptorDepth < level) :
    (node id shape).firstViolation? ctx level =
      some (.descriptorTooDeep ctx.config.limits.maxDescriptorDepth) := by
  obtain ⟨below, hbelow⟩ := exists_preorder_eq_cons ctx (.node id shape) level
  rw [firstViolation?, hbelow, List.findSome?_cons, Context.violation?, if_pos h]

/-- A converted type that is not too deep violates nothing. -/
theorem firstViolation?_of_converter (h : ¬ ctx.config.limits.maxDescriptorDepth < level)
    {c : Converter} (hconverter : ctx.converter? id = some c) :
    (node id shape).firstViolation? ctx level = none := by
  rw [firstViolation?, preorder_of_converter hconverter, List.findSome?_singleton,
    Context.violation?, if_neg h, hconverter]
  rfl

/-- The defect of the root comes before what is wrong with the parts. -/
theorem firstViolation?_of_plain (h : ¬ ctx.config.limits.maxDescriptorDepth < level)
    (hplain : ctx.converter? id = none) :
    (node id shape).firstViolation? ctx level =
      shape.defect?.or (firstViolationAmong? ctx shape.parts (level + 1)) := by
  have hroot : ctx.violation? (level, node id shape) = shape.defect? := by
    simp only [Context.violation?, if_neg h, hplain, Option.isSome_none, Bool.false_eq_true,
      if_false]
  rw [firstViolation?, preorder_of_plain hplain, List.findSome?_cons, hroot]
  cases shape.defect? <;> rfl

end Descriptor

/-! ## The check node by node -/

/-- Several types are checked in order. -/
theorem checkAll_eq_first {depth level : Nat} {ds : List Descriptor}
    (h : ∀ d ∈ ds, d.check ctx depth = passUnless (d.firstViolation? ctx level)) :
    checkAll ctx depth ds = passUnless (firstViolationAmong? ctx ds level) := by
  induction ds with
  | nil => rfl
  | cons d rest ih =>
    obtain ⟨hd, hrest⟩ := List.forall_mem_cons.mp h
    rw [checkAll, firstViolationAmong?_cons, passUnless_or, hd, ih hrest]

/-- The check of a type gives its first violation. -/
theorem Descriptor.check_eq_first (d : Descriptor) (depth : Nat) :
    d.check ctx depth = passUnless (d.firstViolation? ctx (depth + 1)) := by
  induction d using Descriptor.ofParts generalizing depth with
  | h id shape ih =>
    rw [Descriptor.check]
    by_cases hdeep : ctx.config.limits.maxDescriptorDepth < depth + 1
    · rw [if_pos hdeep, firstViolation?_of_deep hdeep]
      rfl
    rw [if_neg hdeep]
    cases hconverter : ctx.converter? id with
    | some c =>
      rw [firstViolation?_of_converter hdeep hconverter]
      rfl
    | none =>
      -- the defect of the node comes before those of its parts, which are one level down
      have hparts := checkAll_eq_first fun d hd => ih d hd (depth + 1)
      rw [firstViolation?_of_plain hdeep hconverter, passUnless_or, ← hparts, ← Shape.check_eq]
      rfl

/-! ## Types without violations -/

/-- Types are free of violations when each is. -/
theorem firstViolationAmong?_eq_none_iff {ds : List Descriptor} {level : Nat} :
    firstViolationAmong? ctx ds level = none ↔ ∀ d ∈ ds, d.firstViolation? ctx level = none := by
  induction ds with
  | nil => exact iff_of_true rfl fun _ h => absurd h List.not_mem_nil
  | cons d rest ih =>
    rw [firstViolationAmong?_cons, Option.or_eq_none_iff, ih, List.forall_mem_cons]

namespace Descriptor

/-- There is no violation exactly if the type is not too high and exposes no defect. -/
theorem firstViolation?_eq_none_iff (ctx : Context) (d : Descriptor) (level : Nat) :
    d.firstViolation? ctx level = none ↔
      level + d.height ctx ≤ ctx.config.limits.maxDescriptorDepth + 1 ∧
        ∀ id shape, d.Exposes ctx id shape → shape.defect? = none := by
  induction d using Descriptor.ofParts generalizing level with
  | h id shape ih =>
    by_cases hdeep : ctx.config.limits.maxDescriptorDepth < level
    · have hheight := one_le_height ctx (.node id shape)
      rw [firstViolation?_of_deep hdeep]
      exact iff_of_false (Option.some_ne_none _) fun h => by omega
    cases hconverter : ctx.converter? id with
    | some c =>
      rw [firstViolation?_of_converter hdeep hconverter, height_of_converter hconverter]
      -- below a converted node nothing is looked at
      refine iff_of_true rfl ⟨by omega, fun _ _ h => ?_⟩
      exact absurd h (not_exposes_of_converter hconverter)
    | none =>
      have hparts : firstViolationAmong? ctx shape.parts (level + 1) = none ↔
          (∀ d ∈ shape.parts, d.height ctx ≤ ctx.config.limits.maxDescriptorDepth - level) ∧
            ∀ d ∈ shape.parts, ∀ id shape, d.Exposes ctx id shape → shape.defect? = none := by
        rw [firstViolationAmong?_eq_none_iff, ← forall₂_and]
        refine forall₂_congr fun d hd => (ih d hd (level + 1)).trans (and_congr_left' ?_)
        omega
      -- there is room for one level at least, and the parts share what is left
      have hheight : level + (node id shape).height ctx ≤ ctx.config.limits.maxDescriptorDepth + 1 ↔
          ∀ d ∈ shape.parts, d.height ctx ≤ ctx.config.limits.maxDescriptorDepth - level := by
        rw [← height_le_iff hconverter]
        omega
      rw [firstViolation?_of_plain hdeep hconverter, Option.or_eq_none_iff, hparts, hheight,
        forall_exposes_iff hconverter, and_left_comm]

end Descriptor

/-! ## A counter for all nodes -/

/-- A check that keeps the depth in a counter. -/
abbrev CountingCheck := StateM Nat (Except ConfigError Unit)

/-- Checks in order, up to the first that fails. -/
def checkInOrder : List CountingCheck → CountingCheck
  | [] => pure (.ok ())
  | first :: rest => do
    match ← first with
    | .error e => pure (.error e)
    | .ok _ => checkInOrder rest

/-- Counts up for a check, and down again when it has come to an end in whatever way. -/
def oneDeeper (limit : Nat) (check : CountingCheck) : CountingCheck := do
  let depth := (← get) + 1
  if limit < depth then return .error (.descriptorTooDeep limit)
  set depth
  let result ← check
  set (depth - 1)
  return result

/-- The check of a node that is not too deep, with the checks of what is below it. -/
def checkNode (ctx : Context) (id : Nat) (shape : Shape) (below : List CountingCheck) :
    CountingCheck :=
  if (ctx.converter? id).isSome then pure (.ok ())
  else
    match shape.defect? with
    | some e => pure (.error e)
    | none => checkInOrder below

/-- The check of a type with one counter for all nodes. -/
def Descriptor.counted (ctx : Context) : Descriptor → CountingCheck :=
  fold fun id shape below =>
    oneDeeper ctx.config.limits.maxDescriptorDepth (checkNode ctx id shape below)

/-- Beyond the limit nothing is checked, and the counter is where it was. -/
theorem oneDeeper_run_of_deep {limit depth : Nat} (h : limit < depth + 1) (check : CountingCheck) :
    (oneDeeper limit check).run depth = (.error (.descriptorTooDeep limit), depth) := by
  rw [oneDeeper, StateT.run_bind, StateT.run_get, pure_bind, if_pos h]
  rfl

/-- Within the limit the check runs one level deeper, and the counter is put back. -/
theorem oneDeeper_run {limit depth : Nat} (h : ¬ limit < depth + 1) (check : CountingCheck) :
    (oneDeeper limit check).run depth = ((check.run (depth + 1)).1, depth) := by
  rw [oneDeeper, StateT.run_bind, StateT.run_get, pure_bind, if_neg h]
  rfl

/-- The counter is the same behind each check, so that the next one starts at the same depth. -/
theorem checkInOrder_run {ds : List Descriptor} {depth : Nat}
    (h : ∀ d ∈ ds, (d.counted ctx).run depth = (d.check ctx depth, depth)) :
    (checkInOrder (ds.map (Descriptor.counted ctx))).run depth =
      (checkAll ctx depth ds, depth) := by
  induction ds with
  | nil => rfl
  | cons d rest ih =>
    obtain ⟨hd, hrest⟩ := List.forall_mem_cons.mp h
    rw [List.map_cons, checkInOrder, StateT.run_bind, hd, checkAll]
    -- the counter is back where it was, for the parts that follow
    cases d.check ctx depth with
    | error e => rfl
    | ok _ => exact ih hrest

/-- The check with a counter comes to the same and leaves the counter as it was. -/
theorem Descriptor.counted_run (d : Descriptor) (depth : Nat) :
    (d.counted ctx).run depth = (d.check ctx depth, depth) := by
  induction d using Descriptor.ofParts generalizing depth with
  | h id shape ih =>
    have hnode : (node id shape).counted ctx = oneDeeper ctx.config.limits.maxDescriptorDepth
        (checkNode ctx id shape (shape.parts.map (counted ctx))) := fold_node ..
    rw [hnode, Descriptor.check]
    -- the counter stands at the depth, and every way out puts it back
    by_cases hdeep : ctx.config.limits.maxDescriptorDepth < depth + 1
    · rw [oneDeeper_run_of_deep hdeep, if_pos hdeep]
    rw [oneDeeper_run hdeep, if_neg hdeep, checkNode]
    cases hconverter : ctx.converter? id with
    | some c => rfl
    | none =>
      have hparts := checkInOrder_run fun d hd => ih d hd (depth + 1)
      rw [Shape.check_eq]
      cases shape.defect? with
      | some e => rfl
      | none => exact congrArg (fun ended => (ended.1, depth)) hparts

/-- A type is compiled to itself in its context, unless there is a violation in it. -/
theorem compile_eq_first (ctx : Context) (d : Descriptor) :
    compile ctx d = (passUnless (d.firstViolation? ctx 1)).map fun _ => ⟨d, ctx⟩ := by
  rw [compile, d.check_eq_first]

/-- The first violation depends on the limit for types and on which nodes have converters. -/
theorem Descriptor.firstViolation?_congr {ctx' : Context}
    (hlimit : ctx'.config.limits.maxDescriptorDepth = ctx.config.limits.maxDescriptorDepth)
    (hconverter : ∀ id, (ctx'.converter? id).isSome = (ctx.converter? id).isSome)
    (d : Descriptor) (level : Nat) :
    d.firstViolation? ctx' level = d.firstViolation? ctx level := by
  -- the walk stops at converted nodes, which are the same
  have horder : d.preorder ctx' = d.preorder ctx := by
    simp only [Descriptor.preorder, hconverter]
  have hviolation : ctx'.violation? = ctx.violation? := by
    funext node
    obtain ⟨level, id, shape⟩ := node
    simp only [Context.violation?, hlimit, hconverter]
  rw [Descriptor.firstViolation?, Descriptor.firstViolation?, horder, hviolation]

/-- A type is compiled unless it violates something, and otherwise compiling it fails with the
    violation that comes first in preorder. There is none exactly if the type is not too high and
    exposes no defect. Of the context, only the limit for types matters and which nodes have
    converters. A cast to a type with a violation fails without asking the host. The check may keep
    the depth in one counter for all nodes, which every check leaves as it was. -/
theorem compile_finds_first_violation (ctx : Context) (d : Descriptor) :
    (d.firstViolation? ctx 1 = none → compile ctx d = .ok ⟨d, ctx⟩) ∧
    (∀ e, d.firstViolation? ctx 1 = some e → compile ctx d = .error e ∧
      ∀ v, cast ctx d v = .throw (.config e)) ∧
    ((∃ c, compile ctx d = .ok c) ↔
      d.height ctx ≤ ctx.config.limits.maxDescriptorDepth ∧
        ∀ id shape, d.Exposes ctx id shape → shape.defect? = none) ∧
    (∀ ctx' : Context,
      ctx'.config.limits.maxDescriptorDepth = ctx.config.limits.maxDescriptorDepth →
      (∀ id, (ctx'.converter? id).isSome = (ctx.converter? id).isSome) →
      compile ctx' d = (compile ctx d).map fun c => ⟨c.descriptor, ctx'⟩) ∧
    ∀ depth, (d.counted ctx).run depth = (d.check ctx depth, depth) := by
  refine ⟨fun h => ?_, fun e h => ?_, ?_, fun ctx' hlimit hconverter => ?_, d.counted_run⟩
  · rw [compile_eq_first, h]
    rfl
  · have hcompile : compile ctx d = .error e := by rw [compile_eq_first, h]; rfl
    exact ⟨hcompile, fun v => by rw [cast, hcompile]⟩
  -- levels count from one: nothing is violated exactly if the height is within the limit and no
  -- exposed shape is defective
  · have hheight := Descriptor.firstViolation?_eq_none_iff ctx d 1
    rw [Nat.add_comm, Nat.add_le_add_iff_right] at hheight
    rw [← hheight, compile_eq_first]
    cases d.firstViolation? ctx 1 with
    | none => exact iff_of_true ⟨_, rfl⟩ rfl
    | some e =>
      refine iff_of_false (fun h => ?_) (Option.some_ne_none e)
      obtain ⟨c, hc⟩ := h
      cases hc
  · rw [compile_eq_first, compile_eq_first, d.firstViolation?_congr hlimit hconverter]
    cases d.firstViolation? ctx 1 <;> rfl

/-! ## A wide type -/

/-- Types may have three levels, and one node has a converter. -/
def shallowContext : Context where
  config := { limits := { maxDescriptorDepth := 3 } }
  conversions := Conversions.empty.insert (.node 4 (.unionOf [])) ⟨0⟩

/-- A tuple with parts of all allowed heights, of which the host converts the third. The last is an
    empty union. -/
def wideType : Descriptor :=
  .node 0 (.tupleOf [.node 1 .any, .node 2 (.listOf (.node 3 .any)), .node 4 (.unionOf []),
    .node 5 (.listOf (.node 6 .any)), .node 7 (.unionOf [])])

/-- The converted union is passed over, so that the other one is the first violation, and the parts
    before it leave no trace in the counter. -/
theorem compile_finds_first_violation_wide :
    wideType.firstViolation? shallowContext 1 = some (.emptyUnion (Shape.unionOf []).render) ∧
      (∀ v, cast shallowContext wideType v =
        .throw (.config (.emptyUnion (Shape.unionOf []).render))) ∧
      (wideType.counted shallowContext).run 0 =
        (.error (.emptyUnion (Shape.unionOf []).render), 0) := by
  obtain ⟨hok, herror, -, -, hcounted⟩ := compile_finds_first_violation shallowContext wideType
  have hcheck : wideType.check shallowContext 0 =
      .error (.emptyUnion (Shape.unionOf []).render) := rfl
  have hcompile : compile shallowContext wideType =
      .error (.emptyUnion (Shape.unionOf []).render) := by rw [compile, hcheck]; rfl
  -- the violation that is found is the one that compilation reports
  cases hfirst : wideType.firstViolation? shallowContext 1 with
  | none =>
    rw [hok hfirst] at hcompile
    cases hcompile
  | some e =>
    obtain ⟨hfails, hcast⟩ := herror e hfirst
    rw [hfails] at hcompile
    cases hcompile
    exact ⟨rfl, hcast, by rw [hcounted, hcheck]⟩

end Conform
