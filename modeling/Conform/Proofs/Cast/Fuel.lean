import Conform.Proofs.Cast.Agree
import Conform.Proofs.Cast.Depth

/-!
# How many rules are active at a time

`castWithFuel` counts the rules that are active at a time, one inside the other, and stops when
there are more than its fuel. A union recurses at its own location and an inspected invocation into
types that are no parts of it, so that neither the depth of the location nor that of the type
bounds the recursion alone. Together they do: whenever a type is left for one that is not among its
parts, the location is deeper (`needed_below`).
-/

namespace Conform

/-- Refuses to cast beyond the limit of depth. -/
def withinLimit (ctx : Context) (enter : Enter) : Enter := fun d path v =>
  if ctx.config.limits.maxDepth < path.length then
    mismatch path v d.render (.depthExceeded ctx.config.limits.maxDepth)
  else enter d path v

/-- Casts with at most `fuel` rules active at a time, and does `exhausted` in the place of a rule
    that would be one too many. -/
def castWithFuel (ctx : Context) (exhausted : Program Value) :
    Nat → Descriptor → Path → Value → Program Value
  | 0, _, _, _ => exhausted
  | fuel + 1, .node id shape, path, v =>
    match ctx.converter? id, shape with
    | some c, _ => Program.convert c v
    | none, .unionOf alternatives =>
      Program.firstOf (mismatch path v (Shape.unionOf alternatives).render
          (.unionExhausted alternatives.length))
        (alternatives.map fun d => castWithFuel ctx exhausted fuel d path v)
    | none, shape =>
      shape.apply ctx
        (withinLimit ctx fun d path v => castWithFuel ctx exhausted fuel d path v)
        (withinLimit ctx fun d path v => castWithFuel ctx exhausted fuel d path v) path v

variable {ctx : Context} {exhausted : Program Value} {fuel depth : Nat} {path : Path}

/-- A node that is neither converted nor a union hands the rest of its fuel to the rule of its
    shape. -/
theorem castWithFuel_node {id : Nat} {shape : Shape} (hconverter : ctx.converter? id = none)
    (hunion : ∀ alternatives, shape ≠ .unionOf alternatives) (v : Value) :
    castWithFuel ctx exhausted (fuel + 1) (.node id shape) path v =
      shape.apply ctx (withinLimit ctx (castWithFuel ctx exhausted fuel))
        (withinLimit ctx (castWithFuel ctx exhausted fuel)) path v := by
  cases shape with
  | unionOf alternatives => exact absurd rfl (hunion alternatives)
  | _ => simp only [castWithFuel, hconverter]

/-- A union hands the rest of its fuel to its alternatives, at the same path. -/
theorem castWithFuel_unionOf {id : Nat} {alternatives : List Descriptor}
    (hconverter : ctx.converter? id = none) (v : Value) :
    castWithFuel ctx exhausted (fuel + 1) (.node id (.unionOf alternatives)) path v =
      Program.firstOf (mismatch path v (Shape.unionOf alternatives).render
          (.unionExhausted alternatives.length))
        (alternatives.map fun d => castWithFuel ctx exhausted fuel d path v) := by
  simp only [castWithFuel, hconverter]

/-! ## The fuel that a cast needs -/

/-- The fuel for a type with `depth` nodes above it, at a location with `room` locations below: all
    that the locations below may need, and what is left of the depth of types. -/
def needed (ctx : Context) (room depth : Nat) : Nat :=
  room * ctx.config.limits.maxDescriptorDepth + (ctx.config.limits.maxDescriptorDepth - depth)

/-- The alternatives of a union need less than the union. -/
theorem needed_alternative (room : Nat) (hdepth : depth < ctx.config.limits.maxDescriptorDepth) :
    needed ctx room (depth + 1) < needed ctx room depth := by
  unfold needed
  omega

/-- At a deeper location, any type needs less. -/
theorem needed_below {room room' : Nat} (depth' : Nat)
    (hdepth : depth < ctx.config.limits.maxDescriptorDepth) (hroom : room' < room) :
    needed ctx room' depth' < needed ctx room depth := by
  have hmul := Nat.mul_le_mul_right ctx.config.limits.maxDescriptorDepth hroom
  rw [Nat.succ_mul] at hmul
  unfold needed
  omega

/-! ## Enough fuel -/

section Enough

variable {σ : Type} {answer : (request : Request) → StateM σ request.Reply}

/-- A cast stops at the limit of depth by itself. -/
theorem withinLimit_agree {enter : Enter} {room : Nat} {d : Descriptor} {v : Value} {s : σ}
    (hroom : room = ctx.config.limits.maxDepth + 1 - path.length)
    (h : ∀ less, room = less + 1 →
      Program.Agree answer Eq s (enter d path v) (castWithin ctx (less + 1) d path v)) :
    Program.Agree answer Eq s (withinLimit ctx enter d path v) (castWithin ctx room d path v) := by
  cases room with
  | zero =>
    -- no room is left exactly if the path is longer than the limit
    rw [withinLimit, if_pos (by omega)]
    exact .refl (fun _ => rfl) _
  | succ less =>
    rw [withinLimit, if_neg (by omega)]
    exact h less rfl

/-- With the fuel that it needs, a cast is carried out as it is without fuel. -/
theorem castWithFuel_agree {room : Nat} {d : Descriptor} (hcheck : d.check ctx depth = .ok ())
    (hroom : room + path.length = ctx.config.limits.maxDepth) (hfuel : needed ctx room depth ≤ fuel)
    (v : Value) (s : σ) :
    Program.Agree answer Eq s (castWithFuel ctx exhausted fuel d path v)
      (castWithin ctx (room + 1) d path v) := by
  -- on the fuel; its bound falls with each alternative that is entered and with each level
  induction fuel generalizing d depth room path v s with
  | zero =>
    -- some fuel is needed, since a type that compiles lies within the limit
    have hdepth := Descriptor.depth_lt_of_check hcheck
    unfold needed at hfuel
    omega
  | succ fuel ih =>
    obtain ⟨id, shape⟩ := d
    have hdepth := Descriptor.depth_lt_of_check hcheck
    cases hconverter : ctx.converter? id with
    | some c =>
      have hconvert : castWithFuel ctx exhausted (fuel + 1) (.node id shape) path v =
          Program.convert c v := by simp only [castWithFuel, hconverter]
      rw [hconvert, castWithin_of_converter hconverter]
      exact .refl (fun _ => rfl) _
    | none =>
      have hparts := Shape.check_parts (Descriptor.check_shape hcheck hconverter)
      by_cases hunion : ∃ alternatives, shape = .unionOf alternatives
      · obtain ⟨alternatives, rfl⟩ := hunion
        rw [castWithFuel_unionOf hconverter, castWithin_unionOf hconverter]
        -- the location stays and the alternatives are parts of the union
        have hless := needed_alternative room hdepth
        refine .firstOf (fun _ _ h => congrArg _ h) ?_ (fun s => .refl (fun _ => rfl) _) s
        rw [List.forall₂_map_left_iff, List.forall₂_map_right_iff, List.forall₂_same]
        exact fun d hd => ih (hparts d hd) hroom (by omega) v
      · have hunion : ∀ alternatives, shape ≠ .unionOf alternatives :=
          fun alternatives h => hunion ⟨alternatives, h⟩
        rw [castWithFuel_node hconverter hunion, castWithin_of_no_converter hconverter]
        -- the types that are cast below may be any, but there is less room
        have hbelow : ∀ {d : Descriptor} {depth room' : Nat}, d.check ctx depth = .ok () →
            room' ≤ room → ∀ path' : Path, room' = ctx.config.limits.maxDepth + 1 - path'.length →
            ∀ v s, Program.Agree answer Eq s
              (withinLimit ctx (castWithFuel ctx exhausted fuel) d path' v)
              (castWithin ctx room' d path' v) := by
          intro d depth' room' hcheck' hle path' hroom' v s
          refine withinLimit_agree hroom' fun less hless => ?_
          have hneeded := needed_below depth' hdepth (show less < room by omega)
          exact ih hcheck' (by omega) (by omega) v s
        have hpart : ∀ d ∈ shape.parts, PartsAgree answer .exact
            (withinLimit ctx (castWithFuel ctx exhausted fuel)) (castWithin ctx room) path d d := by
          refine fun d hd => ⟨rfl, fun segment => hbelow (hparts d hd) le_rfl _ ?_⟩
          rw [List.length_append, List.length_singleton]
          omega
        -- the types of parameters are entered two levels down, from no depth
        refine Shape.apply_agree_self hpart hunion (fun c => ⟨rfl, ?_⟩) v s
        intro shape hshape f hf segment
        have htype := (KeywordShape.type_of_ofCallable hshape hf).1
        refine ⟨rfl, fun segment' => hbelow htype (room.sub_le 1) _ ?_⟩
        simp only [List.length_append, List.length_singleton]
        omega

/-- Casting with a type that can be used never needs more rules at a time than there are locations
    in reach, times the nodes that a type may nest, whatever the signatures of the callables are.
    With fuel for so many the cast is carried out to its end, and `exhausted` is never come to. -/
theorem castWithFuel_eq_apply {d : Descriptor} {c : Coercion} (hcompile : compile ctx d = .ok c)
    (hfuel : (ctx.config.limits.maxDepth + 1) * ctx.config.limits.maxDescriptorDepth ≤ fuel)
    (exhausted : Program Value) (v : Value) (s : σ) :
    ((castWithFuel ctx exhausted fuel d [] v).run (logged answer)).run (s, []) =
      ((c.apply v).run (logged answer)).run (s, []) := by
  have hcheck : d.check ctx 0 = .ok () := by
    rw [compile] at hcompile
    cases hcheck : d.check ctx 0 with
    | error e => rw [hcheck] at hcompile; cases hcompile
    | ok _ => rfl
  obtain rfl := compile_eq_ok hcompile
  -- one level more than the limit is needed for the root
  have hneeded : needed ctx ctx.config.limits.maxDepth 0 ≤ fuel := by
    rw [Nat.succ_mul] at hfuel
    exact hfuel
  exact (castWithFuel_agree hcheck rfl hneeded v (s, [])).eq

end Enough

/-! ## A callable that takes calls of itself -/

/-- A context in which `m.f` takes a call, of itself or of something else, or nothing. Few locations
    and few types may lie within each other. -/
def recursiveContext : Context :=
  { oneParameterContext (.node 8 (.unionOf [callType, .node 9 (.primitive .none)])) .empty with
    config := { limits := { maxDepth := 6, maxDescriptorDepth := 3 } } }

/-- A call of `m.f` with a call of `m.f` without anything. -/
def callWithCall : Value :=
  .map [(.text "fn", .text "m.f"), (.text "kwargs", .map [(.text "x",
    .map [(.text "fn", .text "m.f"), (.text "kwargs", .map [(.text "x", .none)])])])]

/-- A call whose parameter is of the type of the call itself: the number of nested calls is not
    bounded by the type, and 21 units of fuel suffice. -/
theorem castWithFuel_eq_apply_recursive :
    compile recursiveContext callType = .ok ⟨callType, recursiveContext⟩ ∧
      (recursiveContext.config.limits.maxDepth + 1) *
        recursiveContext.config.limits.maxDescriptorDepth ≤ 21 ∧
      ((castWithFuel recursiveContext (.throw (.host "out of fuel")) 21 callType []
          callWithCall).run (logged echoHost)).run ((), []) =
        (((⟨callType, recursiveContext⟩ : Coercion).apply callWithCall).run (logged echoHost)).run
          ((), []) :=
  ⟨rfl, by decide, castWithFuel_eq_apply rfl (by decide) _ callWithCall ()⟩

/-- Two calls, the unions of what they take, and what the inner one takes are active at a time. -/
example :
    (((castWithFuel recursiveContext (.throw (.host "out of fuel")) 4 callType []
        callWithCall).run (logged echoHost)).run ((), [])).1 = .error (.host "out of fuel") ∧
      ((castWithFuel recursiveContext (.throw (.host "out of fuel")) 5 callType []
        callWithCall).run (logged echoHost)).run ((), []) =
          (((⟨callType, recursiveContext⟩ : Coercion).apply callWithCall).run
            (logged echoHost)).run ((), []) :=
  ⟨rfl, rfl⟩

end Conform
