import Conform.Proofs.Cast.Agree
import Conform.Proofs.Cast.Depth

/-!
# Unions within unions

A union tries its alternatives in order, and an alternative that is a union itself tries its own
before the next is tried. So only the order of those alternatives matters that are no unions
(`Descriptor.options`), and a union may be replaced by its alternatives wherever it is one
(`Descriptor.Flattens`). The cast stays the same but for what is written of the two types, and for
the number of alternatives that have been tried in vain.
-/

namespace Conform

/-! ## Options -/

mutual

/-- What is tried in turn: the options of the alternatives of a union, or else the type itself. A
    union that the host converts is not looked into. -/
def Descriptor.options (ctx : Context) : Descriptor → List Descriptor
  | .node id (.unionOf alternatives) =>
    if (ctx.converter? id).isNone then optionsOf ctx alternatives
    else [.node id (.unionOf alternatives)]
  | d => [d]

/-- The options of types, one after the other. -/
def optionsOf (ctx : Context) : List Descriptor → List Descriptor
  | [] => []
  | d :: rest => d.options ctx ++ optionsOf ctx rest

end

variable {ctx : Context} {room : Nat} {path : Path} {v : Value}

/-- The options of a list are those of its parts, in order. -/
theorem optionsOf_append (ds es : List Descriptor) :
    optionsOf ctx (ds ++ es) = optionsOf ctx ds ++ optionsOf ctx es := by
  induction ds with
  | nil => rfl
  | cons d rest ih => rw [List.cons_append, optionsOf, ih, optionsOf, List.append_assoc]

/-- A union has the options of its alternatives. -/
theorem Descriptor.options_unionOf {id : Nat} (h : ctx.converter? id = none)
    (alternatives : List Descriptor) :
    (Descriptor.node id (.unionOf alternatives)).options ctx = optionsOf ctx alternatives := by
  rw [options, h]
  rfl

/-- A converted type is one option, a union as any other. -/
theorem Descriptor.options_of_converter {d : Descriptor} {c : Converter}
    (h : ctx.converter? d.id = some c) : d.options ctx = [d] := by
  obtain ⟨id, shape⟩ := d
  have hid : ctx.converter? id = some c := h
  cases shape with
  | unionOf alternatives => rw [options, hid]; rfl
  | _ => rfl

/-- A type that is not a union is one option. -/
theorem Descriptor.options_of_ne {id : Nat} {shape : Shape}
    (h : ∀ alternatives, shape ≠ .unionOf alternatives) :
    (Descriptor.node id shape).options ctx = [.node id shape] := by
  cases shape with
  | unionOf alternatives => exact absurd rfl (h alternatives)
  | _ => rfl

section Run

variable {σ : Type} {answer : (request : Request) → StateM σ request.Reply}

/-- The casts of a value at one location to several types. -/
abbrev castsTo (ctx : Context) (room : Nat) (path : Path) (v : Value) (ds : List Descriptor) :
    List (Program Value) :=
  ds.map fun d => castWithin ctx room d path v

/-- The casts to a list are those to its parts, in order. -/
theorem castsTo_append (ds es : List Descriptor) :
    castsTo ctx room path v (ds ++ es) = castsTo ctx room path v ds ++ castsTo ctx room path v es :=
  List.map_append

mutual

/-- In front of other programs, a type is tried as its options are. -/
theorem Descriptor.run_options (other : Program Value) : ∀ (d : Descriptor) (s : σ),
    (((castWithin ctx (room + 1) d path v).inUnion.orElse fun _ => other).run answer).run s =
      ((Program.firstOf other (castsTo ctx (room + 1) path v (d.options ctx))).run answer).run s
  | .node id shape, s => by
    cases hconverter : ctx.converter? id with
    | some c => rw [Descriptor.options_of_converter hconverter]; rfl
    | none =>
      by_cases hunion : ∃ alternatives, shape = .unionOf alternatives
      · obtain ⟨alternatives, rfl⟩ := hunion
        rw [Descriptor.options_unionOf hconverter, castWithin_unionOf hconverter,
          Program.run_inUnion_orElse]
        -- the union inside goes on with the same program as the one around it, in place of refusing
        -- itself
        exact (Program.run_orElse_firstOf _ _ s).trans (run_optionsOf other alternatives s)
      -- any other type is its own only option
      · rw [Descriptor.options_of_ne fun alternatives h => hunion ⟨alternatives, h⟩]
        rfl

/-- Types that are tried one after the other are tried as their options are. -/
theorem run_optionsOf (other : Program Value) : ∀ (ds : List Descriptor) (s : σ),
    ((Program.firstOf other (castsTo ctx (room + 1) path v ds)).run answer).run s =
      ((Program.firstOf other (castsTo ctx (room + 1) path v (optionsOf ctx ds))).run answer).run s
  | [], _ => rfl
  | d :: rest, s => by
    have hfirst := Descriptor.run_options
      (Program.firstOf other (castsTo ctx (room + 1) path v rest)) d s
    have hrest := Program.run_firstOf_congr (run_optionsOf other rest)
      (castsTo ctx (room + 1) path v (d.options ctx)) s
    rw [optionsOf, castsTo_append, Program.firstOf_append]
    exact hfirst.trans hrest

end

/-- A union tries its options. -/
theorem run_castWithin_unionOf {id : Nat} (hconverter : ctx.converter? id = none)
    (alternatives : List Descriptor) (s : σ) :
    ((castWithin ctx (room + 1) (.node id (.unionOf alternatives)) path v).run answer).run s =
      ((Program.firstOf (mismatch path v (Shape.unionOf alternatives).render
          (.unionExhausted alternatives.length))
        (castsTo ctx (room + 1) path v (optionsOf ctx alternatives))).run answer).run s := by
  rw [castWithin_unionOf hconverter]
  exact run_optionsOf _ alternatives s

end Run

/-! ## Flattening -/

/-- The same failure but for what is written of types, and for the number of alternatives that have
    been tried in vain. -/
inductive CastError.SameButForUnions : CastError → CastError → Prop
  | same (e : CastError) : SameButForUnions e e
  | expected (location : Location) (v : Value) (expected expected' : String) (reason : Mismatch) :
    SameButForUnions (.coercion ⟨location, v, expected, reason⟩)
      (.coercion ⟨location, v, expected', reason⟩)
  | exhausted (location : Location) (v : Value) (expected expected' : String) (count count' : Nat) :
    SameButForUnions (.coercion ⟨location, v, expected, .unionExhausted count⟩)
      (.coercion ⟨location, v, expected', .unionExhausted count'⟩)
  | args (descriptor descriptor' found : String) :
    SameButForUnions (.config (.argsNotSequence descriptor found))
      (.config (.argsNotSequence descriptor' found))
  | kwargs (descriptor descriptor' found : String) :
    SameButForUnions (.config (.kwargsNotMapping descriptor found))
      (.config (.kwargsNotMapping descriptor' found))

/-- What is written of types does not matter. -/
def Comparison.unions : Comparison where
  texts _ _ := True
  similar := CastError.SameButForUnions
  texts_refl _ := trivial
  similar_refl := .same
  isCoercion e e' h := by cases h <;> rfl
  refused _ path v reason := .expected (.ofPath path) v _ _ reason
  args _ found := .args _ _ found
  kwargs _ found := .kwargs _ _ found

/-- A union that is an alternative of another is replaced by its own alternatives, at one position
    of a type. Neither of the two has a converter. The nodes above may become other nodes with the
    same converters. -/
inductive Descriptor.Flattens (ctx : Context) : Descriptor → Descriptor → Prop
  | union {id id' inner : Nat} (hid : ctx.converter? id = none) (hid' : ctx.converter? id' = none)
      (hinner : ctx.converter? inner = none) (before alternatives after : List Descriptor) :
    Flattens ctx (.node id (.unionOf (before ++ .node inner (.unionOf alternatives) :: after)))
      (.node id' (.unionOf (before ++ alternatives ++ after)))
  | part {id id' : Nat} {shape : Shape} {d d' : Descriptor} (before after : List Descriptor)
      (converters : ctx.converter? id' = ctx.converter? id)
      (position : shape.parts = before ++ d :: after) (flattens : Flattens ctx d d') :
    Flattens ctx (.node id shape) (.node id' (shape.withParts (before ++ d' :: after)))

/-- One part is replaced and the others stay. -/
theorem forall₂_replace {rel : Descriptor → Descriptor → Prop} (hrefl : ∀ d, rel d d)
    {d d' : Descriptor} (h : rel d d') (before after : List Descriptor) :
    List.Forall₂ rel (before ++ d :: after) (before ++ d' :: after) :=
  List.rel_append (List.forall₂_same.mpr fun d _ => hrefl d)
    (.cons h (List.forall₂_same.mpr fun d _ => hrefl d))

section Flatten

variable {σ : Type} {answer : (request : Request) → StateM σ request.Reply}

/-- A type with a union within a union is cast as the flattened one, whatever room there is. -/
theorem castWithin_flattens {d d' : Descriptor} (h : d.Flattens ctx d') (room : Nat) (path : Path)
    (v : Value) (s : σ) :
    Program.Agree answer Comparison.unions.similar s (castWithin ctx room d path v)
      (castWithin ctx room d' path v) := by
  -- the union itself, or a part of the type in which it lies
  induction h generalizing room path v s with
  | @union id id' inner hid hid' hinner before alternatives after =>
    cases room with
    | zero => exact mismatch_agree trivial
    | succ room =>
      -- the options are the same, so that the first that decides is
      have hoptions : optionsOf ctx (before ++ .node inner (.unionOf alternatives) :: after) =
          optionsOf ctx (before ++ alternatives ++ after) := by
        rw [optionsOf_append, optionsOf, Descriptor.options_unionOf hinner, ← optionsOf_append,
          ← optionsOf_append, List.append_assoc]
      rw [Program.Agree, run_castWithin_unionOf hid, run_castWithin_unionOf hid', hoptions]
      refine Program.Agree.firstOf Comparison.unions.isCoercion
        (List.forall₂_same.mpr fun p _ s => ?_) (fun s => .throw (.exhausted ..)) s
      exact .refl Comparison.unions.similar_refl p
  | @part id id' shape d d' before after hconverters hposition _ ih =>
    cases room with
    | zero => exact mismatch_agree trivial
    | succ room =>
      -- all other parts are the same on both sides
      have hsame : ∀ d room path v s, Program.Agree answer Comparison.unions.similar s
          (castWithin ctx room d path v) (castWithin ctx room d path v) :=
        fun _ _ _ _ _ => .refl Comparison.unions.similar_refl _
      have hnodes : NodesAgree answer .unions ctx ctx.conversions room path shape
          (before ++ d' :: after) := by
        refine ⟨trivial, ?_, fun symbol _ _ _ _ _ c _ => ⟨rfl, fun shape _ f _ segment => ?_⟩⟩
        · rw [hposition]
          exact forall₂_replace (fun d => ⟨trivial, fun room _ => hsame d room⟩)
            ⟨trivial, fun room _ => ih room⟩ before after
        · exact ⟨trivial, fun segment => hsame f.type _ _⟩
      exact castWithin_node_agree hconverters (fun _ => hnodes) v s

/-- Flattening a union within a union changes a cast in nothing but what is written of types, and
    the number of alternatives that have been tried in vain: it gives the same value, or the same
    failure, after the same requests to the host. Wherever a union stands, the first of its options
    that does not refuse the value decides. -/
theorem flattened_union_casts_alike {d d' : Descriptor} {c c' : Coercion} (h : d.Flattens ctx d')
    (hd : compile ctx d = .ok c) (hd' : compile ctx d' = .ok c') :
    (∀ v s, AgreeOn CastError.SameButForUnions (castRun answer s ctx d v)
      (castRun answer s ctx d' v)) ∧
    ∀ id alternatives, ctx.converter? id = none → ∀ room path v s,
      Program.DecidedInOrder answer
        (mismatch path v (Shape.unionOf alternatives).render (.unionExhausted alternatives.length))
        (castsTo ctx (room + 1) path v (optionsOf ctx alternatives)) s
        (((castWithin ctx (room + 1) (.node id (.unionOf alternatives)) path v).run answer).run
          s) := by
  refine ⟨fun v s => ?_, fun id alternatives hconverter room path v s => ?_⟩
  · rw [castRun_of_compile hd, castRun_of_compile hd']
    exact castWithin_flattens h (ctx.config.limits.maxDepth + 1) [] v (s, [])
  -- a union is the first of the casts to its options
  · rw [run_castWithin_unionOf hconverter]
    exact Program.decidedInOrder_firstOf ..

end Flatten

/-! ## Unions in a list and in a call -/

/-- A host that refuses whatever it is to convert, and counts how often it is asked. -/
def refusingHost : (request : Request) → StateM Nat request.Reply
  | .convert _ v => do
    modify (· + 1)
    pure (.error (refused [] v "Nothing" .wrongKind))
  | .call .. => pure (.error (.raised "not callable"))
  | .produce _ => pure .none

/-- A context in which the host converts one type. -/
def convertingContext : Context := { conversions := ⟨[(.node 4 .any, ⟨0⟩)]⟩ }

/-- A number, a text and something that fits none of the types. -/
def mixedList : Value := .list [.int 1, .text "a", .none]

/-- Lists of unions with a union in the middle. The host converts its first alternative. -/
def nestedUnions : Descriptor :=
  .node 0 (.listOf (.node 1 (.unionOf [.node 2 (.primitive .bytes),
    .node 3 (.unionOf [.node 4 .any, .node 5 (.primitive .int)]), .node 6 (.primitive .text)])))

/-- The same lists with the union in the middle flattened. -/
def flatUnions : Descriptor :=
  .node 10 (.listOf (.node 11 (.unionOf [.node 2 (.primitive .bytes), .node 4 .any,
    .node 5 (.primitive .int), .node 6 (.primitive .text)])))

/-- The inner union refuses the text, as its alternatives do one by one. -/
theorem flattened_union_casts_alike_list :
    nestedUnions.Flattens convertingContext flatUnions ∧
      compile convertingContext nestedUnions = .ok ⟨nestedUnions, convertingContext⟩ ∧
      compile convertingContext flatUnions = .ok ⟨flatUnions, convertingContext⟩ ∧
      AgreeOn CastError.SameButForUnions
        (castRun refusingHost 0 convertingContext nestedUnions mixedList)
        (castRun refusingHost 0 convertingContext flatUnions mixedList) := by
  have hflattens : nestedUnions.Flattens convertingContext flatUnions :=
    .part [] [] rfl rfl (.union rfl rfl rfl [.node 2 (.primitive .bytes)]
      [.node 4 .any, .node 5 (.primitive .int)] [.node 6 (.primitive .text)])
  exact ⟨hflattens, rfl, rfl, (flattened_union_casts_alike hflattens rfl rfl).1 _ 0⟩

/-- Calls of a symbol whose positional arguments are a union within a union. -/
def callWithNestedUnions : Descriptor :=
  .node 0 (.invocation (.node 1 (.symbolPath .unrestricted))
    (.node 2 (.unionOf [.node 3 (.unionOf [.node 4 (.primitive .int)])]))
    (.node 5 (.mapOf (.node 6 (.primitive .text)) (.node 7 .any))))

/-- The same calls with the unions flattened. -/
def callWithFlatUnions : Descriptor :=
  .node 10 (.invocation (.node 1 (.symbolPath .unrestricted))
    (.node 12 (.unionOf [.node 4 (.primitive .int)]))
    (.node 5 (.mapOf (.node 6 (.primitive .text)) (.node 7 .any))))

/-- A call of `m.f` with a number in the place of its positional arguments. -/
def callWithNumber : Value :=
  .map [(.text "fn", .text "m.f"), (.text "args", .int 5)]

/-- What is written of the types can be part of a failure that is no refusal: the positional
    arguments are no sequence, and the failure names the type that they were cast to. -/
theorem not_flattened_union_casts_same :
    callWithNestedUnions.Flattens rowsContext callWithFlatUnions ∧
      compile rowsContext callWithNestedUnions = .ok ⟨callWithNestedUnions, rowsContext⟩ ∧
      compile rowsContext callWithFlatUnions = .ok ⟨callWithFlatUnions, rowsContext⟩ ∧
      ¬ AgreeOn (fun e e' => e = e' ∨ e.isCoercion = true ∧ e.SameButForUnions e')
        (castRun echoHost () rowsContext callWithNestedUnions callWithNumber)
        (castRun echoHost () rowsContext callWithFlatUnions callWithNumber) := by
  refine ⟨.part [_] [_] rfl rfl (.union rfl rfl rfl [] [_] []), rfl, rfl, ?_⟩
  intro h
  -- the arguments are no sequence, and the error names their type
  have hnested : castRun echoHost () rowsContext callWithNestedUnions callWithNumber =
      (.error (.config (.argsNotSequence "Union[Union[Int]]" "Int")), (), []) := rfl
  have hflat : castRun echoHost () rowsContext callWithFlatUnions callWithNumber =
      (.error (.config (.argsNotSequence "Union[Int]" "Int")), (), []) := rfl
  rw [hnested, hflat] at h
  cases h with
  | failure h =>
    obtain h | ⟨h, -⟩ := h
    · exact absurd (CastError.config.inj h) (by decide)
    · cases h

end Conform
