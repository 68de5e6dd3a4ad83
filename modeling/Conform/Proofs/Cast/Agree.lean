import Conform.Proofs.Cast.Inspected
import Conform.Proofs.Descriptor.Replacement
import Conform.Proofs.Program.Agree

/-!
# Rules of types whose parts are cast alike

One statement for each rule of a cast: with two types for each part, and two ways of casting them
whose runs agree, the runs of the rule agree. `Shape.apply_agree` puts them together for all shapes
but unions, whose alternatives are cast at the location of the union itself, and
`castWithin_node_agree` for all types.

How far the failures must agree is up to a `Comparison`.
-/

namespace Conform

/-- When what is written of two types counts as the same, and when two failures do. -/
structure Comparison where
  texts : String → String → Prop
  similar : CastError → CastError → Prop
  texts_refl : ∀ text, texts text text
  similar_refl : ∀ e, similar e e
  isCoercion : ∀ e e', similar e e' → e.isCoercion = e'.isCoercion
  refused : ∀ {expected expected' : String}, texts expected expected' → ∀ path v reason,
    similar (refused path v expected reason) (refused path v expected' reason)
  args : ∀ {text text' : String}, texts text text' → ∀ found,
    similar (.config (.argsNotSequence text found)) (.config (.argsNotSequence text' found))
  kwargs : ∀ {text text' : String}, texts text text' → ∀ found,
    similar (.config (.kwargsNotMapping text found)) (.config (.kwargsNotMapping text' found))

/-- Only the same texts and the same failures count as the same. -/
def Comparison.exact : Comparison where
  texts := Eq
  similar := Eq
  texts_refl _ := rfl
  similar_refl _ := rfl
  isCoercion _ _ h := by rw [h]
  refused h _ _ _ := by rw [h]
  args h _ := by rw [h]
  kwargs h _ := by rw [h]

/-- The same context with other conversions. -/
def Context.withConversions (conversions : Conversions) (ctx : Context) : Context :=
  { ctx with conversions }

variable {σ : Type} {answer : (request : Request) → StateM σ request.Reply} {cmp : Comparison}

/-- Right below a location, the one type is cast by `enter` as the other is by `enter'`. -/
structure PartsAgree (answer : (request : Request) → StateM σ request.Reply) (cmp : Comparison)
    (enter enter' : Enter) (path : Path) (d d' : Descriptor) : Prop where
  text : cmp.texts d.render d'.render
  casts : ∀ segment v s, Program.Agree answer cmp.similar s (enter d (path ++ [segment]) v)
    (enter' d' (path ++ [segment]) v)

variable {enter enter' enterBelow enterBelow' : Enter} {path : Path} {v : Value} {s : σ}
  {expected expected' : String}

/-- A value is refused alike if what was expected of it counts as the same. -/
theorem mismatch_agree {α : Type} {reason : Mismatch} (h : cmp.texts expected expected') :
    Program.Agree answer cmp.similar s (mismatch path v expected reason : Program α)
      (mismatch path v expected' reason) :=
  .throw (cmp.refused h path v reason)

/-! ## Containers -/

/-- Each item is cast alike from the state in which the items before it have left the host. -/
theorem castItems_agree {element element' : Descriptor}
    (h : PartsAgree answer cmp enter enter' path element element') (i : Nat) (items : List Value)
    (s : σ) :
    Program.Agree answer cmp.similar s (castItems enter element path i items)
      (castItems enter' element' path i items) := by
  induction items generalizing i s with
  | nil => exact .pure []
  -- both sides are in one state behind the first item, since its runs agree
  | cons x rest ih => exact (h.casts ..).bind fun w s' _ => (ih ..).bind fun ws s'' _ => .pure _

/-- Whether there are items at all is up to the value. -/
theorem castElements_agree {element element' : Descriptor}
    (h : PartsAgree answer cmp enter enter' path element element')
    (hexpected : cmp.texts expected expected') :
    Program.Agree answer cmp.similar s (castElements enter element expected path v)
      (castElements enter' element' expected' path v) := by
  rw [castElements, castElements]
  cases v.elements? with
  | some items => exact castItems_agree h 0 items s
  | none => exact mismatch_agree hexpected

/-- The keys are those of the values; the types only show in the refusal. -/
theorem hashItems_agree {element element' : Descriptor}
    (h : cmp.texts element.render element'.render) (i : Nat) (items : List Value) (s : σ) :
    Program.Agree answer cmp.similar s (hashItems element path i items)
      (hashItems element' path i items) := by
  induction items generalizing i s with
  | nil => exact .pure []
  | cons x rest ih =>
    rw [hashItems, hashItems]
    cases x.toKey? with
    | some k => exact (ih ..).bind fun keys s' _ => .pure _
    | none => exact mismatch_agree h

/-- A set is cast alike if its elements are, since it is then hashed alike. -/
theorem castSet_agree {element element' : Descriptor}
    (h : PartsAgree answer cmp enter enter' path element element')
    (hexpected : cmp.texts expected expected') :
    Program.Agree answer cmp.similar s (castSet enter element expected path v)
      (castSet enter' element' expected' path v) := by
  refine (castElements_agree h hexpected).bind fun items s' _ => ?_
  exact (hashItems_agree h.text 0 items s').bind fun keys s'' _ => .pure _

/-- The entries are cast in order, each key before its value. -/
theorem castEntries_agree {key key' value value' : Descriptor}
    (hkey : PartsAgree answer cmp enter enter' path key key')
    (hvalue : PartsAgree answer cmp enter enter' path value value') (entries : List (Key × Value))
    (s : σ) :
    Program.Agree answer cmp.similar s (castEntries enter key value path entries)
      (castEntries enter' key' value' path entries) := by
  induction entries generalizing s with
  | nil => exact .pure []
  | cons entry rest ih =>
    -- only what the key is cast to decides whether the value is reached
    obtain ⟨k, x⟩ := entry
    rw [castEntries, castEntries]
    refine (hkey.casts ..).bind fun castKey s' _ => ?_
    cases castKey.toKey? with
    | some newKey => exact (hvalue.casts ..).bind fun w s₁ _ => (ih s₁).bind fun ws s₂ _ => .pure _
    | none => exact mismatch_agree hkey.text

/-- A map is cast alike if its keys and its values are. -/
theorem castMap_agree {key key' value value' : Descriptor}
    (hkey : PartsAgree answer cmp enter enter' path key key')
    (hvalue : PartsAgree answer cmp enter enter' path value value')
    (hexpected : cmp.texts expected expected') :
    Program.Agree answer cmp.similar s (castMap enter key value expected path v)
      (castMap enter' key' value' expected' path v) := by
  unfold castMap
  split
  · exact (castEntries_agree hkey hvalue _ s).bind fun entries s' _ => .pure _
  · exact mismatch_agree hexpected

/-- The items of a tuple are cast alike if those at each position are. -/
theorem castEach_agree {elements elements' : List Descriptor}
    (h : List.Forall₂ (PartsAgree answer cmp enter enter' path) elements elements') (i : Nat)
    (items : List Value) (s : σ) :
    Program.Agree answer cmp.similar s (castEach enter path i elements items)
      (castEach enter' path i elements' items) := by
  -- for lists of any lengths: the shorter one ends it
  induction h generalizing i items s with
  | nil => exact .pure []
  | cons hd _ ih =>
    cases items with
    | nil => exact .pure []
    | cons x items => exact (hd.casts ..).bind fun w s' _ => (ih ..).bind fun ws s'' _ => .pure _

/-- Two tuple types of related components have the same arity. -/
theorem castTuple_agree {elements elements' : List Descriptor}
    (h : List.Forall₂ (PartsAgree answer cmp enter enter' path) elements elements')
    (hexpected : cmp.texts expected expected') :
    Program.Agree answer cmp.similar s (castTuple enter elements expected path v)
      (castTuple enter' elements' expected' path v) := by
  -- one number of components on both sides, hence one arity to check
  rw [castTuple, castTuple, ← h.length_eq]
  cases v.sequence? with
  | some items =>
    simp only
    split
    · exact (castEach_agree h 0 items s).bind fun ws s' _ => .pure _
    · exact mismatch_agree hexpected
  | none => exact mismatch_agree hexpected

/-! ## Named fields -/

/-- Corresponding fields are looked up under the same name and have the same default. -/
theorem castFields_agree {fields fields' : List (Field Descriptor)}
    (h : List.Forall₂ (Field.Corresponds (PartsAgree answer cmp enter enter' path)) fields fields')
    (entries : List (Key × Value)) (s : σ) :
    Program.Agree answer cmp.similar s (KeywordShape.castFields enter path entries fields)
      (KeywordShape.castFields enter' path entries fields') := by
  induction h generalizing s with
  | nil => exact .pure []
  | @cons f f' rest rest' hf _ ih =>
    -- after this both sides look for the same name, and make the same default
    rw [KeywordShape.castFields, KeywordShape.castFields, hf.name, hf.default]
    cases Entries.find? (Key.text f.name) entries with
    | some x => exact (hf.type.casts ..).bind fun w s₁ _ => (ih s₁).bind fun ws s₂ _ => .pure _
    | none =>
      simp only
      cases f.default? with
      | some d => exact (Program.Agree.refl cmp.similar_refl _).bind fun w s₁ _ =>
          (ih s₁).bind fun ws s₂ _ => .pure _
      | none => exact ih s

/-- Two shapes that take the same names, of which the same are required. -/
structure KeywordShape.Agrees (answer : (request : Request) → StateM σ request.Reply)
    (cmp : Comparison) (enter enter' : Enter) (path : Path) (shape shape' : KeywordShape) :
    Prop where
  label : cmp.texts shape.label shape'.label
  fields : List.Forall₂ (Field.Corresponds (PartsAgree answer cmp enter enter' path)) shape.fields
    shape'.fields
  required : shape'.required = shape.required

/-- Corresponding fields have the same names, in the same order. -/
theorem Field.map_name_eq {rel : Descriptor → Descriptor → Prop}
    {fields fields' : List (Field Descriptor)}
    (h : List.Forall₂ (Field.Corresponds rel) fields fields') :
    fields'.map Field.name = fields.map Field.name := by
  induction h with
  | nil => rfl
  | cons hf _ ih => rw [List.map_cons, List.map_cons, ih, hf.name]

/-- Corresponding fields are required alike. -/
theorem Field.requiredNames_eq {rel : Descriptor → Descriptor → Prop}
    {fields fields' : List (Field Descriptor)}
    (h : List.Forall₂ (Field.Corresponds rel) fields fields') :
    requiredNames fields' = requiredNames fields := by
  suffices (fields'.filter fun f => f.default?.isNone).map Field.name =
      (fields.filter fun f => f.default?.isNone).map Field.name from congrArg sortNames this
  -- the fields that are kept by the filter correspond one by one, as their defaults do
  induction h with
  | nil => rfl
  | cons hf _ ih =>
    rw [List.filter_cons, List.filter_cons, hf.default]
    split
    · rw [List.map_cons, List.map_cons, ih, hf.name]
    · exact ih

/-- Two shapes that agree declare the same keys. -/
theorem KeywordShape.Agrees.declares {shape shape' : KeywordShape}
    (h : shape.Agrees answer cmp enter enter' path shape') (k : Key) :
    shape'.declares k = shape.declares k := by
  -- what a shape declares depends on the names of its fields alone
  have hany : ∀ name (fields : List (Field Descriptor)),
      (fields.any fun f => f.name == name) = (fields.map Field.name).any (· == name) :=
    fun name fields => by rw [List.any_map]; rfl
  cases k with
  | text name =>
    rw [KeywordShape.declares, KeywordShape.declares, hany, hany, Field.map_name_eq h.fields]
  | _ => rfl

/-- The same names are missing or unknown, so that both refuse the map or both cast its fields. -/
theorem KeywordShape.cast_agree {shape shape' : KeywordShape}
    (h : shape.Agrees answer cmp enter enter' path shape') :
    Program.Agree answer cmp.similar s (shape.cast enter path v) (shape'.cast enter' path v) := by
  unfold KeywordShape.cast
  split
  next entries =>
    -- the names are compared before any field is cast
    have hmissing : shape'.missing entries = shape.missing entries := by
      rw [missing, missing, h.required]
    have hunknown : shape'.unknown entries = shape.unknown entries := by
      rw [unknown, unknown, funext h.declares]
    simp only [hmissing, hunknown]
    split
    · exact castFields_agree h.fields entries s
    · exact mismatch_agree h.label
  next => exact mismatch_agree h.label

/-- Records are made by the same constructor of arguments that are cast alike. -/
theorem castRecord_agree {name : String} {fields fields' : List (Field Descriptor)}
    {constructor? : Option Callable}
    (h : List.Forall₂ (Field.Corresponds (PartsAgree answer cmp enter enter' path)) fields
      fields') :
    Program.Agree answer cmp.similar s (castRecord enter name fields constructor? path v)
      (castRecord enter' name fields' constructor? path v) := by
  have hshape : (KeywordShape.ofRecord name fields).Agrees answer cmp enter enter' path
      (KeywordShape.ofRecord name fields') := ⟨cmp.texts_refl name, h, Field.requiredNames_eq h⟩
  refine (KeywordShape.cast_agree hshape).bind fun arguments s' _ => ?_
  exact .refl cmp.similar_refl _

/-- Partial records are cast alike if their fields are. -/
theorem castPartialRecord_agree {name : String} {fields fields' : List (String × Descriptor)}
    {total : Bool}
    (h : (KeywordShape.ofPartialRecord name fields total).Agrees answer cmp enter enter' path
      (KeywordShape.ofPartialRecord name fields' total)) :
    Program.Agree answer cmp.similar s (castPartialRecord enter name fields total path v)
      (castPartialRecord enter' name fields' total path v) :=
  (KeywordShape.cast_agree h).bind fun _ _ _ => .pure _

/-! ## Calls -/

/-- The same callable is found if the reference is cast alike. -/
theorem callTarget_agree {keys : EnvelopeKeys} {symbol symbol' : Descriptor}
    (h : PartsAgree answer cmp enter enter' path symbol symbol')
    (hexpected : cmp.texts expected expected') :
    Program.Agree answer cmp.similar s (callTarget enter keys symbol expected path v)
      (callTarget enter' keys symbol' expected' path v) := by
  unfold callTarget
  split
  next envelope =>
    cases Entries.find? (Key.text keys.callable) envelope with
    | none => exact mismatch_agree hexpected
    | some reference =>
      refine (h.casts ..).bind fun target s' _ => ?_
      -- the second error is raised at the same path, whatever the target is instead
      cases target with
      | callable c => exact .pure _
      | _ => exact mismatch_agree hexpected
  next => exact mismatch_agree hexpected

/-- Whether a value is a sequence does not depend on the types that are blamed. -/
theorem positionalArguments_agree {args args' : Descriptor}
    (h : cmp.texts args.render args'.render) :
    Program.Agree answer cmp.similar s (positionalArguments args v)
      (positionalArguments args' v) := by
  rw [positionalArguments, positionalArguments]
  cases v.sequence? with
  | some items => exact .pure items
  | none => exact .throw (cmp.args h _)

/-- Whether a value is a map from texts does not depend on the type of the keyword arguments. -/
theorem keywordArguments_agree {kwargs kwargs' : Descriptor}
    (h : cmp.texts kwargs.render kwargs'.render) :
    Program.Agree answer cmp.similar s (keywordArguments kwargs v)
      (keywordArguments kwargs' v) := by
  simp only [keywordArguments]
  -- on whether there are arguments, not on the value that they come from
  split
  · exact .pure _
  · exact .throw (cmp.kwargs h _)

/-- An invocation agrees stage by stage, up to the call of the same callable with the same
    arguments. -/
theorem castInvocation_agree {ctx : Context} {symbol symbol' args args' kwargs kwargs' : Descriptor}
    (hsymbol : PartsAgree answer cmp enter enter' path symbol symbol')
    (hargs : PartsAgree answer cmp enter enter' path args args')
    (hkwargs : PartsAgree answer cmp enter enter' path kwargs kwargs')
    (hexpected : cmp.texts expected expected') :
    Program.Agree answer cmp.similar s (castInvocation ctx enter symbol args kwargs expected path v)
      (castInvocation ctx enter' symbol' args' kwargs' expected' path v) := by
  -- stage by stage, each of which gives the same in both and leaves the same state
  refine (callTarget_agree hsymbol hexpected).bind fun found s₁ _ => ?_
  refine (hargs.casts ..).bind fun castArgs s₂ _ => ?_
  refine (positionalArguments_agree hargs.text).bind fun positional s₃ _ => ?_
  refine (hkwargs.casts ..).bind fun castKwargs s₄ _ => ?_
  refine (keywordArguments_agree hkwargs.text).bind fun keyword s₅ _ => ?_
  -- the signature is looked up by the callable alone, so that the call is the same
  exact .refl cmp.similar_refl _

/-- The signature of a callable is read in the same way in two contexts, and its parameters are cast
    alike two levels below a location. -/
structure SignaturesAgree (answer : (request : Request) → StateM σ request.Reply)
    (cmp : Comparison) (ctx ctx' : Context) (enterBelow enterBelow' : Enter) (path : Path)
    (c : Callable) : Prop where
  shape : KeywordShape.ofCallable ctx' c = KeywordShape.ofCallable ctx c
  parameters : ∀ shape, KeywordShape.ofCallable ctx c = .ok shape → ∀ f ∈ shape.fields,
    ∀ segment, PartsAgree answer cmp enterBelow enterBelow' (path ++ [segment]) f.type f.type

/-- Nothing is assumed of callables that the cast of the reference does not come to. -/
theorem castInspectedInvocation_agree {ctx : Context} {conversions : Conversions}
    {symbol symbol' : Descriptor} (hsymbol : PartsAgree answer cmp enter enter' path symbol symbol')
    (hsignatures : ∀ reference segment s s' c,
      ((enter symbol (path ++ [segment]) reference).run answer).run s = (.ok (.callable c), s') →
      SignaturesAgree answer cmp ctx (ctx.withConversions conversions) enterBelow enterBelow' path
        c)
    (hexpected : cmp.texts expected expected') :
    Program.Agree answer cmp.similar s
      (castInspectedInvocation ctx enter enterBelow symbol expected path v)
      (castInspectedInvocation (ctx.withConversions conversions) enter' enterBelow' symbol'
        expected' path v) := by
  refine (callTarget_agree hsymbol hexpected).bind fun found s₁ hfound => ?_
  obtain ⟨envelope, c⟩ := found
  -- the callable comes of the cast of a reference, which is all that is known of it
  obtain ⟨-, reference, -, htarget⟩ := callTarget_run_ok hfound
  have hsignature := hsignatures _ _ _ _ c htarget
  simp only [hsignature.shape]
  cases hshape : KeywordShape.ofCallable ctx c with
  | error e => exact .refl cmp.similar_refl _
  | ok shape =>
    have hparameters := hsignature.parameters shape hshape
    have hfields : shape.Agrees answer cmp enterBelow enterBelow'
        (path ++ [.field ctx.config.envelope.kwargs]) shape :=
      ⟨cmp.texts_refl _, List.forall₂_same.mpr fun f hf => ⟨rfl, rfl, hparameters f hf _⟩, rfl⟩
    refine (Program.Agree.refl cmp.similar_refl _).bind fun shape' s₂ hrun => ?_
    -- both go on with the shape that has been found
    cases hrun
    exact (KeywordShape.cast_agree hfields).bind fun keyword s₃ _ => .refl cmp.similar_refl _

/-! ## Shapes -/

/-- The rule of a shape runs alike for parts that are cast alike, whatever conversions there are:
    they are those of the parts. -/
theorem Shape.apply_agree {ctx : Context} {conversions : Conversions} {shape : Shape}
    {parts : List Descriptor}
    (hparts : List.Forall₂ (PartsAgree answer cmp enter enter' path) shape.parts parts)
    (hexpected : cmp.texts shape.render (shape.withParts parts).render)
    (hunion : ∀ alternatives, shape ≠ .unionOf alternatives)
    (hsignatures : ∀ symbol, shape = .inspectedInvocation symbol → ∀ reference segment s s' c,
      ((enter symbol (path ++ [segment]) reference).run answer).run s = (.ok (.callable c), s') →
      SignaturesAgree answer cmp ctx (ctx.withConversions conversions) enterBelow enterBelow'
        path c) (v : Value) (s : σ) :
    Program.Agree answer cmp.similar s (shape.apply ctx enter enterBelow path v)
      ((shape.withParts parts).apply (ctx.withConversions conversions) enter' enterBelow' path
        v) := by
  cases shape with
  | any | primitive | float | complex | decimal | literal | symbolPath =>
    exact .refl cmp.similar_refl _
  -- the parts of a node are listed in the order of its fields, which the lemmas on `withParts` undo
  | record name fields constructor? =>
    exact castRecord_agree (Field.corresponds_withParts hparts)
  | partialRecord name fields total =>
    refine castPartialRecord_agree ⟨cmp.texts_refl name,
      Field.corresponds_withParts_of_entries hparts, ?_⟩
    -- names are required of a total type only, and corresponding fields have the same names
    show (if total then sortNames (Entries.keys _) else []) = _
    rw [map_fst_withParts hparts.length_eq]
    rfl
  | listOf | queueOf =>
    cases hparts with
    | cons hpart hnil =>
      cases hnil
      exact (castElements_agree hpart hexpected).bind fun items s' _ => .pure _
  | setOf =>
    cases hparts with
    | cons hpart hnil =>
      cases hnil
      exact castSet_agree hpart hexpected
  | mapOf =>
    cases hparts with
    | cons hkey hrest =>
      cases hrest with
      | cons hvalue hnil =>
        cases hnil
        exact castMap_agree hkey hvalue hexpected
  | tupleOf => exact castTuple_agree hparts hexpected
  -- the alternatives of a union are tried without descending, which is not for this lemma
  | unionOf alternatives => exact absurd rfl (hunion alternatives)
  | invocation =>
    cases hparts with
    | cons hpath hrest =>
      cases hrest with
      | cons hargs hrest =>
        cases hrest with
        | cons hkwargs hnil =>
          cases hnil
          exact castInvocation_agree hpath hargs hkwargs hexpected
  | inspectedInvocation symbol =>
    cases hparts with
    | cons hpath hnil =>
      cases hnil
      exact castInspectedInvocation_agree hpath (hsignatures symbol rfl) hexpected

/-- One shape runs alike with two ways of casting its parts, and the parameters of what it may
    call. -/
theorem Shape.apply_agree_self {ctx : Context} {shape : Shape}
    (hparts : ∀ d ∈ shape.parts, PartsAgree answer cmp enter enter' path d d)
    (hunion : ∀ alternatives, shape ≠ .unionOf alternatives)
    (hparameters : ∀ c, SignaturesAgree answer cmp ctx ctx enterBelow enterBelow' path c)
    (v : Value) (s : σ) :
    Program.Agree answer cmp.similar s (shape.apply ctx enter enterBelow path v)
      (shape.apply ctx enter' enterBelow' path v) := by
  -- a node with its own parts put back is the node itself
  have hself := shape.withParts_parts
  have hagree : Program.Agree answer cmp.similar s (shape.apply ctx enter enterBelow path v)
      ((shape.withParts shape.parts).apply (ctx.withConversions ctx.conversions) enter' enterBelow'
        path v) :=
    Shape.apply_agree (List.forall₂_same.mpr hparts) (by rw [hself]; exact cmp.texts_refl _) hunion
      (fun _ _ _ _ _ _ c _ => hparameters c) v s
  rwa [hself] at hagree

/-! ## Types -/

/-- The converter replaces the rule of the type. -/
theorem castWithin_of_converter {ctx : Context} {d : Descriptor} {c : Converter}
    (h : ctx.converter? d.id = some c) (room : Nat) (path : Path) (v : Value) :
    castWithin ctx (room + 1) d path v = Program.convert c v := by
  obtain ⟨id, shape⟩ := d
  have hid : ctx.converter? id = some c := h
  rw [castWithin_succ, Descriptor.apply, hid]

/-- Without a converter the rule of the shape applies. -/
theorem castWithin_of_no_converter {ctx : Context} {id : Nat} (h : ctx.converter? id = none)
    (room : Nat) (shape : Shape) (path : Path) (v : Value) :
    castWithin ctx (room + 1) (.node id shape) path v =
      shape.apply ctx (castWithin ctx room) (castWithin ctx (room - 1)) path v := by
  rw [castWithin_succ, Descriptor.apply, h]

/-- The alternatives of a union are programs that are tried in order. -/
theorem applyFirst_eq_firstOf (ctx : Context) (enter enterBelow : Enter)
    (otherwise : Program Value) (ds : List Descriptor) (path : Path) (v : Value) :
    applyFirst ctx enter enterBelow otherwise ds path v =
      Program.firstOf otherwise (ds.map fun d => d.apply ctx enter enterBelow path v) := by
  induction ds with
  | nil => rfl
  | cons d rest ih => rw [applyFirst, List.map_cons, Program.firstOf, ih]

/-- A union tries its alternatives at its own location. -/
theorem castWithin_unionOf {ctx : Context} {id : Nat} (h : ctx.converter? id = none) (room : Nat)
    (alternatives : List Descriptor) (path : Path) (v : Value) :
    castWithin ctx (room + 1) (.node id (.unionOf alternatives)) path v =
      Program.firstOf (mismatch path v (Shape.unionOf alternatives).render
          (.unionExhausted alternatives.length))
        (alternatives.map fun d => castWithin ctx (room + 1) d path v) := by
  rw [castWithin_of_no_converter h, Shape.apply, applyFirst_eq_firstOf]
  simp only [castWithin_succ]

/-- What two nodes with the same converter are made of: parts that are cast alike, whatever room
    there is, and, in an inspected invocation, signatures that are read alike. -/
structure NodesAgree (answer : (request : Request) → StateM σ request.Reply) (cmp : Comparison)
    (ctx : Context) (conversions : Conversions) (room : Nat) (path : Path) (shape : Shape)
    (parts : List Descriptor) : Prop where
  text : cmp.texts shape.render (shape.withParts parts).render
  parts : List.Forall₂ (fun d d' => cmp.texts d.render d'.render ∧ ∀ room' ≤ room + 1, ∀ path v s,
    Program.Agree answer cmp.similar s (castWithin ctx room' d path v)
      (castWithin (ctx.withConversions conversions) room' d' path v)) shape.parts parts
  signatures : ∀ symbol, shape = .inspectedInvocation symbol → ∀ reference segment s s' c,
    ((castWithin ctx room symbol (path ++ [segment]) reference).run answer).run s =
      (.ok (.callable c), s') →
    SignaturesAgree answer cmp ctx (ctx.withConversions conversions) (castWithin ctx (room - 1))
      (castWithin (ctx.withConversions conversions) (room - 1)) path c

/-- Nothing is asked of what converted nodes are made of. -/
theorem castWithin_node_agree {ctx : Context} {conversions : Conversions} {id id' room : Nat}
    {shape : Shape} {parts : List Descriptor}
    (hconverters : (ctx.withConversions conversions).converter? id' = ctx.converter? id)
    (h : ctx.converter? id = none → NodesAgree answer cmp ctx conversions room path shape parts)
    (v : Value) (s : σ) :
    Program.Agree answer cmp.similar s (castWithin ctx (room + 1) (.node id shape) path v)
      (castWithin (ctx.withConversions conversions) (room + 1) (.node id' (shape.withParts parts))
        path v) := by
  cases hconverter : ctx.converter? id with
  | some c =>
    have hconverter' := hconverters.trans hconverter
    -- the converter takes the value as it is, whatever the node
    rw [castWithin_of_converter hconverter, castWithin_of_converter hconverter']
    exact .refl cmp.similar_refl _
  | none =>
    have hconverter' := hconverters.trans hconverter
    have hnodes := h hconverter
    by_cases hunion : ∃ alternatives, shape = .unionOf alternatives
    · obtain ⟨alternatives, rfl⟩ := hunion
      have hcount : alternatives.length = parts.length := hnodes.parts.length_eq
      rw [castWithin_unionOf hconverter, Shape.withParts, castWithin_unionOf hconverter', hcount]
      refine .firstOf cmp.isCoercion ?_ (fun s => mismatch_agree hnodes.text) s
      -- the alternatives share the location of the union, and its room
      rw [List.forall₂_map_left_iff, List.forall₂_map_right_iff]
      exact hnodes.parts.imp fun d d' hd => hd.2 (room + 1) le_rfl path v
    · rw [castWithin_of_no_converter hconverter, castWithin_of_no_converter hconverter']
      -- parts of any other node are cast one level down
      have hparts : List.Forall₂ (PartsAgree answer cmp (castWithin ctx room)
          (castWithin (ctx.withConversions conversions) room) path) shape.parts parts :=
        hnodes.parts.imp fun d d' hd => ⟨hd.1, fun _ => hd.2 room room.le_succ _⟩
      exact Shape.apply_agree hparts hnodes.text (fun alternatives h => hunion ⟨alternatives, h⟩)
        hnodes.signatures v s

end Conform
