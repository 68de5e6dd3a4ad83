import Conform.Proofs.Cast.Rules

/-!
# The shape of what a cast gives

`HasShape` says which values a data type demands. A cast to a data type gives a value of its shape
or refuses the value, and ends in no other way: `apply_shaped` states this for the rule of a type,
given that it holds for the parts, and `castWithin_shaped` for a whole cast.

An element of a set and a key of a map take their shape through the key that stands for them, so
all values have to be well-formed: the value of the key is then the value that was cast.
-/

namespace Conform

/-- The values that may stand in for an absent field, `made` saying what factories make. -/
inductive Default.Gives (made : Factory → Value → Prop) : Default → Value → Prop
  | value (v : Value) : Gives made (.value v) v
  | factory {f : Factory} {v : Value} (h : made f v) : Gives made (.factory f) v

/-- The values that a data type demands, `made` saying what factories make. -/
inductive HasShape (made : Factory → Value → Prop) : Descriptor → Value → Prop
  | any {id : Nat} (v : Value) : HasShape made (.node id .any) v
  | primitive {id : Nat} {p : Primitive} {v : Value} (kind : v.kind ∈ p.kinds) :
      HasShape made (.node id (.primitive p)) v
  | float {id : Nat} {v : Value} (kind : v.kind ∈ Kind.reals) :
      HasShape made (.node id .float) v
  | complex {id : Nat} {v : Value} (kind : v.kind ∈ Kind.numbers) :
      HasShape made (.node id .complex) v
  | decimal {id : Nat} (d : Decimal) : HasShape made (.node id .decimal) (.decimal d)
  | literal {id : Nat} {allowed : List Value} {m v : Value} (member : m ∈ allowed)
      (equal : m.equal v = true) : HasShape made (.node id (.literal allowed)) v
  /-- All declared fields, in order, each of its type's shape or from its default. -/
  | record {id : Nat} {name : String} {fields : List (Field Descriptor)}
      {ws : List (String × Value)}
      (filled : Filled (fun f w => HasShape made f.type w)
        (fun f w => ∃ d, f.default? = some d ∧ d.Gives made w) (fun _ => False) fields ws) :
      HasShape made (.node id (.record name fields none)) (.record name ws)
  /-- Declared fields, in order, each of its type's shape, and all of them if the type is total. -/
  | partialRecord {id : Nat} {name : String} {fields : List (String × Descriptor)} {total : Bool}
      {ws : List (String × Value)}
      (filled : Filled (fun f w => HasShape made f.type w) (fun _ _ => False) (fun _ => True)
        (fields.map fun field => ⟨field.1, field.2, none⟩) ws)
      (complete : total = true → Entries.keys ws = Entries.keys fields) :
      HasShape made (.node id (.partialRecord name fields total)) (.record name ws)
  | listOf {id : Nat} {element : Descriptor} {items : List Value}
      (each : ∀ w ∈ items, HasShape made element w) :
      HasShape made (.node id (.listOf element)) (.list items)
  | setOf {id : Nat} {element : Descriptor} {keys : List Key} (ascending : Key.Ascending keys)
      (each : ∀ k ∈ keys, HasShape made element k.toValue) :
      HasShape made (.node id (.setOf element)) (.set keys)
  | queueOf {id : Nat} {element : Descriptor} {items : List Value}
      (each : ∀ w ∈ items, HasShape made element w) :
      HasShape made (.node id (.queueOf element)) (.queue items)
  | mapOf {id : Nat} {key value : Descriptor} {entries : List (Key × Value)}
      (distinct : Entries.Distinct entries)
      (eachKey : ∀ entry ∈ entries, HasShape made key entry.1.toValue)
      (eachValue : ∀ entry ∈ entries, HasShape made value entry.2) :
      HasShape made (.node id (.mapOf key value)) (.map entries)
  /-- One item for each declared element, of its shape. -/
  | tupleOf {id : Nat} {elements : List Descriptor} {items : List Value}
      (each : List.Forall₂ (HasShape made) elements items) :
      HasShape made (.node id (.tupleOf elements)) (.tuple items)
  | unionOf {id : Nat} {alternatives : List Descriptor} {d : Descriptor} {w : Value}
      (alternative : d ∈ alternatives) (shape : HasShape made d w) :
      HasShape made (.node id (.unionOf alternatives)) w

/-- A host whose factories make what they should. -/
def FactoriesMake (made : Factory → Value → Prop) : Replies
  | .produce f, v => made f v
  | .convert .., _ => True
  | .call .., _ => True

/-- A program that gives a well-formed value of a shape or refuses a value. -/
abbrev Shaped (made : Factory → Value → Prop) (d : Descriptor) (p : Program Value) : Prop :=
  p.Yields (FactoriesMake made) (fun w => HasShape made d w ∧ w.WellFormed)
    (fun e => e.isCoercion = true)

/-! ## Containers -/

section Containers

variable {made : Factory → Value → Prop} {enter : Enter} {path : Path} {v : Value} {id : Nat}
  {expected : String}

/-- The key of a well-formed value of a shape has the shape. -/
private theorem shape_of_toKey? {d : Descriptor} {x : Value} {k : Key}
    (hx : HasShape made d x ∧ x.WellFormed) (hk : x.toKey? = some k) :
    HasShape made d k.toValue := by
  rw [Value.toValue_of_toKey? x k hx.2 hk]
  exact hx.1

/-- Each element is of the shape of the element type. -/
private theorem castElements_shaped {element : Descriptor}
    (henter : ∀ path x, x.WellFormed → Shaped made element (enter element path x))
    (hv : v.WellFormed) :
    (castElements enter element expected path v).Yields (FactoriesMake made)
      (fun ws => (∀ w ∈ ws, HasShape made element w) ∧ ∀ w ∈ ws, w.WellFormed)
      (fun e => e.isCoercion = true) := by
  have hitem := fun items hitems i x (hx : items[i]? = some x) =>
    henter (path ++ [.index i]) x (hv.elements hitems x (List.mem_of_getElem? hx))
  refine Program.Yields.imp (castElements_yields hitem fun _ => rfl) ?_
  rintro ws ⟨items, -, hws⟩
  -- the position of an item does not matter to its shape
  have hall : ∀ w ∈ ws, HasShape made element w ∧ w.WellFormed := by
    intro w hw
    obtain ⟨i, hi⟩ := List.mem_iff_getElem?.mp hw
    obtain ⟨_, _, hfits⟩ := hws i w hi
    exact hfits
  exact ⟨fun w hw => (hall w hw).1, fun w hw => (hall w hw).2⟩

/-- A set is in order, and its elements are of their shape as values. -/
private theorem castSet_shaped {element : Descriptor}
    (henter : ∀ path x, x.WellFormed → Shaped made element (enter element path x))
    (hv : v.WellFormed) :
    Shaped made (.node id (.setOf element)) (castSet enter element expected path v) := by
  have hitem := fun items hitems i x (hx : items[i]? = some x) =>
    henter (path ++ [.index i]) x (hv.elements hitems x (List.mem_of_getElem? hx))
  refine Program.Yields.imp (castSet_yields hitem (fun _ => rfl) fun _ _ _ _ _ _ _ _ => rfl) ?_
  rintro _ ⟨keys, rfl, hascending, hkeys⟩
  have heach : ∀ k ∈ keys, HasShape made element k.toValue := by
    intro k hk
    -- the value of a key has the shape of the item that it is the key of
    obtain ⟨_, _, x, hx, hkey⟩ := hkeys k hk
    exact shape_of_toKey? hx hkey
  exact ⟨.setOf hascending heach, hascending⟩

/-- A map has distinct keys; keys and values are of their shapes. -/
private theorem castMap_shaped {key value : Descriptor}
    (hkey : ∀ path x, x.WellFormed → Shaped made key (enter key path x))
    (hvalue : ∀ path x, x.WellFormed → Shaped made value (enter value path x))
    (hv : v.WellFormed) :
    Shaped made (.node id (.mapOf key value)) (castMap enter key value expected path v) := by
  have hx : ∀ entries, v = .map entries → ∀ k x, (k, x) ∈ entries → x.WellFormed := by
    rintro entries rfl k x hx
    exact Value.wellFormedEntries_iff.mp hv.2 (k, x) hx
  refine Program.Yields.imp
    (castMap_yields (fun _ _ k _ _ => hkey _ _ (Key.wellFormed_toValue k))
      (fun _ _ _ _ _ _ _ _ => rfl)
      (fun entries hentries k x h => hvalue _ x (hx entries hentries k x h))
      fun _ => rfl) ?_
  rintro _ ⟨entries, rfl, hdistinct, hentries⟩
  have hkeys : ∀ entry ∈ entries, HasShape made key entry.1.toValue := by
    intro entry hentry
    -- the key is that of a value of the shape
    obtain ⟨_, x, hx, hk⟩ := (hentries entry hentry).1
    exact shape_of_toKey? hx hk
  have hvalues : ∀ entry ∈ entries, HasShape made value entry.2 :=
    fun entry hentry => (hentries entry hentry).2.1
  have hwell : Value.WellFormedEntries entries :=
    Value.wellFormedEntries_iff.mpr fun entry hentry => (hentries entry hentry).2.2
  exact ⟨.mapOf hdistinct hkeys hvalues, hdistinct, hwell⟩

/-- A tuple has one element for each type. -/
private theorem castTuple_shaped {elements : List Descriptor}
    (henter : ∀ d ∈ elements, ∀ path x, x.WellFormed → Shaped made d (enter d path x))
    (hv : v.WellFormed) :
    Shaped made (.node id (.tupleOf elements)) (castTuple enter elements expected path v) := by
  have hitem := fun items hitems i d x (hd : elements[i]? = some d) (hx : items[i]? = some x) =>
    henter d (List.mem_of_getElem? hd) (path ++ [.index i]) x
      (hv.sequence hitems x (List.mem_of_getElem? hx))
  refine Program.Yields.imp (castTuple_yields hitem (fun _ => rfl) fun _ _ _ => rfl) ?_
  rintro _ ⟨ws, rfl, hws⟩
  -- the two halves of what is known of each item, seen from the side of the items
  have hflip : List.Forall₂ (fun w d => w.WellFormed ∧ HasShape made d w) ws elements :=
    hws.flip.imp fun _ _ h => ⟨h.2, h.1⟩
  have ⟨hwell, hshape⟩ := (List.forall₂_and_left ws elements).mp hflip
  exact ⟨.tupleOf hshape.flip, Value.wellFormedItems_iff.mpr hwell⟩

/-! ## Records -/

/-- What a default gives is well-formed, if its value is or the factories make such values. -/
private theorem wellFormed_of_gives (hmade : ∀ f w, made f w → w.WellFormed) {d : Default}
    {w : Value} (hd : ∀ x, d = .value x → x.WellFormed) (h : d.Gives made w) : w.WellFormed := by
  cases h with
  | value => exact hd w rfl
  | factory hf => exact hmade _ w hf

/-- A default gives its value, or what its factory makes. -/
private theorem produce_gives {d : Default} {bad : CastError → Prop} :
    (Program.produce d).Yields (FactoriesMake made) (d.Gives made) bad := by
  refine Program.yields_produce (fun w hw => ?_) fun f w hd hw => ?_
  · rw [hw]; exact .value w
  · rw [hd]; exact .factory hw

/-- Names that are declared once are taken over once. -/
private theorem wellFormed_record {present supplied : Field Descriptor → Value → Prop}
    {absent : Field Descriptor → Prop} {fields : List (Field Descriptor)}
    {ws : List (String × Value)} {name : String} (h : Filled present supplied absent fields ws)
    (hnames : (fields.map Field.name).Nodup)
    (hpresent : ∀ f ∈ fields, ∀ w, present f w → w.WellFormed)
    (hsupplied : ∀ f ∈ fields, ∀ w, supplied f w → w.WellFormed) :
    (Value.record name ws).WellFormed := by
  have hdistinct : Entries.Distinct ws :=
    (h.keys_sublist.nodup hnames).imp fun hne => beq_false_of_ne hne
  exact ⟨hdistinct, Value.wellFormedFields_iff.mpr (h.forall_values hpresent hsupplied)⟩

/-- A record has every field that is declared, cast or by default. -/
private theorem castRecord_shaped (hmade : ∀ f w, made f w → w.WellFormed) {name : String}
    {fields : List (Field Descriptor)}
    (henter : ∀ f ∈ fields, ∀ path x, x.WellFormed → Shaped made f.type (enter f.type path x))
    (hfields : (Shape.record name fields none).WellFormed) (hv : v.WellFormed) :
    Shaped made (.node id (.record name fields none))
      (castRecord enter name fields none path v) := by
  have hfield : ∀ entries, v = .map entries → ∀ f ∈ fields, ∀ x,
      Entries.find? (Key.text f.name) entries = some x →
      Shaped made f.type (enter f.type (path ++ [.field f.name]) x) := by
    rintro entries rfl f hf x hx
    obtain ⟨k, hk, _⟩ := Entries.mem_of_find? hx
    exact henter f hf _ x (Value.wellFormedEntries_iff.mp hv.2 (k, x) hk)
  have hsupplied : ∀ f ∈ fields, ∀ d, f.default? = some d →
      (Program.produce d).Yields (FactoriesMake made)
        (fun w => ∃ d, f.default? = some d ∧ d.Gives made w) (fun e => e.isCoercion = true) :=
    fun f _ d hd => produce_gives.imp fun w hw => ⟨d, hd, hw⟩
  refine Program.Yields.bind
    (KeywordShape.cast_yields hfield hsupplied (fun _ => rfl) fun _ _ _ => rfl) ?_
  rintro ws ⟨entries, -, hmissing, hfilled⟩
  -- a field without a default is required, and no required name is missing
  have hnotAbsent : ∀ f ∈ fields,
      Entries.find? (Key.text f.name) entries = none ∧ f.default? = none → False := by
    rintro f hf ⟨hnone, hdefault⟩
    exact KeywordShape.find?_of_missing_eq_nil hmissing (Field.mem_requiredNames hf hdefault) hnone
  -- a default is well formed: it is declared so, or made so by the host
  have hdefaults : ∀ f ∈ fields, ∀ w, (∃ d, f.default? = some d ∧ d.Gives made w) →
      w.WellFormed := by
    rintro f hf w ⟨d, hd, hgives⟩
    exact wellFormed_of_gives hmade (fun x hx => hfields.2 f hf x (hx ▸ hd)) hgives
  refine Program.yields_pure ⟨.record ?_, ?_⟩
  · exact hfilled.mono (fun f _ w hw => hw.1) (fun f _ w hw => hw) hnotAbsent
  · exact wellFormed_record hfilled hfields.1 (fun f _ w hw => hw.2) hdefaults

/-- A partial record has declared fields only, and all of them if it is total. -/
private theorem castPartialRecord_shaped {name : String} {fields : List (String × Descriptor)}
    {total : Bool}
    (henter : ∀ field ∈ fields, ∀ path x, x.WellFormed →
      Shaped made field.2 (enter field.2 path x))
    (hfields : (Shape.partialRecord name fields total).WellFormed) (hv : v.WellFormed) :
    Shaped made (.node id (.partialRecord name fields total))
      (castPartialRecord enter name fields total path v) := by
  have hdeclared : ∀ f ∈ (KeywordShape.ofPartialRecord name fields total).fields,
      (f.name, f.type) ∈ fields ∧ f.default? = none := by
    intro f hf
    obtain ⟨field, hfield, rfl⟩ := List.mem_map.mp hf
    exact ⟨hfield, rfl⟩
  have hfield : ∀ entries, v = .map entries →
      ∀ f ∈ (KeywordShape.ofPartialRecord name fields total).fields, ∀ x,
      Entries.find? (Key.text f.name) entries = some x →
      Shaped made f.type (enter f.type (path ++ [.field f.name]) x) := by
    rintro entries rfl f hf x hx
    obtain ⟨k, hk, _⟩ := Entries.mem_of_find? hx
    exact henter _ (hdeclared f hf).1 _ x (Value.wellFormedEntries_iff.mp hv.2 (k, x) hk)
  -- no field has a default
  have hsupplied : ∀ f ∈ (KeywordShape.ofPartialRecord name fields total).fields, ∀ d,
      f.default? = some d → (Program.produce d).Yields (FactoriesMake made) (fun _ => False)
        (fun e => e.isCoercion = true) := by
    intro f hf d hd
    rw [(hdeclared f hf).2] at hd
    cases hd
  refine Program.Yields.bind
    (KeywordShape.cast_yields hfield hsupplied (fun _ => rfl) fun _ _ _ => rfl) ?_
  rintro ws ⟨entries, -, hmissing, hfilled⟩
  have hnames : (KeywordShape.ofPartialRecord name fields total).fields.map Field.name =
      Entries.keys fields := List.map_map
  -- a total type requires every name, so that no field is absent
  have hcomplete : total = true → Entries.keys ws = Entries.keys fields := by
    intro htotal
    rw [← hnames]
    refine hfilled.keys_eq fun f hf habsent => ?_
    refine KeywordShape.find?_of_missing_eq_nil hmissing ?_ habsent.1
    show f.name ∈ if total then sortNames (Entries.keys fields) else []
    rw [if_pos htotal]
    exact mem_sortNames.mpr (List.mem_map_of_mem (hdeclared f hf).1)
  refine Program.yields_pure ⟨.partialRecord ?_ hcomplete, ?_⟩
  · exact hfilled.mono (fun f _ w hw => hw.1) (fun f _ w hw => hw) fun _ _ _ => trivial
  · exact wellFormed_record hfilled (hnames ▸ hfields) (fun f _ w hw => hw.2)
      fun f hf w hw => hw.elim

end Containers

/-! ## Casts -/

/-- The rule of a data type keeps to the shape if it is kept to below the location. -/
theorem apply_shaped {made : Factory → Value → Prop} (hmade : ∀ f w, made f w → w.WellFormed)
    {ctx : Context} (hctx : ctx.NoConversions) {enter enterBelow : Enter}
    (henter : ∀ d : Descriptor, d.IsData → d.WellFormed → ∀ path x, x.WellFormed →
      Shaped made d (enter d path x))
    {d : Descriptor} (hdata : d.IsData) (hwell : d.WellFormed) {path : Path} {v : Value}
    (hv : v.WellFormed) : Shaped made d (d.apply ctx enter enterBelow path v) := by
  -- on the type, with the parts that are cast below left to the enclosing induction on the room
  induction hdata with
  | @node id shape hroot hparts ih =>
    have hpart : ∀ d ∈ shape.parts, ∀ path x, x.WellFormed → Shaped made d (enter d path x) :=
      fun d hd => henter d (hparts d hd) (hwell.part hd)
    rw [Descriptor.apply, hctx id]
    cases shape with
    | any => exact Program.yields_pure ⟨.any v, hv⟩
    | primitive p =>
      exact castUnchanged_yields (fun h => ⟨.primitive (Primitive.admits_iff.mp h), hv⟩)
        fun _ => rfl
    | float =>
      exact castUnchanged_yields (fun h => ⟨.float (Value.isReal_iff.mp h), hv⟩) fun _ => rfl
    | complex =>
      exact castUnchanged_yields (fun h => ⟨.complex (Value.isNumber_iff.mp h), hv⟩) fun _ => rfl
    | decimal => exact castDecimal_yields (fun d => ⟨.decimal d, trivial⟩) fun _ _ => rfl
    | literal allowed =>
      refine castUnchanged_yields (fun h => ?_) fun _ => rfl
      obtain ⟨m, hm, hequal⟩ := List.any_eq_true.mp h
      exact ⟨.literal hm hequal, hv⟩
    | record name fields constructor? =>
      obtain rfl : constructor? = none := hroot
      exact castRecord_shaped hmade (fun f hf => hpart f.type (List.mem_map_of_mem hf))
        hwell.root hv
    | partialRecord name fields total =>
      exact castPartialRecord_shaped (fun field hf => hpart field.2 (List.mem_map_of_mem hf))
        hwell.root hv
    | listOf element =>
      refine (castElements_shaped (hpart element List.mem_cons_self) hv).bind fun ws hws => ?_
      exact Program.yields_pure ⟨.listOf hws.1, Value.wellFormedItems_iff.mpr hws.2⟩
    | setOf element => exact castSet_shaped (hpart element List.mem_cons_self) hv
    | queueOf element =>
      refine (castElements_shaped (hpart element List.mem_cons_self) hv).bind fun ws hws => ?_
      exact Program.yields_pure ⟨.queueOf hws.1, Value.wellFormedItems_iff.mpr hws.2⟩
    | mapOf key value =>
      exact castMap_shaped (hpart key List.mem_cons_self)
        (hpart value (List.mem_cons_of_mem _ List.mem_cons_self)) hv
    | tupleOf elements => exact castTuple_shaped hpart hv
    | unionOf alternatives =>
      -- an alternative is cast at the same location, hence the induction along the type
      have halternative : ∀ d ∈ alternatives,
          Shaped made (.node id (.unionOf alternatives)) (d.apply ctx enter enterBelow path v) :=
        fun d hd => (ih d hd (hwell.part hd)).imp fun w hw => ⟨.unionOf hd hw.1, hw.2⟩
      exact applyFirst_yields halternative (fun _ _ he => he) fun _ => rfl
    | symbolPath | invocation | inspectedInvocation => exact hroot.elim

/-- Whatever room there is, a cast to a data type keeps to the shape. -/
theorem castWithin_shaped {made : Factory → Value → Prop} (hmade : ∀ f w, made f w → w.WellFormed)
    {ctx : Context} (hctx : ctx.NoConversions) (room : Nat) (d : Descriptor) (hdata : d.IsData)
    (hwell : d.WellFormed) (path : Path) (v : Value) (hv : v.WellFormed) :
    Shaped made d (castWithin ctx room d path v) := by
  induction room generalizing d path v with
  | zero => exact mismatch_yields rfl
  | succ room ih =>
    rw [castWithin_succ]
    exact apply_shaped hmade hctx ih hdata hwell hv

/-- Casting with a data type that can be used ends with a value of its shape, or refuses the value.
    It never ends as if the type, a symbol or the host had failed. -/
theorem apply_hasShape_or_refuses {σ : Type}
    {answer : (request : Request) → StateM σ request.Reply} {made : Factory → Value → Prop}
    (hanswer : ∀ f s, made f ((answer (.produce f)).run s).1)
    (hmade : ∀ f w, made f w → w.WellFormed) {ctx : Context} (hctx : ctx.NoConversions)
    {d : Descriptor} (hdata : d.IsData) (hwell : d.WellFormed) {c : Coercion}
    (hcompile : compile ctx d = .ok c) {v : Value} (hv : v.WellFormed) (s : σ) :
    (∃ w, (((c.apply v).run answer).run s).1 = .ok w ∧ HasShape made d w) ∨
      ∃ e, (((c.apply v).run answer).run s).1 = .error (.coercion e) := by
  obtain rfl := compile_eq_ok hcompile
  have hreplies : ∀ request s, FactoriesMake made request ((answer request).run s).1 := by
    intro request s
    cases request with
    | produce f => exact hanswer f s
    | convert | call => trivial
  -- the invariant of the cast one level after the other, from the root
  have hshaped :=
    castWithin_shaped hmade hctx (ctx.config.limits.maxDepth + 1) d hdata hwell [] v hv
  obtain ⟨w, hw, hshape⟩ | ⟨e, he, hcoercion⟩ := hshaped.run hreplies s
  · exact .inl ⟨w, hw, hshape.1⟩
  -- a data type has neither symbols nor calls, so that every error is a refusal
  · cases e with
    | coercion e => exact .inr ⟨e, he⟩
    | config | lookup | host => cases hcoercion

/-- Lists whose items are sets of pairs, or records with a field that a factory may supply. -/
def nestedType : Descriptor :=
  .node 0 (.listOf (.node 1 (.unionOf
    [.node 2 (.setOf (.node 3 (.tupleOf [.node 4 (.primitive .int), .node 5 .float]))),
      .node 6 (.record "Entry" [⟨"key", .node 7 (.mapOf (.node 8 .decimal) (.node 9 .any)), none⟩,
        ⟨"rank", .node 10 (.primitive .int), some (.factory ⟨0⟩)⟩] none)])))

/-- A record whose map has two keys that become one, next to a set of pairs. -/
def nestedValue : Value :=
  .list [.map [(.text "key", .map [(.text "1.0", .none), (.text "1", .bool true)])],
    .list [.tuple [.bool true, .int 2]]]

/-- A set of decimals in a map in a record, against a host that numbers its replies. -/
theorem apply_hasShape_or_refuses_nested :
    (∃ w, ((((⟨nestedType, {}⟩ : Coercion).apply nestedValue).run numberingHost).run 7).1 = .ok w ∧
        HasShape (fun _ w => ∃ i, w = .int i) nestedType w) ∨
      ∃ e, ((((⟨nestedType, {}⟩ : Coercion).apply nestedValue).run numberingHost).run 7).1 =
        .error (.coercion e) := by
  have hcompile : compile {} nestedType = .ok ⟨nestedType, {}⟩ := rfl
  refine apply_hasShape_or_refuses (fun f s => ⟨s, rfl⟩) ?_ (fun id => rfl) ?_ ?_ hcompile ?_ 7
  -- the host makes numbers, which are well formed
  · rintro f w ⟨i, rfl⟩
    trivial
  · simp [nestedType, Descriptor.IsData, Descriptor.everywhere_node, Shape.IsData, Shape.parts]
  · simp [nestedType, Descriptor.WellFormed, Descriptor.everywhere_node, Shape.WellFormed,
      Shape.parts]
  · have hdistinct : (Key.text "1.0" == Key.text "1") = false := by decide
    simp [nestedValue, Value.WellFormed, Value.wellFormedItems_iff, Value.wellFormedEntries_iff,
      Entries.Distinct, Entries.keys, hdistinct]

end Conform
