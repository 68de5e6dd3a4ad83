import Conform.Proofs.Cast.Rules
import Conform.Proofs.Program.Follows

/-!
# What the rules of types do if the casts of the parts are cut off

One statement for each rule of a cast: with two ways of casting the parts, of which the one follows
the other, the rule follows itself. The rules are told what becomes of the casts below a location
by `EntersAlike`; what they add is that they refuse nothing that lies beyond a limit. This is not
seen from the rules alone: a key or an argument that is refused after its cast lies one level down,
and the named arguments of an inspected invocation lie two levels down, behind a location that is
never entered. In each case something has been cast at the same level before.
-/

namespace Conform

/-- Nothing that lies beyond the limit is refused, but for the limit itself, right behind it. -/
def CastError.WithinLimit (limit : Nat) : CastError → Prop
  | .coercion e => e.location.path.length ≤ limit ∨
      e.reason = .depthExceeded limit ∧ e.location.path.length = limit + 1
  | _ => True

/-- The rule of the shape can give the callable. This is said of symbols only; of the rules of the
    other shapes nothing is known. -/
def Shape.CanGive (ctx : Context) (c : Callable) : Shape → Prop
  | .symbolPath spec => ∃ dotted, spec.resolve ctx.registry dotted = .ok (.callable c)
  | _ => True

/-- A cast to the type can give the callable, by its rule or by its converter. -/
def Descriptor.CanGive (ctx : Context) (replies : Replies) (c : Callable) : Descriptor → Prop
  | .node id shape =>
    match ctx.converter? id with
    | some converter => ∃ v, replies (.convert converter v) (.ok (.callable c))
    | none => shape.CanGive ctx c

/-- A set of types that a cast to one of them never leaves: it contains the parts of each type and,
    with an inspected invocation, the types of the parameters of whatever it may call. -/
structure Closed (ctx : Context) (replies : Replies) (types : Descriptor → Prop) : Prop where
  parts : ∀ id shape, types (.node id shape) → ctx.converter? id = none →
    ∀ d ∈ shape.parts, types d
  parameters : ∀ id symbol, types (.node id (.inspectedInvocation symbol)) →
    ctx.converter? id = none → ∀ c shape, symbol.CanGive ctx replies c →
    KeywordShape.ofCallable ctx c = .ok shape → ∀ f ∈ shape.fields, types f.type

/-- Right below a location, `enter` casts to these types as `enter'` does, until it is cut off. It
    only goes on from locations within the limit. -/
def EntersAlike (ctx : Context) (replies : Replies) (types : Descriptor → Prop) (limit : Nat)
    (cuts : CastError → CastError → Prop) (enter enter' : Enter) (path : Path) : Prop :=
  ∀ d, types d → ∀ segment v,
    (enter d (path ++ [segment]) v).Follows replies
      (fun w => path.length + 1 ≤ limit ∧ ∀ c, w = .callable c → d.CanGive ctx replies c)
      (CastError.WithinLimit limit) cuts (enter' d (path ++ [segment]) v)

section

variable {ctx : Context} {replies : Replies} {types : Descriptor → Prop} {limit : Nat}
  {cuts : CastError → CastError → Prop} {enter enter' enterBelow enterBelow' : Enter}
  {path : Path} {v : Value} {expected : String}

/-- What is refused within the limit is refused on both sides. -/
theorem mismatch_follows {α : Type} {good : α → Prop} {reason : Mismatch}
    (h : path.length ≤ limit) :
    (mismatch path v expected reason : Program α).Follows replies good
      (CastError.WithinLimit limit) cuts (mismatch path v expected reason) :=
  .throw (.inl h)

/-- A value is refused one level down. -/
theorem mismatch_below_follows {α : Type} {good : α → Prop} {reason : Mismatch} {segment : Segment}
    (h : path.length + 1 ≤ limit) :
    (mismatch (path ++ [segment]) v expected reason : Program α).Follows replies good
      (CastError.WithinLimit limit) cuts (mismatch (path ++ [segment]) v expected reason) :=
  mismatch_follows (by rwa [List.length_append])

/-! ## Scalars and containers -/

/-- A scalar is passed through or refused where it stands. -/
theorem castUnchanged_follows {holds : Bool} {reason : Mismatch} (hpath : path.length ≤ limit) :
    (castUnchanged holds reason expected path v).Follows replies (fun _ => True)
      (CastError.WithinLimit limit) cuts (castUnchanged holds reason expected path v) := by
  cases holds with
  | true => exact .pure trivial
  | false => exact mismatch_follows hpath

/-- A number is made a decimal in both casts, or refused in both. -/
theorem castDecimal_follows (hpath : path.length ≤ limit) :
    (castDecimal expected path v).Follows replies (fun _ => True)
      (CastError.WithinLimit limit) cuts (castDecimal expected path v) := by
  rw [castDecimal]
  cases v.toDecimal with
  | ok d => exact .pure trivial
  | error reason => exact mismatch_follows hpath

/-- The items can be hashed or refused if there has been room for them. -/
theorem hashItems_follows {element : Descriptor} {i : Nat} {items : List Value}
    (hroom : items ≠ [] → path.length + 1 ≤ limit) :
    (hashItems element path i items).Follows replies (fun _ => True)
      (CastError.WithinLimit limit) cuts (hashItems element path i items) := by
  induction items generalizing i with
  | nil => exact .pure trivial
  | cons x rest ih =>
    -- an item is refused at its own index, one level below the set
    have hbelow : path.length + 1 ≤ limit := hroom (List.cons_ne_nil x rest)
    rw [hashItems]
    -- the items behind a key are hashed at the same path
    cases x.toKey? with
    | some k => exact (ih fun _ => hbelow).bind fun _ _ => .pure trivial
    | none => exact mismatch_below_follows hbelow

section Parts

variable (henter : EntersAlike ctx replies types limit cuts enter enter' path)
include henter

/-- If there are items at all, there has been room for them. -/
theorem castItems_follows {element : Descriptor} (helement : types element) {i : Nat}
    {items : List Value} :
    (castItems enter element path i items).Follows replies
      (fun ws => ws ≠ [] → path.length + 1 ≤ limit)
      (CastError.WithinLimit limit) cuts (castItems enter' element path i items) := by
  induction items generalizing i with
  | nil => exact .pure fun h => absurd rfl h
  | cons x rest ih =>
    exact (henter element helement ..).bind fun w hw => ih.bind fun ws _ => .pure fun _ => hw.1

/-- Items that are there have been cast one level down. -/
theorem castElements_follows {element : Descriptor} (helement : types element)
    (hpath : path.length ≤ limit) :
    (castElements enter element expected path v).Follows replies
      (fun ws => ws ≠ [] → path.length + 1 ≤ limit)
      (CastError.WithinLimit limit) cuts (castElements enter' element expected path v) := by
  rw [castElements, castElements]
  cases v.elements? with
  | some items => exact castItems_follows henter helement
  | none => exact mismatch_follows hpath

/-- The elements are hashed where they have just been cast. -/
theorem castSet_follows {element : Descriptor} (helement : types element)
    (hpath : path.length ≤ limit) :
    (castSet enter element expected path v).Follows replies (fun _ => True)
      (CastError.WithinLimit limit) cuts (castSet enter' element expected path v) := by
  refine (castElements_follows henter helement hpath).bind fun items hroom => ?_
  exact (hashItems_follows hroom).bind fun _ _ => .pure trivial

/-- A key is refused, if at all, at the location of its own cast. -/
theorem castEntries_follows {key value : Descriptor} (hkey : types key) (hvalue : types value)
    {entries : List (Key × Value)} :
    (castEntries enter key value path entries).Follows replies (fun _ => True)
      (CastError.WithinLimit limit) cuts (castEntries enter' key value path entries) := by
  induction entries with
  | nil => exact .pure trivial
  | cons entry rest ih =>
    obtain ⟨k, x⟩ := entry
    rw [castEntries, castEntries]
    refine (henter key hkey ..).bind fun castKey hcast => ?_
    -- a key that cannot be one is refused where it has just been cast
    cases castKey.toKey? with
    | some newKey =>
      exact (henter value hvalue ..).bind fun _ _ => ih.bind fun _ _ => .pure trivial
    | none => exact mismatch_below_follows hcast.1

/-- A map that is none is refused at its own location. -/
theorem castMap_follows {key value : Descriptor} (hkey : types key) (hvalue : types value)
    (hpath : path.length ≤ limit) :
    (castMap enter key value expected path v).Follows replies (fun _ => True)
      (CastError.WithinLimit limit) cuts (castMap enter' key value expected path v) := by
  unfold castMap
  split
  · exact (castEntries_follows henter hkey hvalue).bind fun _ _ => .pure trivial
  · exact mismatch_follows hpath

/-- The items of a tuple are cast one level down, each by the type at its position. -/
theorem castEach_follows {i : Nat} {elements : List Descriptor}
    (helements : ∀ d ∈ elements, types d) {items : List Value} :
    (castEach enter path i elements items).Follows replies (fun _ => True)
      (CastError.WithinLimit limit) cuts (castEach enter' path i elements items) := by
  -- for lists of any lengths: the shorter one ends it
  induction elements generalizing i items with
  | nil => exact .pure trivial
  | cons element rest ih =>
    have ⟨helement, hrest⟩ := List.forall_mem_cons.mp helements
    cases items with
    | nil => exact .pure trivial
    | cons x items =>
      exact (henter element helement ..).bind fun _ _ => (ih hrest).bind fun _ _ => .pure trivial

/-- The arity of a tuple is checked at its own location. -/
theorem castTuple_follows {elements : List Descriptor} (helements : ∀ d ∈ elements, types d)
    (hpath : path.length ≤ limit) :
    (castTuple enter elements expected path v).Follows replies (fun _ => True)
      (CastError.WithinLimit limit) cuts (castTuple enter' elements expected path v) := by
  rw [castTuple, castTuple]
  cases v.sequence? with
  | some items =>
    simp only
    split
    · exact (castEach_follows henter helements).bind fun _ _ => .pure trivial
    · exact mismatch_follows hpath
  | none => exact mismatch_follows hpath

/-! ## Named fields -/

/-- Fields that are absent are not entered, and their defaults need no room. -/
theorem castFields_follows {entries : List (Key × Value)} {fields : List (Field Descriptor)}
    (hfields : ∀ f ∈ fields, types f.type) :
    (KeywordShape.castFields enter path entries fields).Follows replies (fun _ => True)
      (CastError.WithinLimit limit) cuts
      (KeywordShape.castFields enter' path entries fields) := by
  induction fields with
  | nil => exact .pure trivial
  | cons f rest ih =>
    have ⟨hf, hrest⟩ := List.forall_mem_cons.mp hfields
    rw [KeywordShape.castFields, KeywordShape.castFields]
    cases Entries.find? (Key.text f.name) entries with
    | some x => exact (henter f.type hf ..).bind fun _ _ => (ih hrest).bind fun _ _ => .pure trivial
    | none =>
      simp only
      -- a default is the same in both casts
      cases f.default? with
      | some d =>
        exact (Program.Follows.produce d).bind fun _ _ => (ih hrest).bind fun _ _ => .pure trivial
      | none => exact ih hrest

/-- Wrong names are refused at the location of the map. -/
theorem KeywordShape.cast_follows {shape : KeywordShape}
    (hfields : ∀ f ∈ shape.fields, types f.type) (hpath : path.length ≤ limit) :
    (shape.cast enter path v).Follows replies (fun _ => True)
      (CastError.WithinLimit limit) cuts (shape.cast enter' path v) := by
  unfold KeywordShape.cast
  split
  next entries =>
    simp only
    split
    · exact castFields_follows henter hfields
    · exact mismatch_follows hpath
  next => exact mismatch_follows hpath

/-- The constructor is called on both sides, or on neither. -/
theorem castRecord_follows {name : String} {fields : List (Field Descriptor)}
    {constructor? : Option Callable} (hfields : ∀ f ∈ fields, types f.type)
    (hpath : path.length ≤ limit) :
    (castRecord enter name fields constructor? path v).Follows replies (fun _ => True)
      (CastError.WithinLimit limit) cuts (castRecord enter' name fields constructor? path v) := by
  have hshape : ∀ f ∈ (KeywordShape.ofRecord name fields).fields, types f.type := hfields
  refine (KeywordShape.cast_follows henter hshape hpath).bind fun arguments _ => ?_
  cases constructor? with
  | some c => exact .call c [] arguments
  | none => exact .pure trivial

/-- A partial record follows itself if its fields do. -/
theorem castPartialRecord_follows {name : String} {fields : List (String × Descriptor)}
    {total : Bool} (hfields : ∀ f ∈ fields, types f.2) (hpath : path.length ≤ limit) :
    (castPartialRecord enter name fields total path v).Follows replies (fun _ => True)
      (CastError.WithinLimit limit) cuts (castPartialRecord enter' name fields total path v) := by
  have hshape : ∀ f ∈ (KeywordShape.ofPartialRecord name fields total).fields, types f.type :=
    List.forall_mem_map.mpr hfields
  exact (KeywordShape.cast_follows henter hshape hpath).bind fun _ _ => .pure trivial

/-! ## Symbols and calls -/

omit henter in
/-- A symbol that is resolved gives what the registry names. -/
theorem castSymbol_follows {spec : SymbolPath} (hpath : path.length ≤ limit) :
    (castSymbol ctx spec expected path v).Follows replies
      (fun w => ∀ c, w = .callable c → (Shape.symbolPath spec).CanGive ctx c)
      (CastError.WithinLimit limit) cuts (castSymbol ctx spec expected path v) := by
  rw [castSymbol]
  cases v.text? with
  | none => exact mismatch_follows hpath
  | some dotted =>
    simp only
    split
    next resolved hresolve =>
      -- the text that was read names the callable
      refine .pure fun c hc => ⟨dotted, ?_⟩
      rw [hresolve, hc]
    next => exact mismatch_follows hpath
    next => exact mismatch_follows hpath
    next => exact .throw trivial

/-- A callable is given after something has been cast one level down. -/
theorem callTarget_follows {keys : EnvelopeKeys} {symbol : Descriptor} (hsymbol : types symbol)
    (hpath : path.length ≤ limit) :
    (callTarget enter keys symbol expected path v).Follows replies
      (fun found => path.length + 1 ≤ limit ∧ symbol.CanGive ctx replies found.2)
      (CastError.WithinLimit limit) cuts (callTarget enter' keys symbol expected path v) := by
  unfold callTarget
  split
  next envelope =>
    cases Entries.find? (Key.text keys.callable) envelope with
    | none => exact mismatch_follows hpath
    | some reference =>
      refine (henter symbol hsymbol ..).bind fun target htarget => ?_
      -- a reference to something that cannot be called is refused where it has just been cast
      cases target with
      | callable c => exact .pure ⟨htarget.1, htarget.2 c rfl⟩
      | _ => exact mismatch_below_follows htarget.1
  next => exact mismatch_follows hpath

omit henter in
/-- Arguments that are no sequence are a matter of the type, not of a location. -/
theorem positionalArguments_follows {args : Descriptor} :
    (positionalArguments args v).Follows replies (fun _ => True)
      (CastError.WithinLimit limit) cuts (positionalArguments args v) := by
  rw [positionalArguments]
  cases v.sequence? with
  | some items => exact .pure trivial
  | none => exact .throw trivial

omit henter in
/-- Named arguments that are no map are a matter of the type, not of a location. -/
theorem keywordArguments_follows {kwargs : Descriptor} :
    (keywordArguments kwargs v).Follows replies (fun _ => True)
      (CastError.WithinLimit limit) cuts (keywordArguments kwargs v) := by
  simp only [keywordArguments]
  -- on whether there are arguments, not on the value that they come from
  split
  · exact .pure trivial
  · exact .throw trivial

/-- Positional and named arguments lie one level down, where there has been room for the
    reference. -/
theorem castInvocation_follows {symbol args kwargs : Descriptor} (hsymbol : types symbol)
    (hargs : types args) (hkwargs : types kwargs) (hpath : path.length ≤ limit) :
    (castInvocation ctx enter symbol args kwargs expected path v).Follows replies (fun _ => True)
      (CastError.WithinLimit limit) cuts
      (castInvocation ctx enter' symbol args kwargs expected path v) := by
  refine (callTarget_follows henter hsymbol hpath).bind fun found _ => ?_
  refine (henter args hargs ..).bind fun castArgs _ => ?_
  refine positionalArguments_follows.bind fun positional _ => ?_
  refine (henter kwargs hkwargs ..).bind fun castKwargs _ => ?_
  exact keywordArguments_follows.bind fun keyword _ => .call ..

/-- The location of the named arguments is not entered, but the reference to the callable has been
    cast at the same level. -/
theorem castInspectedInvocation_follows {symbol : Descriptor} (hsymbol : types symbol)
    (hparameters : ∀ c shape, symbol.CanGive ctx replies c →
      KeywordShape.ofCallable ctx c = .ok shape → ∀ f ∈ shape.fields, types f.type)
    (hbelow : path.length + 1 ≤ limit → ∀ segment,
      EntersAlike ctx replies types limit cuts enterBelow enterBelow' (path ++ [segment]))
    (hpath : path.length ≤ limit) :
    (castInspectedInvocation ctx enter enterBelow symbol expected path v).Follows replies
      (fun _ => True) (CastError.WithinLimit limit) cuts
      (castInspectedInvocation ctx enter' enterBelow' symbol expected path v) := by
  refine (callTarget_follows henter hsymbol hpath).bind fun found hfound => ?_
  obtain ⟨envelope, c⟩ := found
  obtain ⟨hroom, hgives⟩ := hfound
  simp only
  cases hshape : KeywordShape.ofCallable ctx c with
  | error e => exact .throw trivial
  | ok shape =>
    -- the map of the named arguments is refused at a location that is not cast itself
    have hkwargs : (path ++ [Segment.field ctx.config.envelope.kwargs]).length ≤ limit := by
      rwa [List.length_append]
    exact (KeywordShape.cast_follows (hbelow hroom _) (hparameters c shape hgives hshape)
      hkwargs).bind fun keyword _ => .call ..

end Parts

/-! ## Types -/

/-- What a location and its parts are told of the casts: those of its parts follow each other, and
    where a union may occur, nothing is cut off. -/
structure FollowsBelow (ctx : Context) (replies : Replies) (types : Descriptor → Prop) (limit : Nat)
    (cuts : CastError → CastError → Prop) (enter enter' enterBelow enterBelow' : Enter)
    (path : Path) : Prop where
  closed : Closed ctx replies types
  unions : ∀ id alternatives, types (.node id (.unionOf alternatives)) → ∀ e e', ¬ cuts e e'
  within : path.length ≤ limit
  enter : EntersAlike ctx replies types limit cuts enter enter' path
  below : path.length + 1 ≤ limit → ∀ segment,
    EntersAlike ctx replies types limit cuts enterBelow enterBelow' (path ++ [segment])

mutual

/-- The rule of a type follows itself if the casts of its parts do, and gives a callable only if the
    type can. -/
theorem Descriptor.apply_follows
    (h : FollowsBelow ctx replies types limit cuts enter enter' enterBelow enterBelow' path) :
    ∀ (d : Descriptor) (v : Value), types d →
      (d.apply ctx enter enterBelow path v).Follows replies
        (fun w => ∀ c, w = .callable c → d.CanGive ctx replies c)
        (CastError.WithinLimit limit) cuts (d.apply ctx enter' enterBelow' path v)
  | .node id shape, v, hd => by
    rw [Descriptor.apply, Descriptor.apply]
    simp only [Descriptor.CanGive]
    cases hconverter : ctx.converter? id with
    | some converter =>
      -- the value is what the host replies, whatever the shape
      refine .convert fun w hw c hc => ⟨v, ?_⟩
      rw [← hc]
      exact hw
    | none => exact Shape.apply_follows h shape v hd hconverter

/-- The rule of a shape, for a node that the host does not convert. -/
theorem Shape.apply_follows
    (h : FollowsBelow ctx replies types limit cuts enter enter' enterBelow enterBelow' path) :
    ∀ (shape : Shape) (v : Value) {id : Nat}, types (.node id shape) → ctx.converter? id = none →
      (shape.apply ctx enter enterBelow path v).Follows replies
        (fun w => ∀ c, w = .callable c → shape.CanGive ctx c)
        (CastError.WithinLimit limit) cuts (shape.apply ctx enter' enterBelow' path v)
  | .any, v, _, _, _ => .pure fun _ _ => trivial
  | .primitive _, _, _, _, _ | .float, _, _, _, _ | .complex, _, _, _, _
  | .literal _, _, _, _, _ => (castUnchanged_follows h.within).mono fun _ _ _ _ => trivial
  | .decimal, _, _, _, _ => (castDecimal_follows h.within).mono fun _ _ _ _ => trivial
  | .record _ fields _, _, _, hd, hconverter => by
    have hfields : ∀ f ∈ fields, types f.type :=
      List.forall_mem_map.mp (h.closed.parts _ _ hd hconverter)
    exact (castRecord_follows h.enter hfields h.within).mono fun _ _ _ _ => trivial
  | .partialRecord _ fields _, _, _, hd, hconverter => by
    have hfields : ∀ f ∈ fields, types f.2 :=
      List.forall_mem_map.mp (h.closed.parts _ _ hd hconverter)
    exact (castPartialRecord_follows h.enter hfields h.within).mono fun _ _ _ _ => trivial
  | .listOf element, _, _, hd, hconverter | .queueOf element, _, _, hd, hconverter => by
    have helement : types element := h.closed.parts _ _ hd hconverter _ List.mem_cons_self
    exact (castElements_follows h.enter helement h.within).bind fun _ _ => .pure fun _ _ => trivial
  | .setOf element, _, _, hd, hconverter => by
    have helement : types element := h.closed.parts _ _ hd hconverter _ List.mem_cons_self
    exact (castSet_follows h.enter helement h.within).mono fun _ _ _ _ => trivial
  | .mapOf key value, _, _, hd, hconverter => by
    -- key and value are themselves types of the closed family
    have hparts := h.closed.parts _ _ hd hconverter
    have hkey : types key := hparts _ (by simp [Shape.parts])
    have hvalue : types value := hparts _ (by simp [Shape.parts])
    exact (castMap_follows h.enter hkey hvalue h.within).mono fun _ _ _ _ => trivial
  | .tupleOf elements, _, _, hd, hconverter =>
    (castTuple_follows h.enter (h.closed.parts _ _ hd hconverter) h.within).mono
      fun _ _ _ _ => trivial
  -- only a union goes on after a refusal, which is why its rule is mutual with this one
  | .unionOf alternatives, v, _, hd, hconverter =>
    (applyFirst_follows h (h.unions _ _ hd) (mismatch_follows h.within) alternatives v
      (h.closed.parts _ _ hd hconverter)).mono fun _ _ _ _ => trivial
  | .symbolPath _, _, _, _, _ => castSymbol_follows h.within
  | .invocation symbol args kwargs, _, _, hd, hconverter => by
    have hparts := h.closed.parts _ _ hd hconverter
    have hsymbol : types symbol := hparts _ (by simp [Shape.parts])
    have hargs : types args := hparts _ (by simp [Shape.parts])
    have hkwargs : types kwargs := hparts _ (by simp [Shape.parts])
    exact (castInvocation_follows h.enter hsymbol hargs hkwargs h.within).mono
      fun _ _ _ _ => trivial
  | .inspectedInvocation symbol, _, _, hd, hconverter => by
    have hsymbol : types symbol := h.closed.parts _ _ hd hconverter _ List.mem_cons_self
    exact (castInspectedInvocation_follows h.enter hsymbol
      (h.closed.parameters _ _ hd hconverter) h.below h.within).mono fun _ _ _ _ => trivial

/-- Where nothing is cut off, the alternatives of a union are tried alike. -/
theorem applyFirst_follows
    (h : FollowsBelow ctx replies types limit cuts enter enter' enterBelow enterBelow' path)
    (hcuts : ∀ e e', ¬ cuts e e') {otherwise : Program Value}
    (hotherwise : otherwise.Follows replies (fun _ => True) (CastError.WithinLimit limit) cuts
      otherwise) :
    ∀ (alternatives : List Descriptor) (v : Value), (∀ d ∈ alternatives, types d) →
      (applyFirst ctx enter enterBelow otherwise alternatives path v).Follows replies
        (fun _ => True) (CastError.WithinLimit limit) cuts
        (applyFirst ctx enter' enterBelow' otherwise alternatives path v)
  | [], _, _ => hotherwise
  | d :: rest, v, halternatives => by
    have ⟨hd, hrest⟩ := List.forall_mem_cons.mp halternatives
    have hfirst := (Descriptor.apply_follows h d v hd).mono fun _ _ => trivial
    -- a failure at the limit would be caught here, and the two sides would part
    exact (hfirst.inUnion hcuts).orElse hcuts (applyFirst_follows h hcuts hotherwise rest v hrest)

end

end

end Conform
