import Conform.Proofs.Cast.Rules
import Conform.Proofs.Value.Height

/-!
# What a refusal blames

A refusal names a location, a value and what was asked of it. `Leads` says how a path leads down a
type and a value at once, and `Located` that the location of a refusal leads to a part that the
type there refuses, by a rule of its own (`Refuses`), and that the refusal tells of just these two.
A path stops at a union: what its alternatives blame is forgotten.

Two refusals concern no rule of a type. A cast item that cannot be a key is blamed at the item that
it was cast from, and a value that lies too deep is blamed where the room ends.
-/

namespace Conform

/-- The type of the items of a list, a set or a queue. -/
def Shape.element? : Shape → Option Descriptor
  | listOf element => some element
  | setOf element => some element
  | queueOf element => some element
  | _ => none

/-- The named fields of a record. -/
def Shape.keywords? : Shape → Option KeywordShape
  | record name fields _ => some (.ofRecord name fields)
  | partialRecord name fields total => some (.ofPartialRecord name fields total)
  | _ => none

/-- One step of a path, from a type and a value to a part of each. -/
inductive Step : Descriptor → Value → Segment → Descriptor → Value → Prop
  | field {id : Nat} {shape : Shape} {fields : KeywordShape} {f : Field Descriptor}
      {entries : List (Key × Value)} {x : Value} (keywords : shape.keywords? = some fields)
      (declared : f ∈ fields.fields) (found : Entries.find? (Key.text f.name) entries = some x) :
      Step (.node id shape) (.map entries) (.field f.name) f.type x
  | item {id i : Nat} {shape : Shape} {element : Descriptor} {items : List Value} {v x : Value}
      (typed : shape.element? = some element) (runs : v.elements? = some items)
      (found : items[i]? = some x) : Step (.node id shape) v (.index i) element x
  | component {id i : Nat} {elements : List Descriptor} {d : Descriptor} {items : List Value}
      {v x : Value} (declared : elements[i]? = some d) (runs : v.sequence? = some items)
      (found : items[i]? = some x) : Step (.node id (.tupleOf elements)) v (.index i) d x
  | key {id : Nat} {key value : Descriptor} {entries : List (Key × Value)} {k : Key} {x : Value}
      (entry : (k, x) ∈ entries) :
      Step (.node id (.mapOf key value)) (.map entries) (.key k.render) key k.toValue
  | value {id : Nat} {key value : Descriptor} {entries : List (Key × Value)} {k : Key} {x : Value}
      (entry : (k, x) ∈ entries) :
      Step (.node id (.mapOf key value)) (.map entries) (.key k.render) value x

/-- The steps of a path, one after the other. -/
inductive Leads : Descriptor → Value → Path → Descriptor → Value → Prop
  | here (d : Descriptor) (v : Value) : Leads d v [] d v
  | step {d d' d'' : Descriptor} {v v' v'' : Value} {segment : Segment} {path : Path}
      (first : Step d v segment d' v') (rest : Leads d' v' path d'' v'') :
      Leads d v (segment :: path) d'' v''

/-- A step leads to a lower value. -/
theorem Step.height_lt {d d' : Descriptor} {v x : Value} {segment : Segment}
    (h : Step d v segment d' x) : x.height < v.height := by
  -- a step goes to an entry, an item or a key, all of which lie below the value
  cases h with
  | field _ _ found =>
    obtain ⟨k, hk, _⟩ := Entries.mem_of_find? found
    exact (Value.height_lt_of_mem_entries hk).2
  | item _ runs found => exact Value.height_lt_of_elements? runs (List.mem_of_getElem? found)
  | component _ runs found =>
    exact Value.height_lt_of_sequence? runs (List.mem_of_getElem? found)
  | @key _ _ _ _ k _ entry =>
    exact Nat.lt_of_le_of_lt (Key.height_toValue_le k) (Value.height_lt_of_mem_entries entry).1
  | value entry => exact (Value.height_lt_of_mem_entries entry).2

/-- A path is no longer than the value is high. -/
theorem Leads.length_le {d d' : Descriptor} {v x : Value} {path : Path}
    (h : Leads d v path d' x) : path.length + x.height ≤ v.height := by
  induction h with
  | here d v => simp
  | step first rest ih =>
    have hlower := first.height_lt
    rw [List.length_cons]
    omega

/-- The rule of a type refuses a value, whatever would come of the parts of the value. A union
    refuses what all of its alternatives refuse at the same location. -/
inductive Refuses (ctx : Context) (replies : Replies) (path : Path) :
    Shape → Value → Mismatch → Prop
  | primitive {p : Primitive} {v : Value} (kind : v.kind ∉ p.kinds) :
      Refuses ctx replies path (.primitive p) v .wrongKind
  | float {v : Value} (kind : v.kind ∉ Kind.reals) : Refuses ctx replies path .float v .wrongKind
  | complex {v : Value} (kind : v.kind ∉ Kind.numbers) :
      Refuses ctx replies path .complex v .wrongKind
  | decimal {v : Value} {reason : Mismatch} (number : v.toDecimal = .error reason) :
      Refuses ctx replies path .decimal v reason
  | literal {allowed : List Value} {v : Value} (other : ∀ m ∈ allowed, m.equal v = false) :
      Refuses ctx replies path (.literal allowed) v .notInLiteral
  | noFields {shape : Shape} {fields : KeywordShape} {v : Value}
      (keywords : shape.keywords? = some fields) (kind : ∀ entries, v ≠ .map entries) :
      Refuses ctx replies path shape v .wrongKind
  | names {shape : Shape} {fields : KeywordShape} {entries : List (Key × Value)}
      (keywords : shape.keywords? = some fields)
      (names : ¬ (fields.missing entries = [] ∧ fields.unknown entries = [])) :
      Refuses ctx replies path shape (.map entries)
        (.keySet (fields.missing entries) (fields.unknown entries))
  | noItems {shape : Shape} {element : Descriptor} {v : Value}
      (typed : shape.element? = some element) (kind : v.elements? = none) :
      Refuses ctx replies path shape v .wrongKind
  | noEntries {key value : Descriptor} {v : Value} (kind : ∀ entries, v ≠ .map entries) :
      Refuses ctx replies path (.mapOf key value) v .wrongKind
  | noComponents {elements : List Descriptor} {v : Value} (kind : v.sequence? = none) :
      Refuses ctx replies path (.tupleOf elements) v .wrongKind
  | arity {elements : List Descriptor} {items : List Value} {v : Value}
      (found : v.sequence? = some items) (arity : items.length ≠ elements.length) :
      Refuses ctx replies path (.tupleOf elements) v (.arity elements.length items.length)
  | union {alternatives : List Descriptor} {v : Value}
      (all : ∀ d ∈ alternatives, ∃ e,
        (castAt ctx d path v).CanEnd replies (.error (.coercion e))) :
      Refuses ctx replies path (.unionOf alternatives) v (.unionExhausted alternatives.length)

/-- What a refusal tells of the type and the value at the end of its path. -/
inductive Blames (ctx : Context) (replies : Replies) (path : Path) (d : Descriptor) (x : Value)
    (e : CoercionError) : Prop
  | refused (value : e.value = x) (reason : Refuses ctx replies path d.shape x e.reason)
  | unhashable (given : (castAt ctx d path x).CanEnd replies (.ok e.value))
      (noKey : e.value.toKey? = none) (reason : e.reason = .unhashable)
  | tooDeep (value : e.value = x) (length : path.length = ctx.config.limits.maxDepth + 1)
      (reason : e.reason = .depthExceeded ctx.config.limits.maxDepth)

/-- The location of a refusal leads from a type and a value at a location to what it blames. -/
def Located (ctx : Context) (replies : Replies) (d : Descriptor) (path : Path) (v : Value)
    (e : CoercionError) : Prop :=
  ∃ steps d' x, e.location = .ofPath (path ++ steps) ∧ Leads d v steps d' x ∧
    e.expected = d'.render ∧ Blames ctx replies (path ++ steps) d' x e

/-- A failure is a refusal with a location. -/
def Refusal (ctx : Context) (replies : Replies) (d : Descriptor) (path : Path) (v : Value) :
    CastError → Prop
  | .coercion e => Located ctx replies d path v e
  | _ => False

section Rules

variable {ctx : Context} {replies : Replies} {d : Descriptor} {path : Path} {v : Value}

/-- The empty walk: the pair that is blamed is the pair that was entered. -/
theorem located_here {e : CoercionError} (hlocation : e.location = .ofPath path)
    (hexpected : e.expected = d.render) (hblames : Blames ctx replies path d v e) :
    Located ctx replies d path v e := by
  refine ⟨[], d, v, ?_, .here d v, hexpected, ?_⟩
  · rw [List.append_nil]; exact hlocation
  · rw [List.append_nil]; exact hblames

/-- An error that is located one step down is located from here, by a walk one step longer. -/
theorem Located.below {d' : Descriptor} {x : Value} {segment : Segment} {e : CoercionError}
    (hstep : Step d v segment d' x) (h : Located ctx replies d' (path ++ [segment]) x e) :
    Located ctx replies d path v e := by
  obtain ⟨steps, d'', x', hlocation, hleads, hexpected, hblames⟩ := h
  have hpath : path ++ [segment] ++ steps = path ++ segment :: steps := by simp
  rw [hpath] at hlocation hblames
  exact ⟨segment :: steps, d'', x', hlocation, .step hstep hleads, hexpected, hblames⟩

/-- The rule of a shape that refuses the value itself blames the pair at hand. -/
theorem refusal_here {id : Nat} {shape : Shape} {reason : Mismatch}
    (h : Refuses ctx replies path shape v reason) :
    Refusal ctx replies (.node id shape) path v (refused path v shape.render reason) :=
  located_here rfl rfl (.refused rfl h)

/-- A cast element that has no key is blamed one step down, after it was cast. -/
theorem refusal_unhashable {d' : Descriptor} {x w : Value} {segment : Segment}
    (hstep : Step d v segment d' x)
    (hw : (castAt ctx d' (path ++ [segment]) x).CanEnd replies (.ok w)) (hnone : w.toKey? = none) :
    Refusal ctx replies d path v (refused (path ++ [segment]) w d'.render .unhashable) :=
  Located.below hstep (located_here rfl rfl (.unhashable hw hnone rfl))

/-- Named fields are blamed for their names, or for what is blamed in one of them. -/
private theorem keywords_located {enter : Enter} {id : Nat} {shape : Shape} {fields : KeywordShape}
    (hkeywords : shape.keywords? = some fields) (hlabel : fields.label = shape.render)
    (hbelow : ∀ f ∈ fields.fields, ∀ x, Step (.node id shape) v (.field f.name) f.type x →
      (enter f.type (path ++ [.field f.name]) x).Yields replies (fun _ => True)
        (Refusal ctx replies (.node id shape) path v)) :
    (fields.cast enter path v).Yields replies (fun _ => True)
      (Refusal ctx replies (.node id shape) path v) := by
  have hfield : ∀ entries, v = .map entries → ∀ f ∈ fields.fields, ∀ x,
      Entries.find? (Key.text f.name) entries = some x →
      (enter f.type (path ++ [.field f.name]) x).Yields replies (fun _ => True)
        (Refusal ctx replies (.node id shape) path v) := by
    rintro entries rfl f hf x hx
    exact hbelow f hf x (.field hkeywords hf hx)
  -- a default is made by the host, which has errors of its own
  have hsupplied : ∀ f ∈ fields.fields, ∀ d, f.default? = some d →
      (Program.produce d).Yields replies (fun _ => True)
        (Refusal ctx replies (.node id shape) path v) :=
    fun _ _ _ _ => Program.yields_produce (fun _ _ => trivial) fun _ _ _ _ => trivial
  -- a record is refused as a whole for its kind or for its names, under its own text
  have hkind : (∀ entries, v ≠ .map entries) →
      Refusal ctx replies (.node id shape) path v (refused path v fields.label .wrongKind) := by
    intro h
    rw [hlabel]
    exact refusal_here (.noFields hkeywords h)
  have hnames : ∀ entries, v = .map entries →
      ¬ (fields.missing entries = [] ∧ fields.unknown entries = []) →
      Refusal ctx replies (.node id shape) path v (refused path v fields.label
        (.keySet (fields.missing entries) (fields.unknown entries))) := by
    rintro entries rfl h
    rw [hlabel]
    exact refusal_here (.names hkeywords h)
  exact (KeywordShape.cast_yields hfield hsupplied hkind hnames).imp fun _ _ => trivial

/-- The rule of a data type blames what it refuses itself, or what is blamed in a part. -/
theorem apply_located (hctx : ctx.NoConversions) {room : Nat}
    (hroom : room + path.length = ctx.config.limits.maxDepth)
    (henter : ∀ d : Descriptor, d.IsData → ∀ segment x,
      (castWithin ctx room d (path ++ [segment]) x).Yields replies
        (fun w => (castAt ctx d (path ++ [segment]) x).CanEnd replies (.ok w))
        (Refusal ctx replies d (path ++ [segment]) x))
    (hdata : d.IsData) :
    (d.apply ctx (castWithin ctx room) (castWithin ctx (room - 1)) path v).Yields replies
      (fun _ => True) (Refusal ctx replies d path v) := by
  induction hdata with
  | @node id shape hroot hparts ih =>
    -- what is blamed in a part is blamed in the whole, one step further down
    have hpart : ∀ d segment x, d ∈ shape.parts → Step (.node id shape) v segment d x →
        (castWithin ctx room d (path ++ [segment]) x).Yields replies
          (fun w => (castAt ctx d (path ++ [segment]) x).CanEnd replies (.ok w))
          (Refusal ctx replies (.node id shape) path v) := by
      intro d segment x hd hstep
      refine (henter d (hparts d hd) segment x).mono (fun w hw => hw) fun e he => ?_
      cases e with
      | coercion e => exact Located.below hstep he
      | config | lookup | host => exact he.elim
    have hbelow : ∀ d segment x, d ∈ shape.parts → Step (.node id shape) v segment d x →
        (castWithin ctx room d (path ++ [segment]) x).Yields replies (fun _ => True)
          (Refusal ctx replies (.node id shape) path v) :=
      fun d segment x hd hstep => (hpart d segment x hd hstep).imp fun _ _ => trivial
    rw [Descriptor.apply, hctx id]
    cases shape with
    | any => exact Program.yields_pure trivial
    | primitive p =>
      refine castUnchanged_yields (fun _ => trivial) fun h => refusal_here (.primitive ?_)
      rw [← Primitive.admits_iff, h]
      exact Bool.false_ne_true
    | float =>
      refine castUnchanged_yields (fun _ => trivial) fun h => refusal_here (.float ?_)
      rw [← Value.isReal_iff, h]
      exact Bool.false_ne_true
    | complex =>
      refine castUnchanged_yields (fun _ => trivial) fun h => refusal_here (.complex ?_)
      rw [← Value.isNumber_iff, h]
      exact Bool.false_ne_true
    | decimal =>
      exact castDecimal_yields (fun _ => trivial) fun reason h => refusal_here (.decimal h)
    | literal allowed =>
      refine castUnchanged_yields (fun _ => trivial) fun h => refusal_here (.literal fun m hm => ?_)
      exact Bool.eq_false_iff.mpr (List.any_eq_false.mp h m hm)
    | record name fields constructor? =>
      obtain rfl : constructor? = none := hroot
      refine Program.Yields.bind (keywords_located rfl rfl fun f hf x hstep => ?_)
        fun _ _ => Program.yields_pure trivial
      exact hbelow f.type (.field f.name) x (List.mem_map_of_mem hf) hstep
    | partialRecord name fields total =>
      refine Program.Yields.bind (keywords_located rfl rfl fun f hf x hstep => ?_)
        fun _ _ => Program.yields_pure trivial
      obtain ⟨field, hfield, rfl⟩ := List.mem_map.mp hf
      exact hbelow field.2 (.field field.1) x (List.mem_map_of_mem hfield) hstep
    | listOf element =>
      have hitem := fun (items : List Value) hitems i x (hx : items[i]? = some x) =>
        hbelow element (.index i) x List.mem_cons_self (.item rfl hitems hx)
      exact Program.Yields.bind (castElements_yields hitem fun h => refusal_here (.noItems rfl h))
        fun _ _ => Program.yields_pure trivial
    | setOf element =>
      -- here and for the keys of a map it matters what the part is cast to
      have hitem := fun (items : List Value) hitems i x (hx : items[i]? = some x) =>
        hpart element (.index i) x List.mem_cons_self (.item rfl hitems hx)
      have hhash : ∀ items, v.elements? = some items → ∀ i x w, items[i]? = some x →
          (castAt ctx element (path ++ [.index i]) x).CanEnd replies (.ok w) →
          w.toKey? = none → Refusal ctx replies (.node id (.setOf element)) path v
            (refused (path ++ [.index i]) w element.render .unhashable) :=
        fun items hitems i x w hx => refusal_unhashable (.item rfl hitems hx)
      exact Program.Yields.imp (castSet_yields hitem (fun h => refusal_here (.noItems rfl h)) hhash)
        fun _ _ => trivial
    | queueOf element =>
      have hitem := fun (items : List Value) hitems i x (hx : items[i]? = some x) =>
        hbelow element (.index i) x List.mem_cons_self (.item rfl hitems hx)
      exact Program.Yields.bind (castElements_yields hitem fun h => refusal_here (.noItems rfl h))
        fun _ _ => Program.yields_pure trivial
    | mapOf key value =>
      have hkeys := fun entries (hv : v = .map entries) k x (h : (k, x) ∈ entries) =>
        hpart key (.key k.render) k.toValue List.mem_cons_self (hv ▸ .key h)
      have hvalues := fun entries (hv : v = .map entries) k x (h : (k, x) ∈ entries) =>
        hbelow value (.key k.render) x (List.mem_cons_of_mem _ List.mem_cons_self)
          (hv ▸ .value h)
      exact Program.Yields.imp (castMap_yields hkeys
        (fun entries hv k x w h => refusal_unhashable (hv ▸ .key h)) hvalues
        fun h => refusal_here (.noEntries h)) fun _ _ => trivial
    | tupleOf elements =>
      have hitem := fun (items : List Value) hitems i d x (hd : elements[i]? = some d)
          (hx : items[i]? = some x) =>
        hbelow d (.index i) x (List.mem_of_getElem? hd) (.component hd hitems hx)
      exact Program.Yields.imp (castTuple_yields hitem (fun h => refusal_here (.noComponents h))
        fun items h hne => refusal_here (.arity h hne)) fun _ _ => trivial
    | unionOf alternatives =>
      -- of an alternative nothing is used but that it fails with refusals only
      have halternative : ∀ d ∈ alternatives,
          (d.apply ctx (castWithin ctx room) (castWithin ctx (room - 1)) path v).Yields replies
            (fun _ => True) (fun e => e.isCoercion = true) := by
        intro d hd
        refine (ih d hd).mono (fun w hw => hw) fun e he => ?_
        cases e with
        | coercion e => rfl
        | config | lookup | host => exact he.elim
      refine applyFirst_yields halternative (fun e hne he => ?_) fun hall => ?_
      · rw [hne] at he; cases he
      · -- each alternative stands at the location itself, with the room that is left there
        refine refusal_here (.union fun d hd => ?_)
        obtain ⟨e, he⟩ := hall d hd
        rw [← castWithin_succ, castWithin_eq_castAt (by omega)] at he
        exact ⟨e, he⟩
    | symbolPath | invocation | inspectedInvocation => exact hroot.elim

/-- A cast to a data type at a location fails with a refusal that is located, and with nothing
    else. -/
theorem castWithin_located (hctx : ctx.NoConversions) {room : Nat}
    (hroom : room + path.length = ctx.config.limits.maxDepth + 1) (hdata : d.IsData) :
    (castWithin ctx room d path v).Yields replies (fun _ => True)
      (Refusal ctx replies d path v) := by
  induction room generalizing d path v with
  | zero =>
    rw [Nat.zero_add] at hroom
    exact mismatch_yields (located_here rfl rfl (.tooDeep rfl hroom rfl))
  | succ room ih =>
    rw [castWithin_succ]
    have hroom' : room + path.length = ctx.config.limits.maxDepth := by omega
    -- one level down the path is one segment longer, and the rest of the room is the same
    refine apply_located hctx hroom' (fun d hdata segment x => ?_) hdata
    have hlength : room + (path ++ [segment]).length = ctx.config.limits.maxDepth + 1 := by
      rw [List.length_append, List.length_singleton]
      omega
    have hpart := ih (v := x) hlength hdata
    rw [castWithin_eq_castAt hlength] at hpart ⊢
    exact hpart.canEnd.mono (fun w hw => hw.2) fun e he => he.1

end Rules

/-- A refusal by a cast to a data type is located: its location leads down the type and the value to
    a type and a value there. It tells of just these two and the type refuses the value by a rule of
    its own, or it tells of a value without a key that the one there is cast to. -/
theorem refusal_leads_to_blamed {σ : Type}
    {answer : (request : Request) → StateM σ request.Reply} {ctx : Context}
    (hctx : ctx.NoConversions) {d : Descriptor} (hdata : d.IsData) {v : Value}
    (hheight : v.height ≤ ctx.config.limits.maxDepth) {s : σ} {e : CoercionError}
    (hrun : (((cast ctx d v).run answer).run s).1 = .error (.coercion e)) :
    ∃ path d' x, e.location = .ofPath path ∧ Leads d v path d' x ∧ e.expected = d'.render ∧
      ((e.value = x ∧ Refuses ctx (.ofHost answer) path d'.shape x e.reason) ∨
        (e.reason = .unhashable ∧ e.value.toKey? = none ∧
          (castAt ctx d' path x).CanEnd (.ofHost answer) (.ok e.value))) := by
  have hcast : cast ctx d v = castAt ctx d [] v := by
    rw [cast] at hrun ⊢
    cases hc : compile ctx d with
    | error err =>
      -- a type that cannot be used does not refuse anything
      rw [hc] at hrun
      cases hrun
    | ok c => rw [compile_eq_ok hc]; rfl
  have hlocated : (castAt ctx d [] v).Yields (.ofHost answer) (fun _ => True)
      (Refusal ctx (.ofHost answer) d [] v) := castWithin_located hctx rfl hdata
  rw [hcast] at hrun
  obtain ⟨w, hw, -⟩ | ⟨err, herr, hrefusal⟩ := hlocated.run (fun request s => ⟨s, rfl⟩) s
  · rw [hw] at hrun; cases hrun
  rw [herr] at hrun
  cases hrun
  obtain ⟨steps, d', x, hlocation, hleads, hexpected, hblames⟩ := hrefusal
  refine ⟨steps, d', x, hlocation, hleads, hexpected, ?_⟩
  cases hblames with
  | refused hvalue hreason => exact .inl ⟨hvalue, hreason⟩
  | unhashable hgiven hnone hreason => exact .inr ⟨hreason, hnone, hgiven⟩
  | tooDeep _ hlength _ =>
    -- the value is not so high that a path could use up the room
    have hlength_le := hleads.length_le
    rw [List.nil_append] at hlength
    omega

/-- Lists of maps whose keys are pairs of a number or a text and a number. -/
def pairKeyedType : Descriptor :=
  .node 0 (.listOf (.node 1 (.mapOf
    (.node 2 (.tupleOf [.node 3 (.unionOf [.node 4 (.primitive .int), .node 5 (.primitive .text)]),
      .node 6 (.primitive .int)]))
    (.node 7 .any))))

/-- The refusal of a component of a key of the second map, behind a union that has backtracked. -/
def pairRefusal : CoercionError :=
  ⟨.ofPath [.index 1, .key (Key.tuple [.text "a", .text "b"]).render, .index 1], .text "b", "Int",
    .wrongKind⟩

/-- A key that is refused in the second map of a list. -/
theorem refusal_leads_to_blamed_pair :
    ∃ path d' x, pairRefusal.location = .ofPath path ∧
      Leads pairKeyedType (.list [.map [(.tuple [.int 1, .int 2], .none)],
        .map [(.tuple [.text "a", .text "b"], .none)]]) path d' x ∧
      pairRefusal.expected = d'.render ∧
      ((pairRefusal.value = x ∧
          Refuses {} (.ofHost numberingHost) path d'.shape x pairRefusal.reason) ∨
        (pairRefusal.reason = .unhashable ∧ pairRefusal.value.toKey? = none ∧
          (castAt {} d' path x).CanEnd (.ofHost numberingHost) (.ok pairRefusal.value))) := by
  have hrun : (((cast {} pairKeyedType (.list [.map [(.tuple [.int 1, .int 2], .none)],
      .map [(.tuple [.text "a", .text "b"], .none)]])).run numberingHost).run 0).1 =
      .error (.coercion pairRefusal) := rfl
  refine refusal_leads_to_blamed (fun id => rfl) ?_ ?_ hrun
  · simp [pairKeyedType, Descriptor.IsData, Descriptor.everywhere_node, Shape.IsData, Shape.parts]
  · decide

end Conform
