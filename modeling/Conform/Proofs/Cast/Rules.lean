import Conform.Proofs.Descriptor.Parts
import Conform.Proofs.Program.Outcome
import Mathlib.Data.List.Forall2

/-!
# What the rules of types yield

One statement for each rule of a cast: what it yields if the casts of the parts yield something.
Nothing is assumed of `enter`, by which a rule reaches the parts, but what it yields at the
locations that the rule enters.
-/

namespace Conform

/-- What stands on the right is related to something on the left. -/
theorem exists_left_of_mem {α β : Type} {R : α → β → Prop} {as : List α} {bs : List β}
    (h : List.Forall₂ R as bs) {b : β} (hb : b ∈ bs) : ∃ a ∈ as, R a b := by
  induction h with
  | nil => cases hb
  | cons hR _ ih =>
    obtain rfl | hb := List.mem_cons.mp hb
    · exact ⟨_, List.mem_cons_self, hR⟩
    · obtain ⟨a, ha, hR⟩ := ih hb
      exact ⟨a, List.mem_cons_of_mem _ ha, hR⟩

/-- What stands on the left is related to something on the right. -/
theorem exists_right_of_mem {α β : Type} {R : α → β → Prop} {as : List α} {bs : List β}
    (h : List.Forall₂ R as bs) {a : α} (ha : a ∈ as) : ∃ b ∈ bs, R a b :=
  exists_left_of_mem h.flip ha

variable {enter : Enter} {replies : Replies} {bad : CastError → Prop} {path : Path}

/-- The failure of a value at a location. -/
abbrev refused (path : Path) (v : Value) (expected : String) (reason : Mismatch) : CastError :=
  .coercion ⟨.ofPath path, v, expected, reason⟩

/-- A refusal yields its error. -/
theorem mismatch_yields {α : Type} {good : α → Prop} {v : Value} {expected : String}
    {reason : Mismatch} (h : bad (refused path v expected reason)) :
    (mismatch path v expected reason : Program α).Yields replies good bad := h

/-! ## Scalars -/

/-- The kinds of the values of a scalar type. A Boolean counts as an integer. -/
def Primitive.kinds : Primitive → List Kind
  | none => [.none]
  | bool => [.bool]
  | int => [.int, .bool]
  | text => [.text]
  | bytes => [.bytes]

/-- The kinds that a floating-point type passes through. -/
def Kind.reals : List Kind := [.bool, .int, .float]

/-- The kinds that a complex type passes through. -/
def Kind.numbers : List Kind := [.bool, .int, .float, .complex]

/-- A primitive type is a matter of the kind of a value. -/
theorem Primitive.admits_iff {p : Primitive} {v : Value} :
    p.admits v = true ↔ v.kind ∈ p.kinds := by
  cases p <;> cases v <;> simp [admits, Value.kind, kinds]

/-- Being real is a matter of the kind. -/
theorem Value.isReal_iff {v : Value} : v.isReal = true ↔ v.kind ∈ Kind.reals := by
  cases v <;> simp [isReal, kind, Kind.reals]

/-- Being a number is a matter of the kind. -/
theorem Value.isNumber_iff {v : Value} : v.isNumber = true ↔ v.kind ∈ Kind.numbers := by
  cases v <;> simp [isNumber, isReal, kind, Kind.numbers]

/-- The value itself, or a refusal of it. -/
theorem castUnchanged_yields {holds : Bool} {reason : Mismatch} {expected : String} {v : Value}
    {good : Value → Prop} (hgood : holds = true → good v)
    (hbad : holds = false → bad (refused path v expected reason)) :
    (castUnchanged holds reason expected path v).Yields replies good bad := by
  cases holds with
  | true => exact hgood rfl
  | false => exact hbad rfl

/-- A decimal, or a refusal for the reason that the conversion gives. -/
theorem castDecimal_yields {expected : String} {v : Value} {good : Value → Prop}
    (hgood : ∀ d, good (.decimal d))
    (hbad : ∀ reason, v.toDecimal = .error reason → bad (refused path v expected reason)) :
    (castDecimal expected path v).Yields replies good bad := by
  rw [castDecimal]
  cases h : v.toDecimal with
  | ok d => exact hgood d
  | error reason => exact hbad reason h

/-! ## Sequences and sets -/

/-- The item at each position comes of the item that stood there. -/
theorem castItems_yields {element : Descriptor} {fits : Nat → Value → Value → Prop} {i : Nat}
    {items : List Value}
    (hitem : ∀ j x, items[j]? = some x →
      (enter element (path ++ [.index (i + j)]) x).Yields replies (fits (i + j) x) bad) :
    (castItems enter element path i items).Yields replies
      (fun ws => ∀ j w, ws[j]? = some w → ∃ x, items[j]? = some x ∧ fits (i + j) x w) bad := by
  induction items generalizing i with
  | nil => exact Program.yields_pure fun j w h => by cases h
  | cons x rest ih =>
    rw [castItems]
    refine (hitem 0 x rfl).bind fun w hw => ?_
    -- position `j + 1` of the items is position `j` of the rest, which starts at `i + 1`
    have hshift : ∀ j, i + (j + 1) = i + 1 + j := fun j => by omega
    have hrest : ∀ j y, rest[j]? = some y →
        (enter element (path ++ [.index (i + 1 + j)]) y).Yields replies
          (fits (i + 1 + j) y) bad := by
      intro j y hy
      rw [← hshift]
      exact hitem (j + 1) y hy
    refine (ih hrest).bind fun ws hws => Program.yields_pure fun j w' hw' => ?_
    cases j with
    | zero => cases hw'; exact ⟨x, rfl, hw⟩
    | succ j => rw [hshift]; exact hws j w' hw'

/-- The elements in order, each as its own cast yields it. -/
theorem castElements_yields {element : Descriptor} {expected : String} {v : Value}
    {fits : Nat → Value → Value → Prop}
    (hitem : ∀ items, v.elements? = some items → ∀ i x, items[i]? = some x →
      (enter element (path ++ [.index i]) x).Yields replies (fits i x) bad)
    (hkind : v.elements? = none → bad (refused path v expected .wrongKind)) :
    (castElements enter element expected path v).Yields replies
      (fun ws => ∃ items, v.elements? = some items ∧
        ∀ i w, ws[i]? = some w → ∃ x, items[i]? = some x ∧ fits i x w) bad := by
  rw [castElements]
  cases h : v.elements? with
  | none => exact hkind h
  | some items =>
    -- the positions of the items count from zero
    have hitems : ∀ j x, items[j]? = some x →
        (enter element (path ++ [.index (0 + j)]) x).Yields replies (fits (0 + j) x) bad := by
      intro j x hx
      rw [Nat.zero_add]
      exact hitem items h j x hx
    refine (castItems_yields hitems).imp fun ws hws => ⟨items, rfl, fun i w hw => ?_⟩
    have hfits := hws i w hw
    rwa [Nat.zero_add] at hfits

/-- Each key is that of an item. -/
theorem hashItems_yields {element : Descriptor} {i : Nat} {items : List Value}
    (hhash : ∀ j w, items[j]? = some w → w.toKey? = none →
      bad (refused (path ++ [.index (i + j)]) w element.render .unhashable)) :
    (hashItems element path i items).Yields replies
      (fun keys => ∀ k ∈ keys, ∃ w ∈ items, w.toKey? = some k) bad := by
  induction items generalizing i with
  | nil => exact Program.yields_pure fun _ h => absurd h List.not_mem_nil
  | cons w rest ih =>
    rw [hashItems]
    cases hk : w.toKey? with
    | none => exact hhash 0 w rfl hk
    | some k =>
      -- the index of the rest is one further
      have hrest : ∀ j x, rest[j]? = some x → x.toKey? = none →
          bad (refused (path ++ [.index (i + 1 + j)]) x element.render .unhashable) := by
        intro j x hx hnone
        have hnext := hhash (j + 1) x hx hnone
        rwa [Nat.add_comm j 1, ← Nat.add_assoc] at hnext
      refine (ih hrest).bind fun keys hkeys => Program.yields_pure ?_
      refine List.forall_mem_cons.mpr ⟨⟨w, List.mem_cons_self, hk⟩, fun k' hk' => ?_⟩
      obtain ⟨x, hx, hkey⟩ := hkeys k' hk'
      exact ⟨x, List.mem_cons_of_mem w hx, hkey⟩

/-- A set ascends, and each element is the key of a cast item. -/
theorem castSet_yields {element : Descriptor} {expected : String} {v : Value}
    {fits : Nat → Value → Value → Prop}
    (hitem : ∀ items, v.elements? = some items → ∀ i x, items[i]? = some x →
      (enter element (path ++ [.index i]) x).Yields replies (fits i x) bad)
    (hkind : v.elements? = none → bad (refused path v expected .wrongKind))
    (hhash : ∀ items, v.elements? = some items → ∀ i x w, items[i]? = some x → fits i x w →
      w.toKey? = none → bad (refused (path ++ [.index i]) w element.render .unhashable)) :
    (castSet enter element expected path v).Yields replies
      (fun w => ∃ keys, w = .set keys ∧ Key.Ascending keys ∧
        ∀ k ∈ keys, ∃ i x w, fits i x w ∧ w.toKey? = some k) bad := by
  rw [castSet]
  refine (castElements_yields hitem hkind).bind fun ws hws => ?_
  obtain ⟨items, hitems, hfits⟩ := hws
  refine (hashItems_yields fun j w hw hnone => ?_).bind fun keys hkeys => Program.yields_pure ?_
  -- an item that can be no key is refused at the index that it was cast at
  · rw [Nat.zero_add]
    obtain ⟨x, hx, hxw⟩ := hfits j w hw
    exact hhash items hitems j x w hx hxw hnone
  · -- a key of the set goes back to the cast item it is the key of, and that to an item
    refine ⟨_, rfl, Key.ascending_ascending keys, fun k hk => ?_⟩
    obtain ⟨w, hw, hkey⟩ := hkeys k (Key.mem_of_mem_ascending hk)
    obtain ⟨j, hj⟩ := List.mem_iff_getElem?.mp hw
    obtain ⟨x, -, hxw⟩ := hfits j w hj
    exact ⟨j, x, w, hxw, hkey⟩

/-! ## Maps -/

/-- Each entry gives one entry, whose key is the key of the cast key. -/
theorem castEntries_yields {key value : Descriptor} {entries : List (Key × Value)}
    {keyFits : Key → Value → Prop} {valueFits : Value → Prop}
    (hkey : ∀ k x, (k, x) ∈ entries →
      (enter key (path ++ [.key k.render]) k.toValue).Yields replies (keyFits k) bad)
    (hhash : ∀ k x w, (k, x) ∈ entries → keyFits k w → w.toKey? = none →
      bad (refused (path ++ [.key k.render]) w key.render .unhashable))
    (hvalue : ∀ k x, (k, x) ∈ entries →
      (enter value (path ++ [.key k.render]) x).Yields replies valueFits bad) :
    (castEntries enter key value path entries).Yields replies
      (fun ws => ∀ w ∈ ws, (∃ k x, keyFits k x ∧ x.toKey? = some w.1) ∧ valueFits w.2) bad := by
  induction entries with
  | nil => exact Program.yields_pure fun _ h => absurd h List.not_mem_nil
  | cons entry rest ih =>
    obtain ⟨k, x⟩ := entry
    rw [castEntries]
    refine (hkey k x List.mem_cons_self).bind fun castKey hcast => ?_
    -- the value is only cast once the key is known to be one
    cases hk : castKey.toKey? with
    | none => exact hhash k x castKey List.mem_cons_self hcast hk
    | some newKey =>
      refine (hvalue k x List.mem_cons_self).bind fun newValue hnew => ?_
      have hrest := ih (fun k x h => hkey k x (List.mem_cons_of_mem _ h))
        (fun k x w h => hhash k x w (List.mem_cons_of_mem _ h))
        (fun k x h => hvalue k x (List.mem_cons_of_mem _ h))
      refine hrest.bind fun ws hws => Program.yields_pure ?_
      exact List.forall_mem_cons.mpr ⟨⟨⟨k, castKey, hcast, hk⟩, hnew⟩, hws⟩

/-- Nothing but a map is cast to a map. -/
theorem castMap_of_kind_ne {key value : Descriptor} {expected : String} {v : Value}
    (h : v.kind ≠ .map) :
    castMap enter key value expected path v = mismatch path v expected .wrongKind := by
  cases v with
  | map entries => exact absurd rfl h
  | _ => rfl

/-- A map has distinct keys, each the key of a cast key, and cast values. -/
theorem castMap_yields {key value : Descriptor} {expected : String} {v : Value}
    {keyFits : Key → Value → Prop} {valueFits : Value → Prop}
    (hkey : ∀ entries, v = .map entries → ∀ k x, (k, x) ∈ entries →
      (enter key (path ++ [.key k.render]) k.toValue).Yields replies (keyFits k) bad)
    (hhash : ∀ entries, v = .map entries → ∀ k x w, (k, x) ∈ entries → keyFits k w →
      w.toKey? = none →
      bad (refused (path ++ [.key k.render]) w key.render .unhashable))
    (hvalue : ∀ entries, v = .map entries → ∀ k x, (k, x) ∈ entries →
      (enter value (path ++ [.key k.render]) x).Yields replies valueFits bad)
    (hkind : (∀ entries, v ≠ .map entries) → bad (refused path v expected .wrongKind)) :
    (castMap enter key value expected path v).Yields replies
      (fun w => ∃ entries, w = .map entries ∧ Entries.Distinct entries ∧
        ∀ entry ∈ entries, (∃ k x, keyFits k x ∧ x.toKey? = some entry.1) ∧ valueFits entry.2)
      bad := by
  unfold castMap
  split
  next entries =>
    refine (castEntries_yields (hkey entries rfl) (hhash entries rfl) (hvalue entries rfl)).bind
      fun ws hws => Program.yields_pure ⟨_, rfl, Entries.distinct_ofList ws, ?_⟩
    -- whichever entries are left, each key and each value comes from an entry
    exact Entries.ofList_forall (P := fun k => ∃ j x, keyFits j x ∧ x.toKey? = some k) hws
  next v hmap => exact hkind fun entries h => hmap entries h

/-! ## Tuples -/

/-- Each item gives one item, of the type at its position. -/
theorem castEach_yields {fits : Descriptor → Value → Prop} {i : Nat}
    {elements : List Descriptor} {items : List Value} (hlength : items.length = elements.length)
    (hitem : ∀ j d x, elements[j]? = some d → items[j]? = some x →
      (enter d (path ++ [.index (i + j)]) x).Yields replies (fits d) bad) :
    (castEach enter path i elements items).Yields replies (List.Forall₂ fits elements) bad := by
  induction elements generalizing i items with
  | nil =>
    obtain rfl := List.eq_nil_of_length_eq_zero hlength
    exact Program.yields_pure .nil
  | cons d elements ih =>
    cases items with
    | nil => cases hlength
    | cons x rest =>
      rw [castEach]
      refine (hitem 0 d x rfl rfl).bind fun w hw => ?_
      -- the index of the rest is one further
      have hrest : ∀ j d y, elements[j]? = some d → rest[j]? = some y →
          (enter d (path ++ [.index (i + 1 + j)]) y).Yields replies (fits d) bad := by
        intro j d y hd hy
        have hnext := hitem (j + 1) d y hd hy
        rwa [Nat.add_comm j 1, ← Nat.add_assoc] at hnext
      exact (ih (Nat.succ.inj hlength) hrest).bind fun ws hws => Program.yields_pure (.cons hw hws)

/-- A tuple of the length of the type; the length is looked at before the elements. -/
theorem castTuple_yields {elements : List Descriptor} {expected : String} {v : Value}
    {fits : Descriptor → Value → Prop}
    (hitem : ∀ items, v.sequence? = some items → ∀ i d x, elements[i]? = some d →
      items[i]? = some x → (enter d (path ++ [.index i]) x).Yields replies (fits d) bad)
    (hkind : v.sequence? = none → bad (refused path v expected .wrongKind))
    (harity : ∀ items, v.sequence? = some items → items.length ≠ elements.length →
      bad (refused path v expected (.arity elements.length items.length))) :
    (castTuple enter elements expected path v).Yields replies
      (fun w => ∃ ws, w = .tuple ws ∧ List.Forall₂ fits elements ws) bad := by
  rw [castTuple]
  cases h : v.sequence? with
  | none => exact hkind h
  | some items =>
    simp only
    split
    -- the elements count from zero
    next hlength =>
      refine (castEach_yields hlength fun j d x hd hx => ?_).bind
        fun ws hws => Program.yields_pure ⟨ws, rfl, hws⟩
      rw [Nat.zero_add]
      exact hitem items h j d x hd hx
    next hlength => exact harity items h hlength

/-! ## Named fields -/

/-- Fields that are taken over, in declared order: each declared field is present, supplied by its
    default, or absent. -/
inductive Filled (present supplied : Field Descriptor → Value → Prop)
    (absent : Field Descriptor → Prop) : List (Field Descriptor) → List (String × Value) → Prop
  | nil : Filled present supplied absent [] []
  | present {f : Field Descriptor} {fields : List (Field Descriptor)} {w : Value}
      {ws : List (String × Value)} (head : present f w)
      (tail : Filled present supplied absent fields ws) :
      Filled present supplied absent (f :: fields) ((f.name, w) :: ws)
  | supplied {f : Field Descriptor} {fields : List (Field Descriptor)} {w : Value}
      {ws : List (String × Value)} (head : supplied f w)
      (tail : Filled present supplied absent fields ws) :
      Filled present supplied absent (f :: fields) ((f.name, w) :: ws)
  | absent {f : Field Descriptor} {fields : List (Field Descriptor)}
      {ws : List (String × Value)} (head : absent f)
      (tail : Filled present supplied absent fields ws) :
      Filled present supplied absent (f :: fields) ws

namespace Filled

variable {present present' supplied supplied' : Field Descriptor → Value → Prop}
  {absent absent' : Field Descriptor → Prop} {fields : List (Field Descriptor)}
  {ws : List (String × Value)}

/-- Conditions on what a record is filled with may be weakened. -/
theorem mono (h : Filled present supplied absent fields ws)
    (hpresent : ∀ f ∈ fields, ∀ w, present f w → present' f w)
    (hsupplied : ∀ f ∈ fields, ∀ w, supplied f w → supplied' f w)
    (habsent : ∀ f ∈ fields, absent f → absent' f) :
    Filled present' supplied' absent' fields ws := by
  -- field by field, with the rest of the fields under the same premises
  induction h with
  | nil => exact .nil
  | present head _ ih =>
    have ⟨hp, hps⟩ := List.forall_mem_cons.mp hpresent
    exact .present (hp _ head) (ih hps (List.forall_mem_cons.mp hsupplied).2
      (List.forall_mem_cons.mp habsent).2)
  | supplied head _ ih =>
    have ⟨hs, hss⟩ := List.forall_mem_cons.mp hsupplied
    exact .supplied (hs _ head) (ih (List.forall_mem_cons.mp hpresent).2 hss
      (List.forall_mem_cons.mp habsent).2)
  | absent head _ ih =>
    have ⟨ha, has⟩ := List.forall_mem_cons.mp habsent
    exact .absent (ha head) (ih (List.forall_mem_cons.mp hpresent).2
      (List.forall_mem_cons.mp hsupplied).2 has)

/-- The names that are taken over are declared, in the same order. -/
theorem keys_sublist (h : Filled present supplied absent fields ws) :
    (Entries.keys ws).Sublist (fields.map Field.name) := by
  induction h with
  | nil => exact List.nil_sublist _
  | present _ _ ih => exact ih.cons_cons _
  | supplied _ _ ih => exact ih.cons_cons _
  | absent _ _ ih => exact ih.cons _

/-- If no field is absent, all declared names are taken over. -/
theorem keys_eq (h : Filled present supplied absent fields ws)
    (habsent : ∀ f ∈ fields, ¬ absent f) : Entries.keys ws = fields.map Field.name := by
  induction h with
  | nil => rfl
  | present _ _ ih =>
    exact congrArg (_ :: ·) (ih (List.forall_mem_cons.mp habsent).2)
  | supplied _ _ ih =>
    exact congrArg (_ :: ·) (ih (List.forall_mem_cons.mp habsent).2)
  | absent head _ _ => exact absurd head (List.forall_mem_cons.mp habsent).1

/-- Something that holds of all values that are present and all that are supplied holds of the
    fields that are taken over. -/
theorem forall_values {P : Value → Prop} (h : Filled present supplied absent fields ws)
    (hpresent : ∀ f ∈ fields, ∀ w, present f w → P w)
    (hsupplied : ∀ f ∈ fields, ∀ w, supplied f w → P w) : ∀ field ∈ ws, P field.2 := by
  induction h with
  | nil => exact fun _ h => absurd h List.not_mem_nil
  | present head _ ih =>
    have ⟨hp, hps⟩ := List.forall_mem_cons.mp hpresent
    exact List.forall_mem_cons.mpr ⟨hp _ head, ih hps (List.forall_mem_cons.mp hsupplied).2⟩
  | supplied head _ ih =>
    have ⟨hs, hss⟩ := List.forall_mem_cons.mp hsupplied
    exact List.forall_mem_cons.mpr ⟨hs _ head, ih (List.forall_mem_cons.mp hpresent).2 hss⟩
  -- a field that is absent has no value
  | absent _ _ ih =>
    exact ih (List.forall_mem_cons.mp hpresent).2 (List.forall_mem_cons.mp hsupplied).2

end Filled

namespace KeywordShape

/-- No name is missing exactly if all required names are there. -/
theorem missing_eq_nil_iff {shape : KeywordShape} {entries : List (Key × Value)} :
    shape.missing entries = [] ↔
      ∀ name ∈ shape.required, Entries.contains (Key.text name) entries = true := by
  simp [missing, List.filter_eq_nil_iff]

/-- No key is unknown exactly if all keys are declared. -/
theorem unknown_eq_nil_iff {shape : KeywordShape} {entries : List (Key × Value)} :
    shape.unknown entries = [] ↔ ∀ k ∈ Entries.keys entries, shape.declares k = true := by
  simp [unknown, List.filter_eq_nil_iff]

/-- The fields of a map are only cast if its names are right. -/
theorem cast_map (shape : KeywordShape) (entries : List (Key × Value)) :
    shape.cast enter path (.map entries) =
      if shape.missing entries = [] ∧ shape.unknown entries = [] then
        castFields enter path entries shape.fields
      else mismatch path (.map entries) shape.label
        (.keySet (shape.missing entries) (shape.unknown entries)) := by
  simp only [KeywordShape.cast, Bool.and_eq_true, List.isEmpty_iff]

/-- Nothing but a map has names. -/
theorem cast_of_kind_ne {v : Value} (h : v.kind ≠ .map) (shape : KeywordShape) :
    shape.cast enter path v = mismatch path v shape.label .wrongKind := by
  cases v with
  | map entries => exact absurd rfl h
  | _ => rfl

/-- Fields are cast in declared order, one after the other. -/
theorem castFields_append (entries : List (Key × Value)) (fields others : List (Field Descriptor)) :
    castFields enter path entries (fields ++ others) = (do
      let ws ← castFields enter path entries fields
      let us ← castFields enter path entries others
      pure (ws ++ us)) := by
  induction fields with
  | nil => exact (Program.bind_pure _).symm
  | cons f rest ih =>
    rw [List.cons_append, castFields, castFields, ih]
    -- the rest follows on the field, whether it is in the map, has a default, or is left out
    cases Entries.find? (Key.text f.name) entries with
    | some x => simp only [Program.bind_assoc, Program.pure_bind, List.cons_append]
    | none =>
      cases f.default? with
      | some d => simp only [Program.bind_assoc, Program.pure_bind, List.cons_append]
      | none => rfl

/-- The declared fields are taken over; a default is only made for one that the map lacks. -/
theorem castFields_yields {entries : List (Key × Value)} {fields : List (Field Descriptor)}
    {fits supplied : Field Descriptor → Value → Prop}
    (hfield : ∀ f ∈ fields, ∀ x, Entries.find? (Key.text f.name) entries = some x →
      (enter f.type (path ++ [.field f.name]) x).Yields replies (fits f) bad)
    (hsupplied : ∀ f ∈ fields, ∀ d, f.default? = some d →
      (Program.produce d).Yields replies (supplied f) bad) :
    (castFields enter path entries fields).Yields replies
      (Filled fits supplied
        (fun f => Entries.find? (Key.text f.name) entries = none ∧ f.default? = none) fields)
      bad := by
  induction fields with
  | nil => exact Program.yields_pure .nil
  | cons f rest ih =>
    have ⟨hf, hrest⟩ := List.forall_mem_cons.mp hfield
    have ⟨hd, hds⟩ := List.forall_mem_cons.mp hsupplied
    have htail := ih hrest hds
    rw [castFields]
    -- the field is in the map, has a default, or is left out
    cases hx : Entries.find? (Key.text f.name) entries with
    | some x =>
      refine (hf x hx).bind fun w hw => ?_
      exact htail.bind fun ws hws => Program.yields_pure (.present hw hws)
    | none =>
      simp only
      cases hdefault : f.default? with
      | some d =>
        refine (hd d hdefault).bind fun w hw => ?_
        exact htail.bind fun ws hws => Program.yields_pure (.supplied hw hws)
      | none => exact htail.imp fun ws hws => .absent ⟨hx, hdefault⟩ hws

/-- A map is refused for its names before any field is cast. -/
theorem cast_yields {shape : KeywordShape} {v : Value}
    {fits supplied : Field Descriptor → Value → Prop}
    (hfield : ∀ entries, v = .map entries → ∀ f ∈ shape.fields, ∀ x,
      Entries.find? (Key.text f.name) entries = some x →
      (enter f.type (path ++ [.field f.name]) x).Yields replies (fits f) bad)
    (hsupplied : ∀ f ∈ shape.fields, ∀ d, f.default? = some d →
      (Program.produce d).Yields replies (supplied f) bad)
    (hkind : (∀ entries, v ≠ .map entries) → bad (refused path v shape.label .wrongKind))
    (hnames : ∀ entries, v = .map entries →
      ¬ (shape.missing entries = [] ∧ shape.unknown entries = []) →
      bad (refused path v shape.label
        (.keySet (shape.missing entries) (shape.unknown entries)))) :
    (shape.cast enter path v).Yields replies
      (fun ws => ∃ entries, v = .map entries ∧ shape.missing entries = [] ∧
        Filled fits supplied
          (fun f => Entries.find? (Key.text f.name) entries = none ∧ f.default? = none)
          shape.fields ws) bad := by
  unfold KeywordShape.cast
  split
  next entries =>
    simp only [Bool.and_eq_true, List.isEmpty_iff]
    split
    -- the keys fit, so that the fields are cast
    next h =>
      exact (castFields_yields (hfield entries rfl) hsupplied).imp
        fun ws hws => ⟨entries, rfl, h.1, hws⟩
    next h => exact hnames entries rfl h
  -- everything else is of the wrong kind
  next v hmap => exact hkind fun entries h => hmap entries h

/-- A name that is required of a map which lacks none is there. -/
theorem find?_of_missing_eq_nil {shape : KeywordShape} {entries : List (Key × Value)}
    {name : String} (h : shape.missing entries = []) (hname : name ∈ shape.required) :
    Entries.find? (Key.text name) entries ≠ none := by
  intro hnone
  have hcontains := missing_eq_nil_iff.mp h name hname
  rw [← Entries.isSome_find?, hnone] at hcontains
  cases hcontains

end KeywordShape

/-! ## Unions -/

/-- A union yields what its alternatives yield, and what comes of it if all of them refuse. -/
theorem applyFirst_yields {ctx : Context} {enterBelow : Enter} {otherwise : Program Value}
    {alternatives : List Descriptor} {v : Value} {good : Value → Prop}
    {bad' : CastError → Prop}
    (halternative : ∀ d ∈ alternatives,
      (d.apply ctx enter enterBelow path v).Yields replies good bad')
    (hbad : ∀ e, e.isCoercion = false → bad' e → bad e)
    (hotherwise : (∀ d ∈ alternatives, ∃ e,
        (d.apply ctx enter enterBelow path v).CanEnd replies (.error (.coercion e))) →
      otherwise.Yields replies good bad) :
    (applyFirst ctx enter enterBelow otherwise alternatives path v).Yields replies good bad := by
  induction alternatives with
  | nil => exact hotherwise fun _ h => absurd h List.not_mem_nil
  | cons d rest ih =>
    have ⟨hd, hrest⟩ := List.forall_mem_cons.mp halternative
    rw [applyFirst]
    -- the rest is tried only where the first has refused, which is then known of it
    refine hd.inUnion.orElse hbad fun ⟨e, hrefused⟩ => ih hrest fun hall => hotherwise ?_
    exact List.forall_mem_cons.mpr ⟨⟨e, Program.canEnd_inUnion.mp hrefused⟩, hall⟩

end Conform
