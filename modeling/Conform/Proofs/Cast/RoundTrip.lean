import Conform.Proofs.Cast.Plain
import Conform.Proofs.Value.Height
import Mathlib.Data.List.Perm.Basic

/-!
# Casting what was written

A cast with a type of plain data gives back the value from whatever plain form of it. The rules of
the types put no request and settle on one value, which the `_settles` lemmas state of any `enter`
that settles on the parts. Main statement: `cast_plainForm`.
-/

namespace Conform

/-! ## Rules that settle -/

section Rules

variable {enter : Enter} {path : Path}

/-- A value that is allowed is returned. -/
theorem castUnchanged_settles {reason : Mismatch} {expected : String} {v : Value} {holds : Bool}
    (h : holds = true) : (castUnchanged holds reason expected path v).SettlesTo (.ok v) := by
  rw [castUnchanged, if_pos h]; rfl

/-- Items that settle, settle one after the other. -/
theorem castItems_settles {element : Descriptor} {items ws : List Value} {i : Nat}
    (h : List.Forall₂ (fun x w => ∀ path, (enter element path x).SettlesTo (.ok w)) items ws) :
    (castItems enter element path i items).SettlesTo (.ok ws) := by
  induction h generalizing i with
  | nil => rfl
  | cons hx _ ih => exact (hx _).bind (ih.bind rfl)

/-- Values that have keys are given for these keys. -/
theorem hashItems_settles {element : Descriptor} {ws : List Value} {keys : List Key} {i : Nat}
    (h : List.Forall₂ (fun w k => w.toKey? = some k) ws keys) :
    (hashItems element path i ws).SettlesTo (.ok keys) := by
  induction h generalizing i with
  | nil => rfl
  | cons hk _ ih => rw [hashItems, hk]; exact ih.bind rfl

/-- Entries settle when their keys do, to values of the new keys, and their values do. -/
theorem castEntries_settles {key value : Descriptor} {us ws : List (Key × Value)}
    (h : List.Forall₂ (fun u w => (∀ path, ∃ x,
        (enter key path u.1.toValue).SettlesTo (.ok x) ∧ x.toKey? = some w.1) ∧
      ∀ path, (enter value path u.2).SettlesTo (.ok w.2)) us ws) :
    (castEntries enter key value path us).SettlesTo (.ok ws) := by
  induction h with
  | nil => rfl
  | @cons u w _ _ hw _ ih =>
    obtain ⟨hkey, hvalue⟩ := hw
    -- the key comes first, and the value is cast under it whatever it was cast to
    obtain ⟨x, hx, hk⟩ := hkey (path ++ [.key u.1.render])
    rw [castEntries]
    refine hx.bind ?_
    rw [hk]
    exact (hvalue _).bind (ih.bind rfl)

/-- Elements of a tuple that settle by their own types settle together. -/
theorem castEach_settles {elements : List Descriptor} {us ws : List Value} {i : Nat}
    (hlength : elements.length = ws.length) (hlength' : ws.length = us.length)
    (heach : ∀ d w u, ((d, w), u) ∈ (elements.zip ws).zip us →
      ∀ path, (enter d path u).SettlesTo (.ok w)) :
    (castEach enter path i elements us).SettlesTo (.ok ws) := by
  induction elements generalizing us ws i with
  | nil =>
    rw [List.eq_nil_of_length_eq_zero hlength.symm]
    rfl
  | cons d elements ih =>
    match ws, us, hlength, hlength' with
    | w :: ws, u :: us, hlength, hlength' =>
      -- the rest of both lists starts one index on
      have hrest := ih (i := i + 1) (Nat.succ.inj hlength) (Nat.succ.inj hlength')
        fun d w u h => heach d w u (List.mem_cons_of_mem _ h)
      exact (heach d w u List.mem_cons_self _).bind (hrest.bind rfl)

/-! ### Named fields -/

/-- A field that is taken over is among those that are, and one that is absent is not. -/
theorem Filled.mem {present supplied : Field Descriptor → Value → Prop}
    {absent : Field Descriptor → Prop} {fields : List (Field Descriptor)}
    {ws : List (String × Value)} (h : Filled present supplied absent fields ws)
    (hnodup : (fields.map Field.name).Nodup) :
    Filled (fun f w => present f w ∧ (f.name, w) ∈ ws) supplied
      (fun f => absent f ∧ f.name ∉ Entries.keys ws) fields ws := by
  -- one more field in front has another name than all of these
  have hcons {name : String} {w : Value} {rest : List (Field Descriptor)}
      {ws : List (String × Value)} (hname : name ∉ rest.map Field.name)
      (h : Filled (fun f w => present f w ∧ (f.name, w) ∈ ws) supplied
        (fun f => absent f ∧ f.name ∉ Entries.keys ws) rest ws) :
      Filled (fun f w' => present f w' ∧ (f.name, w') ∈ (name, w) :: ws) supplied
        (fun f => absent f ∧ f.name ∉ Entries.keys ((name, w) :: ws)) rest ws := by
    refine h.mono (fun f _ w hw => ⟨hw.1, List.mem_cons_of_mem _ hw.2⟩) (fun _ _ _ h => h) ?_
    refine fun f hf habsent => ⟨habsent.1, fun hmem => ?_⟩
    obtain heq | hmem := List.mem_cons.mp hmem
    · have hfield : f.name = name := heq
      exact hname (hfield ▸ List.mem_map_of_mem hf)
    · exact habsent.2 hmem
  -- on the fields, in front of which no other field has the name
  induction h with
  | nil => exact .nil
  | present head _ ih =>
    have ⟨hname, hrest⟩ := List.nodup_cons.mp hnodup
    exact .present ⟨head, List.mem_cons_self⟩ (hcons hname (ih hrest))
  | supplied head _ ih =>
    have ⟨hname, hrest⟩ := List.nodup_cons.mp hnodup
    exact .supplied head (hcons hname (ih hrest))
  | absent head tail ih =>
    have ⟨hname, hrest⟩ := List.nodup_cons.mp hnodup
    exact .absent ⟨head, fun hmem => hname (tail.keys_sublist.subset hmem)⟩ (ih hrest)

/-- The fields are taken over as they are filled, if the map has the fields that are present. -/
theorem castFields_settles {entries : List (Key × Value)} {fields : List (Field Descriptor)}
    {ws : List (String × Value)}
    (h : Filled (fun f w => ∃ x, Entries.find? (Key.text f.name) entries = some x ∧
        ∀ path, (enter f.type path x).SettlesTo (.ok w)) (fun _ _ => False)
      (fun f => Entries.find? (Key.text f.name) entries = none ∧ f.default? = none) fields ws) :
    (KeywordShape.castFields enter path entries fields).SettlesTo (.ok ws) := by
  induction h with
  | nil => rfl
  | present head _ ih =>
    obtain ⟨x, hfind, hx⟩ := head
    rw [KeywordShape.castFields, hfind]
    exact (hx _).bind (ih.bind rfl)
  -- no field is supplied: a plain form has an entry for every field of the record
  | supplied head _ _ => exact head.elim
  | absent head _ ih =>
    rw [KeywordShape.castFields, head.1]
    simp only [head.2]
    exact ih

section Names

variable {names : List String} {us : List (Key × Value)}

/-- The keys of the map are the names of the fields, as texts. -/
theorem mem_keys_iff_of_names (h : (names.map Key.text).Perm (Entries.keys us)) {k : Key} :
    k ∈ Entries.keys us ↔ ∃ name ∈ names, Key.text name = k := by
  rw [← h.mem_iff, List.mem_map]

/-- A map whose keys are names in any order has just these names. -/
theorem contains_iff_of_names (h : (names.map Key.text).Perm (Entries.keys us)) {name : String} :
    Entries.contains (Key.text name) us = true ↔ name ∈ names := by
  rw [Entries.contains, List.any_eq_true]
  constructor
  · rintro ⟨entry, hentry, heq⟩
    have hkey := List.mem_map_of_mem (f := Prod.fst) hentry
    rw [Key.beq_text_iff.mp heq] at hkey
    -- the key that is there is the text of a name, and texts are equal only to themselves
    obtain ⟨other, hother, heq⟩ := (mem_keys_iff_of_names h).mp hkey
    cases heq
    exact hother
  · intro hname
    obtain ⟨entry, hentry, heq⟩ :=
      List.mem_map.mp ((mem_keys_iff_of_names h).mpr ⟨name, hname, rfl⟩)
    exact ⟨entry, hentry, Key.beq_text_iff.mpr heq⟩

/-- Names that differ are keys that differ. -/
theorem distinct_of_names (h : (names.map Key.text).Perm (Entries.keys us)) (hnodup : names.Nodup) :
    Entries.Distinct us := by
  have htexts : (names.map Key.text).Nodup :=
    List.Pairwise.map Key.text (fun _ _ hne heq => hne (Key.text.inj heq)) hnodup
  refine (h.nodup_iff.mp htexts).imp_of_mem fun {j k} _ hk hne => ?_
  obtain ⟨name, -, rfl⟩ := (mem_keys_iff_of_names h).mp hk
  exact Bool.eq_false_iff.mpr fun heq => hne (Key.beq_text_iff.mp heq)

end Names

/-- A map with the names of the fields in any order is taken over as they are filled. -/
theorem KeywordShape.cast_settles {shape : KeywordShape} {us : List (Key × Value)}
    {ws : List (String × Value)} {present : Field Descriptor → Value → Prop}
    {absent : Field Descriptor → Prop}
    (hfilled : Filled present (fun _ _ => False) absent shape.fields ws)
    (hnodup : (shape.fields.map Field.name).Nodup)
    (hnames : ((Entries.keys ws).map Key.text).Perm (Entries.keys us))
    (hrequired : ∀ name ∈ shape.required, name ∈ Entries.keys ws)
    (hdefault : ∀ f ∈ shape.fields, absent f → f.default? = none)
    (henter : ∀ f ∈ shape.fields, ∀ w u, present f w → (f.name, w) ∈ ws →
      (Key.text f.name, u) ∈ us → ∀ path, (enter f.type path u).SettlesTo (.ok w)) :
    (shape.cast enter path (.map us)).SettlesTo (.ok ws) := by
  -- a name is in the record once, so that its entry is the one that is found
  have hwnodup : (Entries.keys ws).Nodup := hfilled.keys_sublist.nodup hnodup
  have hmissing : shape.missing us = [] := by
    refine missing_eq_nil_iff.mpr fun name hname => ?_
    exact (contains_iff_of_names hnames).mpr (hrequired name hname)
  have hunknown : shape.unknown us = [] := by
    refine unknown_eq_nil_iff.mpr fun k hk => ?_
    obtain ⟨name, hname, rfl⟩ := (mem_keys_iff_of_names hnames).mp hk
    obtain ⟨f, hf, rfl⟩ := List.mem_map.mp (hfilled.keys_sublist.subset hname)
    exact List.any_eq_true.mpr ⟨f, hf, beq_self_eq_true f.name⟩
  rw [KeywordShape.cast, hmissing, hunknown]
  -- what was present is found and cast back, and what was absent is not found
  refine castFields_settles ((hfilled.mem hnodup).mono ?_ (fun _ _ _ h => h) ?_)
  · rintro f hf w ⟨hpresent, hw⟩
    obtain ⟨⟨k, u⟩, hu, rfl⟩ := List.mem_map.mp
      ((mem_keys_iff_of_names hnames).mpr ⟨f.name, List.mem_map_of_mem hw, rfl⟩)
    have hdistinct : Entries.Distinct us := distinct_of_names hnames hwnodup
    exact ⟨u, Entries.find?_of_mem (beq_self_eq_true f.name) hdistinct hu,
      henter f hf w u hpresent hw hu⟩
  · rintro f hf ⟨habsent, hname⟩
    refine ⟨Option.not_isSome_iff_eq_none.mp fun hsome => ?_, hdefault f hf habsent⟩
    rw [Entries.isSome_find?] at hsome
    exact hname ((contains_iff_of_names hnames).mp hsome)

end Rules

/-! ## Casting plain forms -/

section Plain

variable {ctx : Context} {enter enterBelow : Enter} {path : Path} {w u : Value}

/-- An optional type gives a missing value if the type itself gives or refuses it. -/
theorem applyFirst_optional_none (hctx : ctx.NoConversions) {d : Descriptor} {noneId : Nat}
    {otherwise : Program Value}
    (hd : (d.apply ctx enter enterBelow path .none).SettlesTo (.ok .none) ∨
      ∃ e, (d.apply ctx enter enterBelow path .none).SettlesTo (.error (.coercion e))) :
    (applyFirst ctx enter enterBelow otherwise [d, .node noneId (.primitive .none)] path
      .none).SettlesTo (.ok .none) := by
  -- what is absent is of the last type, whatever comes after a refusal
  have hsecond : (applyFirst ctx enter enterBelow otherwise [.node noneId (.primitive .none)] path
      .none).SettlesTo (.ok .none) := by
    rw [applyFirst, Descriptor.apply, hctx noneId]
    exact Program.SettlesTo.orElse (castUnchanged_settles rfl).inUnion _
  obtain hnone | ⟨e, hrefused⟩ := hd
  · exact hnone.inUnion.orElse _
  · exact hrefused.inUnion.orElse_refused hsecond

/-- A union gives what those alternatives give that do not refuse, if they all give one value. -/
private theorem applyFirst_settles {v : Value} {otherwise : Program Value}
    (hotherwise : ∃ e, otherwise.SettlesTo (.error (.coercion e))) {alternatives : List Descriptor}
    (h : ∀ d ∈ alternatives, (d.apply ctx enter enterBelow path v).SettlesTo (.ok w) ∨
      ∃ e, (d.apply ctx enter enterBelow path v).SettlesTo (.error (.coercion e))) :
    (applyFirst ctx enter enterBelow otherwise alternatives path v).SettlesTo (.ok w) ∨
      ∃ e, (applyFirst ctx enter enterBelow otherwise alternatives path v).SettlesTo
        (.error (.coercion e)) := by
  induction alternatives with
  | nil => exact .inr hotherwise
  | cons d rest ih =>
    have ⟨hd, hrest⟩ := List.forall_mem_cons.mp h
    rw [applyFirst]
    -- an alternative that refuses leaves it to the others, and any of them may give the value
    obtain hgiven | ⟨e, hrefused⟩ := hd
    · exact .inl (hgiven.inUnion.orElse _)
    · obtain hgiven | ⟨e, hall⟩ := ih hrest
      · exact .inl (hrefused.inUnion.orElse_refused hgiven)
      · exact .inr ⟨e, hrefused.inUnion.orElse_refused hall⟩

/-- A data type gives a missing value or refuses it. -/
theorem apply_none (hctx : ctx.NoConversions) {d : Descriptor} (hd : d.IsData) :
    (d.apply ctx enter enterBelow path .none).SettlesTo (.ok .none) ∨
      ∃ e, (d.apply ctx enter enterBelow path .none).SettlesTo (.error (.coercion e)) := by
  have hunchanged {holds : Bool} {reason : Mismatch} {expected : String} :
      (castUnchanged holds reason expected path .none).SettlesTo (.ok .none) ∨
        ∃ e, (castUnchanged holds reason expected path .none).SettlesTo (.error (.coercion e)) := by
    cases holds with
    | true => exact .inl rfl
    | false => exact .inr ⟨_, rfl⟩
  -- induction on the type, for the alternatives of its unions
  induction hd with
  | @node id shape hroot _ ih =>
    rw [Descriptor.apply, hctx id]
    cases shape with
    | any => exact .inl rfl
    | primitive | float | complex | literal => exact hunchanged
    | unionOf alternatives => exact applyFirst_settles ⟨_, Program.settlesTo_throw _⟩ ih
    -- all other rules look at the kind first
    | decimal | record | partialRecord => exact .inr ⟨_, rfl⟩
    | listOf | setOf | queueOf | mapOf | tupleOf => exact .inr ⟨_, rfl⟩
    | symbolPath | invocation | inspectedInvocation => exact hroot.elim

/-- How values of one type are cast from their plain forms: at any location, if they are lower than
    a bound. -/
abbrev Restores (enter : Enter) (bound : Nat) (d : Descriptor) : Prop :=
  ∀ path w u, HasFullShape d w → PlainForm d w u → w.height < bound →
    (enter d path u).SettlesTo (.ok w)

/-- A collection is restored from the list of the plain forms. -/
private theorem castElements_restores {element : Descriptor} {ws us : List Value} {bound : Nat}
    {expected : String} (henter : Restores enter bound element) (hlength : ws.length = us.length)
    (hplain : ∀ w u, (w, u) ∈ ws.zip us → PlainForm element w u)
    (hshape : ∀ w ∈ ws, HasFullShape element w) (hheight : ∀ w ∈ ws, w.height < bound) :
    (castElements enter element expected path (.list us)).SettlesTo (.ok ws) := by
  refine castItems_settles (List.Forall₂.flip (List.forall₂_iff_zip.mpr ⟨hlength, ?_⟩))
  intro w u hpair path
  have hw := (List.of_mem_zip hpair).1
  exact henter path w u (hshape w hw) (hplain w u hpair) (hheight w hw)

/-- A set is restored from its plain elements in any order. -/
private theorem castSet_restores {element : Descriptor} {keys : List Key} {us items : List Value}
    {bound : Nat} {expected : String} (henter : Restores enter bound element)
    (hlength : keys.length = us.length)
    (hplain : ∀ k u, (k, u) ∈ keys.zip us → PlainForm element k.toValue u) (horder : us.Perm items)
    (hascending : Key.Ascending keys) (hproper : ∀ k ∈ keys, k.Proper)
    (hshape : ∀ k ∈ keys, HasFullShape element k.toValue)
    (hheight : Key.heightItems keys ≤ bound) :
    (castSet enter element expected path (.list items)).SettlesTo (.ok (.set keys)) := by
  have hkeys : List.Forall₂ (fun u k => k.Proper ∧
      ∀ path, (enter element path u).SettlesTo (.ok k.toValue)) us keys := by
    refine List.Forall₂.flip (List.forall₂_iff_zip.mpr ⟨hlength, fun {k u} hpair => ?_⟩)
    have hk := (List.of_mem_zip hpair).1
    have hlow := Key.height_lt_of_mem_items hk
    have hvalue := k.height_toValue_le
    exact ⟨hproper k hk, fun path => henter path _ u (hshape k hk) (hplain k u hpair)
      (by omega)⟩
  -- the elements as they are written, and the keys in that order
  obtain ⟨others, hothers, hperm⟩ := List.perm_comp_forall₂ horder.symm hkeys
  have hcast : List.Forall₂ (fun u w => ∀ path, (enter element path u).SettlesTo (.ok w)) items
      (others.map Key.toValue) :=
    List.forall₂_map_right_iff.mpr (hothers.imp fun _ _ h => h.2)
  -- a proper key is the key of its own value
  have hhash : List.Forall₂ (fun w k => w.toKey? = some k) (others.map Key.toValue) others := by
    refine List.forall₂_map_left_iff.mpr (List.forall₂_same.mpr fun k hk => ?_)
    exact hproper k (hperm.subset hk)
  refine (castItems_settles hcast).bind ((hashItems_settles hhash).bind ?_)
  -- the keys are sorted again, and there is one ascending order of them
  rw [Key.ascending_eq_of_perm hascending hperm]
  rfl

/-- A map is restored from the map of its plain keys and values, in its order. -/
private theorem castMap_restores {key value : Descriptor} {ws us : List (Key × Value)} {bound : Nat}
    {expected : String} (hkey : Restores enter bound key) (hvalue : Restores enter bound value)
    (hlength : ws.length = us.length)
    (hplainKey : ∀ w u, (w, u) ∈ ws.zip us → PlainForm key w.1.toValue u.1.toValue)
    (hplain : ∀ w u, (w, u) ∈ ws.zip us → PlainForm value w.2 u.2)
    (hdistinct : Entries.Distinct ws) (hproper : ∀ w ∈ ws, w.1.Proper)
    (hshapeKey : ∀ w ∈ ws, HasFullShape key w.1.toValue)
    (hshape : ∀ w ∈ ws, HasFullShape value w.2) (hheight : Value.heightEntries ws ≤ bound) :
    (castMap enter key value expected path (.map us)).SettlesTo (.ok (.map ws)) := by
  have hentries : (castEntries enter key value path us).SettlesTo (.ok ws) := by
    -- each key and each value lies below the map, so that there is room to cast it
    refine castEntries_settles (List.Forall₂.flip (List.forall₂_iff_zip.mpr ⟨hlength, ?_⟩))
    rintro ⟨k, w⟩ ⟨k', u⟩ hpair
    have hw := (List.of_mem_zip hpair).1
    obtain ⟨hlowKey, hlow⟩ := Value.height_lt_of_mem_entries hw
    have hkeyValue := k.height_toValue_le
    have hlowKey' : k.toValue.height < bound := by omega
    have hlow' : w.height < bound := by omega
    refine ⟨fun path => ⟨k.toValue, ?_, hproper _ hw⟩, fun path => ?_⟩
    · exact hkey path _ _ (hshapeKey _ hw) (hplainKey _ _ hpair) hlowKey'
    · exact hvalue path _ _ (hshape _ hw) (hplain _ _ hpair) hlow'
  refine hentries.bind ?_
  rw [Entries.ofList_of_distinct hdistinct]
  rfl

/-- A tuple is restored from the list of its plain elements. -/
private theorem castTuple_restores {elements : List Descriptor} {ws us : List Value} {bound : Nat}
    {expected : String} (henter : ∀ d ∈ elements, Restores enter bound d)
    (hlength : ws.length = us.length)
    (hplain : ∀ d w u, ((d, w), u) ∈ (elements.zip ws).zip us → PlainForm d w u)
    (hshape : List.Forall₂ HasFullShape elements ws) (hheight : ∀ w ∈ ws, w.height < bound) :
    (castTuple enter elements expected path (.list us)).SettlesTo (.ok (.tuple ws)) := by
  have hlength' := hshape.length_eq
  -- the lengths are those of the type, so that the elements are cast
  have harity : us.length = elements.length := by rw [hlength', hlength]
  have hitems : (castEach enter path 0 elements us).SettlesTo (.ok ws) := by
    refine castEach_settles hlength' hlength fun d w u hpair path => ?_
    have hdw := (List.of_mem_zip hpair).1
    obtain ⟨hd, hw⟩ := List.of_mem_zip hdw
    have hdshape := (List.forall₂_iff_zip.mp hshape).2 hdw
    exact henter d hd path w u hdshape (hplain d w u hpair) (hheight w hw)
  show (ite _ _ _ : Program Value).SettlesTo _
  rw [if_pos harity]
  exact hitems.bind rfl

/-- A record is restored from the map of its fields, in any order. -/
private theorem castRecord_restores {name : String} {fields : List (Field Descriptor)}
    {ws : List (String × Value)} {us : List (Key × Value)} {bound : Nat}
    (henter : ∀ f ∈ fields, Restores enter bound f.type)
    (hfields : (fields.map Field.name).Nodup)
    (hfilled : Filled (fun f w => HasFullShape f.type w) (fun _ _ => False) (fun _ => False)
      fields ws)
    (hnames : ((Entries.keys ws).map Key.text).Perm (Entries.keys us))
    (hplain : ∀ f ∈ fields, ∀ w u, (f.name, w) ∈ ws → (Key.text f.name, u) ∈ us →
      PlainForm f.type w u)
    (hheight : ∀ field ∈ ws, field.2.height < bound) :
    (castRecord enter name fields none path (.map us)).SettlesTo (.ok (.record name ws)) := by
  -- a required name is the name of a field, and every field is in the record
  have hrequired : ∀ name ∈ Field.requiredNames fields, name ∈ Entries.keys ws := by
    intro name hname
    obtain ⟨f, hf, rfl⟩ := List.mem_map.mp (mem_sortNames.mp hname)
    rw [hfilled.keys_eq fun _ _ => not_false]
    exact List.mem_map_of_mem (List.mem_of_mem_filter hf)
  have harguments : ((KeywordShape.ofRecord name fields).cast enter path (.map us)).SettlesTo
      (.ok ws) :=
    KeywordShape.cast_settles hfilled hfields hnames hrequired (fun _ _ h => h.elim)
      fun f hf w u hw hmem hu path =>
        henter f hf path w u hw (hplain f hf w u hmem hu) (hheight _ hmem)
  exact harguments.bind rfl

/-- A partial record is restored from the map of the fields that it has. -/
private theorem castPartialRecord_restores {name : String} {fields : List (String × Descriptor)}
    {total : Bool} {ws : List (String × Value)} {us : List (Key × Value)} {bound : Nat}
    (henter : ∀ field ∈ fields, Restores enter bound field.2)
    (hfields : (Entries.keys fields).Nodup)
    (hfilled : Filled (fun f w => HasFullShape f.type w) (fun _ _ => False) (fun _ => True)
      (fields.map fun field => ⟨field.1, field.2, none⟩) ws)
    (hcomplete : total = true → Entries.keys ws = Entries.keys fields)
    (hnames : ((Entries.keys ws).map Key.text).Perm (Entries.keys us))
    (hplain : ∀ f ∈ fields, ∀ w u, (f.1, w) ∈ ws → (Key.text f.1, u) ∈ us → PlainForm f.2 w u)
    (hheight : ∀ field ∈ ws, field.2.height < bound) :
    (castPartialRecord enter name fields total path (.map us)).SettlesTo
      (.ok (.record name ws)) := by
  let shape := KeywordShape.ofPartialRecord name fields total
  -- the fields as declared have no defaults
  have hdeclared (f : Field Descriptor) (hf : f ∈ shape.fields) :
      (f.name, f.type) ∈ fields ∧ f.default? = none := by
    obtain ⟨field, hfield, rfl⟩ := List.mem_map.mp hf
    exact ⟨hfield, rfl⟩
  have hshapeNames : (shape.fields.map Field.name).Nodup := by
    have hmap : shape.fields.map Field.name = Entries.keys fields := List.map_map
    rw [hmap]; exact hfields
  -- names are required of a total type only, and of that the record has all fields
  have hrequired : ∀ name ∈ shape.required, name ∈ Entries.keys ws := by
    intro name hname
    have hname : name ∈ if total then sortNames (Entries.keys fields) else [] := hname
    split at hname
    next htotal => rw [hcomplete htotal]; exact mem_sortNames.mp hname
    next => exact absurd hname List.not_mem_nil
  have harguments : (shape.cast enter path (.map us)).SettlesTo (.ok ws) :=
    KeywordShape.cast_settles hfilled hshapeNames hnames hrequired
      (fun f hf _ => (hdeclared f hf).2) fun f hf w u hw hmem hu path =>
        henter _ (hdeclared f hf).1 path w u hw (hplain _ (hdeclared f hf).1 w u hmem hu)
          (hheight _ hmem)
  exact harguments.bind rfl

/-- The rule of a type of plain data restores the values of the type if they are restored below the
    location. -/
theorem apply_plainForm (hctx : ctx.NoConversions) {bound : Nat}
    (henter : ∀ d : Descriptor, d.IsPlain → d.WellFormed → Restores enter bound d) {d : Descriptor}
    (hd : d.IsPlain) (hwell : d.WellFormed) (hshape : HasFullShape d w) (hplain : PlainForm d w u)
    (hheight : w.height ≤ bound) : (d.apply ctx enter enterBelow path u).SettlesTo (.ok w) := by
  -- induction on the type for the sake of unions only: all other parts are cast one level down
  induction hd with
  | @node id shape hroot hparts ih =>
    have hpart : ∀ d ∈ shape.parts, Restores enter bound d :=
      fun d hd => henter d (hparts d hd) (hwell.part hd)
    rw [Descriptor.apply, hctx id]
    cases shape with
    | any => cases hplain; exact Program.settlesTo_pure w
    | primitive p =>
      cases hshape with
      | primitive kind =>
        cases hplain
        exact castUnchanged_settles (Primitive.admits_iff.mpr kind)
    | float =>
      cases hshape with
      | float kind => cases hplain; exact castUnchanged_settles (Value.isReal_iff.mpr kind)
    | complex =>
      cases hshape with
      | complex kind => cases hplain; exact castUnchanged_settles (Value.isNumber_iff.mpr kind)
    | decimal =>
      cases hshape with
      | decimal sign =>
        cases hplain
        -- the text of a decimal is read back, but for a negative zero
        rw [Shape.apply, castDecimal, Value.toDecimal, Decimal.ofText?_trim_text sign]
        rfl
    | literal allowed =>
      cases hshape with
      | literal member equal =>
        cases hplain
        exact castUnchanged_settles (List.any_eq_true.mpr ⟨_, member, equal⟩)
    | record name fields constructor? =>
      cases hshape with
      | record filled =>
        cases hplain with
        | record names each =>
          -- the fields of a record lie below it
          exact castRecord_restores (fun f hf => hpart f.type (List.mem_map_of_mem hf))
            hwell.root.1 filled names each fun field hf =>
              Nat.lt_of_lt_of_le (Value.height_lt_of_mem_fields hf) hheight
    | partialRecord name fields total =>
      cases hshape with
      | partialRecord filled complete =>
        cases hplain with
        | partialRecord names each =>
          exact castPartialRecord_restores (fun field hf => hpart field.2 (List.mem_map_of_mem hf))
            hwell.root filled complete names each fun field hf =>
              Nat.lt_of_lt_of_le (Value.height_lt_of_mem_fields hf) hheight
    | listOf element =>
      cases hshape with
      | listOf shapes =>
        cases hplain with
        | listOf length each =>
          rw [Shape.apply]
          refine (castElements_restores (hpart element List.mem_cons_self) length each shapes
            fun w hw => ?_).bind rfl
          exact Nat.lt_of_lt_of_le (Value.height_lt_of_mem_items hw) hheight
    | setOf element =>
      cases hshape with
      | setOf ascending proper shapes =>
        cases hplain with
        | setOf length each order =>
          exact castSet_restores (hpart element List.mem_cons_self) length each order ascending
            proper shapes hheight
    | queueOf element =>
      cases hshape with
      | queueOf shapes =>
        cases hplain with
        | queueOf length each =>
          rw [Shape.apply]
          refine (castElements_restores (hpart element List.mem_cons_self) length each shapes
            fun w hw => ?_).bind rfl
          exact Nat.lt_of_lt_of_le (Value.height_lt_of_mem_items hw) hheight
    | mapOf key value =>
      cases hshape with
      | mapOf distinct proper shapesKey shapes =>
        cases hplain with
        | mapOf length _ eachKey each =>
          rw [Shape.apply]
          exact castMap_restores (hpart key List.mem_cons_self)
            (hpart value (List.mem_cons_of_mem _ List.mem_cons_self)) length eachKey each distinct
            proper shapesKey shapes hheight
    | tupleOf elements =>
      cases hshape with
      | tupleOf shapes =>
        cases hplain with
        | tupleOf length each =>
          exact castTuple_restores hpart length each shapes fun w hw =>
            Nat.lt_of_lt_of_le (Value.height_lt_of_mem_items hw) hheight
    | unionOf alternatives =>
      -- the only plain union is an optional type: its last alternative takes what is absent
      obtain ⟨d, noneId, rfl⟩ := hroot
      cases hplain with
      | absent =>
        have hdata : d.IsData := (show d.IsPlain from hparts d List.mem_cons_self).isData
        exact applyFirst_optional_none hctx (apply_none hctx hdata)
      | present some plain =>
        cases hshape with
        | absent => exact absurd rfl some
        | present shape =>
          have hd := ih d List.mem_cons_self (hwell.part List.mem_cons_self) shape plain
          exact hd.inUnion.orElse _
    | symbolPath | invocation | inspectedInvocation => exact hroot.elim

/-- With as much room as the value is high, it is restored. -/
theorem castWithin_plainForm (hctx : ctx.NoConversions) (room : Nat) (d : Descriptor)
    (hd : d.IsPlain) (hwell : d.WellFormed) : Restores (castWithin ctx room) room d := by
  induction room generalizing d with
  | zero => exact fun path w u _ _ hheight => absurd hheight (Nat.not_lt_zero _)
  | succ room ih =>
    intro path w u hshape hplain hheight
    rw [castWithin_succ]
    exact apply_plainForm hctx ih hd hwell hshape hplain (Nat.le_of_lt_succ hheight)

end Plain

/-! ## The round trip -/

/-- Every value of a type of plain data can be written, and a cast with the type gives back exactly
    the value from whatever plain form of it, without the host. A type that nests deeper than the
    settings allow cannot be used at all. -/
theorem cast_plainForm {ctx : Context} (hctx : ctx.NoConversions) {d : Descriptor} (hd : d.IsPlain)
    (hwell : d.WellFormed) {w : Value} (hshape : HasFullShape d w)
    (hheight : w.height ≤ ctx.config.limits.maxDepth) :
    (∃ u, PlainForm d w u) ∧ ∀ u, PlainForm d w u →
      ∀ {σ : Type} (answer : (request : Request) → StateM σ request.Reply) (s : σ),
      (d.Within ctx.config.limits.maxDescriptorDepth →
        ((cast ctx d u).run answer).run s = (.ok w, s)) ∧
      (¬ d.Within ctx.config.limits.maxDescriptorDepth →
        ((cast ctx d u).run answer).run s =
          (.error (.config (.descriptorTooDeep ctx.config.limits.maxDescriptorDepth)), s)) := by
  refine ⟨exists_plainForm hd hwell hshape, fun u hplain σ answer s => ?_⟩
  have hlimit := Nat.zero_add ctx.config.limits.maxDescriptorDepth
  -- the type compiles exactly if it lies within the limit
  obtain ⟨hwithin, hcheck⟩ | ⟨hwithin, hcheck⟩ := Descriptor.check_plain hctx hd hlimit
  · refine ⟨fun _ => ?_, fun h => absurd hwithin h⟩
    have hrestored := castWithin_plainForm hctx _ d hd hwell [] w u hshape hplain
      (Nat.lt_succ_of_le hheight)
    rw [cast, compile, hcheck]
    exact hrestored.run answer s
  · refine ⟨fun h => absurd h hwithin, fun _ => ?_⟩
    rw [cast, compile, hcheck]
    rfl

/-- A record with a set and a map of decimal numbers and a field that can be left out. -/
def profileType : Descriptor :=
  .node 0 (.record "Profile" [⟨"marks", .node 1 (.setOf (.node 2 .decimal)), none⟩,
    ⟨"rates", .node 3 (.mapOf (.node 4 .decimal) (.node 5 .any)), none⟩,
    ⟨"home", .node 6 (.unionOf [.node 7 (.tupleOf [.node 8 (.primitive .text), .node 9 .any]),
      .node 10 (.primitive .none)]), some (.value .none)⟩] none)

/-- The number 1.50. -/
def oneAndAHalf : Decimal := ⟨false, 150, 2, by decide, by decide⟩

/-- The number 2. -/
def two : Decimal := .ofInt64 2

def profile : Value :=
  .record "Profile" [("marks", .set [.decimal oneAndAHalf, .decimal two]),
    ("rates", .map [(.decimal two, .none), (.decimal oneAndAHalf, .int 3)]),
    ("home", .tuple [.text "here", .set [.none]])]

/-- The fields and the marks in the opposite order. -/
def writtenProfile : Value :=
  .map [(.text "home", .list [.text "here", .set [.none]]),
    (.text "rates", .map [(.text "2", .none), (.text "1.50", .int 3)]),
    (.text "marks", .list [.text "2", .text "1.50"])]

/-- The profile is a value of its type, with every field present. -/
theorem hasFullShape_profile : HasFullShape profileType profile := by
  have hsign (d : Decimal) (h : d.negative = false) : ¬ d.IsNegativeZero :=
    fun hzero => absurd (h.symm.trans hzero.1) Bool.false_ne_true
  -- three fields: a set of decimals, a map from decimals, and a tuple
  refine .record (.present ?_ (.present ?_ (.present ?_ .nil)))
  · refine .setOf (List.pairwise_pair.mpr rfl) ?_ ?_
    · simp [Key.Proper, Key.toValue, Value.toKey?]
    · simp only [List.forall_mem_cons]
      exact ⟨.decimal (hsign _ rfl), .decimal (hsign _ rfl), fun _ h => absurd h List.not_mem_nil⟩
  · refine .mapOf (List.pairwise_pair.mpr rfl) ?_ ?_ fun _ _ => .any _
    · simp [Key.Proper, Key.toValue, Value.toKey?]
    · simp only [List.forall_mem_cons]
      exact ⟨.decimal (hsign _ rfl), .decimal (hsign _ rfl), fun _ h => absurd h List.not_mem_nil⟩
  · exact .present (.tupleOf (.cons (.primitive (by decide)) (.cons (.any _) .nil)))

/-- The written profile is a plain form of the profile: its set is in another order, its decimals
    are texts. -/
theorem plainForm_profile : PlainForm profileType profile writtenProfile := by
  -- the parts of the record, each beside the form in which it is written
  have hmarks : List.Forall₂ (fun (k : Key) u => PlainForm (.node 2 .decimal) k.toValue u)
      [.decimal oneAndAHalf, .decimal two] [.text "1.50", .text "2"] :=
    .cons (.decimal oneAndAHalf) (.cons (.decimal two) .nil)
  have hkeys : List.Forall₂ (fun (w u : Key × Value) =>
      PlainForm (.node 4 .decimal) w.1.toValue u.1.toValue ∧ PlainForm (.node 5 .any) w.2 u.2)
      [(.decimal two, .none), (.decimal oneAndAHalf, .int 3)]
      [(.text "2", .none), (.text "1.50", .int 3)] :=
    .cons ⟨.decimal two, .any _⟩ (.cons ⟨.decimal oneAndAHalf, .any _⟩ .nil)
  have hplace : List.Forall₂ (fun (item : Descriptor × Value) u => PlainForm item.1 item.2 u)
      [(.node 8 (.primitive .text), .text "here"), (.node 9 .any, .set [.none])]
      [.text "here", .set [.none]] :=
    .cons (.primitive .text _) (.cons (.any _) .nil)
  -- each name belongs to one field of the record and to one entry of the map
  refine .record (List.reverse_perm _).symm ?_
  simp only [List.forall_mem_cons]
  simp only [List.mem_cons, Prod.mk.injEq, Key.text.injEq, String.reduceEq, true_and, false_and,
    false_or, or_false, List.not_mem_nil]
  refine ⟨?_, ?_, ?_, fun _ h => h.elim⟩
  · rintro _ _ rfl rfl
    exact .setOf rfl (fun _ _ h => (List.forall₂_iff_zip.mp hmarks).2 h) (.swap ..)
  · rintro _ _ rfl rfl
    exact .mapOf rfl (List.pairwise_pair.mpr rfl)
      (fun _ _ h => ((List.forall₂_iff_zip.mp hkeys).2 h).1)
      fun _ _ h => ((List.forall₂_iff_zip.mp hkeys).2 h).2
  · rintro _ _ rfl rfl
    exact .present nofun (.tupleOf rfl fun _ _ _ h => (List.forall₂_iff_zip.mp hplace).2 h)

/-- The written profile is cast back to the profile. -/
theorem cast_plainForm_profile : PlainForm profileType profile writtenProfile ∧
    ((cast {} profileType writtenProfile).run numberingHost).run 7 = (.ok profile, 7) := by
  have hplain : profileType.IsPlain := by
    simp [profileType, Descriptor.IsPlain, Descriptor.everywhere_node, Shape.IsPlain, Shape.parts,
      Descriptor.shape, Shape.IsScalar]
  have hwell : profileType.WellFormed := by
    simp [profileType, Descriptor.WellFormed, Descriptor.everywhere_node, Shape.WellFormed,
      Shape.parts, Value.WellFormed]
  -- the type is three levels high
  have hwithin : profileType.Within 256 := by
    have hleaf {levels id : Nat} {shape : Shape} (h : shape.parts = []) :
        (Descriptor.node id shape).Within (levels + 1) := .node (by rw [h]; simp)
    refine .node ?_
    simp only [Shape.parts, List.map_cons, List.map_nil, List.forall_mem_cons]
    refine ⟨.node ?_, .node ?_, .node ?_, fun _ h => absurd h List.not_mem_nil⟩
    · exact List.forall_mem_singleton.mpr (hleaf rfl)
    · exact List.forall_mem_cons.mpr ⟨hleaf rfl, List.forall_mem_singleton.mpr (hleaf rfl)⟩
    · refine List.forall_mem_cons.mpr ⟨.node ?_, List.forall_mem_singleton.mpr (hleaf rfl)⟩
      exact List.forall_mem_cons.mpr ⟨hleaf rfl, List.forall_mem_singleton.mpr (hleaf rfl)⟩
  exact ⟨plainForm_profile, ((cast_plainForm (fun _ => rfl) hplain hwell hasFullShape_profile
    (by decide)).2 writtenProfile plainForm_profile numberingHost 7).1 hwithin⟩

/-- A key that no value has, since it repeats a field. -/
def twiceKey : Key :=
  .record "Twice" [("a", .int 1), ("a", .int 2)]

/-- A list type is not given back its values by settings that allow a single level. And a set of a
    key that no value has is written as a value of another key, of which the cast makes the set. -/
theorem not_cast_plainForm :
    (let ctx : Context := { config := { limits := { maxDescriptorDepth := 1 } } }
      let d : Descriptor := .node 0 (.listOf (.node 1 (.primitive .int)))
      (ctx.NoConversions ∧ d.IsPlain ∧ d.WellFormed ∧ HasFullShape d (.list []) ∧
        PlainForm d (.list []) (.list []) ∧ (Value.list []).height ≤ ctx.config.limits.maxDepth) ∧
        ((cast ctx d (.list [])).run numberingHost).run 7 ≠ (.ok (.list []), 7)) ∧
    (let ctx : Context := {}
      let d : Descriptor := .node 0 (.setOf (.node 1 .any))
      let w : Value := .set [twiceKey]
      (ctx.NoConversions ∧ d.IsPlain ∧ d.WellFormed ∧ Key.Ascending [twiceKey] ∧
        (∀ k ∈ [twiceKey], HasFullShape (.node 1 .any) k.toValue) ∧
        PlainForm d w (.list [twiceKey.toValue]) ∧ w.height ≤ ctx.config.limits.maxDepth ∧
        d.Within ctx.config.limits.maxDescriptorDepth) ∧
        ((cast ctx d (.list [twiceKey.toValue])).run numberingHost).run 7 ≠ (.ok w, 7)) := by
  -- a type that nests too deep for the limit, and a key that repeats a field
  refine ⟨⟨⟨fun _ => rfl, ?_, ?_, ?_, ?_, Nat.zero_le _⟩, ?_⟩,
    ⟨⟨fun _ => rfl, ?_, ?_, ?_, fun k _ => .any _, ?_, ?_, ?_⟩, ?_⟩⟩
  · simp [Descriptor.IsPlain, Descriptor.everywhere_node, Shape.IsPlain, Shape.parts]
  · simp [Descriptor.WellFormed, Descriptor.everywhere_node, Shape.WellFormed, Shape.parts]
  · exact .listOf fun _ h => absurd h List.not_mem_nil
  · exact .listOf rfl fun _ _ h => absurd h List.not_mem_nil
  · intro h
    have hresult := congrArg Prod.fst h
    cases hresult
  · simp [Descriptor.IsPlain, Descriptor.everywhere_node, Shape.IsPlain, Shape.parts]
  · simp [Descriptor.WellFormed, Descriptor.everywhere_node, Shape.WellFormed, Shape.parts]
  · exact List.pairwise_singleton ..
  · exact .setOf rfl (fun k u h => by cases List.mem_singleton.mp h; exact .any _) .rfl
  · decide
  · exact .node (List.forall_mem_singleton.mpr (.node fun _ h => absurd h List.not_mem_nil))
  · intro h
    -- of the two fields the value keeps the last, and so does the key that is made of it
    have hcast : ((cast {} (.node 0 (.setOf (.node 1 .any))) (.list [twiceKey.toValue])).run
        numberingHost).run 7 = (.ok (.set [.record "Twice" [("a", .int 2)]]), 7) := rfl
    rw [hcast] at h
    cases h

end Conform
