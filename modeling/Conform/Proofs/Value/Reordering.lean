import Conform.Proofs.Key.Equality
import Mathlib.Data.List.Forall2

/-!
# Values with other orders of map entries

`v.Reordered v'` says that two values differ only in the order of the entries of maps, at any depth.
Such values have the same keys (`Reordered.toKey?_eq`), and if no map repeats a key, nothing equals
one of them that does not equal the other (`Reordered.equal_eq`).
-/

namespace Conform

namespace Entries

variable {κ α β : Type}

/-- The same keys in the same order, with related values. -/
def Alongside (rel : α → β → Prop) (a : List (κ × α)) (b : List (κ × β)) : Prop :=
  List.Forall₂ (fun entry entry' => entry.1 = entry'.1 ∧ rel entry.2 entry'.2) a b

variable {rel : α → β → Prop} {a : List (κ × α)} {b : List (κ × β)}

/-- Tables with the same keys and related values run alongside. -/
theorem alongside_of_keys (hkeys : keys a = keys b)
    (hvalues : ∀ pair ∈ a.zip b, rel pair.1.2 pair.2.2) : Alongside rel a b := by
  induction a generalizing b with
  | nil =>
    obtain rfl : b = [] := List.map_eq_nil_iff.mp hkeys.symm
    exact .nil
  | cons entry rest ih =>
    -- tables with the same keys are equally long
    cases b with
    | nil => cases hkeys
    | cons entry' rest' =>
      obtain ⟨hkey, hrest⟩ := List.cons.inj hkeys
      obtain ⟨hvalue, hothers⟩ := List.forall_mem_cons.mp hvalues
      exact .cons ⟨hkey, hvalue⟩ (ih hrest hothers)

/-- Tables alongside each other have the same keys in the same order. -/
theorem Alongside.keys_eq (h : Alongside rel a b) : keys a = keys b := by
  induction h with
  | nil => rfl
  | cons hentry _ ih => exact congr (congrArg List.cons hentry.1) ih

/-- Tables alongside each other have related values. -/
theorem Alongside.values (h : Alongside rel a b) : ∀ pair ∈ a.zip b, rel pair.1.2 pair.2.2 :=
  fun _ hpair => (List.forall₂_zip h hpair).2

/-- What is found under a key is related. -/
theorem Alongside.find? [BEq κ] (h : Alongside rel a b) (k : κ) :
    Option.Rel rel (Entries.find? k a) (Entries.find? k b) := by
  induction h with
  | nil => exact .none
  | @cons entry entry' rest rest' hentry _ ih =>
    obtain ⟨j, x⟩ := entry
    obtain ⟨j', y⟩ := entry'
    obtain ⟨rfl, hvalue⟩ := hentry
    rw [Entries.find?, Entries.find?]
    split
    · exact .some hvalue
    · exact ih

/-- The order of a table without repeated keys does not matter to a lookup. -/
theorem find?_perm [BEq κ] [EquivBEq κ] {a b : List (κ × α)} (hperm : a.Perm b)
    (hb : Distinct b) (k : κ) : find? k a = find? k b := by
  cases hfind : find? k a with
  | some x =>
    obtain ⟨j, hj, heq⟩ := mem_of_find? hfind
    have hfound : find? j b = some x := find?_of_mem BEq.rfl hb (hperm.mem_iff.mp hj)
    rw [← find?_congr heq, hfound]
  -- what one order does not have, the other does not have either
  | none =>
    cases hfind' : find? k b with
    | none => rfl
    | some x =>
      obtain ⟨j, hj, heq⟩ := mem_of_find? hfind'
      have hcontains : contains k a = true :=
        List.any_eq_true.mpr ⟨(j, x), hperm.mem_iff.mpr hj, heq⟩
      rw [← isSome_find?, hfind] at hcontains
      cases hcontains

end Entries

namespace Value

/-- Two values that differ only in the order of the entries of maps, at any depth. -/
inductive Reordered : Value → Value → Prop
  | same (v : Value) : Reordered v v
  | list {a b : List Value} (length : a.length = b.length)
      (items : ∀ pair ∈ a.zip b, Reordered pair.1 pair.2) : Reordered (.list a) (.list b)
  | tuple {a b : List Value} (length : a.length = b.length)
      (items : ∀ pair ∈ a.zip b, Reordered pair.1 pair.2) : Reordered (.tuple a) (.tuple b)
  | queue {a b : List Value} (length : a.length = b.length)
      (items : ∀ pair ∈ a.zip b, Reordered pair.1 pair.2) : Reordered (.queue a) (.queue b)
  | map {a b c : List (Key × Value)} (keys : Entries.keys a = Entries.keys b)
      (values : ∀ pair ∈ a.zip b, Reordered pair.1.2 pair.2.2) (perm : b.Perm c) :
    Reordered (.map a) (.map c)
  | record (name : String) {a b : List (String × Value)} (names : Entries.keys a = Entries.keys b)
      (values : ∀ pair ∈ a.zip b, Reordered pair.1.2 pair.2.2) :
    Reordered (.record name a) (.record name b)
  | nspace (id : Nat) (name : String) {a b : List (String × Value)}
      (names : Entries.keys a = Entries.keys b)
      (values : ∀ pair ∈ a.zip b, Reordered pair.1.2 pair.2.2) :
    Reordered (.nspace id name a) (.nspace id name b)

/-- Maps of the same entries differ in their order only. -/
theorem reordered_of_perm {a b : List (Key × Value)} (h : a.Perm b) :
    (map a).Reordered (map b) := by
  have hsame : List.Forall₂ (fun entry entry' => entry.2.Reordered entry'.2) a a :=
    List.forall₂_same.mpr fun entry _ => .same entry.2
  exact .map rfl (fun pair hpair => List.forall₂_zip hsame hpair) h

mutual

/-- No map repeats a key, and every key of a map is that of a value, at every depth. -/
def ProperMaps : Value → Prop
  | list items => ProperMapsItems items
  | tuple items => ProperMapsItems items
  | queue items => ProperMapsItems items
  | map entries =>
    Entries.Distinct entries ∧ (∀ k ∈ Entries.keys entries, k.Proper) ∧ ProperMapsEntries entries
  | record _ fields => ProperMapsFields fields
  | _ => True

/-- The maps in all items are proper. -/
def ProperMapsItems : List Value → Prop
  | [] => True
  | v :: rest => v.ProperMaps ∧ ProperMapsItems rest

/-- The maps in all values of a map are proper. -/
def ProperMapsEntries : List (Key × Value) → Prop
  | [] => True
  | (_, v) :: rest => v.ProperMaps ∧ ProperMapsEntries rest

/-- The maps in all fields are proper. -/
def ProperMapsFields : List (String × Value) → Prop
  | [] => True
  | (_, v) :: rest => v.ProperMaps ∧ ProperMapsFields rest

end

/-- Items have proper maps when each has. -/
theorem properMapsItems_iff {items : List Value} :
    ProperMapsItems items ↔ ∀ v ∈ items, v.ProperMaps := by
  induction items with
  | nil => exact ⟨fun _ _ h => absurd h List.not_mem_nil, fun _ => trivial⟩
  | cons v rest ih => rw [ProperMapsItems, ih, List.forall_mem_cons]

/-- Entries have proper maps when each value has. -/
theorem properMapsEntries_iff {entries : List (Key × Value)} :
    ProperMapsEntries entries ↔ ∀ entry ∈ entries, entry.2.ProperMaps := by
  induction entries with
  | nil => exact ⟨fun _ _ h => absurd h List.not_mem_nil, fun _ => trivial⟩
  | cons entry rest ih => rw [ProperMapsEntries, ih, List.forall_mem_cons]

/-- Fields have proper maps when each value has. -/
theorem properMapsFields_iff {fields : List (String × Value)} :
    ProperMapsFields fields ↔ ∀ field ∈ fields, field.2.ProperMaps := by
  induction fields with
  | nil => exact ⟨fun _ _ h => absurd h List.not_mem_nil, fun _ => trivial⟩
  | cons field rest ih => rw [ProperMapsFields, ih, List.forall_mem_cons]

/-- Items that are related one by one have proper maps on both sides. -/
theorem forall₂_properMaps {rel : Value → Value → Prop} {a b : List Value}
    (length : a.length = b.length) (items : ∀ pair ∈ a.zip b, rel pair.1 pair.2)
    (ha : ProperMapsItems a) (hb : ProperMapsItems b) :
    List.Forall₂ (fun v w => rel v w ∧ v.ProperMaps ∧ w.ProperMaps) a b := by
  refine List.forall₂_iff_zip.mpr ⟨length, fun hpair => ⟨items _ hpair, ?_, ?_⟩⟩
  · exact properMapsItems_iff.mp ha _ (List.of_mem_zip hpair).1
  · exact properMapsItems_iff.mp hb _ (List.of_mem_zip hpair).2

/-- The same for values under the same keys or names. -/
theorem alongside_properMaps {κ : Type} {rel : Value → Value → Prop} {a b : List (κ × Value)}
    (keys : Entries.keys a = Entries.keys b) (values : ∀ pair ∈ a.zip b, rel pair.1.2 pair.2.2)
    (ha : ∀ entry ∈ a, entry.2.ProperMaps) (hb : ∀ entry ∈ b, entry.2.ProperMaps) :
    Entries.Alongside (fun v w => rel v w ∧ v.ProperMaps ∧ w.ProperMaps) a b := by
  refine Entries.alongside_of_keys keys fun pair hpair => ⟨values pair hpair, ?_, ?_⟩
  · exact ha _ (List.of_mem_zip hpair).1
  · exact hb _ (List.of_mem_zip hpair).2

/-! ## Keys -/

/-- Items that are keyed alike have the same keys. -/
theorem toKeys?_congr {a b : List Value} (h : List.Forall₂ (fun v w => v.toKey? = w.toKey?) a b) :
    toKeys? a = toKeys? b := by
  induction h with
  | nil => rfl
  | cons hv _ ih => rw [toKeys?, toKeys?, hv, ih]

/-- Fields whose values have the same keys have the same keys. -/
theorem toKeyFields?_congr {a b : List (String × Value)}
    (h : Entries.Alongside (fun v w => v.toKey? = w.toKey?) a b) :
    toKeyFields? a = toKeyFields? b := by
  induction h with
  | nil => rfl
  | @cons field field' _ _ hfield _ ih =>
    obtain ⟨name, v⟩ := field
    obtain ⟨name', w⟩ := field'
    obtain ⟨rfl, hv⟩ := hfield
    rw [toKeyFields?, toKeyFields?, hv, ih]

variable {v v' : Value}

/-- A map has no key, so that values are keyed regardless of the order of entries. -/
theorem Reordered.toKey?_eq (h : v.Reordered v') : v.toKey? = v'.toKey? := by
  induction h with
  | same | list | queue | map | nspace => rfl
  | tuple length _ ih =>
    have hitems := toKeys?_congr (List.forall₂_iff_zip.mpr ⟨length, fun hpair => ih _ hpair⟩)
    rw [toKey?, toKey?, hitems]
  | record name names _ ih =>
    rw [toKey?, toKey?, toKeyFields?_congr (Entries.alongside_of_keys names ih)]

/-- Reordering keeps the kind. -/
theorem Reordered.kind_eq (h : v.Reordered v') : v.kind = v'.kind := by
  cases h <;> rfl

/-! ## Equality -/

/-- Values that the same values are equal to. -/
def EqualAlike (v v' : Value) : Prop :=
  ∀ m : Value, m.equal v = m.equal v'

/-- Items that are equal to the same values make lists that are. -/
theorem equalItems_congr {a b : List Value} (h : List.Forall₂ EqualAlike a b) (ms : List Value) :
    equalItems ms a = equalItems ms b := by
  induction h generalizing ms with
  | nil => rfl
  | cons hv _ ih =>
    cases ms with
    | nil => simp [equalItems]
    | cons m ms => rw [equalItems, equalItems, hv m, ih]

/-- Tables under whose keys the same values are found contain the same entries. -/
theorem entriesIn_congr {a b : List (Key × Value)}
    (h : ∀ k, Option.Rel EqualAlike (Entries.find? k a) (Entries.find? k b))
    (ms : List (Key × Value)) : entriesIn ms a = entriesIn ms b := by
  induction ms with
  | nil => rw [entriesIn, entriesIn]
  | cons entry ms ih =>
    obtain ⟨k, m⟩ := entry
    rw [entriesIn, entriesIn, ih]
    have hk := h k
    -- under each key both have nothing, or values that equality cannot tell apart
    generalize Entries.find? k a = found at hk ⊢
    generalize Entries.find? k b = found' at hk ⊢
    cases hk with
    | none => rfl
    | some hfound => simp only [hfound m]

/-- Tables under whose names the same values are found contain the same fields. -/
theorem fieldsIn_congr {a b : List (String × Value)} (h : Entries.Alongside EqualAlike a b)
    (ms : List (String × Value)) : fieldsIn ms a = fieldsIn ms b := by
  induction ms with
  | nil => rw [fieldsIn, fieldsIn]
  | cons field ms ih =>
    obtain ⟨name, m⟩ := field
    rw [fieldsIn, fieldsIn, ih]
    have hname := h.find? name
    generalize Entries.find? name a = found at hname ⊢
    generalize Entries.find? name b = found' at hname ⊢
    cases hname with
    | none => rfl
    | some hfound => simp only [hfound m]

/-- Reordered items are equal to the same values. -/
private theorem equalAlike_items {a b : List Value} (length : a.length = b.length)
    (ih : ∀ pair ∈ a.zip b, pair.1.ProperMaps → pair.2.ProperMaps → pair.1.EqualAlike pair.2)
    (ha : ProperMapsItems a) (hb : ProperMapsItems b) : List.Forall₂ EqualAlike a b := by
  have hitems : List.Forall₂ (fun v w => (v.ProperMaps → w.ProperMaps → v.EqualAlike w) ∧
      v.ProperMaps ∧ w.ProperMaps) a b := forall₂_properMaps length ih ha hb
  exact hitems.imp fun _ _ ⟨h, hv, hw⟩ => h hv hw

/-- The reordered values of entries are equal to the same values. -/
private theorem equalAlike_entries {κ : Type} {a b : List (κ × Value)}
    (keys : Entries.keys a = Entries.keys b)
    (ih : ∀ pair ∈ a.zip b, pair.1.2.ProperMaps → pair.2.2.ProperMaps →
      pair.1.2.EqualAlike pair.2.2)
    (ha : ∀ entry ∈ a, entry.2.ProperMaps) (hb : ∀ entry ∈ b, entry.2.ProperMaps) :
    Entries.Alongside EqualAlike a b := by
  have hentries : Entries.Alongside (fun v w => (v.ProperMaps → w.ProperMaps → v.EqualAlike w) ∧
      v.ProperMaps ∧ w.ProperMaps) a b := alongside_properMaps keys ih ha hb
  exact List.Forall₂.imp (fun _ _ ⟨hkey, h, hv, hw⟩ => ⟨hkey, h hv hw⟩) hentries

/-- The order of map entries does not matter to what equals a value. -/
theorem Reordered.equal_eq (h : v.Reordered v') (hv : v.ProperMaps) (hv' : v'.ProperMaps) :
    v.EqualAlike v' := by
  -- induction on how the values are reordered, for all values that they are compared with
  induction h with
  | same => exact fun m => rfl
  -- sequences keep their order, and only their items are reordered inside
  | list length _ ih =>
    have hitems := equalAlike_items length ih hv hv'
    intro m
    cases m with
    | list ms => rw [equal, equal, equalItems_congr hitems]
    | _ => simp [equal]
  | tuple length _ ih =>
    have hitems := equalAlike_items length ih hv hv'
    intro m
    cases m with
    | tuple ms => rw [equal, equal, equalItems_congr hitems]
    | _ => simp [equal]
  | queue length _ ih =>
    have hitems := equalAlike_items length ih hv hv'
    intro m
    cases m with
    | queue ms => rw [equal, equal, equalItems_congr hitems]
    | _ => simp [equal]
  | @map a b c keys _ perm ih =>
    have hentries : Entries.Alongside EqualAlike a b := by
      refine equalAlike_entries keys ih (properMapsEntries_iff.mp hv.2.2) fun entry hentry => ?_
      exact properMapsEntries_iff.mp hv'.2.2 entry (perm.mem_iff.mp hentry)
    -- the order of the entries does not matter to what is found under a key
    have hfound : ∀ k, Option.Rel EqualAlike (Entries.find? k a) (Entries.find? k c) := by
      intro k
      rw [← Entries.find?_perm perm hv'.1]
      exact hentries.find? k
    have hlength : a.length = c.length :=
      (List.Forall₂.length_eq hentries).trans perm.length_eq
    intro m
    cases m with
    | map ms => rw [equal, equal, hlength, entriesIn_congr hfound]
    | _ => simp [equal]
  | @record name a b names _ ih =>
    have hfields : Entries.Alongside EqualAlike a b :=
      equalAlike_entries names ih (properMapsFields_iff.mp hv) (properMapsFields_iff.mp hv')
    intro m
    cases m with
    | record n ms =>
      rw [equal, equal, List.Forall₂.length_eq hfields, fieldsIn_congr hfields]
    | _ => simp [equal]
  | nspace id name =>
    intro m
    cases m with
    | nspace => rw [equal, equal]
    | _ => simp [equal]

end Value

/-! ## Values in which all maps are proper -/

namespace Key

mutual

/-- There are no maps in the value of a key. -/
theorem properMaps_toValue : ∀ k : Key, k.toValue.ProperMaps
  | none | bool _ | int _ | float _ | complex .. | decimal _ | text _ | bytes _ => trivial
  | tuple items => properMaps_toValues items
  | record _ fields => Value.properMapsFields_iff.mpr fun field hfield =>
      (Entries.ofList_forall (P := fun _ => True) (Q := Value.ProperMaps)
        (fun field hfield => ⟨trivial, properMaps_toFields fields field hfield⟩) field hfield).2

/-- There are no maps in the values of keys. -/
theorem properMaps_toValues : ∀ keys : List Key, Value.ProperMapsItems (toValues keys)
  | [] => trivial
  | k :: rest => ⟨properMaps_toValue k, properMaps_toValues rest⟩

/-- The value of a key has no maps. -/
private theorem properMaps_toFields : ∀ fields : List (String × Key),
    ∀ field ∈ toFields fields, field.2.ProperMaps
  | [] => fun _ h => absurd h List.not_mem_nil
  | (_, k) :: rest => List.forall_mem_cons.mpr ⟨properMaps_toValue k, properMaps_toFields rest⟩

end

end Key

namespace Value

/-- Two values with proper maps that differ only in the order of the entries. -/
structure Matched (v v' : Value) : Prop where
  reordered : v.Reordered v'
  left : v.ProperMaps
  right : v'.ProperMaps

variable {v v' : Value}

/-- A value with proper maps matches itself. -/
theorem Matched.refl (h : v.ProperMaps) : v.Matched v := ⟨.same v, h, h⟩

/-- Items match one by one. -/
theorem matched_items {a b : List Value} (length : a.length = b.length)
    (items : ∀ pair ∈ a.zip b, pair.1.Reordered pair.2) (ha : ProperMapsItems a)
    (hb : ProperMapsItems b) : List.Forall₂ Matched a b :=
  (forall₂_properMaps length items ha hb).imp fun _ _ ⟨h, hv, hw⟩ => ⟨h, hv, hw⟩

/-- Items match themselves. -/
theorem matched_self {a : List Value} (ha : ProperMapsItems a) : List.Forall₂ Matched a a :=
  List.forall₂_same.mpr fun v hv => .refl (properMapsItems_iff.mp ha v hv)

/-- Matched values run through matched items, or both through none. -/
theorem Matched.elements (h : v.Matched v') :
    Option.Rel (List.Forall₂ Matched) v.elements? v'.elements? := by
  obtain ⟨hreordered, hv, hv'⟩ := h
  cases hreordered with
  | same =>
    cases v with
    | list | tuple | queue => exact .some (matched_self hv)
    -- the elements of a set come in the order of the set
    | set elements => exact .some (matched_self (Key.properMaps_toValues elements))
    | _ => exact .none
  | list length items | tuple length items | queue length items =>
    exact .some (matched_items length items hv hv')
  | map | record | nspace => exact .none

/-- What is a sequence is matched by a sequence. -/
theorem Matched.sequence (h : v.Matched v') :
    Option.Rel (List.Forall₂ Matched) v.sequence? v'.sequence? := by
  obtain ⟨hreordered, hv, hv'⟩ := h
  cases hreordered with
  | same =>
    cases v with
    | list | tuple | queue => exact .some (matched_self hv)
    | _ => exact .none
  | list length items | tuple length items | queue length items =>
    exact .some (matched_items length items hv hv')
  | map | record | nspace => exact .none

/-- Two maps that are matched entry by entry, once the entries of the second are brought into the
    order of the first. -/
structure MatchedEntries (a b c : List (Key × Value)) : Prop where
  entries : Entries.Alongside Matched a b
  perm : b.Perm c
  distinct : Entries.Distinct a
  distinct' : Entries.Distinct c
  proper : ∀ k ∈ Entries.keys a, k.Proper

/-- A map is matched by a map: first its values, then its order. -/
theorem Matched.entries {a : List (Key × Value)} (h : (map a).Matched v') :
    ∃ b c, v' = map c ∧ MatchedEntries a b c := by
  obtain ⟨hreordered, hv, hv'⟩ := h
  cases hreordered with
  | same =>
    refine ⟨a, a, rfl, ?_, .rfl, hv.1, hv.1, hv.2.1⟩
    exact List.forall₂_same.mpr fun entry hentry =>
      ⟨rfl, .refl (properMapsEntries_iff.mp hv.2.2 entry hentry)⟩
  -- first the values are reordered inside, and then the entries among themselves
  | @map _ b c keys values perm =>
    refine ⟨b, c, rfl, ?_, perm, hv.1, hv'.1, hv.2.1⟩
    have hvalues := alongside_properMaps keys values (properMapsEntries_iff.mp hv.2.2)
      fun entry hentry => properMapsEntries_iff.mp hv'.2.2 entry (perm.mem_iff.mp hentry)
    exact hvalues.imp fun _ _ ⟨hkey, h, hx, hy⟩ => ⟨hkey, h, hx, hy⟩

section MatchedEntries

variable {a b c : List (Key × Value)}

/-- Under each key matching values are found, or none. -/
theorem MatchedEntries.find? (h : MatchedEntries a b c) (k : Key) :
    Option.Rel Matched (Entries.find? k a) (Entries.find? k c) := by
  rw [← Entries.find?_perm h.perm h.distinct']
  exact h.entries.find? k

/-- Matching entries have the same keys. -/
theorem MatchedEntries.contains_eq (h : MatchedEntries a b c) (k : Key) :
    Entries.contains k a = Entries.contains k c := by
  rw [← Entries.isSome_find?, ← Entries.isSome_find?]
  have hfound := h.find? k
  generalize Entries.find? k a = found at hfound ⊢
  generalize Entries.find? k c = found' at hfound ⊢
  cases hfound <;> rfl

/-- The keys of matching entries may stand in another order. -/
theorem MatchedEntries.keys_perm (h : MatchedEntries a b c) :
    (Entries.keys a).Perm (Entries.keys c) := by
  rw [h.entries.keys_eq]
  exact h.perm.map Prod.fst

end MatchedEntries

end Value

end Conform
