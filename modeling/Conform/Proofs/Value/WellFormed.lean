import Conform.Proofs.Entries
import Conform.Proofs.Key.Order
import Conform.Value

/-!
# Well-formed values

Sets ascend, and maps, records and namespaces have distinct keys, at every depth: every value that
is put together entry by entry is well-formed. A well-formed value that has a key is the value of
its key (`Value.toValue_of_toKey?`), and the value of a key is well-formed in any case
(`Key.wellFormed_toValue`).
-/

namespace Conform

namespace Value

/-- Only maps have entries. -/
theorem exists_entries {v : Value} (h : v.kind = .map) : ∃ entries, v = .map entries := by
  cases v with
  | map entries => exact ⟨entries, rfl⟩
  | _ => cases h

mutual

/-- Sets ascend, and tables have distinct keys, at every depth. -/
def WellFormed : Value → Prop
  | list items => WellFormedItems items
  | tuple items => WellFormedItems items
  | set elements => Key.Ascending elements
  | queue items => WellFormedItems items
  | map entries => Entries.Distinct entries ∧ WellFormedEntries entries
  | record _ fields => Entries.Distinct fields ∧ WellFormedFields fields
  | nspace _ _ members => Entries.Distinct members ∧ WellFormedFields members
  | _ => True

/-- All items are well-formed. -/
def WellFormedItems : List Value → Prop
  | [] => True
  | v :: rest => v.WellFormed ∧ WellFormedItems rest

/-- The values of all entries are well-formed. -/
def WellFormedEntries : List (Key × Value) → Prop
  | [] => True
  | (_, v) :: rest => v.WellFormed ∧ WellFormedEntries rest

/-- The values of all fields are well-formed. -/
def WellFormedFields : List (String × Value) → Prop
  | [] => True
  | (_, v) :: rest => v.WellFormed ∧ WellFormedFields rest

end

/-- Items are well-formed when each is. -/
theorem wellFormedItems_iff {items : List Value} :
    WellFormedItems items ↔ ∀ v ∈ items, v.WellFormed := by
  induction items with
  | nil => exact ⟨fun _ _ h => absurd h List.not_mem_nil, fun _ => trivial⟩
  | cons v rest ih => rw [WellFormedItems, ih, List.forall_mem_cons]

/-- Entries are well-formed when each value is. -/
theorem wellFormedEntries_iff {entries : List (Key × Value)} :
    WellFormedEntries entries ↔ ∀ entry ∈ entries, entry.2.WellFormed := by
  induction entries with
  | nil => exact ⟨fun _ _ h => absurd h List.not_mem_nil, fun _ => trivial⟩
  | cons entry rest ih => rw [WellFormedEntries, ih, List.forall_mem_cons]

/-- Fields are well-formed when each value is. -/
theorem wellFormedFields_iff {fields : List (String × Value)} :
    WellFormedFields fields ↔ ∀ field ∈ fields, field.2.WellFormed := by
  induction fields with
  | nil => exact ⟨fun _ _ h => absurd h List.not_mem_nil, fun _ => trivial⟩
  | cons field rest ih => rw [WellFormedFields, ih, List.forall_mem_cons]

end Value

namespace Key

/-- A key that is the key of a value, since it repeats no field. -/
def Proper (k : Key) : Prop :=
  k.toValue.toKey? = some k

/-- The values of keys, one by one. -/
theorem toValues_eq_map (keys : List Key) : toValues keys = keys.map toValue := by
  induction keys with
  | nil => rfl
  | cons k rest ih => rw [toValues, ih, List.map_cons]

mutual

/-- The value of a key is well-formed, also if the key repeats a field. -/
theorem wellFormed_toValue : ∀ k : Key, k.toValue.WellFormed
  | none | bool _ | int _ | float _ | complex .. | decimal _ | text _ | bytes _ => trivial
  | tuple items => wellFormed_toValues items
  | record _ fields =>
    ⟨Entries.distinct_ofList _, Value.wellFormedFields_iff.mpr fun field hfield =>
      (Entries.ofList_forall (P := fun _ => True) (Q := Value.WellFormed)
        (fun field hfield => ⟨trivial, wellFormed_toFields fields field hfield⟩) field hfield).2⟩

/-- The values of keys are well-formed. -/
theorem wellFormed_toValues : ∀ keys : List Key, Value.WellFormedItems (toValues keys)
  | [] => trivial
  | k :: rest => ⟨wellFormed_toValue k, wellFormed_toValues rest⟩

/-- The value of a key is well-formed, whatever its fields. -/
private theorem wellFormed_toFields : ∀ fields : List (String × Key),
    ∀ field ∈ toFields fields, field.2.WellFormed
  | [] => fun _ h => absurd h List.not_mem_nil
  | (_, k) :: rest => List.forall_mem_cons.mpr ⟨wellFormed_toValue k, wellFormed_toFields rest⟩

end

end Key

namespace Value

mutual

/-- A well-formed value that has a key is the value of its key. -/
theorem toValue_of_toKey? : ∀ (v : Value) (k : Key), v.WellFormed → v.toKey? = some k →
    k.toValue = v
  | none, _, _, h | bool _, _, _, h | int _, _, _, h | float _, _, _, h | complex .., _, _, h
  | decimal _, _, _, h | text _, _, _, h | bytes _, _, _, h => by cases h; rfl
  | tuple items, k, hv, h => by
    obtain ⟨keys, hkeys, rfl⟩ := Option.map_eq_some_iff.mp h
    rw [Key.toValue, toValues_of_toKeys? items keys hv hkeys]
  | record name fields, k, hv, h => by
    obtain ⟨keys, hkeys, rfl⟩ := Option.map_eq_some_iff.mp h
    -- no field is repeated, so that none is lost on the way back
    rw [Key.toValue, toFields_of_toKeyFields? fields keys hv.2 hkeys,
      Entries.ofList_of_distinct hv.1]
  | list _, _, _, h | set _, _, _, h | queue _, _, _, h | map _, _, _, h | callable _, _, _, h
  | nspace .., _, _, h | object _, _, _, h => nomatch h

/-- A list that has keys is given back by them. -/
private theorem toValues_of_toKeys? : ∀ (items : List Value) (keys : List Key),
    WellFormedItems items → toKeys? items = some keys → Key.toValues keys = items
  | [], _, _, h => by cases h; rfl
  | v :: rest, _, hv, h => by
    obtain ⟨k, hk, h⟩ := Option.bind_eq_some_iff.mp h
    obtain ⟨keys, hkeys, rfl⟩ := Option.map_eq_some_iff.mp h
    rw [Key.toValues, toValue_of_toKey? v k hv.1 hk, toValues_of_toKeys? rest keys hv.2 hkeys]

/-- Fields that have keys are given back by them. -/
private theorem toFields_of_toKeyFields? : ∀ (fields : List (String × Value))
    (keys : List (String × Key)), WellFormedFields fields → toKeyFields? fields = some keys →
    Key.toFields keys = fields
  | [], _, _, h => by cases h; rfl
  | (name, v) :: rest, _, hv, h => by
    obtain ⟨k, hk, h⟩ := Option.bind_eq_some_iff.mp h
    obtain ⟨keys, hkeys, rfl⟩ := Option.map_eq_some_iff.mp h
    rw [Key.toFields, toValue_of_toKey? v k hv.1 hk,
      toFields_of_toKeyFields? rest keys hv.2 hkeys]

end

/-- The items that a well-formed value runs through are well-formed. -/
theorem WellFormed.elements {v : Value} {items : List Value} (hv : v.WellFormed)
    (h : v.elements? = some items) : ∀ item ∈ items, item.WellFormed := by
  cases v <;> cases h
  case list | tuple | queue => exact wellFormedItems_iff.mp hv
  case set => exact wellFormedItems_iff.mp (Key.wellFormed_toValues _)

/-- The items of a well-formed sequence are well-formed. -/
theorem WellFormed.sequence {v : Value} {items : List Value} (hv : v.WellFormed)
    (h : v.sequence? = some items) : ∀ item ∈ items, item.WellFormed := by
  cases v <;> cases h
  case list | tuple | queue => exact wellFormedItems_iff.mp hv

end Value

end Conform
