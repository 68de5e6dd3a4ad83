import Conform.Proofs.Entries
import Conform.Value

/-!
# Heights of values

The height of a value is the number of steps from it down to its deepest part, through items,
elements, fields, keys of maps and values of maps. A key is as high as the tuples and records that
it is made of. What belongs to the host program has no parts.
-/

namespace Conform

mutual

/-- The steps from a key down to its deepest part. -/
def Key.height : Key → Nat
  | .tuple items => Key.heightItems items
  | .record _ fields => Key.heightFields fields
  | _ => 0

/-- The steps down from a sequence of keys. -/
def Key.heightItems : List Key → Nat
  | [] => 0
  | k :: rest => max (k.height + 1) (Key.heightItems rest)

/-- The steps down from fields that are keys. -/
def Key.heightFields : List (String × Key) → Nat
  | [] => 0
  | (_, k) :: rest => max (k.height + 1) (Key.heightFields rest)

end

namespace Value

mutual

/-- The steps from a value down to its deepest part. -/
def height : Value → Nat
  | list items => heightItems items
  | tuple items => heightItems items
  | set elements => Key.heightItems elements
  | queue items => heightItems items
  | map entries => heightEntries entries
  | record _ fields => heightFields fields
  | _ => 0

/-- The steps down from a sequence. -/
def heightItems : List Value → Nat
  | [] => 0
  | v :: rest => max (v.height + 1) (heightItems rest)

/-- The steps down from entries, into a key or into a value. -/
def heightEntries : List (Key × Value) → Nat
  | [] => 0
  | (k, v) :: rest => max (max (k.height + 1) (v.height + 1)) (heightEntries rest)

/-- The steps down from fields. -/
def heightFields : List (String × Value) → Nat
  | [] => 0
  | (_, v) :: rest => max (v.height + 1) (heightFields rest)

end

/-- An item is lower than the sequence. -/
theorem height_lt_of_mem_items {v : Value} {items : List Value} (hv : v ∈ items) :
    v.height < heightItems items := by
  induction items with
  | nil => cases hv
  | cons w rest ih =>
    rw [heightItems]
    cases List.mem_cons.mp hv with
    | inl h => subst h; omega
    | inr h =>
      have hlt := ih h
      omega

/-- A key and a value of a map are lower than the map. -/
theorem height_lt_of_mem_entries {k : Key} {v : Value} {entries : List (Key × Value)}
    (h : (k, v) ∈ entries) :
    k.height < heightEntries entries ∧ v.height < heightEntries entries := by
  induction entries with
  | nil => cases h
  | cons entry rest ih =>
    obtain ⟨j, w⟩ := entry
    rw [heightEntries]
    -- the height of the entries is more than that of each, the first included
    cases List.mem_cons.mp h with
    | inl h => cases h; omega
    | inr h =>
      have hlt := ih h
      omega

/-- Names do not count: fields are as high as their values. -/
theorem heightFields_eq (fields : List (String × Value)) :
    heightFields fields = heightItems (fields.map Prod.snd) := by
  induction fields with
  | nil => rfl
  | cons field rest ih => rw [heightFields, List.map_cons, heightItems, ih]

/-- The value of a field is lower than the fields. -/
theorem height_lt_of_mem_fields {field : String × Value} {fields : List (String × Value)}
    (h : field ∈ fields) : field.2.height < heightFields fields := by
  rw [heightFields_eq]
  exact height_lt_of_mem_items (List.mem_map_of_mem h)

/-- Fields are as high as the bound that all of their values keep to. -/
theorem heightFields_le {fields : List (String × Value)} {bound : Nat}
    (h : ∀ field ∈ fields, field.2.height < bound) : heightFields fields ≤ bound := by
  induction fields with
  | nil => exact Nat.zero_le _
  | cons field rest ih =>
    obtain ⟨name, v⟩ := field
    have ⟨hv, hrest⟩ := List.forall_mem_cons.mp h
    have htail := ih hrest
    have hhead : v.height < bound := hv
    rw [heightFields]
    omega

end Value

namespace Key

/-- An item of a sequence of keys is lower than the sequence. -/
theorem height_lt_of_mem_items {k : Key} {keys : List Key} (hk : k ∈ keys) :
    k.height < heightItems keys := by
  induction keys with
  | nil => cases hk
  | cons j rest ih =>
    rw [heightItems]
    cases List.mem_cons.mp hk with
    | inl h => subst h; omega
    | inr h =>
      have hlt := ih h
      omega

/-- The fields of a key are as high as their keys. -/
theorem heightFields_eq (fields : List (String × Key)) :
    heightFields fields = heightItems (fields.map Prod.snd) := by
  induction fields with
  | nil => rfl
  | cons field rest ih => rw [heightFields, List.map_cons, heightItems, ih]

/-- The key of a field is lower than the fields. -/
theorem height_lt_of_mem_fields {field : String × Key} {fields : List (String × Key)}
    (h : field ∈ fields) : field.2.height < heightFields fields := by
  rw [heightFields_eq]
  exact height_lt_of_mem_items (List.mem_map_of_mem h)

mutual

/-- The value of a key is no higher than the key. It can be lower, if the key repeats a field. -/
theorem height_toValue_le : ∀ k : Key, k.toValue.height ≤ k.height
  | none | bool _ | int _ | float _ | complex .. | decimal _ | text _ | bytes _ => Nat.le_refl 0
  | tuple items => heightItems_toValues_le items
  | record _ fields => by
    rw [Key.toValue, Value.height, height]
    -- of equal names the record keeps one value, and it takes no other values
    refine Value.heightFields_le fun field hfield => ?_
    exact (Entries.ofList_forall (P := fun _ => True)
      (Q := fun v => v.height < heightFields fields)
      (fun field hfield => ⟨trivial, height_toFields_lt fields field hfield⟩) field hfield).2

/-- The values of keys are no higher than the keys. -/
theorem heightItems_toValues_le : ∀ keys : List Key,
    Value.heightItems (toValues keys) ≤ heightItems keys
  | [] => Nat.le_refl 0
  | k :: rest => by
    have hk := height_toValue_le k
    have hrest := heightItems_toValues_le rest
    rw [toValues, Value.heightItems, heightItems]
    omega

/-- Each field of the value lies below the record. -/
private theorem height_toFields_lt : ∀ fields : List (String × Key),
    ∀ field ∈ toFields fields, field.2.height < heightFields fields
  | [] => fun _ h => absurd h List.not_mem_nil
  | (name, k) :: rest => by
    have hk := height_toValue_le k
    have hrest := height_toFields_lt rest
    intro field hfield
    rw [heightFields]
    cases List.mem_cons.mp hfield with
    | inl h =>
      subst h
      show k.toValue.height < _
      omega
    | inr h =>
      have hlt := hrest field h
      omega

end

end Key

/-- What a value runs through is lower than the value. -/
theorem Value.height_lt_of_elements? {v x : Value} {items : List Value}
    (h : v.elements? = some items) (hx : x ∈ items) : x.height < v.height := by
  have hlt := height_lt_of_mem_items hx
  cases v <;> cases h
  case list | tuple | queue => exact hlt
  case set keys => exact Nat.lt_of_lt_of_le hlt (Key.heightItems_toValues_le keys)

/-- An item of a sequence is lower than the sequence. -/
theorem Value.height_lt_of_sequence? {v x : Value} {items : List Value}
    (h : v.sequence? = some items) (hx : x ∈ items) : x.height < v.height := by
  have hlt := height_lt_of_mem_items hx
  cases v <;> cases h
  case list | tuple | queue => exact hlt

end Conform
