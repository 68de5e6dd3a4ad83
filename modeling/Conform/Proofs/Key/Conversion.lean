import Conform.Proofs.Value.SelfEquality

/-!
# Values as keys

A value has a key exactly if it is made of scalars, tuples and records alone (`Value.Keyable`), and
a key is the key of its value exactly if no record in it names a field twice (`Key.FieldsOnce`).
Between these values and these keys `Value.toKey?` and `Key.toValue` are inverse to each other and
lose nothing: bit patterns of numbers, scales and signs of decimals, names and the order of fields.
Main statement: `key_conversion_is_exact`.
-/

namespace Conform

/-! ## Which values have keys -/

namespace Value

/-- A scalar, or a tuple or record of such values. -/
inductive Keyable : Value → Prop
  | none : Keyable none
  | bool (b : Bool) : Keyable (bool b)
  | int (i : Int64) : Keyable (int i)
  | float (x : Binary64) : Keyable (float x)
  | complex (re im : Binary64) : Keyable (complex re im)
  | decimal (d : Decimal) : Keyable (decimal d)
  | text (s : String) : Keyable (text s)
  | bytes (b : List UInt8) : Keyable (bytes b)
  | tuple {items : List Value} (each : ∀ v ∈ items, Keyable v) : Keyable (tuple items)
  | record (name : String) {fields : List (String × Value)}
      (each : ∀ field ∈ fields, Keyable field.2) : Keyable (record name fields)

/-- A list of values has keys if all of them have one. -/
theorem isSome_toKeys?_iff {items : List Value} :
    (toKeys? items).isSome ↔ ∀ v ∈ items, v.toKey?.isSome := by
  induction items with
  | nil => exact iff_of_true rfl (List.forall_mem_nil _)
  | cons v rest ih =>
    rw [toKeys?, List.forall_mem_cons, ← ih]
    cases v.toKey? with
    | none => simp
    | some k => simp

/-- Fields have keys if the values of all of them have one. -/
theorem isSome_toKeyFields?_iff {fields : List (String × Value)} :
    (toKeyFields? fields).isSome ↔ ∀ field ∈ fields, field.2.toKey?.isSome := by
  induction fields with
  | nil => exact iff_of_true rfl (List.forall_mem_nil _)
  | cons field rest ih =>
    obtain ⟨name, v⟩ := field
    rw [toKeyFields?, List.forall_mem_cons, ← ih]
    cases v.toKey? with
    | none => simp
    | some k => simp

/-- A keyable value has a key. -/
theorem Keyable.isSome_toKey? {v : Value} (h : v.Keyable) : v.toKey?.isSome := by
  induction h with
  | tuple _ ih =>
    rw [toKey?, Option.isSome_map]
    exact isSome_toKeys?_iff.mpr ih
  | record _ _ ih =>
    rw [toKey?, Option.isSome_map]
    exact isSome_toKeyFields?_iff.mpr ih
  | _ => rfl

/-- A part without a key leaves the whole value without one. -/
theorem keyable_of_isSome_toKey? (v : Value) (h : v.toKey?.isSome) : v.Keyable := by
  -- tuples and records have keys when their parts do
  induction v using induction_on_parts with
  | step v ih =>
    cases v with
    | tuple items =>
      rw [toKey?, Option.isSome_map, isSome_toKeys?_iff] at h
      exact .tuple fun u hu => ih u hu (h u hu)
    | record name fields =>
      rw [toKey?, Option.isSome_map, isSome_toKeyFields?_iff] at h
      exact .record name fun field hfield =>
        ih field.2 (List.mem_map_of_mem hfield) (h field hfield)
    | list | set | queue | map | callable | nspace | object => cases h
    | _ => constructor

/-- The values that have a key. -/
theorem isSome_toKey?_iff (v : Value) : v.toKey?.isSome ↔ v.Keyable :=
  ⟨keyable_of_isSome_toKey? v, Keyable.isSome_toKey?⟩

/-- The key of a record names the fields of the record in their order. -/
theorem keys_of_toKeyFields? {fields : List (String × Value)} {keys : List (String × Key)}
    (h : toKeyFields? fields = some keys) : Entries.keys keys = Entries.keys fields := by
  induction fields generalizing keys with
  | nil => cases h; rfl
  | cons field rest ih =>
    obtain ⟨name, v⟩ := field
    obtain ⟨k, -, h⟩ := Option.bind_eq_some_iff.mp h
    obtain ⟨others, hothers, rfl⟩ := Option.map_eq_some_iff.mp h
    exact congrArg (List.cons name) (ih hothers)

end Value

/-! ## Which keys are keys of values -/

namespace Key

/-- No record in the key names a field twice. -/
inductive FieldsOnce : Key → Prop
  | none : FieldsOnce none
  | bool (b : Bool) : FieldsOnce (bool b)
  | int (i : Int64) : FieldsOnce (int i)
  | float (x : Binary64) : FieldsOnce (float x)
  | complex (re im : Binary64) : FieldsOnce (complex re im)
  | decimal (d : Decimal) : FieldsOnce (decimal d)
  | text (s : String) : FieldsOnce (text s)
  | bytes (b : List UInt8) : FieldsOnce (bytes b)
  | tuple {items : List Key} (each : ∀ k ∈ items, FieldsOnce k) : FieldsOnce (tuple items)
  | record (name : String) {fields : List (String × Key)} (once : Entries.Distinct fields)
      (each : ∀ field ∈ fields, FieldsOnce field.2) : FieldsOnce (record name fields)

/-- A list of keys is given back when each key is. -/
theorem toKeys?_toValues_iff {keys : List Key} :
    Value.toKeys? (toValues keys) = some keys ↔ ∀ k ∈ keys, k.Proper := by
  induction keys with
  | nil => exact iff_of_true rfl (List.forall_mem_nil _)
  | cons k rest ih =>
    rw [List.forall_mem_cons, ← ih, toValues, Value.toKeys?, Proper]
    simp [Option.bind_eq_some_iff]

/-- The fields of a record are given back when each key is. -/
theorem toKeyFields?_toFields_iff {fields : List (String × Key)} :
    Value.toKeyFields? (toFields fields) = some fields ↔ ∀ field ∈ fields, field.2.Proper := by
  induction fields with
  | nil => exact iff_of_true rfl (List.forall_mem_nil _)
  | cons field rest ih =>
    obtain ⟨name, k⟩ := field
    rw [List.forall_mem_cons, ← ih, toFields, Value.toKeyFields?, Proper]
    simp [Option.bind_eq_some_iff]

/-- The names of the fields stay. -/
theorem keys_toFields (fields : List (String × Key)) :
    Entries.keys (toFields fields) = Entries.keys fields := by
  induction fields with
  | nil => rfl
  | cons field rest ih => exact congrArg (List.cons field.1) ih

/-- A tuple is proper when its items are. -/
theorem proper_tuple_iff {items : List Key} : (tuple items).Proper ↔ ∀ k ∈ items, k.Proper := by
  rw [← toKeys?_toValues_iff, Proper, toValue, Value.toKey?, Option.map_eq_some_iff]
  simp

/-- The value of a record has each field once, so that a key that repeats one is lost. -/
theorem proper_record_iff {name : String} {fields : List (String × Key)} :
    (record name fields).Proper ↔
      Entries.Distinct fields ∧ ∀ field ∈ fields, field.2.Proper := by
  have hmade : (record name fields).Proper ↔
      Value.toKeyFields? (Entries.ofList (toFields fields)) = some fields := by
    rw [Proper, toValue, Value.toKey?, Option.map_eq_some_iff]
    simp
  rw [hmade, ← toKeyFields?_toFields_iff]
  have htable (hdistinct : Entries.Distinct fields) :
      Entries.ofList (toFields fields) = toFields fields :=
    Entries.ofList_of_distinct (by rwa [Entries.Distinct, keys_toFields])
  constructor
  · intro h
    -- the value holds the fields as a table, and the key that it gives has the names of the table
    have hdistinct : Entries.Distinct fields := by
      rw [Entries.Distinct, Value.keys_of_toKeyFields? h]
      exact Entries.distinct_ofList _
    exact ⟨hdistinct, htable hdistinct ▸ h⟩
  · rintro ⟨hdistinct, h⟩
    rwa [htable hdistinct]

/-- The value of a key that repeats no field gives the key back. -/
theorem FieldsOnce.proper {k : Key} (h : k.FieldsOnce) : k.Proper := by
  induction h with
  | tuple _ ih => exact proper_tuple_iff.mpr ih
  | record _ once _ ih => exact proper_record_iff.mpr ⟨once, ih⟩
  | _ => rfl

/-- Only such keys come back from their values. -/
theorem Proper.fieldsOnce : ∀ {k : Key}, k.Proper → k.FieldsOnce
  | tuple _, h => .tuple fun k hk => (proper_tuple_iff.mp h k hk).fieldsOnce
  | record name _, h =>
    .record name (proper_record_iff.mp h).1 fun field hfield =>
      ((proper_record_iff.mp h).2 field hfield).fieldsOnce
  | none, _ => .none
  | bool b, _ => .bool b
  | int i, _ => .int i
  | float x, _ => .float x
  | complex re im, _ => .complex re im
  | decimal d, _ => .decimal d
  | text s, _ => .text s
  | bytes b, _ => .bytes b
-- items and fields are lower than the key
termination_by k => k.height
decreasing_by
  · exact height_lt_of_mem_items hk
  · exact height_lt_of_mem_fields hfield

/-- The keys that are given back are those without repeated fields. -/
theorem proper_iff_fieldsOnce (k : Key) : k.Proper ↔ k.FieldsOnce :=
  ⟨Proper.fieldsOnce, FieldsOnce.proper⟩

end Key

/-- A value has a key exactly if it is made of scalars, tuples and records alone. The value of that
    key is the value again in all its parts, and no record in the key names a field twice. A key is
    given back by its value exactly if it is such a key. -/
theorem key_conversion_is_exact :
    (∀ v : Value, v.toKey?.isSome ↔ v.Keyable) ∧
      (∀ (v : Value) (k : Key), v.WellFormed → v.toKey? = some k →
        k.toValue = v ∧ k.FieldsOnce) ∧
      ∀ k : Key, k.toValue.toKey? = some k ↔ k.FieldsOnce := by
  refine ⟨Value.isSome_toKey?_iff, fun v k hv hk => ?_, Key.proper_iff_fieldsOnce⟩
  have hvalue : k.toValue = v := Value.toValue_of_toKey? v k hv hk
  have hproper : k.Proper := by rw [Key.Proper, hvalue, hk]
  exact ⟨hvalue, hproper.fieldsOnce⟩

/-! ## A reading -/

/-- A reading with a NaN that has a payload, a negative zero, and the price paid for it. -/
def reading (paid : Decimal) : Value :=
  .record "Reading" [("level", .float ⟨0x7FF8000000000001⟩),
    ("phase", .complex ⟨0x8000000000000000⟩ ⟨0xFFF0000000000001⟩),
    ("marks", .tuple [.record "Price" [("paid", .decimal paid)], .bytes [0, 255]])]

/-- A reading for `-1.50` comes back from its key. With a list beside it, it has no key, and a key
    that holds it under a name used twice is not the key of its value. -/
theorem key_conversion_is_exact_reading :
    let v := reading ⟨true, 150, 2, by decide, by decide⟩
    v.WellFormed ∧ (Value.tuple [v, .list []]).toKey?.isSome = false ∧
      ∃ k, v.toKey? = some k ∧ (k.toValue = v ∧ k.FieldsOnce) ∧
        (Key.record "Pair" [("x", .none), ("x", k)]).toValue.toKey? ≠
          some (.record "Pair" [("x", .none), ("x", k)]) := by
  intro v
  obtain ⟨hkeyable, hback, hgiven⟩ := key_conversion_is_exact
  have hwell : v.WellFormed := by
    simp [v, reading, Value.WellFormed, Value.WellFormedFields, Value.WellFormedItems,
      Entries.Distinct, Entries.keys]
  -- a list has no key, not even inside a tuple
  have hlist : ¬ (Value.tuple [v, .list []]).Keyable := by
    intro h
    cases h with
    | tuple each => cases each (.list []) (by simp)
  -- a name that is there twice is one field of the value
  have hrepeated (k : Key) : ¬ (Key.record "Pair" [("x", .none), ("x", k)]).FieldsOnce := by
    intro h
    cases h with
    | record _ once _ => exact absurd once (by simp [Entries.Distinct, Entries.keys])
  refine ⟨hwell, Bool.eq_false_iff.mpr (mt (hkeyable _).mp hlist), ?_⟩
  exact ⟨_, rfl, hback v _ hwell rfl, mt (hgiven _).mp (hrepeated _)⟩

end Conform
