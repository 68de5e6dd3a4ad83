import Conform.Proofs.Value.Equality
import Conform.Proofs.Value.Height
import Mathlib.Data.List.Forall2

/-!
# Which values equal themselves

Equality of values is symmetric: of two tables of one size, the second has no key that the first
does not have (`Entries.contains_of_subset`). A value equals itself exactly if none of the values
that it is compared by is a NaN. These are the values that `Value.Holds` speaks of. Elements of sets
and keys of maps are not among them, as they are compared as keys. Main statement:
`value_equality_is_partial_equivalence`.
-/

namespace Conform

/-! ## Tables of one size -/

namespace Entries

variable {κ α β : Type} [BEq κ] [EquivBEq κ] {a : List (κ × α)} {b : List (κ × β)}

/-- If a table holds all keys of another one without repetitions, and no more keys, then the other
    holds all of its keys. -/
theorem contains_of_subset (ha : Distinct a) (hlength : b.length ≤ a.length)
    (h : ∀ k ∈ keys a, contains k b = true) : ∀ j ∈ keys b, contains j a = true := by
  induction a generalizing b with
  | nil =>
    obtain rfl : b = [] := List.eq_nil_of_length_eq_zero (Nat.le_zero.mp hlength)
    exact fun j hj => absurd hj List.not_mem_nil
  | cons entry rest ih =>
    obtain ⟨k, v⟩ := entry
    obtain ⟨hother, hrest⟩ := List.pairwise_cons.mp ha
    obtain ⟨hk, hkeys⟩ := List.forall_mem_cons.mp h
    -- the entry under the first key is taken out of the other table
    obtain ⟨⟨j, w⟩, hmem, hjk⟩ := List.any_eq_true.mp hk
    obtain ⟨front, back, rfl⟩ := List.append_of_mem hmem
    have hmiddle : ∀ i, contains i (front ++ (j, w) :: back) =
        (j == i || contains i (front ++ back)) := by
      intro i
      simp only [contains, List.any_append, List.any_cons, Bool.or_left_comm]
    -- the other keys are still in what is left, since they are not equal to the first
    have hcovered : ∀ i ∈ keys (front ++ back), contains i rest = true := by
      refine ih hrest ?_ fun i hi => ?_
      · simp only [List.length_append, List.length_cons] at hlength ⊢
        omega
      · have hne : (j == i) = false := by rw [BEq.congr_left hjk]; exact hother i hi
        have hfound := hkeys i hi
        rwa [hmiddle, hne, Bool.false_or] at hfound
    intro i hi
    have hcases : i = j ∨ i ∈ keys (front ++ back) := by
      simp only [keys, List.map_append, List.map_cons, List.mem_append, List.mem_cons] at hi ⊢
      tauto
    show (k == i || contains i rest) = true
    obtain rfl | hi := hcases
    · rw [BEq.comm.trans hjk, Bool.true_or]
    · rw [hcovered i hi, Bool.or_true]

/-- If every entry of a table is found in another one of its size, then every entry of the other is
    found in the first. -/
theorem found_symm {rel : α → β → Prop} (ha : Distinct a) (hb : Distinct b)
    (hlength : a.length = b.length)
    (h : ∀ k v, (k, v) ∈ a → ∃ w, find? k b = some w ∧ rel v w) :
    ∀ j w, (j, w) ∈ b → ∃ k v, (k, v) ∈ a ∧ find? j a = some v ∧ rel v w := by
  intro j w hw
  have hsubset : ∀ k ∈ keys a, contains k b = true := by
    intro k hk
    obtain ⟨⟨_, v⟩, hv, rfl⟩ := List.mem_map.mp hk
    obtain ⟨x, hx, -⟩ := h _ v hv
    rw [← isSome_find?, hx]
    rfl
  have hj := contains_of_subset ha hlength.ge hsubset j (List.mem_map_of_mem hw)
  rw [← isSome_find?, Option.isSome_iff_exists] at hj
  obtain ⟨v, hv⟩ := hj
  obtain ⟨k, hk, heq⟩ := mem_of_find? hv
  obtain ⟨x, hx, hrel⟩ := h k v hk
  -- the keys are equal, so that the entry under the one is the entry under the other
  rw [find?_congr heq, find?_of_mem BEq.rfl hb hw, Option.some.injEq] at hx
  exact ⟨k, v, hk, hv, hx ▸ hrel⟩

end Entries

/-- To be the same has no direction. -/
theorem Key.sameItems_symm {a b : List Key} (h : sameItems a b = true) : sameItems b a = true := by
  -- as the items of tuples
  have hsymm : (Key.tuple a == Key.tuple b) = true → (Key.tuple b == Key.tuple a) = true := BEq.symm
  simp only [BEq.beq, Key.same] at hsymm
  exact hsymm h

/-- Keys are the same as themselves: there is no float among them. -/
theorem Key.sameItems_self (a : List Key) : sameItems a a = true := by
  have hself : (Key.tuple a == Key.tuple a) = true := BEq.rfl
  simpa only [BEq.beq, Key.same] using hself

namespace Value

/-! ## The values that a value is compared by -/

/-- The values that a value is directly compared by: items, values of entries and values of
    fields. -/
def parts : Value → List Value
  | list items => items
  | tuple items => items
  | queue items => items
  | map entries => entries.map Prod.snd
  | record _ fields => fields.map Prod.snd
  | _ => []

/-- A value holds itself and what its parts hold. -/
inductive Holds : Value → Value → Prop
  | self (v : Value) : Holds v v
  | inside {v u x : Value} (part : u ∈ v.parts) (rest : Holds u x) : Holds v x

/-- A floating-point NaN, or a complex number with a part that is one. -/
def IsNaN : Value → Prop
  | float x => x.isNaN = true
  | complex re im => re.isNaN = true ∨ im.isNaN = true
  | _ => False

variable {u v x : Value}

/-- What holds inside a value holds of it and inside its parts. -/
theorem forall_holds_iff {P : Value → Prop} :
    (∀ x, v.Holds x → P x) ↔ P v ∧ ∀ u ∈ v.parts, ∀ x, u.Holds x → P x := by
  constructor
  · exact fun h => ⟨h v (.self v), fun u hu x hx => h x (.inside hu hx)⟩
  · rintro ⟨hself, hparts⟩ x hx
    cases hx with
    | self => exact hself
    | inside hu hx => exact hparts _ hu x hx

/-- A part is lower than the whole. -/
theorem height_lt_of_mem_parts (h : u ∈ v.parts) : u.height < v.height := by
  cases v
  case list | tuple | queue => exact height_lt_of_mem_items h
  case map entries =>
    obtain ⟨⟨k, u⟩, hmem, rfl⟩ := List.mem_map.mp h
    exact (height_lt_of_mem_entries hmem).2
  case record name fields =>
    obtain ⟨field, hmem, rfl⟩ := List.mem_map.mp h
    exact height_lt_of_mem_fields hmem
  all_goals exact absurd h List.not_mem_nil

/-- What holds of a value if it holds of its parts holds of every value. -/
theorem induction_on_parts {P : Value → Prop} (step : ∀ v, (∀ u ∈ v.parts, P u) → P v)
    (v : Value) : P v :=
  step v fun u _ => induction_on_parts step u
termination_by v.height
decreasing_by exact height_lt_of_mem_parts ‹_›

/-- A part of a well-formed value is well-formed. -/
theorem WellFormed.of_mem_parts (hv : v.WellFormed) (h : u ∈ v.parts) : u.WellFormed := by
  cases v
  case list | tuple | queue => exact wellFormedItems_iff.mp hv u h
  case map entries =>
    obtain ⟨entry, hmem, rfl⟩ := List.mem_map.mp h
    exact wellFormedEntries_iff.mp hv.2 entry hmem
  case record name fields =>
    obtain ⟨field, hmem, rfl⟩ := List.mem_map.mp h
    exact wellFormedFields_iff.mp hv.2 field hmem
  all_goals exact absurd h List.not_mem_nil

/-! ## Comparison part by part -/

/-- Lists are equal when they are item by item. -/
theorem equalItems_iff {a b : List Value} :
    equalItems a b = true ↔ List.Forall₂ (fun v w => v.equal w = true) a b := by
  induction a generalizing b with
  | nil => cases b <;> simp [equalItems]
  | cons v as ih => cases b <;> simp [equalItems, ih]

/-- Entries are contained when each is found with an equal value. -/
theorem entriesIn_eq_true_iff {a b : List (Key × Value)} : entriesIn a b = true ↔
    ∀ k v, (k, v) ∈ a → ∃ w, Entries.find? k b = some w ∧ v.equal w = true := by
  refine ⟨fun h k v hv => exists_find?_of_entriesIn h hv, fun h => ?_⟩
  induction a with
  | nil => rw [entriesIn]
  | cons entry rest ih =>
    obtain ⟨k, v⟩ := entry
    obtain ⟨w, hw, hequal⟩ := h k v List.mem_cons_self
    rw [entriesIn, hw, Bool.and_eq_true]
    exact ⟨hequal, ih fun k v hv => h k v (List.mem_cons_of_mem _ hv)⟩

/-- Fields are contained when each is found with an equal value. -/
theorem fieldsIn_eq_true_iff {a b : List (String × Value)} : fieldsIn a b = true ↔
    ∀ name v, (name, v) ∈ a → ∃ w, Entries.find? name b = some w ∧ v.equal w = true := by
  refine ⟨fun h name v hv => exists_find?_of_fieldsIn h hv, fun h => ?_⟩
  induction a with
  | nil => rw [fieldsIn]
  | cons field rest ih =>
    obtain ⟨name, v⟩ := field
    obtain ⟨w, hw, hequal⟩ := h name v List.mem_cons_self
    rw [fieldsIn, hw, Bool.and_eq_true]
    exact ⟨hequal, ih fun name v hv => h name v (List.mem_cons_of_mem _ hv)⟩

/-! ## Symmetry -/

/-- Equality of lists has no direction if that of their items has none. -/
private theorem equalItems_symm {a b : List Value}
    (ih : ∀ v ∈ a, ∀ w ∈ b, v.equal w = true → w.equal v = true) (h : equalItems a b = true) :
    equalItems b a = true := by
  rw [equalItems_iff] at h ⊢
  refine List.Forall₂.flip (List.forall₂_iff_zip.mpr ⟨h.length_eq, fun {v w} hpair => ?_⟩)
  obtain ⟨hv, hw⟩ := List.of_mem_zip hpair
  exact ih v hv w hw (List.forall₂_zip h hpair)

/-- Of equal values either may come first. -/
theorem equal_symm (a b : Value) (ha : a.WellFormed) (hb : b.WellFormed) (h : a.equal b = true) :
    b.equal a = true := by
  -- induction on the parts of the first value
  induction a using induction_on_parts generalizing b with
  | step a ih =>
    have hkind := kind_eq_of_equal h
    have hparts : ∀ v ∈ a.parts, ∀ w ∈ b.parts, v.equal w = true → w.equal v = true :=
      fun v hv w hw => ih v hv w (ha.of_mem_parts hv) (hb.of_mem_parts hw)
    -- equal values are of one kind
    match a, b with
    | none, none => rw [equal]
    | bool _, bool _ | int _, int _ | text _, text _ | bytes _, bytes _ | callable _, callable _
    | nspace .., nspace .. | object _, object _ | decimal _, decimal _ =>
      rw [equal] at h ⊢
      exact BEq.symm h
    | float _, float _ =>
      rw [equal] at h ⊢
      rwa [Binary64.equal_comm]
    | complex re im, complex re' im' =>
      rw [equal] at h ⊢
      rwa [Binary64.equal_comm re', Binary64.equal_comm im']
    | list _, list _ | tuple _, tuple _ | queue _, queue _ =>
      rw [equal] at h ⊢
      exact equalItems_symm hparts h
    | set _, set _ =>
      rw [equal] at h ⊢
      exact Key.sameItems_symm h
    | map as, map bs =>
      rw [equal, Bool.and_eq_true, beq_iff_eq, entriesIn_eq_true_iff] at h ⊢
      obtain ⟨hlength, hentries⟩ := h
      refine ⟨hlength.symm, fun j w hw => ?_⟩
      -- tables of one length whose keys are distinct: an entry of one is found in the other
      obtain ⟨k, v, hv, hfound, hequal⟩ := Entries.found_symm ha.1 hb.1 hlength hentries j w hw
      exact ⟨v, hfound, hparts v (List.mem_map_of_mem hv) w (List.mem_map_of_mem hw) hequal⟩
    | record _ as, record _ bs =>
      rw [equal, Bool.and_eq_true, Bool.and_eq_true, beq_iff_eq, beq_iff_eq,
        fieldsIn_eq_true_iff] at h ⊢
      obtain ⟨⟨hname, hlength⟩, hfields⟩ := h
      refine ⟨⟨hname.symm, hlength.symm⟩, fun name w hw => ?_⟩
      obtain ⟨name', v, hv, hfound, hequal⟩ :=
        Entries.found_symm ha.1 hb.1 hlength hfields name w hw
      exact ⟨v, hfound, hparts v (List.mem_map_of_mem hv) w (List.mem_map_of_mem hw) hequal⟩

/-! ## Reflexivity -/

/-- A list is equal to itself when its items are. -/
theorem equalItems_self_iff {items : List Value} :
    equalItems items items = true ↔ ∀ v ∈ items, v.equal v = true := by
  rw [equalItems_iff, List.forall₂_same]

/-- A table without repetitions finds its own entries. -/
theorem entriesIn_self_iff {entries : List (Key × Value)} (h : Entries.Distinct entries) :
    entriesIn entries entries = true ↔ ∀ v ∈ entries.map Prod.snd, v.equal v = true := by
  rw [entriesIn_eq_true_iff, List.forall_mem_map, Prod.forall]
  refine forall_congr' fun k => forall_congr' fun v => forall_congr' fun hv => ?_
  rw [Entries.find?_of_mem BEq.rfl h hv]
  simp

/-- Fields whose names are distinct contain themselves when their values are equal to themselves. -/
theorem fieldsIn_self_iff {fields : List (String × Value)} (h : Entries.Distinct fields) :
    fieldsIn fields fields = true ↔ ∀ v ∈ fields.map Prod.snd, v.equal v = true := by
  rw [fieldsIn_eq_true_iff, List.forall_mem_map, Prod.forall]
  refine forall_congr' fun name => forall_congr' fun v => forall_congr' fun hv => ?_
  rw [Entries.find?_of_mem BEq.rfl h hv]
  simp

/-- A value equals itself if it is no NaN and its parts equal themselves. -/
theorem equal_self_iff_parts (hv : v.WellFormed) :
    v.equal v = true ↔ ¬ v.IsNaN ∧ ∀ u ∈ v.parts, u.equal u = true := by
  -- a value without parts is its own only part
  have hleaf (hparts : v.parts = []) (hself : v.equal v = true ↔ ¬ v.IsNaN) :
      v.equal v = true ↔ ¬ v.IsNaN ∧ ∀ u ∈ v.parts, u.equal u = true := by
    rw [hself, hparts, and_iff_left]
    exact List.forall_mem_nil _
  cases v
  -- a number that is no NaN is equal to itself
  case float x =>
    refine hleaf rfl ?_
    rw [equal, Binary64.equal_self, IsNaN, Bool.not_eq_true', Bool.not_eq_true]
  case complex re im =>
    refine hleaf rfl ?_
    rw [equal, Binary64.equal_self, Binary64.equal_self, IsNaN, Bool.and_eq_true,
      Bool.not_eq_true', Bool.not_eq_true', not_or, Bool.not_eq_true, Bool.not_eq_true]
  case list items | tuple items | queue items =>
    rw [equal, equalItems_self_iff]
    exact (and_iff_right not_false).symm
  case map entries =>
    rw [equal, beq_self_eq_true, Bool.true_and, entriesIn_self_iff hv.1]
    exact (and_iff_right not_false).symm
  case record name fields =>
    rw [equal, beq_self_eq_true, beq_self_eq_true, Bool.true_and, Bool.true_and,
      fieldsIn_self_iff hv.1]
    exact (and_iff_right not_false).symm
  case set elements =>
    refine hleaf rfl (iff_of_true ?_ not_false)
    rw [equal]
    exact Key.sameItems_self elements
  case none =>
    refine hleaf rfl (iff_of_true ?_ not_false)
    rw [equal]
  all_goals
    refine hleaf rfl (iff_of_true ?_ not_false)
    rw [equal]
    exact BEq.rfl

/-- A value equals itself exactly if none of the values that it is compared by is a NaN. -/
theorem equal_self_iff_holds (v : Value) (hv : v.WellFormed) :
    v.equal v = true ↔ ∀ x, v.Holds x → ¬ x.IsNaN := by
  induction v using induction_on_parts with
  | step v ih =>
    rw [equal_self_iff_parts hv, forall_holds_iff]
    exact and_congr_right fun _ => forall₂_congr fun u hu => ih u hu (hv.of_mem_parts hu)

end Value

/-- Equality of values is symmetric and transitive. A value equals itself exactly if none of the
    values that it holds, among them the value itself, is a NaN: elements of sets and keys of maps
    are not held. -/
theorem value_equality_is_partial_equivalence :
    (∀ a b : Value, a.WellFormed → b.WellFormed → a.equal b = true → b.equal a = true) ∧
      (∀ a b c : Value, a.equal b = true → b.equal c = true → a.equal c = true) ∧
      ∀ a : Value, a.WellFormed → (a.equal a = true ↔ ∀ x, a.Holds x → ¬ x.IsNaN) :=
  ⟨Value.equal_symm, Value.equal_trans, Value.equal_self_iff_holds⟩

/-! ## Measurements -/

/-- The NaN that arithmetic gives. -/
def quietNaN : Binary64 := ⟨0x7FF8000000000000⟩

/-- A zero and the set of what was read, in which a NaN is an element. -/
def measurement : Value :=
  .map [(.text "offset", .float ⟨0⟩), (.text "seen", .set [.float quietNaN])]

/-- The same with the entries the other way round and the other zero. -/
def measurementReversed : Value :=
  .map [(.text "seen", .set [.float quietNaN]), (.text "offset", .float ⟨0x8000000000000000⟩)]

/-- The two measurements equal each other and themselves. With a NaN beside it in a list, a
    measurement no longer equals itself. -/
theorem value_equality_is_partial_equivalence_measurement :
    (measurement.WellFormed ∧ measurementReversed.WellFormed ∧
      (Value.list [measurement, .float quietNaN]).WellFormed) ∧
      measurement.equal measurementReversed = true ∧
      measurementReversed.equal measurement = true ∧ measurement.equal measurement = true ∧
      (Value.list [measurement, .float quietNaN]).equal (.list [measurement, .float quietNaN]) =
        false := by
  have hwell : measurement.WellFormed :=
    ⟨List.pairwise_pair.mpr (by decide), trivial, List.pairwise_singleton _ _, trivial⟩
  have hwell' : measurementReversed.WellFormed :=
    ⟨List.pairwise_pair.mpr (by decide), List.pairwise_singleton _ _, trivial, trivial⟩
  have hlist : (Value.list [measurement, .float quietNaN]).WellFormed := ⟨hwell, trivial, trivial⟩
  obtain ⟨hsymm, htrans, hself⟩ := value_equality_is_partial_equivalence
  have hequal : measurement.equal measurementReversed = true := by cbv
  have hequal' := hsymm _ _ hwell hwell' hequal
  refine ⟨⟨hwell, hwell', hlist⟩, hequal, hequal', htrans _ _ _ hequal hequal', ?_⟩
  rw [← Bool.not_eq_true, hself _ hlist]
  intro h
  -- the NaN stands in the list beside the measurement
  have hheld : (Value.list [measurement, .float quietNaN]).Holds (.float quietNaN) :=
    .inside (List.mem_cons_of_mem _ List.mem_cons_self) (.self _)
  exact h _ hheld (show quietNaN.isNaN = true by decide)

end Conform
