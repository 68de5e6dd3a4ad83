import Conform.Proofs.Key.Equality

/-!
# Equality of values

Equality of values is transitive (`Value.equal_trans`). It is no equivalence, as a NaN does not
equal itself. Nothing is assumed of the values: a table may repeat its keys, and then the first
entry under a key counts.
-/

namespace Conform

/-- Equality of floats is transitive: it is that of the bits, but for the two zeros. -/
theorem Binary64.equal_trans {x y z : Binary64} (hxy : x.equal y = true) (hyz : y.equal z = true) :
    x.equal z = true := by
  simp only [equal, Bool.and_eq_true, Bool.or_eq_true, beq_iff_eq] at hxy hyz ⊢
  obtain ⟨⟨hx, -⟩, hxy⟩ := hxy
  obtain ⟨⟨-, hz⟩, hyz⟩ := hyz
  refine ⟨⟨hx, hz⟩, ?_⟩
  obtain rfl | ⟨hx0, hy0⟩ := hxy
  · exact hyz
  · obtain rfl | ⟨-, hz0⟩ := hyz
    · exact .inr ⟨hx0, hy0⟩
    · exact .inr ⟨hx0, hz0⟩

/-- Equality of decimals is that of their units. -/
theorem Decimal.equal_trans {a b c : Decimal} (hab : a.equal b = true) (hbc : b.equal c = true) :
    a.equal c = true := by
  simp only [← compare_eq_iff_equal, compare_eq_units, Std.LawfulEqCmp.compare_eq_iff_eq] at *
  exact hab.trans hbc

/-- Lists of keys that are the same as a third are the same. -/
theorem Key.sameItems_trans {a b c : List Key} (hab : sameItems a b = true)
    (hbc : sameItems b c = true) : sameItems a c = true := by
  -- as the items of tuples
  have htrans : (Key.tuple a == Key.tuple b) = true → (Key.tuple b == Key.tuple c) = true →
      (Key.tuple a == Key.tuple c) = true := BEq.trans
  simp only [BEq.beq, Key.same] at htrans
  exact htrans hab hbc

namespace Value

/-- Every entry of a table that lies in another is found there, with an equal value. -/
theorem exists_find?_of_entriesIn {a b : List (Key × Value)} (h : entriesIn a b = true) {k : Key}
    {v : Value} (hv : (k, v) ∈ a) : ∃ w, Entries.find? k b = some w ∧ v.equal w = true := by
  induction a with
  | nil => cases hv
  | cons entry rest ih =>
    rw [entriesIn, Bool.and_eq_true] at h
    cases hv with
    | head =>
      have hfirst := h.1
      -- an entry that is not found would make the tables unequal
      split at hfirst
      next w hw => exact ⟨w, hw, hfirst⟩
      next => cases hfirst
    | tail _ hv => exact ih h.2 hv

/-- A field that is contained is found under its name, with an equal value. -/
theorem exists_find?_of_fieldsIn {a b : List (String × Value)} (h : fieldsIn a b = true)
    {name : String} {v : Value} (hv : (name, v) ∈ a) :
    ∃ w, Entries.find? name b = some w ∧ v.equal w = true := by
  induction a with
  | nil => cases hv
  | cons field rest ih =>
    rw [fieldsIn, Bool.and_eq_true] at h
    cases hv with
    | head =>
      have hfirst := h.1
      split at hfirst
      next w hw => exact ⟨w, hw, hfirst⟩
      next => cases hfirst
    | tail _ hv => exact ih h.2 hv

mutual

/-- Values that equal one value from either side are equal. -/
theorem equal_trans : ∀ a b c : Value, a.equal b = true → b.equal c = true → a.equal c = true := by
  intro a b c hab hbc
  have hkind := kind_eq_of_equal hab
  have hkind' := kind_eq_of_equal hbc
  -- equal values are of one kind, so that only the matching cases are left
  match a, b with
  | none, none => exact hbc
  | bool _, bool _ | int _, int _ | text _, text _ | bytes _, bytes _ =>
    rw [equal, beq_iff_eq] at hab
    rw [hab]
    exact hbc
  | float _, float _ =>
    -- the third value is of that kind too
    match c with
    | float _ =>
      rw [equal] at *
      exact Binary64.equal_trans hab hbc
  | complex .., complex .. =>
    match c with
    | complex .. =>
      rw [equal, Bool.and_eq_true] at *
      exact ⟨Binary64.equal_trans hab.1 hbc.1, Binary64.equal_trans hab.2 hbc.2⟩
  | decimal _, decimal _ =>
    match c with
    | decimal _ =>
      rw [equal] at *
      exact Decimal.equal_trans hab hbc
  | list a, list b =>
    match c with
    | list c =>
      rw [equal] at *
      exact equalItems_trans a b c hab hbc
  | tuple a, tuple b =>
    match c with
    | tuple c =>
      rw [equal] at *
      exact equalItems_trans a b c hab hbc
  | queue a, queue b =>
    match c with
    | queue c =>
      rw [equal] at *
      exact equalItems_trans a b c hab hbc
  | set a, set b =>
    match c with
    | set c =>
      rw [equal] at *
      exact Key.sameItems_trans hab hbc
  | map a, map b =>
    match c with
    | map c =>
      rw [equal, Bool.and_eq_true, beq_iff_eq] at *
      exact ⟨hab.1.trans hbc.1, entriesIn_trans a b c hab.2 hbc.2⟩
  | record _ a, record _ b =>
    match c with
    | record _ c =>
      rw [equal, Bool.and_eq_true, Bool.and_eq_true, beq_iff_eq, beq_iff_eq] at *
      exact ⟨⟨hab.1.1.trans hbc.1.1, hab.1.2.trans hbc.1.2⟩, fieldsIn_trans a b c hab.2 hbc.2⟩
  | callable _, callable _ =>
    match c with
    | callable _ =>
      rw [equal, beq_iff_eq] at *
      exact hab.trans hbc
  | nspace .., nspace .. =>
    match c with
    | nspace .. =>
      rw [equal, beq_iff_eq] at *
      exact hab.trans hbc
  | object _, object _ =>
    match c with
    | object _ =>
      rw [equal, beq_iff_eq] at *
      exact hab.trans hbc

/-- Lists are compared item by item. -/
private theorem equalItems_trans : ∀ a b c : List Value, equalItems a b = true →
    equalItems b c = true → equalItems a c = true
  | [], [], _, _, hbc => hbc
  | v :: as, w :: bs, u :: cs, hab, hbc => by
    rw [equalItems, Bool.and_eq_true] at *
    exact ⟨equal_trans v w u hab.1 hbc.1, equalItems_trans as bs cs hab.2 hbc.2⟩
  | [], _ :: _, _, hab, _ | _ :: _, [], _, hab, _ => by simp [equalItems] at hab
  | _ :: _, _ :: _, [], _, hbc => by simp [equalItems] at hbc

/-- Entries are contained in what contains the entries that contain them. -/
private theorem entriesIn_trans : ∀ a b c : List (Key × Value), entriesIn a b = true →
    entriesIn b c = true → entriesIn a c = true
  | [], _, _, _, _ => by rw [entriesIn]
  | (k, v) :: rest, b, c, hab, hbc => by
    rw [entriesIn, Bool.and_eq_true] at hab ⊢
    refine ⟨?_, entriesIn_trans rest b c hab.2 hbc⟩
    have hfirst := hab.1
    split at hfirst
    next w hw =>
      -- the entry that is found in the middle is found in the third table as well
      obtain ⟨j, hj, hjk⟩ := Entries.mem_of_find? hw
      obtain ⟨u, hu, hequal⟩ := exists_find?_of_entriesIn hbc hj
      rw [← Entries.find?_congr hjk, hu]
      exact equal_trans v w u hfirst hequal
    next => cases hfirst

/-- Fields are contained in what contains the fields that contain them. -/
private theorem fieldsIn_trans : ∀ a b c : List (String × Value), fieldsIn a b = true →
    fieldsIn b c = true → fieldsIn a c = true
  | [], _, _, _, _ => by rw [fieldsIn]
  | (name, v) :: rest, b, c, hab, hbc => by
    rw [fieldsIn, Bool.and_eq_true] at hab ⊢
    refine ⟨?_, fieldsIn_trans rest b c hab.2 hbc⟩
    have hfirst := hab.1
    split at hfirst
    next w hw =>
      -- the field of the second record that is found is looked for in the third
      obtain ⟨other, hother, heq⟩ := Entries.mem_of_find? hw
      obtain ⟨u, hu, hequal⟩ := exists_find?_of_fieldsIn hbc hother
      rw [← Entries.find?_congr heq, hu]
      exact equal_trans v w u hfirst hequal
    next => cases hfirst

end

end Value

end Conform
