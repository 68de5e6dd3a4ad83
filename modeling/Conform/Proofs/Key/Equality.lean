import Mathlib.Data.List.Pairwise
import Conform.Proofs.Value.WellFormed

/-!
# Equal values and equal keys

Values are compared in one way (`Value.equal`) and keys in another (`Key.same`). The two differ on
floating-point numbers, which are keyed by their bits, and on records: a key holds the fields of a
record in their order, which does not matter to the equality of values. `Value.SameLayout` says
that the order of fields agrees as well, and then the two comparisons are the same
(`keys_equal_iff_values_equal`).
-/

namespace Conform

/-! ## Lookups under equal keys -/

namespace Entries

variable {κ α : Type} [BEq κ]

/-- A lookup does not depend on the form of the key. -/
theorem find?_congr [EquivBEq κ] {k j : κ} (h : (k == j) = true) (entries : List (κ × α)) :
    find? k entries = find? j entries := by
  induction entries with
  | nil => rfl
  | cons entry rest ih =>
    obtain ⟨i, a⟩ := entry
    rw [find?, find?, ih, BEq.congr_right h]

/-- Two equal keys of a table are one. -/
theorem Distinct.eq_of_beq [EquivBEq κ] {entries : List (κ × α)} (h : Distinct entries) {k j : κ}
    (hk : k ∈ keys entries) (hj : j ∈ keys entries) (heq : (k == j) = true) : k = j := by
  have : Std.Symm fun k j : κ => (k == j) = false := ⟨fun _ _ h => BEq.comm.trans h⟩
  by_contra hne
  have hfalse : (k == j) = false := List.Pairwise.forall h hk hj hne
  rw [heq] at hfalse
  cases hfalse

end Entries

/-- Two equal keys of an ascending list are one. -/
theorem Key.Ascending.eq_of_same {elements : List Key} (h : Key.Ascending elements) {k j : Key}
    (hk : k ∈ elements) (hj : j ∈ elements) (hsame : k.same j = true) : k = j := by
  have : Std.Symm fun a b : Key => Key.compare a b ≠ .eq :=
    ⟨fun _ _ hne heq => hne (Std.OrientedCmp.eq_symm heq)⟩
  by_contra hne
  have hdiffer : Key.compare k j ≠ .eq := List.Pairwise.forall h.allDiffer hk hj hne
  exact hdiffer ((Key.compare_eq_iff_same k j).mpr hsame)

namespace Value

mutual

/-- No floating-point and no complex number occurs in a value that can be a key. -/
def FloatFree : Value → Prop
  | float _ => False
  | complex .. => False
  | tuple items => FloatFreeItems items
  | record _ fields => FloatFreeFields fields
  | _ => True

/-- None of the items has a floating-point number in it. -/
def FloatFreeItems : List Value → Prop
  | [] => True
  | v :: rest => v.FloatFree ∧ FloatFreeItems rest

/-- None of the fields has a floating-point number in it. -/
def FloatFreeFields : List (String × Value) → Prop
  | [] => True
  | (_, v) :: rest => v.FloatFree ∧ FloatFreeFields rest

end

mutual

/-- Records in corresponding places name their fields in the same order. -/
def SameLayout : Value → Value → Prop
  | tuple a, tuple b => SameLayoutItems a b
  | record _ a, record _ b => Entries.keys a = Entries.keys b ∧ SameLayoutFields a b
  | _, _ => True

/-- The layouts of items in the same position are the same. -/
def SameLayoutItems : List Value → List Value → Prop
  | v :: as, w :: bs => v.SameLayout w ∧ SameLayoutItems as bs
  | _, _ => True

/-- The layouts of fields in the same position are the same. -/
def SameLayoutFields : List (String × Value) → List (String × Value) → Prop
  | (_, v) :: as, (_, w) :: bs => v.SameLayout w ∧ SameLayoutFields as bs
  | _, _ => True

end

/-! ## Records with the same order of fields -/

/-- Equality of fields, position by position. -/
def EqualFields (a b : List (String × Value)) : Prop :=
  List.Forall₂ (fun f g => f.2.equal g.2 = true) a b

/-- Fields that are all found under their names are compared one by one. -/
private theorem fieldsIn_iff_of_found {a b other : List (String × Value)}
    (hkeys : Entries.keys a = Entries.keys b)
    (hfound : ∀ g ∈ b, Entries.find? g.1 other = some g.2) :
    fieldsIn a other = true ↔ EqualFields a b := by
  induction a generalizing b with
  | nil =>
    obtain rfl : b = [] := List.map_eq_nil_iff.mp hkeys.symm
    rw [fieldsIn]
    exact iff_of_true rfl .nil
  | cons f as ih =>
    cases b with
    | nil => cases hkeys
    | cons g bs =>
      obtain ⟨name, v⟩ := f
      obtain ⟨name', w⟩ := g
      obtain ⟨rfl, hrest⟩ := List.cons.inj hkeys
      -- the field that is looked up is the one at the same place
      obtain ⟨hg, hbs⟩ := List.forall_mem_cons.mp hfound
      rw [fieldsIn, hg, Bool.and_eq_true, ih hrest hbs, EqualFields, EqualFields,
        List.forall₂_cons]

/-- In the same order, fields are compared one by one. -/
theorem fieldsIn_iff {a b : List (String × Value)} (hb : Entries.Distinct b)
    (hkeys : Entries.keys a = Entries.keys b) : fieldsIn a b = true ↔ EqualFields a b :=
  fieldsIn_iff_of_found hkeys fun _ hg => Entries.find?_of_mem (beq_self_eq_true _) hb hg

/-- The number of fields is no further condition. -/
theorem equal_record_iff {m n : String} {a b : List (String × Value)} (hb : Entries.Distinct b)
    (hkeys : Entries.keys a = Entries.keys b) :
    (record m a).equal (record n b) = true ↔ m = n ∧ EqualFields a b := by
  have hlength : a.length = b.length := by
    have h := congrArg List.length hkeys
    rwa [Entries.keys, Entries.keys, List.length_map, List.length_map] at h
  rw [equal, hlength, Bool.and_eq_true, Bool.and_eq_true, beq_iff_eq, beq_iff_eq,
    and_iff_left rfl, fieldsIn_iff hb hkeys]

/-! ## The two comparisons -/

/-- Equal values are of one kind. -/
theorem kind_eq_of_equal {a b : Value} (h : a.equal b = true) : a.kind = b.kind := by
  unfold equal at h
  split at h
  all_goals first
    | rfl
    | cases h

/-- A key stands for values of one kind. -/
theorem kind_toValue {v : Value} {k : Key} (h : v.toKey? = some k) : k.toValue.kind = v.kind := by
  cases v
  case tuple | record =>
    obtain ⟨parts, -, rfl⟩ := Option.map_eq_some_iff.mp h
    rfl
  all_goals cases h <;> rfl

/-- Keys that are the same have values of one kind. -/
private theorem kind_eq_of_same {k j : Key} (h : k.same j = true) :
    k.toValue.kind = j.toValue.kind := by
  unfold Key.same at h
  split at h
  all_goals first
    | rfl
    | cases h

mutual

/-- Keys are equal if the values are, and the layouts of their records are the same. -/
private theorem same_iff : ∀ (a b : Value) (k j : Key), a.FloatFree → b.WellFormed →
    a.toKey? = some k → b.toKey? = some j →
    (k.same j = true ↔ a.equal b = true ∧ a.SameLayout b) := by
  intro a b k j ha hb hk hj
  -- neither keys nor values of different kinds are equal
  by_cases hkind : a.kind = b.kind
  · match a, b with
    | none, none | bool _, bool _ | int _, int _ | decimal _, decimal _ | text _, text _
    | bytes _, bytes _ =>
      cases hk
      cases hj
      simp [Key.same, equal, SameLayout]
    | tuple a, tuple b =>
      obtain ⟨ks, hks, rfl⟩ := Option.map_eq_some_iff.mp hk
      obtain ⟨js, hjs, rfl⟩ := Option.map_eq_some_iff.mp hj
      rw [Key.same, equal, SameLayout]
      exact sameItems_iff a b ks js ha hb hks hjs
    | record m a, record n b =>
      obtain ⟨ks, hks, rfl⟩ := Option.map_eq_some_iff.mp hk
      obtain ⟨js, hjs, rfl⟩ := Option.map_eq_some_iff.mp hj
      rw [Key.same, Bool.and_eq_true, beq_iff_eq, sameFields_iff a b ks js ha hb.2 hks hjs,
        SameLayout]
      -- fields with the same names in the same order are compared one by one
      constructor
      · rintro ⟨hname, hkeys, hequal, hlayout⟩
        exact ⟨(equal_record_iff hb.1 hkeys).mpr ⟨hname, hequal⟩, hkeys, hlayout⟩
      · rintro ⟨hequal, hkeys, hlayout⟩
        obtain ⟨hname, hequal⟩ := (equal_record_iff hb.1 hkeys).mp hequal
        exact ⟨hname, hkeys, hequal, hlayout⟩
  · refine iff_of_false (fun hsame => hkind ?_) fun h => hkind (kind_eq_of_equal h.1)
    rw [← kind_toValue hk, ← kind_toValue hj, kind_eq_of_same hsame]

/-- Tuples of keys are the same when the values are equal and laid out alike. -/
private theorem sameItems_iff : ∀ (a b : List Value) (ks js : List Key), FloatFreeItems a →
    WellFormedItems b → toKeys? a = some ks → toKeys? b = some js →
    (Key.sameItems ks js = true ↔ equalItems a b = true ∧ SameLayoutItems a b)
  | [], [], _, _, _, _, hk, hj => by
    cases hk
    cases hj
    simp [Key.sameItems, equalItems, SameLayoutItems]
  -- lists of different lengths are equal in neither sense
  | [], w :: bs, _, _, _, _, hk, hj => by
    obtain ⟨j, _, hj⟩ := Option.bind_eq_some_iff.mp hj
    obtain ⟨js, _, rfl⟩ := Option.map_eq_some_iff.mp hj
    cases hk
    simp [Key.sameItems, equalItems]
  | v :: as, [], _, _, _, _, hk, hj => by
    obtain ⟨k, _, hk⟩ := Option.bind_eq_some_iff.mp hk
    obtain ⟨ks, _, rfl⟩ := Option.map_eq_some_iff.mp hk
    cases hj
    simp [Key.sameItems, equalItems]
  -- item by item, and each with the key that is made of it
  | v :: as, w :: bs, _, _, ha, hb, hk, hj => by
    obtain ⟨k, hv, hk⟩ := Option.bind_eq_some_iff.mp hk
    obtain ⟨ks, has, rfl⟩ := Option.map_eq_some_iff.mp hk
    obtain ⟨j, hw, hj⟩ := Option.bind_eq_some_iff.mp hj
    obtain ⟨js, hbs, rfl⟩ := Option.map_eq_some_iff.mp hj
    rw [Key.sameItems, equalItems, SameLayoutItems, Bool.and_eq_true, Bool.and_eq_true,
      same_iff v w k j ha.1 hb.1 hv hw, sameItems_iff as bs ks js ha.2 hb.2 has hbs,
      and_and_and_comm]

/-- Records of keys are the same when names and values are, in order. -/
private theorem sameFields_iff : ∀ (a b : List (String × Value)) (ks js : List (String × Key)),
    FloatFreeFields a → WellFormedFields b → toKeyFields? a = some ks → toKeyFields? b = some js →
    (Key.sameFields ks js = true ↔
      Entries.keys a = Entries.keys b ∧ EqualFields a b ∧ SameLayoutFields a b)
  | [], [], _, _, _, _, hk, hj => by cases hk; cases hj; exact iff_of_true rfl ⟨rfl, .nil, trivial⟩
  | [], w :: bs, _, _, _, _, hk, hj => by
    obtain ⟨j, _, hj⟩ := Option.bind_eq_some_iff.mp hj
    obtain ⟨js, _, rfl⟩ := Option.map_eq_some_iff.mp hj
    cases hk
    exact iff_of_false nofun nofun
  | v :: as, [], _, _, _, _, hk, hj => by
    obtain ⟨k, _, hk⟩ := Option.bind_eq_some_iff.mp hk
    obtain ⟨ks, _, rfl⟩ := Option.map_eq_some_iff.mp hk
    cases hj
    exact iff_of_false nofun nofun
  -- keys compare their fields in order, so that the names must agree in order too
  | (m, v) :: as, (n, w) :: bs, _, _, ha, hb, hk, hj => by
    obtain ⟨k, hv, hk⟩ := Option.bind_eq_some_iff.mp hk
    obtain ⟨ks, has, rfl⟩ := Option.map_eq_some_iff.mp hk
    obtain ⟨j, hw, hj⟩ := Option.bind_eq_some_iff.mp hj
    obtain ⟨js, hbs, rfl⟩ := Option.map_eq_some_iff.mp hj
    rw [Key.sameFields, Bool.and_eq_true, Bool.and_eq_true, beq_iff_eq,
      same_iff v w k j ha.1 hb.1 hv hw, sameFields_iff as bs ks js ha.2 hb.2 has hbs]
    simp only [Entries.keys, List.map_cons, List.cons.injEq, EqualFields, List.forall₂_cons,
      SameLayoutFields]
    tauto

end

end Value

/-- The keys of two values are equal exactly if the values are, and if their records name the fields
    in the same order. Then the two are one element of a set and one key of a map, and the one finds
    what is under the other. -/
theorem keys_equal_iff_values_equal {a b : Value} {k j : Key} (hb : b.WellFormed)
    (hfloat : a.FloatFree) (hk : a.toKey? = some k) (hj : b.toKey? = some j) :
    (k.same j = true ↔ a.equal b = true ∧ a.SameLayout b) ∧
    (a.equal b = true → a.SameLayout b →
      (∀ elements, Key.Ascending elements → k ∈ elements → j ∈ elements → k = j) ∧
      (∀ entries : List (Key × Value), Entries.Distinct entries →
        k ∈ Entries.keys entries → j ∈ Entries.keys entries → k = j) ∧
      ∀ (entries : List (Key × Value)) (x : Value), Entries.Distinct entries →
        (k, x) ∈ entries → Entries.find? j entries = some x) := by
  have hiff := Value.same_iff a b k j hfloat hb hk hj
  refine ⟨hiff, fun hequal hlayout => ?_⟩
  have hsame : (k == j) = true := hiff.mpr ⟨hequal, hlayout⟩
  refine ⟨fun elements helements hk hj => helements.eq_of_same hk hj hsame,
    fun entries hentries hk hj => hentries.eq_of_beq hk hj hsame, fun entries x hentries hx => ?_⟩
  -- equal keys find the same entry
  rw [← Entries.find?_congr hsame]
  exact Entries.find?_of_mem BEq.rfl hentries hx

/-- A point whose coordinates are named in the given order. -/
def pointOf (first second : String × Value) : Value :=
  .record "Point" [first, second]

/-- The same point three times: with `1.5` and with `1.50`, and with the coordinates the other way
    round. All are equal as values, but the key of the last is another one. -/
theorem keys_equal_iff_values_equal_points :
    let p := pointOf ("x", .decimal ⟨false, 15, 1, by decide, by decide⟩) ("y", .int 2)
    let q := pointOf ("x", .decimal ⟨false, 150, 2, by decide, by decide⟩) ("y", .int 2)
    let r := pointOf ("y", .int 2) ("x", .decimal ⟨false, 150, 2, by decide, by decide⟩)
    ∃ k j l, p.toKey? = some k ∧ q.toKey? = some j ∧ r.toKey? = some l ∧
      p.equal q = true ∧ k.same j = true ∧ p.equal r = true ∧ k.same l = false := by
  intro p q r
  have hq : q.WellFormed := by
    simp [q, pointOf, Value.WellFormed, Value.WellFormedFields, Entries.Distinct, Entries.keys]
  have hr : r.WellFormed := by
    simp [r, pointOf, Value.WellFormed, Value.WellFormedFields, Entries.Distinct, Entries.keys]
  have hfloat : p.FloatFree := ⟨trivial, trivial, trivial⟩
  have hpq : p.equal q = true := by cbv
  have hpr : p.equal r = true := by cbv
  refine ⟨_, _, _, rfl, rfl, rfl, hpq, ?_, hpr, ?_⟩
  -- one scale and another, but the same names in the same order
  · have hlayout : p.SameLayout q := by
      simp [p, q, pointOf, Value.SameLayout, Value.SameLayoutFields, Entries.keys]
    exact (keys_equal_iff_values_equal hq hfloat rfl rfl).1.mpr ⟨hpq, hlayout⟩
  -- the same fields the other way round
  · have hlayout : ¬ p.SameLayout r := by
      simp [p, r, pointOf, Value.SameLayout, Value.SameLayoutFields, Entries.keys]
    rw [← Bool.not_eq_true]
    exact fun hsame => hlayout ((keys_equal_iff_values_equal hr hfloat rfl rfl).1.mp hsame).2

end Conform
