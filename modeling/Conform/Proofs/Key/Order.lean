import Mathlib.Tactic.Ring
import Conform.Key

/-!
# The order of keys

`Key.compare` is a total order up to keys that it finds equal. Both halves of its transitivity come
from one statement about three keys, `Key.chained`, which carries over to the lists inside of tuples
and records. It finds the same keys equal as `Key.same`, by which maps look up
(`Key.compare_eq_iff_same`). The order is what a set relies on: `Key.ascending_ascending`, and
`Key.ascending_eq_of_perm`.
-/

namespace Conform

/-- How the comparisons of `a` with `b`, of `b` with `c` and of `a` with `c` hang together. -/
def Chained (ab bc ac : Ordering) : Prop :=
  (ab = .eq → ac = bc) ∧ (bc = .eq → ac = ab) ∧ (ab = bc → ac = ab)

/-- Comparisons in an order are chained. -/
private theorem chained_of_transOrd {α : Type} [Ord α] [Std.TransOrd α] (a b c : α) :
    Chained (Ord.compare a b) (Ord.compare b c) (Ord.compare a c) := by
  refine ⟨fun h => Std.TransCmp.congr_left h, fun h => ?_, fun h => ?_⟩
  · rw [Std.TransCmp.congr_right h]
  · cases hab : Ord.compare a b with
    | lt => exact Std.TransCmp.lt_trans hab (h ▸ hab)
    | eq => exact Std.TransCmp.eq_trans hab (h ▸ hab)
    | gt => exact Std.TransCmp.gt_trans hab (h ▸ hab)

/-- Lexicographic comparisons are chained; the second parts matter only where the first are
    equal. -/
private theorem chained_then {ab bc ac ab' bc' ac' : Ordering} (h : Chained ab bc ac)
    (h' : ab = .eq → bc = .eq → Chained ab' bc' ac') :
    Chained (ab.then ab') (bc.then bc') (ac.then ac') := by
  obtain ⟨hab, hbc, heq⟩ := h
  -- the first parts decide unless both of them are equal
  cases ab with
  | eq =>
    obtain rfl := hab rfl
    cases ac with
    | eq => exact h' rfl rfl
    | lt => exact ⟨fun _ => rfl, nofun, Eq.symm⟩
    | gt => exact ⟨fun _ => rfl, nofun, Eq.symm⟩
  | lt =>
    cases bc with
    | eq => obtain rfl := hbc rfl; exact ⟨nofun, fun _ => rfl, fun _ => rfl⟩
    | lt => obtain rfl := heq rfl; exact ⟨nofun, nofun, fun _ => rfl⟩
    | gt => exact ⟨nofun, nofun, nofun⟩
  | gt =>
    cases bc with
    | eq => obtain rfl := hbc rfl; exact ⟨nofun, fun _ => rfl, fun _ => rfl⟩
    | lt => exact ⟨nofun, nofun, nofun⟩
    | gt => obtain rfl := heq rfl; exact ⟨nofun, nofun, fun _ => rfl⟩

/-- A lexicographic comparison the other way round gives the opposite. -/
private theorem then_eq_swap {o o' p p' : Ordering} (h : o = o'.swap) (h' : p = p'.swap) :
    o.then p = (o'.then p').swap := by
  rw [h, h', Ordering.swap_then]

/-! ## Decimal numbers -/

namespace Decimal

/-- The number in units of the last of 28 decimal places. -/
def units (d : Decimal) : Int :=
  d.signedMantissa * 10 ^ (28 - d.scale)

/-- A positive factor changes no comparison. -/
private theorem compare_mul_right (x y k : Int) (hk : 0 < k) :
    Ord.compare (x * k) (y * k) = Ord.compare x y := by
  simp only [Ord.compare, compareOfLessAndEq, Int.mul_lt_mul_right hk,
    Int.mul_eq_mul_right_iff (Int.ne_of_gt hk)]

/-- Decimals are compared with their scales made equal. -/
private theorem compare_eq_scaled (a b : Decimal) :
    a.compare b =
      Ord.compare (a.signedMantissa * 10 ^ b.scale) (b.signedMantissa * 10 ^ a.scale) :=
  rfl

/-- Scaled to 28 places, a mantissa is a number of units. -/
private theorem signedMantissa_mul (d : Decimal) (n : Nat) :
    d.signedMantissa * 10 ^ n * 10 ^ 28 = d.units * 10 ^ (d.scale + n) := by
  -- 28 places are those behind the point and those that are left
  have hpow : (10 : Int) ^ 28 = 10 ^ (28 - d.scale) * 10 ^ d.scale := by
    rw [← pow_add, Nat.sub_add_cancel d.scale_le]
  rw [hpow, units]
  ring

/-- The order of decimal numbers is that of the integers, in the smallest units. -/
theorem compare_eq_units (a b : Decimal) : a.compare b = Ord.compare a.units b.units := by
  rw [compare_eq_scaled, ← compare_mul_right _ _ (10 ^ 28) (by decide), signedMantissa_mul,
    signedMantissa_mul, Nat.add_comm b.scale, compare_mul_right]
  exact Int.pow_pos (by decide)

/-- Decimals are equal when neither is the smaller. -/
theorem compare_eq_iff_equal (a b : Decimal) : a.compare b = .eq ↔ a.equal b = true := by
  rw [compare, equal, Std.LawfulEqCmp.compare_eq_iff_eq, beq_iff_eq]

/-- The other way round the comparison is reversed. -/
private theorem compare_swap (a b : Decimal) : a.compare b = (b.compare a).swap := by
  rw [compare_eq_units, compare_eq_units]
  exact Std.OrientedOrd.eq_swap

/-- Comparisons of decimals can be chained. -/
private theorem chained (a b c : Decimal) :
    Chained (a.compare b) (b.compare c) (a.compare c) := by
  simp only [compare_eq_units]
  exact chained_of_transOrd _ _ _

end Decimal

namespace Key

/-! ## Comparison of two keys and of three -/

/-- The kind of a key comes first in every comparison. -/
private theorem compare_eq_then (a b : Key) :
    compare a b = (Ord.compare a.rank b.rank).then (compare a b) := by
  unfold compare
  split
  all_goals first
    | rfl
    | cases Ord.compare a.rank b.rank <;> rfl

mutual

/-- The comparisons among three keys are chained. -/
private theorem chained : ∀ a b c : Key, Chained (compare a b) (compare b c) (compare a c) := by
  intro a b c
  rw [compare_eq_then a b, compare_eq_then b c, compare_eq_then a c]
  have hrank : Chained (Ord.compare a.rank b.rank) (Ord.compare b.rank c.rank)
      (Ord.compare a.rank c.rank) := chained_of_transOrd _ _ _
  refine chained_then hrank fun hab hbc => ?_
  -- from here the three keys are of one kind, and the match has no other cases
  rw [Nat.compare_eq_eq] at hab hbc
  match a, b, c with
  | none, none, none => exact ⟨fun _ => rfl, fun _ => rfl, fun _ => rfl⟩
  | bool a, bool b, bool c => exact chained_of_transOrd a b c
  | int a, int b, int c => exact chained_of_transOrd a b c
  | float a, float b, float c => exact chained_of_transOrd a.bits b.bits c.bits
  | complex a a', complex b b', complex c c' =>
    exact chained_then (chained_of_transOrd a.bits b.bits c.bits) fun _ _ =>
      chained_of_transOrd a'.bits b'.bits c'.bits
  | decimal a, decimal b, decimal c => exact Decimal.chained a b c
  | text a, text b, text c => exact chained_of_transOrd a b c
  | bytes a, bytes b, bytes c => exact chained_of_transOrd a b c
  | tuple a, tuple b, tuple c => exact chainedItems a b c
  | record l a, record m b, record n c =>
    exact chained_then (chained_of_transOrd l m n) fun _ _ => chainedFields a b c

/-- The comparisons among the items of three tuples are chained. -/
private theorem chainedItems : ∀ a b c : List Key,
    Chained (compareItems a b) (compareItems b c) (compareItems a c)
  | a :: as, b :: bs, c :: cs => chained_then (chained a b c) fun _ _ => chainedItems as bs cs
  | [], [], _ => ⟨fun _ => rfl, fun h => h, fun h => h.symm⟩
  | [], _ :: _, [] => ⟨nofun, nofun, nofun⟩
  | [], _ :: _, _ :: _ => ⟨nofun, fun _ => rfl, fun _ => rfl⟩
  | _ :: _, [], [] => ⟨nofun, fun _ => rfl, fun _ => rfl⟩
  | _ :: _, [], _ :: _ => ⟨nofun, nofun, nofun⟩
  | _ :: _, _ :: _, [] => ⟨fun _ => rfl, nofun, fun h => h.symm⟩

/-- The comparisons among the fields of three records are chained. -/
private theorem chainedFields : ∀ a b c : List (String × Key),
    Chained (compareFields a b) (compareFields b c) (compareFields a c)
  | (l, a) :: as, (m, b) :: bs, (n, c) :: cs =>
    chained_then (chained_then (chained_of_transOrd l m n) fun _ _ => chained a b c) fun _ _ =>
      chainedFields as bs cs
  | [], [], _ => ⟨fun _ => rfl, fun h => h, fun h => h.symm⟩
  | [], _ :: _, [] => ⟨nofun, nofun, nofun⟩
  | [], _ :: _, _ :: _ => ⟨nofun, fun _ => rfl, fun _ => rfl⟩
  | _ :: _, [], [] => ⟨nofun, fun _ => rfl, fun _ => rfl⟩
  | _ :: _, [], _ :: _ => ⟨nofun, nofun, nofun⟩
  | _ :: _, _ :: _, [] => ⟨fun _ => rfl, nofun, fun h => h.symm⟩

end

mutual

/-- Comparing the other way round gives the opposite. -/
private theorem compare_swap : ∀ a b : Key, compare a b = (compare b a).swap := by
  intro a b
  rw [compare_eq_then a b, compare_eq_then b a, Ordering.swap_then, ← Std.OrientedOrd.eq_swap]
  cases hab : Ord.compare a.rank b.rank with
  | lt => rfl
  | gt => rfl
  | eq =>
    show compare a b = (compare b a).swap
    -- two keys of one kind
    rw [Nat.compare_eq_eq] at hab
    match a, b with
    | none, none => rfl
    | bool a, bool b => exact Std.OrientedOrd.eq_swap (a := a)
    | int a, int b => exact Std.OrientedOrd.eq_swap (a := a)
    | float a, float b => exact Std.OrientedOrd.eq_swap (a := a.bits)
    | complex a a', complex b b' =>
      exact then_eq_swap Std.OrientedOrd.eq_swap Std.OrientedOrd.eq_swap
    | decimal a, decimal b => exact Decimal.compare_swap a b
    | text a, text b => exact Std.OrientedOrd.eq_swap (a := a)
    | bytes a, bytes b => exact Std.OrientedOrd.eq_swap (a := a)
    | tuple a, tuple b => exact compareItems_swap a b
    | record m a, record n b =>
      exact then_eq_swap Std.OrientedOrd.eq_swap (compareFields_swap a b)

/-- Comparing items the other way round gives the opposite. -/
private theorem compareItems_swap : ∀ a b : List Key,
    compareItems a b = (compareItems b a).swap
  | [], [] => rfl
  | [], _ :: _ => rfl
  | _ :: _, [] => rfl
  | a :: as, b :: bs => then_eq_swap (compare_swap a b) (compareItems_swap as bs)

/-- Comparing fields the other way round gives the opposite. -/
private theorem compareFields_swap : ∀ a b : List (String × Key),
    compareFields a b = (compareFields b a).swap
  | [], [] => rfl
  | [], _ :: _ => rfl
  | _ :: _, [] => rfl
  | (_, a) :: as, (_, b) :: bs =>
    then_eq_swap (then_eq_swap Std.OrientedOrd.eq_swap (compare_swap a b))
      (compareFields_swap as bs)

end

instance : Std.OrientedCmp compare where
  eq_swap := compare_swap _ _

instance : Std.TransCmp compare where
  isLE_trans {a b c} hab hbc := by
    obtain ⟨h₁, h₂, h₃⟩ := chained a b c
    cases hb : compare a b <;> cases hc : compare b c <;> simp_all

/-! ## Equal keys -/

/-- Keys of different ranks differ. -/
private theorem same_eq_false {a b : Key} (h : a.rank ≠ b.rank) : same a b = false := by
  unfold same
  split
  all_goals first
    | rfl
    | exact absurd rfl h

mutual

/-- The order takes exactly those keys for equal that are equal. -/
theorem compare_eq_iff_same : ∀ a b : Key, compare a b = .eq ↔ same a b = true := by
  intro a b
  rw [compare_eq_then, Ordering.then_eq_eq, Nat.compare_eq_eq]
  by_cases hrank : a.rank = b.rank
  · rw [and_iff_right hrank]
    -- two keys of one kind
    match a, b with
    | none, none => exact iff_of_true rfl rfl
    | bool a, bool b => rw [compare, same, Std.LawfulEqCmp.compare_eq_iff_eq, beq_iff_eq]
    | int a, int b => rw [compare, same, Std.LawfulEqCmp.compare_eq_iff_eq, beq_iff_eq]
    | float ⟨a⟩, float ⟨b⟩ =>
      rw [compare, same, Std.LawfulEqCmp.compare_eq_iff_eq, beq_iff_eq, Binary64.mk.injEq]
    | complex ⟨a⟩ ⟨a'⟩, complex ⟨b⟩ ⟨b'⟩ =>
      rw [compare, same, Ordering.then_eq_eq, Std.LawfulEqCmp.compare_eq_iff_eq,
        Std.LawfulEqCmp.compare_eq_iff_eq, Bool.and_eq_true, beq_iff_eq, beq_iff_eq,
        Binary64.mk.injEq, Binary64.mk.injEq]
    | decimal a, decimal b => exact Decimal.compare_eq_iff_equal a b
    | text a, text b => rw [compare, same, Std.LawfulEqCmp.compare_eq_iff_eq, beq_iff_eq]
    | bytes a, bytes b => rw [compare, same, Std.LawfulEqCmp.compare_eq_iff_eq, beq_iff_eq]
    | tuple a, tuple b => exact compareItems_eq_iff_sameItems a b
    | record m a, record n b =>
      rw [compare, same, Ordering.then_eq_eq, Std.LawfulEqCmp.compare_eq_iff_eq, Bool.and_eq_true,
        beq_iff_eq, compareFields_eq_iff_sameFields a b]
  -- keys of two kinds are never equal, and the ranks of their kinds tell them apart
  · rw [same_eq_false hrank]
    exact iff_of_false (fun h => hrank h.1) Bool.false_ne_true

/-- Neither tuple is the smaller when item by item they are the same. -/
private theorem compareItems_eq_iff_sameItems : ∀ a b : List Key,
    compareItems a b = .eq ↔ sameItems a b = true
  | [], [] => iff_of_true rfl rfl
  | [], _ :: _ | _ :: _, [] => iff_of_false nofun nofun
  | a :: as, b :: bs => by
    rw [compareItems, sameItems, Ordering.then_eq_eq, Bool.and_eq_true, compare_eq_iff_same a b,
      compareItems_eq_iff_sameItems as bs]

/-- Neither record is the smaller when names and keys are the same field by field. -/
private theorem compareFields_eq_iff_sameFields : ∀ a b : List (String × Key),
    compareFields a b = .eq ↔ sameFields a b = true
  | [], [] => iff_of_true rfl rfl
  | [], _ :: _ | _ :: _, [] => iff_of_false nofun nofun
  | (m, a) :: as, (n, b) :: bs => by
    rw [compareFields, sameFields, Ordering.then_eq_eq, Ordering.then_eq_eq, Bool.and_eq_true,
      Bool.and_eq_true, Std.LawfulEqCmp.compare_eq_iff_eq, beq_iff_eq, compare_eq_iff_same a b,
      compareFields_eq_iff_sameFields as bs]

end

/-- Equality of keys is the equality of their order. -/
theorem beq_iff_compare_eq {a b : Key} : (a == b) = true ↔ compare a b = .eq :=
  (compare_eq_iff_same a b).symm

instance : EquivBEq Key where
  rfl := beq_iff_compare_eq.mpr Std.ReflCmp.compare_self
  symm h := beq_iff_compare_eq.mpr (Std.OrientedCmp.eq_symm (beq_iff_compare_eq.mp h))
  trans h h' := beq_iff_compare_eq.mpr
    (Std.TransCmp.eq_trans (beq_iff_compare_eq.mp h) (beq_iff_compare_eq.mp h'))

/-- A text is equal to itself only. -/
theorem beq_text_iff {k : Key} {name : String} :
    (k == Key.text name) = true ↔ k = Key.text name := by
  constructor
  · intro h
    cases k with
    | text other => exact congrArg Key.text (eq_of_beq h)
    | _ => cases h
  · rintro rfl
    exact beq_self_eq_true name

/-! ## Ascending lists -/

/-- The keys ascend strictly, so that no two of them are equal. -/
def Ascending (keys : List Key) : Prop :=
  keys.Pairwise fun a b => compare a b = .lt

/-- Inserting adds one key at most. -/
theorem mem_insertNew {k x : Key} {keys : List Key} (h : x ∈ insertNew k keys) :
    x = k ∨ x ∈ keys := by
  induction keys with
  | nil => exact .inl (List.mem_singleton.mp h)
  | cons j rest ih =>
    simp only [insertNew] at h
    split at h
    · exact List.mem_cons.mp h
    -- an equal key was there, so that the list is unchanged
    · exact .inr h
    · rcases List.mem_cons.mp h with rfl | h
      · exact .inr List.mem_cons_self
      · exact (ih h).imp_right (List.mem_cons_of_mem j)

/-- Inserting keeps the order. -/
theorem Ascending.insertNew {k : Key} {keys : List Key} (h : Ascending keys) :
    Ascending (insertNew k keys) := by
  induction keys with
  | nil => exact List.pairwise_singleton _ _
  | cons j rest ih =>
    have ⟨hj, hrest⟩ := List.pairwise_cons.mp h
    simp only [Key.insertNew]
    split
    next hlt =>
      -- the new key is below the first of the list and so below all of them
      refine List.pairwise_cons.mpr ⟨fun x hx => ?_, h⟩
      rcases List.mem_cons.mp hx with rfl | hx
      · exact hlt
      · exact Std.TransCmp.lt_trans hlt (hj x hx)
    next => exact h
    next hgt =>
      refine List.pairwise_cons.mpr ⟨fun x hx => ?_, ih hrest⟩
      rcases mem_insertNew hx with rfl | hx
      · exact Std.OrientedCmp.lt_of_gt hgt
      · exact hj x hx

/-- Every key of the ascending list is one of the keys it is made from. -/
theorem mem_of_mem_ascending {x : Key} {keys : List Key} (h : x ∈ ascending keys) : x ∈ keys := by
  -- starting from any list, since the insertions build up on one another
  suffices ∀ (keys acc : List Key),
      x ∈ keys.foldl (fun acc k => insertNew k acc) acc → x ∈ acc ∨ x ∈ keys from
    (this keys [] h).resolve_left List.not_mem_nil
  intro keys
  induction keys with
  | nil => exact fun acc hx => .inl hx
  | cons k rest ih =>
    intro acc hx
    rcases ih _ hx with hx | hx
    · rcases mem_insertNew hx with rfl | hx
      · exact .inr List.mem_cons_self
      · exact .inl hx
    · exact .inr (List.mem_cons_of_mem k hx)

/-- The ascending list of some keys ascends strictly. -/
theorem ascending_ascending (keys : List Key) : Ascending (ascending keys) := by
  suffices ∀ acc, Ascending acc → Ascending (keys.foldl (fun acc k => Key.insertNew k acc) acc) from
    this [] List.Pairwise.nil
  intro acc hacc
  induction keys generalizing acc with
  | nil => exact hacc
  | cons k rest ih => exact ih _ hacc.insertNew

/-- No two of the keys are equal. -/
def AllDiffer (keys : List Key) : Prop :=
  keys.Pairwise fun a b => compare a b ≠ .eq

/-- To differ does not depend on the order. -/
theorem AllDiffer.perm {keys others : List Key} (h : AllDiffer keys) (hperm : keys.Perm others) :
    AllDiffer others :=
  (hperm.pairwise_iff fun hne heq => hne (Std.OrientedCmp.eq_symm heq)).mp h

/-- Ascending keys differ. -/
theorem Ascending.allDiffer {keys : List Key} (h : Ascending keys) : AllDiffer keys :=
  h.imp fun hlt heq => by rw [hlt] at heq; cases heq

/-- A key that equals none of a list is added to it. -/
theorem perm_insertNew {k : Key} {keys : List Key} (h : ∀ j ∈ keys, compare k j ≠ .eq) :
    (insertNew k keys).Perm (k :: keys) := by
  induction keys with
  | nil => exact .rfl
  | cons j rest ih =>
    have ⟨hj, hrest⟩ := List.forall_mem_cons.mp h
    simp only [insertNew]
    split
    next => exact .rfl
    next heq => exact absurd heq hj
    next => exact ((ih hrest).cons j).trans (.swap k j rest)

/-- Keys that all differ are all in their ascending list. -/
theorem perm_ascending {keys : List Key} (h : AllDiffer keys) : (ascending keys).Perm keys := by
  -- with the keys that have been put in before, from which the others differ too
  suffices ∀ acc, AllDiffer (acc ++ keys) →
      (keys.foldl (fun acc k => insertNew k acc) acc).Perm (acc ++ keys) from this [] h
  clear h
  induction keys with
  | nil => exact fun acc _ => by rw [List.append_nil]; exact .rfl
  | cons k rest ih =>
    intro acc hacc
    have hmiddle : (acc ++ k :: rest).Perm (k :: acc ++ rest) := List.perm_middle
    have hk := (List.pairwise_cons.mp (hacc.perm hmiddle)).1
    have hinsert : (insertNew k acc ++ rest).Perm (acc ++ k :: rest) :=
      ((perm_insertNew fun j hj => hk j (List.mem_append_left rest hj)).append_right rest).trans
        hmiddle.symm
    exact (ih _ (hacc.perm hinsert.symm)).trans hinsert

/-- In whatever order the keys of an ascending list are given, they ascend to that list. -/
theorem ascending_eq_of_perm {keys others : List Key} (h : Ascending keys)
    (hperm : others.Perm keys) : ascending others = keys := by
  have hothers := h.allDiffer.perm hperm.symm
  refine List.Perm.eq_of_pairwise (fun a b _ _ hab hba => ?_) (ascending_ascending others) h
    ((perm_ascending hothers).trans hperm)
  exact absurd (hba.symm.trans (Std.OrientedCmp.gt_of_lt hab)) (by decide)

end Key

end Conform
