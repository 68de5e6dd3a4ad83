import Conform.Proofs.Entries.Overwriting
import Conform.Proofs.Key.Order

/-!
# Keys in ascending order

`Key.ascending` keeps of equal keys the first (`Key.perm_ascending_eraseDups`), so that each key has
an equal one in it (`Key.exists_beq_mem_ascending`). Two ascending lists with equal keys are equal
key by key (`Key.sameItems_of_ascending`).
-/

namespace Conform.Key

/-- The last key is inserted last. -/
theorem ascending_concat (keys : List Key) (k : Key) :
    ascending (keys ++ [k]) = insertNew k (ascending keys) := by
  rw [ascending, List.foldl_append]
  rfl

/-- Inserting removes no key. -/
theorem mem_insertNew_of_mem {j k : Key} {keys : List Key} (h : j ∈ keys) :
    j ∈ insertNew k keys := by
  induction keys with
  | nil => cases h
  | cons i rest ih =>
    simp only [insertNew]
    split
    · exact List.mem_cons_of_mem k h
    · exact h
    · exact List.mem_cons.mpr ((List.mem_cons.mp h).imp_right ih)

/-- A key that is put into a list has an equal one there. -/
theorem exists_beq_mem_insertNew (k : Key) (keys : List Key) :
    ∃ j ∈ insertNew k keys, (k == j) = true := by
  induction keys with
  | nil => exact ⟨k, List.mem_cons_self, BEq.rfl⟩
  | cons i rest ih =>
    simp only [insertNew]
    split
    next => exact ⟨k, List.mem_cons_self, BEq.rfl⟩
    -- an equal key is there already, and the new one is dropped
    next heq => exact ⟨i, List.mem_cons_self, beq_iff_compare_eq.mpr heq⟩
    next =>
      obtain ⟨j, hj, heq⟩ := ih
      exact ⟨j, List.mem_cons_of_mem i hj, heq⟩

/-- A key that equals one of an ascending list is not added to it. -/
theorem insertNew_of_mem {j k : Key} {keys : List Key} (h : Ascending keys) (hj : j ∈ keys)
    (heq : compare k j = .eq) : insertNew k keys = keys := by
  induction keys with
  | nil => cases hj
  | cons i rest ih =>
    have ⟨hi, hrest⟩ := List.pairwise_cons.mp h
    -- the key is equal to one of the list, which is not below the first
    have hnotlt : compare k i ≠ .lt := by
      intro hlt
      rcases List.mem_cons.mp hj with rfl | hj
      · rw [heq] at hlt; cases hlt
      · rw [Std.TransCmp.lt_trans hlt (hi j hj)] at heq; cases heq
    simp only [insertNew]
    split
    next hlt => exact absurd hlt hnotlt
    next => rfl
    next hgt =>
      rcases List.mem_cons.mp hj with rfl | hj
      · rw [heq] at hgt; cases hgt
      · rw [ih hrest hj]

/-- The ascending list holds of equal keys the first. -/
theorem perm_ascending_eraseDups (keys : List Key) : (ascending keys).Perm keys.eraseDups := by
  -- from the last key, which is added unless an equal one has come before
  induction keys using List.reverseRecOn with
  | nil => exact .rfl
  | append_singleton keys k ih =>
    rw [ascending_concat, Entries.eraseDups_concat_of_beq]
    split
    next hany =>
      obtain ⟨j, hj, heq⟩ := List.any_eq_true.mp hany
      rw [insertNew_of_mem (ascending_ascending keys) (ih.mem_iff.mpr hj)
        (beq_iff_compare_eq.mp heq)]
      exact ih
    next hany =>
      have hdiffer : ∀ j ∈ ascending keys, compare k j ≠ .eq := fun j hj heq =>
        hany (List.any_eq_true.mpr ⟨j, ih.mem_iff.mp hj, beq_iff_compare_eq.mpr heq⟩)
      exact (perm_insertNew hdiffer).trans ((ih.cons k).trans (List.perm_append_singleton ..).symm)

/-- Each key has an equal one in the ascending list. -/
theorem exists_beq_mem_ascending {k : Key} {keys : List Key} (h : k ∈ keys) :
    ∃ j ∈ ascending keys, (k == j) = true := by
  induction keys using List.reverseRecOn with
  | nil => cases h
  | append_singleton keys last ih =>
    rw [ascending_concat]
    by_cases hk : k ∈ keys
    · obtain ⟨j, hj, heq⟩ := ih hk
      exact ⟨j, mem_insertNew_of_mem hj, heq⟩
    · obtain rfl : k = last := by simpa [hk] using h
      exact exists_beq_mem_insertNew k (ascending keys)

/-- Behind equal first keys, an ascending list has its keys behind the first of the other list. -/
private theorem exists_beq_of_behind {j k : Key} {rest rest' : List Key}
    (h : ∀ x ∈ rest, compare k x = .lt) (heq : compare k j = .eq)
    (hsub : ∀ x ∈ k :: rest, ∃ y ∈ j :: rest', (x == y) = true) {x : Key} (hx : x ∈ rest) :
    ∃ y ∈ rest', (x == y) = true := by
  obtain ⟨y, hy, hxy⟩ := hsub x (List.mem_cons_of_mem k hx)
  rcases List.mem_cons.mp hy with rfl | hy
  · have hkx := Std.TransCmp.eq_trans heq (Std.OrientedCmp.eq_symm (beq_iff_compare_eq.mp hxy))
    rw [h x hx] at hkx
    cases hkx
  · exact ⟨y, hy, hxy⟩

/-- A key that equals one of an ascending list is not below its first. -/
private theorem compare_ne_lt_of_beq {j k i : Key} {rest : List Key}
    (h : ∀ x ∈ rest, compare j x = .lt) (hi : i ∈ j :: rest) (heq : (k == i) = true) :
    compare k j ≠ .lt := by
  intro hlt
  have heq : compare k i = .eq := beq_iff_compare_eq.mp heq
  rcases List.mem_cons.mp hi with rfl | hi
  · rw [heq] at hlt; cases hlt
  · rw [Std.TransCmp.lt_trans hlt (h i hi)] at heq; cases heq

/-- Ascending lists with equal keys are equal key by key. -/
theorem sameItems_of_ascending {keys others : List Key} (h : Ascending keys)
    (h' : Ascending others) (hsub : ∀ k ∈ keys, ∃ j ∈ others, (k == j) = true)
    (hsub' : ∀ j ∈ others, ∃ k ∈ keys, (j == k) = true) : sameItems keys others = true := by
  induction keys generalizing others with
  | nil =>
    cases others with
    | nil => rfl
    | cons j rest' => obtain ⟨k, hk, -⟩ := hsub' j List.mem_cons_self; cases hk
  | cons k rest ih =>
    cases others with
    | nil => obtain ⟨j, hj, -⟩ := hsub k List.mem_cons_self; cases hj
    | cons j rest' =>
      have ⟨hk, hrest⟩ := List.pairwise_cons.mp h
      have ⟨hj, hrest'⟩ := List.pairwise_cons.mp h'
      -- neither of the first keys is below the other
      obtain ⟨i, hi, hki⟩ := hsub k List.mem_cons_self
      obtain ⟨i', hi', hji'⟩ := hsub' j List.mem_cons_self
      have hnotlt : compare k j ≠ .lt := compare_ne_lt_of_beq hj hi hki
      have hnotgt : compare k j ≠ .gt := fun hgt =>
        compare_ne_lt_of_beq hk hi' hji' (Std.OrientedCmp.lt_of_gt hgt)
      have heq : compare k j = .eq := by
        cases hcompare : compare k j with
        | lt => exact absurd hcompare hnotlt
        | eq => rfl
        | gt => exact absurd hcompare hnotgt
      rw [sameItems, Bool.and_eq_true]
      -- what is behind a first key has its counterpart behind the other
      refine ⟨(compare_eq_iff_same k j).mp heq, ih hrest hrest' (fun x hx => ?_) fun y hy => ?_⟩
      · exact exists_beq_of_behind hk heq hsub hx
      · exact exists_beq_of_behind hj (Std.OrientedCmp.eq_symm heq) hsub' hy

/-- What lists have the same keys ascends to lists that are equal key by key. -/
theorem sameItems_ascending {keys others : List Key} (h : ∀ k, k ∈ keys ↔ k ∈ others) :
    sameItems (ascending keys) (ascending others) = true := by
  refine sameItems_of_ascending (ascending_ascending keys) (ascending_ascending others) ?_ ?_
  · exact fun k hk => exists_beq_mem_ascending ((h k).mp (mem_of_mem_ascending hk))
  · exact fun k hk => exists_beq_mem_ascending ((h k).mpr (mem_of_mem_ascending hk))

end Conform.Key
