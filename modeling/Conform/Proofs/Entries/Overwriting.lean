import Conform.Proofs.Entries
import Mathlib.Data.List.Induction

/-!
# Entries that are given one after the other

A table keeps of equal keys the first, and of their values the last (`Entries.keys_ofList`,
`Entries.find?_ofList`). What has been given to a key is lost when it is given another value
(`Entries.insert_insert`), and different keys are given their values in either order, but for the
order of the new ones (`Entries.insert_comm`).
-/

namespace Conform.Entries

variable {κ α : Type} [BEq κ]

/-- The value that a key is given last stays. -/
theorem insert_insert [ReflBEq κ] (k : κ) (a b : α) (entries : List (κ × α)) :
    insert k b (insert k a entries) = insert k b entries := by
  induction entries with
  | nil => simp [insert]
  | cons entry rest ih =>
    obtain ⟨j, c⟩ := entry
    by_cases hj : (j == k) = true
    · simp [insert, hj]
    · simp [insert, hj, ih]

/-- Two keys are given their values in either order, but for the order of new keys. -/
theorem insert_comm [EquivBEq κ] {j k : κ} (hne : (j == k) = false) (a b : α)
    (entries : List (κ × α)) :
    (insert k b (insert j a entries)).Perm (insert j a (insert k b entries)) := by
  have hne' : (k == j) = false := by rwa [BEq.comm]
  -- entries that have neither key stay between the two
  induction entries with
  | nil => simpa only [insert, hne, hne', Bool.false_eq_true, if_false] using .swap ..
  | cons entry rest ih =>
    obtain ⟨i, c⟩ := entry
    by_cases hij : (i == j) = true
    · have hik : (i == k) = false := by rw [BEq.congr_left hij]; exact hne
      simp [insert, hij, hik]
    · by_cases hik : (i == k) = true
      · simp [insert, hij, hik]
      · simpa [insert, hij, hik] using ih

omit [BEq κ] in
/-- The last key is kept unless an equal one was found before it. -/
private theorem eraseDupsBy_loop_concat (r : κ → κ → Bool) (keys found : List κ) (k : κ) :
    List.eraseDupsBy.loop r (keys ++ [k]) found =
      if (List.eraseDupsBy.loop r keys found).any (r k) then List.eraseDupsBy.loop r keys found
      else List.eraseDupsBy.loop r keys found ++ [k] := by
  induction keys generalizing found with
  | nil =>
    simp only [List.nil_append, List.eraseDupsBy.loop, List.any_reverse]
    cases found.any (r k) <;> simp
  | cons j rest ih =>
    -- a key that has been found already is passed over
    cases hany : found.any (r j) with
    | true => simpa only [List.cons_append, List.eraseDupsBy.loop, hany] using ih found
    | false => simpa only [List.cons_append, List.eraseDupsBy.loop, hany] using ih (j :: found)

/-- A key that comes last is new unless it equals one that has been kept. -/
theorem eraseDups_concat_of_beq (keys : List κ) (k : κ) :
    (keys ++ [k]).eraseDups =
      if keys.eraseDups.any (k == ·) then keys.eraseDups else keys.eraseDups ++ [k] :=
  eraseDupsBy_loop_concat _ keys [] k

/-- The last entry is inserted last. -/
theorem ofList_concat (entries : List (κ × α)) (entry : κ × α) :
    ofList (entries ++ [entry]) = insert entry.1 entry.2 (ofList entries) := by
  rw [ofList, insertAll, List.foldl_append]
  rfl

/-- A table has the keys of the list that it is made from, in the order in which they come first. -/
theorem keys_ofList [PartialEquivBEq κ] (entries : List (κ × α)) :
    keys (ofList entries) = (keys entries).eraseDups := by
  induction entries using List.reverseRecOn with
  | nil => rfl
  | append_singleton entries entry ih =>
    have hcontains : contains entry.1 (ofList entries) =
        (keys (ofList entries)).any (entry.1 == ·) := by
      rw [contains, keys, List.any_map]
      exact List.any_congr rfl fun other => BEq.comm
    have hkeys : keys (entries ++ [entry]) = keys entries ++ [entry.1] := List.map_append
    rw [ofList_concat, keys_insert, hcontains, ih, hkeys, eraseDups_concat_of_beq]

/-- A lookup in a table finds the value that comes last under the key. -/
theorem find?_ofList [EquivBEq κ] (k : κ) (entries : List (κ × α)) :
    find? k (ofList entries) = find? k entries.reverse := by
  induction entries using List.reverseRecOn with
  | nil => rfl
  | append_singleton entries entry ih =>
    rw [ofList_concat, find?_insert, ih, List.reverse_concat, find?]

end Conform.Entries
