import Conform.Entries

/-!
# Tables without repeated keys

`Entries.insert` keeps the keys of a table distinct, so that `Entries.ofList` gives a table for any
list of entries, and gives back a list whose keys are distinct already.
-/

namespace Conform.Entries

variable {κ α : Type} [BEq κ]

/-- No key of the table equals a later one. -/
def Distinct (entries : List (κ × α)) : Prop :=
  (keys entries).Pairwise fun j k => (j == k) = false

/-- No entries, no keys that are equal. -/
theorem distinct_nil : Distinct ([] : List (κ × α)) := List.Pairwise.nil

/-- A key that is not in the table equals none of its keys. -/
theorem beq_eq_false_of_not_contains {k j : κ} {entries : List (κ × α)}
    (h : contains k entries = false) (hj : j ∈ keys entries) : (j == k) = false := by
  obtain ⟨entry, hentry, rfl⟩ := List.mem_map.mp hj
  exact Bool.eq_false_iff.mpr fun heq =>
    absurd (List.any_eq_true.mpr ⟨entry, hentry, heq⟩) (Bool.eq_false_iff.mp h)

/-- Inserting keeps keys distinct. -/
theorem Distinct.insert {entries : List (κ × α)} (h : Distinct entries) (k : κ) (a : α) :
    Distinct (insert k a entries) := by
  -- a key that is there keeps its place, another one goes to the end
  cases hk : contains k entries with
  | true => rw [Distinct, keys_insert_of_contains k a entries hk]; exact h
  | false =>
    rw [Distinct, keys_insert_of_not_contains k a entries hk]
    refine List.pairwise_append.mpr ⟨h, List.pairwise_singleton _ _, fun j hj k' hk' => ?_⟩
    rw [List.mem_singleton.mp hk']
    exact beq_eq_false_of_not_contains hk hj

/-- Inserting many entries keeps keys distinct. -/
theorem Distinct.insertAll {table : List (κ × α)} (h : Distinct table)
    (entries : List (κ × α)) : Distinct (insertAll table entries) := by
  induction entries generalizing table with
  | nil => exact h
  | cons entry rest ih => exact ih (h.insert entry.1 entry.2)

/-- The table of any list has distinct keys. -/
theorem distinct_ofList (entries : List (κ × α)) : Distinct (ofList entries) :=
  distinct_nil.insertAll entries

/-- A key that is not in the table goes to its end. -/
theorem insert_of_not_contains (k : κ) (a : α) (entries : List (κ × α))
    (h : contains k entries = false) : insert k a entries = entries ++ [(k, a)] := by
  induction entries with
  | nil => rfl
  | cons entry rest ih =>
    obtain ⟨j, b⟩ := entry
    simp only [contains, List.any_cons, Bool.or_eq_false_iff] at h
    rw [insert, if_neg (Bool.eq_false_iff.mp h.1), ih h.2, List.cons_append]

/-- Giving a key the value that it has changes nothing. -/
theorem insert_of_find? {k : κ} {a : α} {entries : List (κ × α)} (h : find? k entries = some a) :
    insert k a entries = entries := by
  induction entries with
  | nil => cases h
  | cons entry rest ih =>
    obtain ⟨j, b⟩ := entry
    rw [find?] at h
    rw [insert]
    split at h
    next hj => cases h; rw [if_pos hj]
    next hj => rw [if_neg hj, ih h]

/-- A key keeps its place, and a new key comes last. -/
theorem keys_insert (k : κ) (a : α) (entries : List (κ × α)) :
    keys (insert k a entries) =
      if contains k entries then keys entries else keys entries ++ [k] := by
  split
  next h => exact keys_insert_of_contains k a entries h
  next h => exact keys_insert_of_not_contains k a entries (Bool.eq_false_iff.mpr h)

/-- Entries with new keys are appended. -/
private theorem insertAll_eq_append {table entries : List (κ × α)}
    (h : Distinct (table ++ entries)) : insertAll table entries = table ++ entries := by
  induction entries generalizing table with
  | nil => rw [List.append_nil]; rfl
  | cons entry rest ih =>
    obtain ⟨k, a⟩ := entry
    -- the key comes after the table, so that it cannot be in the table
    have hk : contains k table = false := by
      have hpair := (List.pairwise_append.mp (by rw [← List.map_append]; exact h)).2.2
      refine Bool.eq_false_iff.mpr fun hc => ?_
      obtain ⟨⟨j, b⟩, hj, heq⟩ := List.any_eq_true.mp hc
      have hne := hpair j (List.mem_map_of_mem hj) k List.mem_cons_self
      exact absurd heq (Bool.eq_false_iff.mp hne)
    show insertAll (insert k a table) rest = table ++ (k, a) :: rest
    rw [insert_of_not_contains k a table hk, ih (by rwa [List.append_assoc]), List.append_assoc,
      List.singleton_append]

/-- A list with distinct keys is its own table. -/
theorem ofList_of_distinct {entries : List (κ × α)} (h : Distinct entries) :
    ofList entries = entries := by
  rw [ofList, insertAll_eq_append (by rwa [List.nil_append]), List.nil_append]

/-- An insertion brings no other key and no other value into a table. -/
private theorem insert_forall {P : κ → Prop} {Q : α → Prop} {k : κ} {a : α}
    {entries : List (κ × α)} (hk : P k) (ha : Q a)
    (h : ∀ entry ∈ entries, P entry.1 ∧ Q entry.2) :
    ∀ entry ∈ insert k a entries, P entry.1 ∧ Q entry.2 := by
  induction entries with
  | nil => intro entry hentry; rw [List.mem_singleton.mp hentry]; exact ⟨hk, ha⟩
  | cons first rest ih =>
    have ⟨hfirst, hrest⟩ := List.forall_mem_cons.mp h
    rw [insert]
    split
    · -- the key that is there stays and takes the new value
      exact List.forall_mem_cons.mpr ⟨⟨hfirst.1, ha⟩, hrest⟩
    · exact List.forall_mem_cons.mpr ⟨hfirst, ih hrest⟩

/-- A table has its keys and its values from the list that it is made from. -/
theorem ofList_forall {P : κ → Prop} {Q : α → Prop} {entries : List (κ × α)}
    (h : ∀ entry ∈ entries, P entry.1 ∧ Q entry.2) :
    ∀ entry ∈ ofList entries, P entry.1 ∧ Q entry.2 := by
  suffices ∀ table : List (κ × α), (∀ entry ∈ table, P entry.1 ∧ Q entry.2) →
      ∀ entry ∈ insertAll table entries, P entry.1 ∧ Q entry.2 from
    this [] fun _ h => absurd h List.not_mem_nil
  induction entries with
  | nil => exact fun table htable => htable
  | cons first rest ih =>
    have ⟨hfirst, hrest⟩ := List.forall_mem_cons.mp h
    exact fun table htable => ih hrest _ (insert_forall hfirst.1 hfirst.2 htable)

/-- A key is there exactly if it is among the keys. -/
theorem contains_iff_mem_keys [LawfulBEq κ] {k : κ} {entries : List (κ × α)} :
    contains k entries = true ↔ k ∈ keys entries := by
  rw [contains, List.any_eq_true, keys, List.mem_map]
  exact exists_congr fun entry => and_congr_right fun _ => beq_iff_eq

/-- A lookup finds an entry of the table. -/
theorem mem_of_find? {k : κ} {a : α} {entries : List (κ × α)} (h : find? k entries = some a) :
    ∃ j, (j, a) ∈ entries ∧ (j == k) = true := by
  induction entries with
  | nil => cases h
  | cons entry rest ih =>
    obtain ⟨j, b⟩ := entry
    rw [find?] at h
    split at h
    next heq => cases h; exact ⟨j, List.mem_cons_self, heq⟩
    next => obtain ⟨i, hi, heq⟩ := ih h; exact ⟨i, List.mem_cons_of_mem _ hi, heq⟩

/-- The lookup of a key that no other equals finds the value under it. -/
theorem find?_of_mem {k : κ} {a : α} {entries : List (κ × α)} (hk : (k == k) = true)
    (hdistinct : Distinct entries) (h : (k, a) ∈ entries) : find? k entries = some a := by
  induction entries with
  | nil => cases h
  | cons entry rest ih =>
    obtain ⟨j, b⟩ := entry
    have ⟨hfirst, hrest⟩ := List.pairwise_cons.mp hdistinct
    obtain heq | hmem := List.mem_cons.mp h
    · cases heq
      rw [find?, if_pos hk]
    -- the first entry has another key
    · have hne : (j == k) = false := hfirst k (List.mem_map_of_mem hmem)
      rw [find?, hne, if_neg Bool.false_ne_true]
      exact ih hrest hmem

/-- Values are replaced before or after the table is made. -/
theorem ofList_map_values {β : Type} (f : α → β) (entries : List (κ × α)) :
    ofList (entries.map fun entry => (entry.1, f entry.2)) =
      (ofList entries).map fun entry => (entry.1, f entry.2) := by
  -- inserting looks at keys only
  have hinsert (k : κ) (a : α) (table : List (κ × α)) :
      insert k (f a) (table.map fun entry => (entry.1, f entry.2)) =
        (insert k a table).map fun entry => (entry.1, f entry.2) := by
    induction table with
    | nil => rfl
    | cons entry rest ih =>
      rw [List.map_cons, insert, insert, ih]
      split <;> rfl
  have hall (table : List (κ × α)) :
      insertAll (table.map fun entry => (entry.1, f entry.2))
          (entries.map fun entry => (entry.1, f entry.2)) =
        (insertAll table entries).map fun entry => (entry.1, f entry.2) := by
    induction entries generalizing table with
    | nil => rfl
    | cons entry rest ih =>
      show insertAll (insert entry.1 (f entry.2) _) _ = _
      rw [hinsert, ih]
      rfl
  exact hall []

end Conform.Entries
