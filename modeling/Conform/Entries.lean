/-!
# Tables in insertion order

A table is a list of keys with their values in which a key keeps the place where it was first
given. `Entries.insert` overwrites the value of a key that is there and appends one that is not.
Main statements: `find?_insert` (a lookup sees the last value given to its key),
`keys_insert_of_contains` and `keys_insert_of_not_contains` (where the key ends up).
-/

namespace Conform.Entries

variable {κ α β : Type} [BEq κ]

/-- The value of the first entry whose key equals `k`. -/
def find? (k : κ) : List (κ × α) → Option α
  | [] => none
  | (j, a) :: rest => if j == k then some a else find? k rest

/-- Whether some entry has a key equal to `k`. -/
def contains (k : κ) (entries : List (κ × α)) : Bool :=
  entries.any fun entry => entry.1 == k

/-- Gives `k` the value `a`. A key that is there keeps its place and its own form. -/
def insert (k : κ) (a : α) : List (κ × α) → List (κ × α)
  | [] => [(k, a)]
  | (j, b) :: rest => if j == k then (j, a) :: rest else (j, b) :: insert k a rest

/-- Inserts the entries of a list one after the other. -/
def insertAll (table entries : List (κ × α)) : List (κ × α) :=
  entries.foldl (fun table entry => insert entry.1 entry.2 table) table

/-- The table of the entries of a list: of equal keys the first, with the value of the last. -/
def ofList (entries : List (κ × α)) : List (κ × α) :=
  insertAll [] entries

/-- The keys in order. -/
def keys (entries : List (κ × α)) : List κ :=
  entries.map Prod.fst

/-- A lookup sees the value that was given last to its key, and the other entries as before. -/
theorem find?_insert [EquivBEq κ] (k j : κ) (a : α) (entries : List (κ × α)) :
    find? j (insert k a entries) = if k == j then some a else find? j entries := by
  induction entries with
  | nil => simp [insert, find?]
  | cons entry rest ih =>
    obtain ⟨i, b⟩ := entry
    -- an equal key keeps its place and is equal to the same keys
    by_cases hik : (i == k) = true
    · have hij : (i == j) = (k == j) := BEq.congr_left hik
      by_cases hkj : (k == j) = true <;> simp [insert, find?, hik, hij, hkj]
    · by_cases hkj : (k == j) = true
      · have hij : (i == j) = (i == k) := (BEq.congr_right hkj).symm
        simp [insert, find?, hik, hij, hkj, ih]
      · simp [insert, find?, hik, hkj, ih]

/-- What was just inserted is what is found. -/
theorem find?_insert_self [EquivBEq κ] (k : κ) (a : α) (entries : List (κ × α)) :
    find? k (insert k a entries) = some a := by
  simp [find?_insert]

/-- A key is there exactly if it has a value. -/
theorem isSome_find? (k : κ) (entries : List (κ × α)) :
    (find? k entries).isSome = contains k entries := by
  induction entries with
  | nil => rfl
  | cons entry rest ih =>
    obtain ⟨j, b⟩ := entry
    by_cases h : (j == k) = true
    · simp [find?, contains, h]
    · simpa [find?, contains, h] using ih

/-- A key that is there keeps its place and its own form. -/
theorem keys_insert_of_contains (k : κ) (a : α) (entries : List (κ × α))
    (h : contains k entries = true) : keys (insert k a entries) = keys entries := by
  induction entries with
  | nil => simp [contains] at h
  | cons entry rest ih =>
    obtain ⟨j, b⟩ := entry
    by_cases hj : (j == k) = true
    · simp [insert, keys, hj]
    · have hr : contains k rest = true := by simpa [contains, hj] using h
      have := ih hr
      simp only [keys] at this
      simp [insert, keys, hj, this]

/-- A key that is not there is appended. -/
theorem keys_insert_of_not_contains (k : κ) (a : α) (entries : List (κ × α))
    (h : contains k entries = false) : keys (insert k a entries) = keys entries ++ [k] := by
  induction entries with
  | nil => simp [insert, keys]
  | cons entry rest ih =>
    obtain ⟨j, b⟩ := entry
    have hj : (j == k) = false := by
      simp only [contains, List.any_cons, Bool.or_eq_false_iff] at h; exact h.1
    have hr : contains k rest = false := by
      simp only [contains, List.any_cons, Bool.or_eq_false_iff] at h; exact h.2
    have := ih hr
    simp only [keys] at this
    simp [insert, keys, hj, this]

end Conform.Entries
