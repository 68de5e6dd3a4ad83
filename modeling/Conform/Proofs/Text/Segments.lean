import Conform.Text.Segments

/-!
# Cutting and joining are inverse

A text is the join of the pieces that it is cut into (`join_splitOn`), and a join is cut into the
pieces that it was made of, if the separator is in none of them (`splitOn_join`). The cut at the
first separator is the one that leaves none in front of it (`cutChars?_eq_some_iff`).
-/

namespace Conform.Text

/-- The cut is that of the library. -/
private theorem splitChars_eq_splitOn (sep : Char) (s : List Char) :
    splitChars sep s = s.splitOn sep := by
  induction s with
  | nil => rfl
  | cons c rest ih =>
    have hcons : (c :: rest).splitOn sep =
        if (c == sep) = true then [] :: rest.splitOn sep
        else (rest.splitOn sep).modifyHead (List.cons c) :=
      List.splitOnP_cons_eq_if_modifyHead c rest
    rw [hcons, ← ih, splitChars]
    by_cases hc : c = sep
    · rw [if_pos hc, if_pos (beq_iff_eq.mpr hc)]
    · rw [if_neg hc, if_neg (fun h => hc (beq_iff_eq.mp h))]
      -- a cut gives at least one piece, which takes the character
      cases hpieces : splitChars sep rest with
      | nil => exact absurd hpieces (splitChars_ne_nil sep rest)
      | cons piece pieces => rfl

/-- Joining is to put the separator between the pieces. -/
private theorem toList_join {sep : Char} (pieces : List String) :
    (join (String.singleton sep) pieces).toList = [sep].intercalate (pieces.map String.toList) := by
  induction pieces with
  | nil => rfl
  | cons piece rest ih =>
    cases rest with
    | nil => simp [join]
    | cons next rest => simp [join, ih]

/-- There is always a segment. -/
theorem splitOn_ne_nil (sep : Char) (s : String) : splitOn sep s ≠ [] := by
  rw [splitOn, Ne, List.map_eq_nil_iff]
  exact splitChars_ne_nil sep s.toList

/-- A text is the join of its pieces. -/
theorem join_splitOn (sep : Char) (s : String) :
    join (String.singleton sep) (splitOn sep s) = s := by
  have hpieces : (splitOn sep s).map String.toList = s.toList.splitOn sep := by
    rw [splitOn, List.map_map, splitChars_eq_splitOn]
    simp
  rw [← String.toList_inj, toList_join, hpieces, List.intercalate_splitOn]

/-- A join is cut into its pieces. -/
theorem splitOn_join {sep : Char} {pieces : List String} (hne : pieces ≠ [])
    (h : ∀ piece ∈ pieces, sep ∉ piece.toList) :
    splitOn sep (join (String.singleton sep) pieces) = pieces := by
  have hchars : ∀ chars ∈ pieces.map String.toList, sep ∉ chars := by
    intro chars hmem
    obtain ⟨piece, hpiece, rfl⟩ := List.mem_map.mp hmem
    exact h piece hpiece
  rw [splitOn, splitChars_eq_splitOn, toList_join, List.splitOn_intercalate sep hchars (by simpa)]
  simp

/-- No segment has the separator in it. -/
private theorem not_mem_of_mem_splitChars {sep : Char} {s piece : List Char}
    (h : piece ∈ splitChars sep s) : sep ∉ piece := by
  induction s generalizing piece with
  | nil => rw [List.mem_singleton.mp h]; exact List.not_mem_nil
  | cons c rest ih =>
    rw [splitChars] at h
    split at h
    -- a separator opens an empty piece in front of the others
    · rcases List.mem_cons.mp h with rfl | h
      · exact List.not_mem_nil
      · exact ih h
    next hc =>
      cases hpieces : splitChars sep rest with
      | nil => exact absurd hpieces (splitChars_ne_nil sep rest)
      | cons first pieces =>
        rw [hpieces] at h ih
        rcases List.mem_cons.mp h with rfl | h
        · -- the first piece has grown by a character that is not the separator
          intro hmem
          rcases List.mem_cons.mp hmem with heq | hmem
          · exact hc heq.symm
          · exact ih List.mem_cons_self hmem
        · exact ih (List.mem_cons_of_mem first h)

/-- The separator is in no piece. -/
theorem not_mem_of_mem_splitOn {sep : Char} {s piece : String} (h : piece ∈ splitOn sep s) :
    sep ∉ piece.toList := by
  obtain ⟨chars, hchars, rfl⟩ := List.mem_map.mp h
  rw [String.toList_ofList]
  exact not_mem_of_mem_splitChars hchars

/-! ## The ends of a join -/

/-- A character of the joined text is of the separator or of a piece. -/
theorem mem_of_mem_join {sep : String} {pieces : List String} {c : Char}
    (h : c ∈ (join sep pieces).toList) : c ∈ sep.toList ∨ ∃ piece ∈ pieces, c ∈ piece.toList := by
  induction pieces with
  | nil => cases h
  | cons piece rest ih =>
    cases rest with
    | nil => exact .inr ⟨piece, List.mem_singleton_self piece, h⟩
    | cons next rest =>
      rw [join, String.toList_append, String.toList_append, List.mem_append, List.mem_append] at h
      -- in the first piece, in the separator after it, or further on
      obtain (hpiece | hsep) | hrest := h
      · exact .inr ⟨piece, List.mem_cons_self, hpiece⟩
      · exact .inl hsep
      · exact (ih hrest).imp_right fun ⟨other, hother, hc⟩ =>
          ⟨other, List.mem_cons_of_mem piece hother, hc⟩

/-- Every character of a piece is one of the joined text. -/
theorem mem_join_of_mem {sep : String} {pieces : List String} {piece : String} {c : Char}
    (hpiece : piece ∈ pieces) (hc : c ∈ piece.toList) : c ∈ (join sep pieces).toList := by
  induction pieces with
  | nil => cases hpiece
  | cons first rest ih =>
    cases rest with
    | nil => rwa [join, ← List.mem_singleton.mp hpiece]
    | cons next rest =>
      rw [join, String.toList_append, String.toList_append, List.mem_append, List.mem_append]
      obtain rfl | hrest := List.mem_cons.mp hpiece
      · exact .inl (.inl hc)
      · exact .inr (ih hrest)

/-- A join starts like its first piece. -/
theorem head?_join {sep piece : String} (rest : List String) (hne : piece ≠ "") :
    (join sep (piece :: rest)).toList.head? = piece.toList.head? := by
  cases rest with
  | nil => rfl
  | cons next rest =>
    obtain ⟨c, cs, hpiece⟩ := List.exists_cons_of_ne_nil (mt String.toList_eq_nil_iff.mp hne)
    rw [join, String.append_assoc, String.toList_append, hpiece]
    rfl

/-- A join ends like its last piece. -/
theorem getLast?_join {sep piece : String} (front : List String) (hne : piece ≠ "") :
    (join sep (front ++ [piece])).toList.getLast? = piece.toList.getLast? := by
  induction front with
  | nil => rfl
  | cons first front ih =>
    have hjoin : join sep (first :: (front ++ [piece])) =
        first ++ sep ++ join sep (front ++ [piece]) := by
      cases front <;> rfl
    rw [List.cons_append, hjoin, String.toList_append, List.getLast?_append, ih]
    rw [List.getLast?_eq_some_getLast (mt String.toList_eq_nil_iff.mp hne)]
    rfl

/-! ## The first separator -/

/-- What has no separator in it is in front of the first one. -/
theorem cutChars?_append {sep : Char} {front : List Char} (h : sep ∉ front) (back : List Char) :
    cutChars? sep (front ++ sep :: back) = some (front, back) := by
  induction front with
  | nil => exact if_pos rfl
  | cons c front ih =>
    rw [List.mem_cons, not_or] at h
    obtain ⟨hc, hfront⟩ := h
    rw [List.cons_append, cutChars?, if_neg (Ne.symm hc), ih hfront]
    rfl

/-- There is no separator in front of the first one. -/
theorem cutChars?_eq_some_iff {sep : Char} {s front back : List Char} :
    cutChars? sep s = some (front, back) ↔ s = front ++ sep :: back ∧ sep ∉ front := by
  refine ⟨fun h => ?_, fun ⟨h, hfront⟩ => h ▸ cutChars?_append hfront back⟩
  -- on the text, up to the separator
  induction s generalizing front with
  | nil => cases h
  | cons c rest ih =>
    rw [cutChars?] at h
    split at h
    next hc => cases h; exact ⟨by rw [hc]; rfl, List.not_mem_nil⟩
    next hc =>
      obtain ⟨⟨front', back'⟩, hcut, heq⟩ := Option.map_eq_some_iff.mp h
      cases heq
      obtain ⟨hrest, hfront⟩ := ih hcut
      rw [List.mem_cons, not_or]
      exact ⟨by rw [hrest]; rfl, Ne.symm hc, hfront⟩

/-- A text without a separator is not cut. -/
theorem cutChars?_eq_none_iff {sep : Char} {s : List Char} : cutChars? sep s = none ↔ sep ∉ s := by
  induction s with
  | nil => simp [cutChars?]
  | cons c rest ih =>
    rw [cutChars?]
    split
    next hc => simp [hc]
    next hc => simp [ih, Ne.symm hc]

end Conform.Text
