import Conform.Text.Blank

/-!
# What is left of a text without blanks around it

`Text.trimChars` gives the part of a text that has blank characters around it and none at its own
ends, and there is only one such part (`Text.trimChars_eq_iff`).
-/

namespace Conform.Text

variable {s t front back : List Char}

/-- All characters of a text are blank. -/
def Blank (s : List Char) : Prop :=
  ∀ c ∈ s, isBlank c = true

/-- The empty text is blank. -/
theorem blank_nil : Blank [] := nofun

/-- Blank texts in a row are blank. -/
theorem Blank.append (hs : Blank s) (ht : Blank t) : Blank (s ++ t) :=
  List.forall_mem_append.mpr ⟨hs, ht⟩

/-- There is no blank character at the ends of a text. -/
structure Bare (s : List Char) : Prop where
  first : ∀ c ∈ s.head?, isBlank c = false
  last : ∀ c ∈ s.getLast?, isBlank c = false

/-- Before a character that is no blank nothing is dropped. -/
theorem dropWhile_isBlank_of_head? (h : ∀ c ∈ s.head?, isBlank c = false) :
    s.dropWhile isBlank = s := by
  cases s with
  | nil => rfl
  | cons c s => exact List.dropWhile_cons_of_neg (Bool.eq_false_iff.mp (h c rfl))

/-- What is left starts with a character that is no blank. -/
theorem head?_dropWhile_isBlank (s : List Char) :
    ∀ c ∈ (s.dropWhile isBlank).head?, isBlank c = false := by
  have hfirst := List.head?_dropWhile_not isBlank s
  intro c hc
  rw [Option.mem_def.mp hc] at hfirst
  exact hfirst

/-- A blank text is dropped. -/
theorem dropWhile_isBlank_of_blank (h : Blank s) : s.dropWhile isBlank = [] := by
  rw [← List.append_nil s, List.dropWhile_append_of_pos h]
  rfl

/-- Blanks at the end do not matter to trimming it. -/
theorem trimEnd_append_of_blank (h : Blank back) : trimEnd (s ++ back) = trimEnd s := by
  rw [trimEnd, List.reverse_append,
    List.dropWhile_append_of_pos fun c hc => h c (List.mem_reverse.mp hc), trimEnd]

/-- A bare text has nothing to trim at its end. -/
theorem Bare.trimEnd_eq (h : Bare s) : trimEnd s = s := by
  rw [trimEnd, dropWhile_isBlank_of_head?, List.reverse_reverse]
  rw [List.head?_reverse]
  exact h.last

/-- A text is a part without blanks at its ends between blanks. -/
theorem exists_trimEnd (s : List Char) : ∃ back, s = trimEnd s ++ back ∧ Blank back := by
  refine ⟨(s.reverse.takeWhile isBlank).reverse, ?_, fun c hc => ?_⟩
  · rw [trimEnd, ← List.reverse_append, List.takeWhile_append_dropWhile, List.reverse_reverse]
  · exact List.all_eq_true.mp List.all_takeWhile c (List.mem_reverse.mp hc)

/-- What trimming takes away is blank. -/
theorem exists_trimChars (s : List Char) :
    ∃ front back, s = front ++ trimChars s ++ back ∧ Blank front ∧ Blank back := by
  obtain ⟨back, hs, hback⟩ := exists_trimEnd (s.dropWhile isBlank)
  refine ⟨s.takeWhile isBlank, back, ?_, List.all_eq_true.mp List.all_takeWhile, hback⟩
  rw [List.append_assoc, trimChars, ← hs, List.takeWhile_append_dropWhile]

/-- What trimming leaves is bare. -/
theorem bare_trimChars (s : List Char) : Bare (trimChars s) where
  first := by
    obtain ⟨back, hs, -⟩ := exists_trimEnd (s.dropWhile isBlank)
    have hfirst := head?_dropWhile_isBlank s
    rw [hs, List.head?_append] at hfirst
    intro c hc
    rw [trimChars] at hc
    exact hfirst c (Option.or_eq_some_iff.mpr (.inl hc))
  last := by
    rw [trimChars, trimEnd, List.getLast?_reverse]
    exact head?_dropWhile_isBlank _

/-- A bare text between blanks is what trimming leaves. -/
theorem Bare.trimChars_append (h : Bare t) (hfront : Blank front) (hback : Blank back) :
    trimChars (front ++ t ++ back) = t := by
  rw [trimChars, List.append_assoc, List.dropWhile_append_of_pos hfront]
  cases t with
  | nil => rw [List.nil_append, dropWhile_isBlank_of_blank hback]; rfl
  | cons c t =>
    have hfirst : ∀ d ∈ (c :: t ++ back).head?, isBlank d = false := h.first
    rw [dropWhile_isBlank_of_head? hfirst, trimEnd_append_of_blank hback, h.trimEnd_eq]

/-- What is left is the part with blanks around it and none at its ends. -/
theorem trimChars_eq_iff : trimChars s = t ↔
    Bare t ∧ ∃ front back, s = front ++ t ++ back ∧ Blank front ∧ Blank back := by
  constructor
  · rintro rfl
    exact ⟨bare_trimChars s, exists_trimChars s⟩
  · rintro ⟨ht, front, back, rfl, hfront, hback⟩
    exact ht.trimChars_append hfront hback

/-- A list of characters that is bare is trimmed to itself. -/
theorem Bare.trimChars_eq (h : Bare s) : trimChars s = s :=
  trimChars_eq_iff.mpr ⟨h, [], [], (List.append_nil s).symm, blank_nil, blank_nil⟩

/-- More blanks around a text are removed with the others. -/
theorem trimChars_append_of_blank (hfront : Blank front) (hback : Blank back) :
    trimChars (front ++ s ++ back) = trimChars s := by
  obtain ⟨front', back', hs, hfront', hback'⟩ := exists_trimChars s
  refine trimChars_eq_iff.mpr ⟨bare_trimChars s, front ++ front', back' ++ back, ?_,
    hfront.append hfront', hback'.append hback⟩
  calc front ++ s ++ back = front ++ (front' ++ trimChars s ++ back') ++ back := by rw [← hs]
    _ = front ++ front' ++ trimChars s ++ (back' ++ back) := by simp only [List.append_assoc]

/-- Trimming adds no character. -/
theorem mem_of_mem_trim {s : String} {c : Char} (h : c ∈ (trim s).toList) : c ∈ s.toList := by
  obtain ⟨front, back, hs, -, -⟩ := exists_trimChars s.toList
  rw [trim, String.toList_ofList] at h
  rw [hs]
  exact List.mem_append_left _ (List.mem_append_right _ h)

/-- A trimmed text is bare. -/
theorem bare_trim (s : String) : Bare (trim s).toList := by
  rw [trim, String.toList_ofList]
  exact bare_trimChars _

/-- A bare text is left as it is. -/
theorem trim_eq_self {s : String} (h : Bare s.toList) : trim s = s := by
  rw [trim, h.trimChars_eq, String.ofList_toList]

/-- Blanks around a text do not matter to trimming it. -/
theorem trim_append {front back : String} (hfront : Blank front.toList) (hback : Blank back.toList)
    (s : String) : trim (front ++ s ++ back) = trim s := by
  rw [trim, String.toList_append, String.toList_append,
    trimChars_append_of_blank hfront hback, trim]

end Conform.Text
