import Conform.Text.Segments

/-!
# Telling texts apart in front of others

Two texts are told apart in front of others (`Text.Discerned`) if, whatever follows them, the whole
shows which of them it starts with and what follows. A number goes on with any digit that follows
it, so that only continuations without a digit in front are taken into account. Integers are told
apart in this way (`Text.discerned_int`), and so are items that are written with a comma and a space
between neighbours, if each of them can be told from any other (`Text.join_append_inj`).
-/

namespace Conform.Text

/-- A text does not start with a digit. -/
def Stops (s : List Char) : Prop :=
  ∀ c ∈ s.head?, c.isDigit = false

/-- At the end of the text a number stops. -/
theorem stops_nil : Stops [] := nofun

/-- A number stops before a character that is no digit. -/
theorem stops_cons {c : Char} (h : c.isDigit = false) (s : List Char) : Stops (c :: s) := by
  intro d hd
  obtain rfl := Option.some.inj hd
  exact h

/-- Texts with something behind them that does not go on with a digit: the whole are the same only
    if `same` holds and the same stands behind them. -/
def Discerned (x y : List Char) (same : Prop) : Prop :=
  ∀ ⦃s t : List Char⦄, Stops s → Stops t → x ++ s = y ++ t → same ∧ s = t

/-- What can be told from the text may be weakened. -/
theorem Discerned.imp {x y : List Char} {same same' : Prop} (h : Discerned x y same)
    (himp : same → same') : Discerned x y same' :=
  fun _ _ hs ht heq => (h hs ht heq).imp_left himp

/-! ## Numbers -/

/-- Digits end where the digits end. -/
theorem takeWhile_append_stops {digits s : List Char} (h : ∀ c ∈ digits, c.isDigit = true)
    (hs : Stops s) : (digits ++ s).takeWhile Char.isDigit = digits := by
  have hrest : s.takeWhile Char.isDigit = [] := by
    cases s with
    | nil => rfl
    | cons c rest => exact List.takeWhile_cons_of_neg (Bool.eq_false_iff.mp (hs c rfl))
  rw [List.takeWhile_append_of_pos h, hrest, List.append_nil]

/-- Digits are told by where they stop. -/
theorem discerned_digits {x y : List Char} (hx : ∀ c ∈ x, c.isDigit = true)
    (hy : ∀ c ∈ y, c.isDigit = true) : Discerned x y (x = y) := by
  intro s t hs ht h
  have hsame : x = y := by
    rw [← takeWhile_append_stops hx hs, h, takeWhile_append_stops hy ht]
  subst hsame
  exact ⟨rfl, List.append_cancel_left h⟩

/-- The digits of a number are digits. -/
theorem isDigit_of_mem_toDigits {n : Nat} {c : Char} (h : c ∈ Nat.toDigits 10 n) :
    c.isDigit = true :=
  Nat.isDigit_of_mem_toDigits (by decide) (by decide) h

/-- A number is told from its digits. -/
theorem discerned_toDigits (m n : Nat) :
    Discerned (Nat.toDigits 10 m) (Nat.toDigits 10 n) (m = n) := by
  refine (discerned_digits (fun _ => isDigit_of_mem_toDigits)
    fun _ => isDigit_of_mem_toDigits).imp fun h => ?_
  rw [← Nat.ofDigitChars_ten_toDigits (n := m), h, Nat.ofDigitChars_ten_toDigits]

/-- An integer is written with a minus or with digits alone. -/
theorem toList_toString_int (i : Int) :
    (toString i).toList =
      if 0 ≤ i then Nat.toDigits 10 i.natAbs else '-' :: Nat.toDigits 10 i.natAbs := by
  -- a negative number is a minus and the digits of its absolute value
  rw [Int.toString_eq_repr, Int.repr_eq_if]
  split
  next h =>
    have habs : i.toNat = i.natAbs := by omega
    rw [Nat.toList_repr, habs]
  next h =>
    have habs : (-i).toNat = i.natAbs := by omega
    rw [String.toList_append, Nat.toList_repr, habs]
    rfl

/-- The minus sign is no digit. -/
theorem minus_append_ne (m n : Nat) (s t : List Char) :
    '-' :: Nat.toDigits 10 m ++ s ≠ Nat.toDigits 10 n ++ t := by
  intro h
  obtain ⟨c, rest, hdigits⟩ := List.exists_cons_of_ne_nil (Nat.toDigits_ne_nil (n := n) (b := 10))
  have hc : c.isDigit = true :=
    isDigit_of_mem_toDigits (n := n) (by rw [hdigits]; exact List.mem_cons_self)
  rw [hdigits] at h
  rw [← (List.cons.inj h).1] at hc
  exact absurd hc (by decide)

/-- An integer is told from its text: the sign, then the digits. -/
theorem discerned_int (i j : Int) : Discerned (toString i).toList (toString j).toList (i = j) := by
  intro s t hs ht h
  rw [toList_toString_int, toList_toString_int] at h
  -- a minus in front tells the signs apart, and the digits the rest
  by_cases hi : 0 ≤ i <;> by_cases hj : 0 ≤ j
  · rw [if_pos hi, if_pos hj] at h
    obtain ⟨habs, hrest⟩ := discerned_toDigits _ _ hs ht h
    exact ⟨by omega, hrest⟩
  · rw [if_pos hi, if_neg hj] at h
    exact (minus_append_ne _ _ _ _ h.symm).elim
  · rw [if_neg hi, if_pos hj] at h
    exact (minus_append_ne _ _ _ _ h).elim
  · rw [if_neg hi, if_neg hj] at h
    obtain ⟨habs, hrest⟩ := discerned_toDigits _ _ hs ht (List.cons.inj h).2
    exact ⟨by omega, hrest⟩

/-! ## Joined items -/

variable {α : Type} {write : α → String} {as bs : List α} {s t : List Char}

/-- What is written behind the first item. -/
def furtherItems (write : α → String) (items : List α) : List Char :=
  items.flatMap fun a => ',' :: ' ' :: (write a).toList

/-- What stands behind the last of some items: it does not read as a further digit, a further item
    or, if there are no items, the first one. -/
structure Ends (write : α → String) (items : List α) (s : List Char) : Prop where
  stops : Stops s
  separator : ∀ x, s ≠ ',' :: ' ' :: x
  item : ∀ a ∈ items, ∀ x, s ≠ (write a).toList ++ x

/-- Joined items are the first one and the further ones, each behind a comma. -/
theorem toList_join_cons (a : α) (as : List α) :
    (join ", " ((a :: as).map write)).toList = (write a).toList ++ furtherItems write as := by
  induction as generalizing a with
  | nil => simp [join, furtherItems]
  | cons b as ih =>
    have hrest := ih b
    rw [List.map_cons] at hrest
    rw [List.map_cons, List.map_cons, join, String.toList_append, String.toList_append, hrest]
    simp [furtherItems]

/-- Behind an item there is a comma or the end. -/
theorem stops_furtherItems (items : List α) (hs : Stops s) :
    Stops (furtherItems write items ++ s) := by
  cases items with
  | nil => exact hs
  | cons a as => exact stops_cons (by decide) _

/-- Further items are told where no comma follows them. -/
private theorem furtherItems_append_inj
    (hitems : ∀ a ∈ as, ∀ b ∈ bs, Discerned (write a).toList (write b).toList (a = b))
    (hs : Stops s) (ht : Stops t) (hs' : ∀ x, s ≠ ',' :: ' ' :: x) (ht' : ∀ x, t ≠ ',' :: ' ' :: x)
    (h : furtherItems write as ++ s = furtherItems write bs ++ t) : as = bs ∧ s = t := by
  -- item by item: where one list is at its end, the other has no comma to go on with
  induction as generalizing bs with
  | nil =>
    cases bs with
    | nil => exact ⟨rfl, h⟩
    | cons b bs => exact absurd h (hs' _)
  | cons a as ih =>
    cases bs with
    | nil => exact absurd h.symm (ht' _)
    | cons b bs =>
      have hfirst : (write a).toList ++ (furtherItems write as ++ s) =
          (write b).toList ++ (furtherItems write bs ++ t) := by
        simpa [furtherItems] using h
      obtain ⟨rfl, hrest⟩ := hitems a List.mem_cons_self b List.mem_cons_self
        (stops_furtherItems as hs) (stops_furtherItems bs ht) hfirst
      obtain ⟨rfl, rfl⟩ := ih (fun a ha b hb =>
        hitems a (List.mem_cons_of_mem _ ha) b (List.mem_cons_of_mem _ hb)) hrest
      exact ⟨rfl, rfl⟩

/-- Joined items are told apart up to their end. -/
theorem join_append_inj
    (hitems : ∀ a ∈ as, ∀ b ∈ bs, Discerned (write a).toList (write b).toList (a = b))
    (hs : Ends write bs s) (ht : Ends write as t)
    (h : (join ", " (as.map write)).toList ++ s = (join ", " (bs.map write)).toList ++ t) :
    as = bs ∧ s = t := by
  -- the first items have no comma in front of them
  cases as with
  | nil =>
    cases bs with
    | nil => exact ⟨rfl, h⟩
    | cons b bs =>
      rw [toList_join_cons, List.append_assoc] at h
      exact absurd h (hs.item b List.mem_cons_self _)
  | cons a as =>
    cases bs with
    | nil =>
      rw [toList_join_cons, List.append_assoc] at h
      exact absurd h.symm (ht.item a List.mem_cons_self _)
    | cons b bs =>
      rw [toList_join_cons, toList_join_cons, List.append_assoc, List.append_assoc] at h
      obtain ⟨rfl, hrest⟩ := hitems a List.mem_cons_self b List.mem_cons_self
        (stops_furtherItems as hs.stops) (stops_furtherItems bs ht.stops) h
      -- behind the first items each item has a comma in front of it
      obtain ⟨rfl, rfl⟩ := furtherItems_append_inj (fun a ha b hb =>
        hitems a (List.mem_cons_of_mem _ ha) b (List.mem_cons_of_mem _ hb))
        hs.stops ht.stops hs.separator ht.separator hrest
      exact ⟨rfl, rfl⟩

end Conform.Text
