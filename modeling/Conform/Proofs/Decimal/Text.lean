import Conform.Decimal.Reader
import Conform.Proofs.Text.Blank

/-!
# Reading a decimal number as it was written

`Decimal.textChars` writes all digits of a number, so that its sign, its mantissa and its scale can
be read back. Only the sign of zero is lost, since a zero that is read has none. Main statements:
`Decimal.ofText?_trim_text`, and `Decimal.eq_of_text_eq`, by which even the two zeros are written
differently.
-/

namespace Conform.Decimal

variable {d : Decimal} {c : Char}

/-- A zero with a sign, which is written but not read. -/
def IsNegativeZero (d : Decimal) : Prop :=
  d.negative = true ∧ d.mantissa = 0

/-! ## Digits -/

/-- The digits of the format are the decimal digits. -/
theorem isDigit_eq (c : Char) : isDigit c = c.isDigit := by
  rw [isDigit, Char.isDigit, Bool.and_eq_decide, Bool.and_eq_decide]
  rfl

/-- The number of some digits is found from left to right. -/
theorem ofDigits_digitValues {digits : List Char} (h : ∀ c ∈ digits, isDigit c = true) :
    ofDigits (digitValues digits) = Nat.ofDigitChars 10 digits 0 := by
  have hstep : (fun n c => n * 10 + digitValue c) =
      fun n (c : Char) => 10 * n + (c.toNat - '0'.toNat) := by
    funext n c
    rw [Nat.mul_comm]; rfl
  rw [digitValues, List.filter_eq_self.mpr h, ofDigits, List.foldl_map, hstep, Nat.ofDigitChars]

/-- Further digits make a number larger. -/
theorem le_ofDigitChars (digits : List Char) (n : Nat) : n ≤ Nat.ofDigitChars 10 digits n := by
  rw [Nat.ofDigitChars_eq_ofDigitChars_zero]
  have hpow : 1 * n ≤ 10 ^ digits.length * n :=
    Nat.mul_le_mul_right n (Nat.pow_pos (by decide))
  omega

/-- Digits that fit are appended, each behind the point. -/
theorem appendPart_digits {part : List Char} (hdigits : ∀ c ∈ part, isDigit c = true)
    {mantissa scale : Nat} (hmantissa : Nat.ofDigitChars 10 part mantissa < 1 <<< 96)
    (hscale : scale + part.length ≤ 28) :
    appendPart mantissa scale part =
      some (Nat.ofDigitChars 10 part mantissa, scale + part.length) := by
  induction part generalizing mantissa scale with
  | nil => rfl
  | cons c rest ih =>
    have ⟨hc, hrest⟩ := List.forall_mem_cons.mp hdigits
    have hunderscore : c ≠ '_' := by rintro rfl; exact absurd hc (by decide)
    have hnext : mantissa * 10 + digitValue c = 10 * mantissa + (c.toNat - '0'.toNat) := by
      rw [Nat.mul_comm]; rfl
    rw [Nat.ofDigitChars_cons, ← hnext] at hmantissa ⊢
    rw [List.length_cons] at hscale ⊢
    -- the number only grows with further digits, so that it fits at every one of them
    have hfits := Nat.lt_of_le_of_lt (le_ofDigitChars rest _) hmantissa
    have hroom : (scale < 28 && mantissa * 10 + digitValue c < 1 <<< 96) = true :=
      Bool.and_eq_true_iff.mpr ⟨decide_eq_true (by omega), decide_eq_true hfits⟩
    rw [appendPart.eq_3 _ _ _ _ hunderscore, if_pos hroom, ih hrest hmantissa (by omega),
      Nat.add_assoc, Nat.add_comm 1]

/-! ## What is written -/

/-- The digits of the mantissa behind as many zeros as the scale asks for. -/
def padded (d : Decimal) : List Char :=
  let digits := Nat.toDigits 10 d.mantissa
  List.replicate (d.scale + 1 - digits.length) '0' ++ digits

/-- The digits in front of the point. -/
def whole (d : Decimal) : List Char :=
  d.padded.take (d.padded.length - d.scale)

/-- The digits behind the point. -/
def part (d : Decimal) : List Char :=
  d.padded.drop (d.padded.length - d.scale)

/-- Sign, whole digits, and the point with the fractional digits if there are any. -/
theorem textChars_eq (d : Decimal) :
    d.textChars = (if d.negative then ['-'] else []) ++ d.whole ++
      (if d.scale = 0 then [] else '.' :: d.part) := rfl

/-- The whole and the fractional digits are all the digits. -/
theorem whole_append_part : d.whole ++ d.part = d.padded := List.take_append_drop ..

/-- There is at least one digit before the point. -/
theorem scale_lt_length_padded : d.scale < d.padded.length := by
  rw [padded, List.length_append, List.length_replicate]
  omega

/-- There are as many fractional digits as the scale says. -/
theorem length_part : d.part.length = d.scale := by
  have := scale_lt_length_padded (d := d)
  rw [part, List.length_drop]
  omega

/-- All padded digits are digits, the zeros in front included. -/
theorem isDigit_of_mem_padded (h : c ∈ d.padded) : isDigit c = true := by
  rw [isDigit_eq]
  obtain hzero | hdigit := List.mem_append.mp h
  · rw [List.eq_of_mem_replicate hzero]; rfl
  · exact Nat.isDigit_of_mem_toDigits (by decide) (by decide) hdigit

/-- The characters before the point are digits. -/
theorem isDigit_of_mem_whole (h : c ∈ d.whole) : isDigit c = true :=
  isDigit_of_mem_padded (List.mem_of_mem_take h)

/-- The characters after the point are digits. -/
theorem isDigit_of_mem_part (h : c ∈ d.part) : isDigit c = true :=
  isDigit_of_mem_padded (List.mem_of_mem_drop h)

/-- The digits on both sides of the point are those of the mantissa. -/
theorem ofDigitChars_whole_part :
    Nat.ofDigitChars 10 d.part (Nat.ofDigitChars 10 d.whole 0) = d.mantissa := by
  rw [← Nat.ofDigitChars_append, whole_append_part, padded, Nat.ofDigitChars_append,
    Nat.ofDigitChars_replicate_zero, Nat.mul_zero, Nat.ofDigitChars_ten_toDigits]

/-- The text starts with a digit, once the sign is read. -/
theorem exists_whole_eq_cons : ∃ c rest, d.whole = c :: rest ∧ isDigit c = true := by
  cases h : d.whole with
  | nil =>
    have hlength : d.whole.length = d.padded.length - d.scale := by
      rw [whole, List.length_take, Nat.min_eq_left (Nat.sub_le ..)]
    have := scale_lt_length_padded (d := d)
    rw [h, List.length_nil] at hlength
    omega
  | cons c rest => exact ⟨c, rest, rfl, isDigit_of_mem_whole (by rw [h]; exact List.mem_cons_self)⟩

/-! ## Reading it back -/

/-- What is written behind the sign. -/
def body (d : Decimal) : List Char :=
  d.whole ++ if d.scale = 0 then [] else '.' :: d.part

/-- A digit is not the point. -/
theorem ne_point_of_isDigit (h : isDigit c = true) : (c != '.') = true := by
  rw [bne_iff_ne]
  rintro rfl
  exact absurd h (by decide)

/-- Up to the point stand the whole digits. -/
theorem takeWhile_body : d.body.takeWhile (· != '.') = d.whole := by
  rw [body, List.takeWhile_append_of_pos fun c hc => ne_point_of_isDigit (isDigit_of_mem_whole hc)]
  split
  · exact List.append_nil _
  · exact List.append_nil _

/-- After the point stand the fractional digits. -/
theorem dropWhile_body : (d.body.dropWhile (· != '.')).drop 1 = d.part := by
  rw [body, List.dropWhile_append_of_pos fun c hc => ne_point_of_isDigit (isDigit_of_mem_whole hc)]
  split
  next hscale =>
    have hpart : d.part.length = 0 := by rw [length_part, hscale]
    rw [List.eq_nil_of_length_eq_zero hpart]
    rfl
  next => rfl

/-- The sign is read back, a minus or none. -/
theorem splitSign_textChars : splitSign d.textChars = (d.negative, d.body) := by
  rw [textChars_eq, List.append_assoc]
  show splitSign ((if d.negative then ['-'] else []) ++ d.body) = _
  cases d.negative with
  | true => rfl
  | false =>
    -- the first character is a digit, hence no sign
    obtain ⟨c, rest, hwhole, hc⟩ := exists_whole_eq_cons (d := d)
    rw [body, hwhole]
    show splitSign (c :: _) = _
    unfold splitSign
    split
    next heq => cases heq; exact absurd hc (by decide)
    next heq => cases heq; exact absurd hc (by decide)
    next => rfl

/-- A character that is written behind the sign is a digit or the point. -/
theorem isDigit_or_point_of_mem_body (h : c ∈ d.body) : isDigit c = true ∨ c = '.' := by
  obtain hwhole | hpart := List.mem_append.mp h
  · exact .inl (isDigit_of_mem_whole hwhole)
  · split at hpart
    · exact absurd hpart List.not_mem_nil
    · obtain rfl | hpart := List.mem_cons.mp hpart
      · exact .inr rfl
      · exact .inl (isDigit_of_mem_part hpart)

/-- There is at most one point. -/
theorem count_point_body : d.body.count '.' ≤ 1 := by
  have hpoint (digits : List Char) (h : ∀ c ∈ digits, isDigit c = true) : digits.count '.' = 0 :=
    List.count_eq_zero.mpr fun hmem => absurd (h '.' hmem) (by decide)
  rw [body, List.count_append, hpoint d.whole fun c => isDigit_of_mem_whole]
  split
  · exact Nat.zero_le 1
  · have hpart : d.part.count '.' = 0 := hpoint d.part fun c => isDigit_of_mem_part
    have hcount : ('.' :: d.part).count '.' = 1 :=
      List.count_cons_self.trans (congrArg (· + 1) hpart)
    exact Nat.le_of_eq ((Nat.zero_add _).trans hcount)

/-- The text is in plain form, so that it is not taken for a scientific one. -/
theorem isPlainForm_body : isPlainForm d.body = true := by
  have hall : d.body.all (fun c => isDigit c || c == '_' || c == '.') = true := by
    refine List.all_eq_true.mpr fun c hc => ?_
    obtain hdigit | rfl := isDigit_or_point_of_mem_body hc
    · rw [hdigit]; rfl
    · rfl
  -- without the point the body still starts with the whole part, which is not empty
  have hfirst : ((d.body.filter (· != '.')).head?.map isDigit).getD false = true := by
    obtain ⟨c, rest, hwhole, hc⟩ := exists_whole_eq_cons (d := d)
    rw [body, hwhole, List.cons_append,
      List.filter_cons_of_pos (p := (· != '.')) (ne_point_of_isDigit hc)]
    exact hc
  rw [isPlainForm, hall, hfirst, decide_eq_true count_point_body]
  rfl

/-- A number that is no negative zero is read as it was written. -/
theorem ofPlain?_textChars (h : ¬ d.IsNegativeZero) : ofPlain? d.textChars = some d := by
  have hnumber := ofDigitChars_whole_part (d := d)
  have hmantissa : Nat.ofDigitChars 10 d.part (Nat.ofDigitChars 10 d.whole 0) < 1 <<< 96 := by
    rw [hnumber]; exact d.mantissa_lt
  have hwhole : Nat.ofDigitChars 10 d.whole 0 < 1 <<< 96 :=
    Nat.lt_of_le_of_lt (le_ofDigitChars d.part _) hmantissa
  have hscale : 0 + d.part.length ≤ 28 := by
    rw [Nat.zero_add, length_part]; exact d.scale_le
  -- the sign is dropped of a zero only
  have hsign : (d.negative && d.mantissa != 0) = d.negative := by
    cases hnegative : d.negative with
    | false => rfl
    | true => exact bne_iff_ne.mpr fun hzero => h ⟨hnegative, hzero⟩
  rw [ofPlain?, splitSign_textChars]
  simp only [isPlainForm_body, Bool.not_true, Bool.false_eq_true, if_false, takeWhile_body,
    dropWhile_body, ofDigits_digitValues fun c => isDigit_of_mem_whole (c := c), if_pos hwhole,
    appendPart_digits (fun c => isDigit_of_mem_part (c := c)) hmantissa hscale, hnumber, hsign,
    Nat.zero_add, length_part, ofParts?]
  rw [dif_pos ⟨d.mantissa_lt, d.scale_le⟩]

/-! ## Blank characters -/

/-- No digit is a blank. -/
theorem isBlank_of_isDigit (h : isDigit c = true) : Text.isBlank c = false := by
  obtain ⟨hlower, hupper⟩ := Bool.and_eq_true_iff.mp h
  have hlower : 48 ≤ c.toNat := UInt32.le_iff_toNat_le.mp (of_decide_eq_true hlower)
  have hupper : c.toNat ≤ 57 := UInt32.le_iff_toNat_le.mp (of_decide_eq_true hupper)
  simp only [Text.isBlank, Bool.or_eq_false_iff, Bool.and_eq_false_iff, decide_eq_false_iff_not,
    beq_eq_false_iff_ne]
  omega

/-- No character of a number in writing is blank. -/
theorem isBlank_of_mem_textChars (h : c ∈ d.textChars) : Text.isBlank c = false := by
  rw [textChars_eq, List.append_assoc] at h
  obtain hsign | hbody := List.mem_append.mp h
  · split at hsign
    · rw [List.mem_singleton.mp hsign]; rfl
    · exact absurd hsign List.not_mem_nil
  · obtain hc | rfl := isDigit_or_point_of_mem_body hbody
    · exact isBlank_of_isDigit hc
    · rfl

/-- A number in writing has nothing around it that is trimmed. -/
theorem trim_text : Text.trim d.text = d.text := by
  have htext : d.text.toList = d.textChars := String.toList_ofList
  refine Text.trim_eq_self ⟨?_, ?_⟩
  · rw [htext]
    exact fun c hc => isBlank_of_mem_textChars (List.mem_of_mem_head? hc)
  · rw [htext]
    exact fun c hc => isBlank_of_mem_textChars (List.mem_of_getLast? hc)

/-- A number that is no negative zero is what its own text is read as. -/
theorem ofText?_trim_text (h : ¬ d.IsNegativeZero) : ofText? (Text.trim d.text) = some d := by
  rw [trim_text, ofText?, text, String.toList_ofList, ofChars?, ofPlain?_textChars h]
  rfl

/-! ## Different numbers -/

/-- Numbers in writing tell apart even those that are equal as numbers, and the two zeros too. -/
theorem eq_of_text_eq {d' : Decimal} (h : d.text = d'.text) : d = d' := by
  have hchars : d.textChars = d'.textChars := String.ofList_injective h
  have hsplit := congrArg splitSign hchars
  rw [splitSign_textChars, splitSign_textChars, Prod.mk.injEq] at hsplit
  obtain ⟨hsign, hbody⟩ := hsplit
  -- the text gives back the sign, the digits and how many stand behind the point
  have hwhole : d.whole = d'.whole := by rw [← takeWhile_body, hbody, takeWhile_body]
  have hpart : d.part = d'.part := by rw [← dropWhile_body, hbody, dropWhile_body]
  have hscale : d.scale = d'.scale := by rw [← length_part, hpart, length_part]
  have hmantissa : d.mantissa = d'.mantissa := by
    rw [← ofDigitChars_whole_part, hwhole, hpart, ofDigitChars_whole_part]
  cases d
  cases d'
  rw [mk.injEq]
  exact ⟨hsign, hmantissa, hscale⟩

/-- No character of a number in writing closes a bracket. -/
theorem closingParenthesis_not_mem_textChars : ')' ∉ d.textChars := by
  rw [textChars_eq, List.append_assoc]
  intro h
  obtain hsign | hbody := List.mem_append.mp h
  · split at hsign
    · exact absurd (List.mem_singleton.mp hsign) (by decide)
    · exact absurd hsign List.not_mem_nil
  · obtain hdigit | hpoint := isDigit_or_point_of_mem_body hbody
    · exact absurd hdigit (by decide)
    · exact absurd hpoint (by decide)

end Conform.Decimal
