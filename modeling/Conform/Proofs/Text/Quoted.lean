import Conform.Json
import Conform.Text.Quoted

/-!
# Quoted texts can be read back

`Text.unescape?` reads the first character behind an opening quote, and `Text.unescapeByte?` the
first byte. They read what has been written (`Text.unescape?_escapeChar`,
`Text.unescapeByte?_escapeByte`), so that what stands between quotes ends at the first quote that is
not escaped, and no two texts have one quoted form (`Text.quote_append_inj`,
`Text.quoteBytes_append_inj`).
-/

namespace Conform.Text

/-! ## Hexadecimal digits -/

/-- The number of some hexadecimal digits. -/
def ofHexDigits (digits : List Char) : Nat :=
  digits.foldl (fun n c => n * 16 + (Json.hexValue? c).getD 0) 0

/-- A hexadecimal digit is read back. -/
theorem hexValue?_digitChar {n : Nat} (h : n < 16) : Json.hexValue? n.digitChar = some n := by
  have hall : ∀ m : Fin 16, Json.hexValue? m.val.digitChar = some m.val := by decide
  exact hall ⟨n, h⟩

/-- A number that is written with hexadecimal digits is read back. -/
theorem ofHexDigits_toDigits (n : Nat) : ofHexDigits (Nat.toDigits 16 n) = n := by
  -- on the number, of which the last digit is the remainder
  induction n using Nat.strongRecOn with
  | ind n ih =>
    by_cases hn : n < 16
    · rw [Nat.toDigits_of_lt_base hn, ofHexDigits, List.foldl_cons, List.foldl_nil,
        hexValue?_digitChar hn, Option.getD_some, Nat.zero_mul, Nat.zero_add]
    · have hdigits : Nat.toDigits 16 n = Nat.toDigits 16 (n / 16) ++ [(n % 16).digitChar] :=
        Nat.toDigits_of_base_le (by decide) (Nat.le_of_not_lt hn)
      have hrest := ih (n / 16) (by omega)
      rw [ofHexDigits] at hrest
      rw [hdigits, ofHexDigits, List.foldl_append, hrest, List.foldl_cons, List.foldl_nil,
        hexValue?_digitChar (Nat.mod_lt n (by decide)), Option.getD_some]
      omega

/-- No digit closes the brace. -/
theorem closingBrace_not_mem_toDigits (n : Nat) : '\x7d' ∉ Nat.toDigits 16 n := by
  induction n using Nat.strongRecOn with
  | ind n ih =>
    by_cases hn : n < 16
    · rw [Nat.toDigits_of_lt_base hn, List.mem_singleton]
      exact (Nat.digitChar_ne '\x7d' (by decide)).symm
    · have hdigits : Nat.toDigits 16 n = Nat.toDigits 16 (n / 16) ++ [(n % 16).digitChar] :=
        Nat.toDigits_of_base_le (by decide) (Nat.le_of_not_lt hn)
      rw [hdigits, List.mem_append, List.mem_singleton, not_or]
      exact ⟨ih (n / 16) (by omega), (Nat.digitChar_ne '\x7d' (by decide)).symm⟩

/-! ## Characters -/

/-- Reads a character that is written inside double quotes, and gives what is left behind it. -/
def unescape? : List Char → Option (Char × List Char)
  | [] => none
  | '\\' :: '"' :: rest => some ('"', rest)
  | '\\' :: '\\' :: rest => some ('\\', rest)
  | '\\' :: 'n' :: rest => some ('\n', rest)
  | '\\' :: 'r' :: rest => some ('\r', rest)
  | '\\' :: 't' :: rest => some ('\t', rest)
  | '\\' :: '0' :: rest => some ('\x00', rest)
  | '\\' :: 'u' :: '\x7b' :: rest =>
    some (Char.ofNat (ofHexDigits (rest.takeWhile (· != '\x7d'))),
      (rest.dropWhile (· != '\x7d')).drop 1)
  | c :: rest => some (c, rest)

/-- An escaped code point is read back, whatever follows. -/
theorem unescape?_escapeCode (c : Char) (rest : List Char) :
    unescape? (escapeCode c.toNat ++ rest) = some (c, rest) := by
  -- the code ends at the first closing brace, which is no digit
  have hdigits : ∀ d ∈ Nat.toDigits 16 c.toNat, (d != '\x7d') = true := by
    rintro d hd
    rw [bne_iff_ne]
    rintro rfl
    exact closingBrace_not_mem_toDigits _ hd
  have hcode : escapeCode c.toNat ++ rest =
      '\\' :: 'u' :: '\x7b' :: (Nat.toDigits 16 c.toNat ++ '\x7d' :: rest) := by
    simp [escapeCode]
  rw [hcode, unescape?, List.takeWhile_append_of_pos hdigits, List.dropWhile_append_of_pos hdigits]
  simp [ofHexDigits_toDigits]

/-- What is not escaped stands for itself. -/
theorem unescape?_cons {c : Char} (h : c ≠ '\\') (rest : List Char) :
    unescape? (c :: rest) = some (c, rest) := by
  rw [unescape?]
  all_goals simp [h]

/-- A character is read as it was written. -/
theorem unescape?_escapeChar (c : Char) (rest : List Char) :
    unescape? (escapeChar c ++ rest) = some (c, rest) := by
  rw [escapeChar]
  -- the characters with a name of their own come first
  by_cases hquote : c = '"'
  · subst hquote; rfl
  by_cases hbackslash : c = '\\'
  · subst hbackslash; rfl
  by_cases hnewline : c = '\n'
  · subst hnewline; rfl
  by_cases hreturn : c = '\r'
  · subst hreturn; rfl
  by_cases htab : c = '\t'
  · subst htab; rfl
  by_cases hzero : c.toNat = 0
  · have hc : c = '\x00' := by rw [← Char.ofNat_toNat c, hzero]
    subst hc; rfl
  -- all others are written as they are or by their code point
  have hplain := unescape?_cons hbackslash rest
  simp only [hquote, hbackslash, hnewline, hreturn, htab, hzero, if_false]
  split
  · exact unescape?_escapeCode c rest
  split
  · exact hplain
  split
  · exact unescape?_escapeCode c rest
  · exact hplain

/-- No character is written with a quote in front. -/
theorem escapeChar_append_ne (c : Char) (s t : List Char) : escapeChar c ++ s ≠ '"' :: t := by
  intro h
  have hread := unescape?_escapeChar c s
  rw [h, unescape?_cons (by decide), Option.some.injEq, Prod.mk.injEq] at hread
  obtain ⟨rfl, rfl⟩ := hread
  cases h

/-- Written characters are told apart, whatever follows them. -/
theorem escapeChar_append_inj {c d : Char} {s t : List Char}
    (h : escapeChar c ++ s = escapeChar d ++ t) : c = d ∧ s = t := by
  have hread := unescape?_escapeChar c s
  rw [h, unescape?_escapeChar, Option.some.injEq, Prod.mk.injEq] at hread
  exact ⟨hread.1.symm, hread.2.symm⟩

/-! ## Bytes -/

/-- Reads a byte that is written inside double quotes, and gives what is left behind it. -/
def unescapeByte? : List Char → Option (UInt8 × List Char)
  | [] => none
  | '\\' :: 't' :: rest => some (9, rest)
  | '\\' :: 'n' :: rest => some (10, rest)
  | '\\' :: 'r' :: rest => some (13, rest)
  | '\\' :: '"' :: rest => some (34, rest)
  | '\\' :: '\x27' :: rest => some (39, rest)
  | '\\' :: '\\' :: rest => some (92, rest)
  | '\\' :: 'x' :: high :: low :: rest => some (UInt8.ofNat (ofHexDigits [high, low]), rest)
  | c :: rest => some (UInt8.ofNat c.toNat, rest)

/-- A byte that is not escaped stands for itself. -/
theorem unescapeByte?_cons {c : Char} (h : c ≠ '\\') (rest : List Char) :
    unescapeByte? (c :: rest) = some (UInt8.ofNat c.toNat, rest) := by
  rw [unescapeByte?]
  all_goals simp [h]

/-- A byte that is written in hexadecimal is read back. -/
theorem unescapeByte?_hexByte (b : UInt8) (rest : List Char) :
    unescapeByte? ('\\' :: 'x' :: hexByte b ++ rest) = some (b, rest) := by
  have hhigh : b.toNat / 16 < 16 := by have := b.toNat_lt; omega
  have hlow : b.toNat % 16 < 16 := Nat.mod_lt _ (by decide)
  have hnumber : ofHexDigits (hexByte b) = b.toNat := by
    rw [hexByte, ofHexDigits, List.foldl_cons, List.foldl_cons, List.foldl_nil,
      hexValue?_digitChar hhigh, hexValue?_digitChar hlow, Option.getD_some, Option.getD_some]
    omega
  have hread : unescapeByte? ('\\' :: 'x' :: hexByte b ++ rest) =
      some (UInt8.ofNat (ofHexDigits (hexByte b)), rest) := rfl
  rw [hread, hnumber, UInt8.ofNat_toNat]

/-- A byte is read as it was written. -/
theorem unescapeByte?_escapeByte (b : UInt8) (rest : List Char) :
    unescapeByte? (escapeByte b ++ rest) = some (b, rest) := by
  rw [escapeByte]
  -- the bytes with a name of their own come first
  by_cases htab : b = 9
  · subst htab; rfl
  by_cases hnewline : b = 10
  · subst hnewline; rfl
  by_cases hreturn : b = 13
  · subst hreturn; rfl
  by_cases hquote : b = 34
  · subst hquote; rfl
  by_cases hsingle : b = 39
  · subst hsingle; rfl
  by_cases hbackslash : b = 92
  · subst hbackslash; rfl
  simp only [htab, hnewline, hreturn, hquote, hsingle, hbackslash, if_false]
  split
  next hprintable =>
    have hlt : b.toNat < 127 :=
      UInt8.lt_iff_toNat_lt.mp (of_decide_eq_true (Bool.and_eq_true_iff.mp hprintable).2)
    -- a printable byte is the code of its character
    have hascii : ∀ n : Fin 127, (Char.ofNat n.val).toNat = n.val := by decide
    have htoNat : (Char.ofNat b.toNat).toNat = b.toNat := hascii ⟨b.toNat, hlt⟩
    have hne : Char.ofNat b.toNat ≠ '\\' := by
      intro hc
      rw [hc] at htoNat
      exact hbackslash (UInt8.toNat_inj.mp htoNat.symm)
    rw [List.singleton_append, unescapeByte?_cons hne, htoNat, UInt8.ofNat_toNat]
  next => exact unescapeByte?_hexByte b rest

/-- No byte is written with a quote in front. -/
theorem escapeByte_append_ne (b : UInt8) (s t : List Char) : escapeByte b ++ s ≠ '"' :: t := by
  intro h
  have hread := unescapeByte?_escapeByte b s
  rw [h, unescapeByte?_cons (by decide), Option.some.injEq, Prod.mk.injEq] at hread
  obtain ⟨rfl, rfl⟩ := hread
  cases h

/-- Written bytes are told apart, whatever follows them. -/
theorem escapeByte_append_inj {b b' : UInt8} {s t : List Char}
    (h : escapeByte b ++ s = escapeByte b' ++ t) : b = b' ∧ s = t := by
  have hread := unescapeByte?_escapeByte b s
  rw [h, unescapeByte?_escapeByte, Option.some.injEq, Prod.mk.injEq] at hread
  exact ⟨hread.1.symm, hread.2.symm⟩

/-! ## Between quotes -/

/-- Items that are told apart whatever follows, and that are not written like the quote, are told
    apart up to the first quote. -/
private theorem flatMap_append_inj {α : Type} {write : α → List Char}
    (hwrite : ∀ a b s t, write a ++ s = write b ++ t → a = b ∧ s = t)
    (hquote : ∀ a s t, write a ++ s ≠ '"' :: t) {as bs : List α} {s t : List Char}
    (h : as.flatMap write ++ '"' :: s = bs.flatMap write ++ '"' :: t) : as = bs ∧ s = t := by
  -- one character after the other; no escape starts with the closing quote
  induction as generalizing bs with
  | nil =>
    cases bs with
    | nil => exact ⟨rfl, (List.cons.inj h).2⟩
    | cons b bs =>
      rw [List.flatMap_cons, List.append_assoc] at h
      exact absurd h.symm (hquote b _ _)
  | cons a as ih =>
    cases bs with
    | nil =>
      rw [List.flatMap_cons, List.append_assoc] at h
      exact absurd h (hquote a _ _)
    | cons b bs =>
      rw [List.flatMap_cons, List.flatMap_cons, List.append_assoc, List.append_assoc] at h
      obtain ⟨rfl, hrest⟩ := hwrite a b _ _ h
      obtain ⟨rfl, rfl⟩ := ih hrest
      exact ⟨rfl, rfl⟩

/-- A quoted text is its characters between quotes, escaped. -/
theorem toList_quote (s : String) :
    (quote s).toList = '"' :: (s.toList.flatMap escapeChar ++ ['"']) := by
  rw [quote, String.toList_ofList]

/-- Quoted bytes are marked by a letter in front. -/
theorem toList_quoteBytes (b : List UInt8) :
    (quoteBytes b).toList = 'b' :: '"' :: (b.flatMap escapeByte ++ ['"']) := by
  rw [quoteBytes, String.toList_ofList]

/-- A quoted text ends where it is closed: it can be told from any other, whatever follows. -/
theorem quote_append_inj {a b : String} {s t : List Char}
    (h : (quote a).toList ++ s = (quote b).toList ++ t) : a = b ∧ s = t := by
  rw [toList_quote, toList_quote] at h
  have hbody : a.toList.flatMap escapeChar ++ '"' :: s =
      b.toList.flatMap escapeChar ++ '"' :: t := by
    simpa using h
  obtain ⟨hchars, hrest⟩ :=
    flatMap_append_inj (fun c d s t => escapeChar_append_inj) escapeChar_append_ne hbody
  exact ⟨String.toList_inj.mp hchars, hrest⟩

/-- Quoted bytes end where they are closed. -/
theorem quoteBytes_append_inj {a b : List UInt8} {s t : List Char}
    (h : (quoteBytes a).toList ++ s = (quoteBytes b).toList ++ t) : a = b ∧ s = t := by
  rw [toList_quoteBytes, toList_quoteBytes] at h
  have hbody : a.flatMap escapeByte ++ '"' :: s = b.flatMap escapeByte ++ '"' :: t := by
    simpa using h
  exact flatMap_append_inj (fun c d s t => escapeByte_append_inj) escapeByte_append_ne hbody

end Conform.Text
