import Conform.Json
import Conform.Proofs.Decimal.Text

/-!
# A document is read without the white space around it

Every reader of documents goes by what it takes (`Json.Local`): the text that it leaves behind can
be cut off at any place without a change of the outcome. What a value takes starts and ends with
characters that are not blank (`Json.isBlank_of_readFrom`, `Json.Exact`), so that a document which
can be read is a value between white space, and nothing is lost if blanks are removed around it.
Main statement: `Json.read_trim`.
-/

namespace Conform.Json

variable {α β : Type}

/-- A reader of a part of a document. -/
abbrev PartReader (α : Type) := List Char → Except Failure (α × List Char)

/-- A reader goes by what it takes: whatever of the text it leaves can be cut off. -/
def Local (read : PartReader α) : Prop :=
  ∀ ⦃s : List Char⦄ ⦃a : α⦄ ⦃r w : List Char⦄, read s = .ok (a, r ++ w) →
    ∃ p, s = p ++ w ∧ read p = .ok (a, r)

/-- A sequence succeeds when both readers do. -/
theorem bind_eq_ok_iff {x : Except Failure α} {f : α → Except Failure β} {b : β} :
    (x >>= f) = .ok b ↔ ∃ a, x = .ok a ∧ f a = .ok b := by
  cases x with
  | error e => exact ⟨nofun, nofun⟩
  | ok a => exact ⟨fun h => ⟨a, rfl, h⟩, fun ⟨_, ha, h⟩ => by cases ha; exact h⟩

/-- To read nothing is local. -/
theorem Local.ok (a : α) : Local fun s => .ok (a, s) := by
  intro s a' r w h
  cases h
  exact ⟨r, rfl, rfl⟩

/-- To refuse is local. -/
theorem Local.error (e : Failure) : Local (fun _ => .error e : PartReader α) := nofun

/-- Readers that come one after the other go by what they take together. -/
theorem Local.bind {read : PartReader α} {next : α × List Char → Except Failure (β × List Char)}
    (hread : Local read) (hnext : ∀ a, Local fun s => next (a, s)) :
    Local fun s => read s >>= next := by
  intro s b r w h
  obtain ⟨⟨a, m⟩, ha, hb⟩ := bind_eq_ok_iff.mp h
  obtain ⟨m', rfl, hb'⟩ := hnext a hb
  obtain ⟨p, hp, ha'⟩ := hread ha
  exact ⟨p, hp, bind_eq_ok_iff.mpr ⟨(a, m'), ha', hb'⟩⟩

/-- A choice that does not look at the text is local. -/
theorem Local.ite {c : Prop} [Decidable c] {read other : PartReader α} (h : Local read)
    (h' : Local other) : Local fun s => if c then read s else other s := by
  split
  · exact h
  · exact h'

/-- What is left is no longer than the text. -/
theorem Local.length_le {read : PartReader α} (h : Local read) {s r : List Char} {a : α}
    (hs : read s = .ok (a, r)) : r.length ≤ s.length := by
  rw [← List.nil_append r] at hs
  obtain ⟨p, rfl, -⟩ := h hs
  rw [List.length_append]
  exact Nat.le_add_left ..

/-- The last character of a text is not blank. -/
def Solid (s : List Char) : Prop :=
  ∃ front c, s = front ++ [c] ∧ Text.isBlank c = false

/-- A character that is no blank is solid. -/
theorem solid_singleton {c : Char} (hc : Text.isBlank c = false) : Solid [c] := ⟨[], c, rfl, hc⟩

/-- Solid is a matter of the end. -/
theorem Solid.append {s : List Char} (h : Solid s) (front : List Char) : Solid (front ++ s) := by
  obtain ⟨middle, c, rfl, hc⟩ := h
  exact ⟨front ++ middle, c, (List.append_assoc ..).symm, hc⟩

/-- In front of a solid text there may be anything. -/
theorem Solid.cons {s : List Char} (h : Solid s) (c : Char) : Solid (c :: s) := h.append [c]

/-- A solid text has an end. -/
theorem Solid.ne_nil {s : List Char} (h : Solid s) : s ≠ [] := by
  obtain ⟨front, c, rfl, -⟩ := h
  exact List.append_ne_nil_of_right_ne_nil front (List.cons_ne_nil c [])

/-- What is left is the end of the text. -/
theorem Local.solid {read : PartReader α} (h : Local read) {s r : List Char} {a : α}
    (hs : read s = .ok (a, r)) (hr : Solid r) : Solid s := by
  rw [← List.nil_append r] at hs
  obtain ⟨p, rfl, -⟩ := h hs
  exact hr.append p

/-! ## Words and strings -/

/-- A word is read when the text starts with it. -/
theorem readWord_eq_ok_iff {word s r : List Char} : readWord word s = .ok r ↔ s = word ++ r := by
  induction word generalizing s with
  | nil => rw [readWord, Except.ok.injEq]; rfl
  | cons c word ih =>
    cases s with
    | nil => exact ⟨nofun, nofun⟩
    | cons d s =>
      rw [readWord]
      split
      next hcd => rw [ih, hcd, List.cons_append, List.cons_inj_right]
      next hcd => exact ⟨nofun, fun h => absurd (List.cons.inj h).1.symm hcd⟩

/-- To read a word and go on is local when what goes on is. -/
theorem Local.word {read : PartReader α} (h : Local read) (word : List Char) :
    Local fun s => readWord word s >>= read := by
  intro s a r w hs
  obtain ⟨m, hm, ha⟩ := bind_eq_ok_iff.mp hs
  obtain ⟨m', rfl, ha'⟩ := h ha
  rw [readWord_eq_ok_iff] at hm
  refine ⟨word ++ m', by rw [hm, List.append_assoc], ?_⟩
  exact bind_eq_ok_iff.mpr ⟨m', readWord_eq_ok_iff.mpr rfl, ha'⟩

/-- Every character takes at least one byte. -/
theorem le_foldl_utf8Size (s : List Char) (n : Nat) :
    n + s.length ≤ s.foldl (fun n c => n + c.utf8Size) n := by
  induction s generalizing n with
  | nil => exact Nat.le_refl n
  | cons c s ih =>
    have hrest := ih (n + c.utf8Size)
    have hpos := c.utf8Size_pos
    rw [List.foldl_cons, List.length_cons]
    omega

/-- Four hexadecimal digits are read without a look behind them. -/
theorem local_readHex : Local readHex := by
  intro s n r w h
  rw [readHex.eq_def] at h
  split at h
  · cases h
  split at h
  next a b c d rest _ =>
    split at h
    next ha hb hc hd =>
      cases h
      -- four characters are enough, whatever stood behind them
      have hbytes := le_foldl_utf8Size (a :: b :: c :: d :: r) 0
      have hlength : 4 ≤ (a :: b :: c :: d :: r).length := by simp only [List.length_cons]; omega
      refine ⟨a :: b :: c :: d :: r, rfl, ?_⟩
      rw [readHex, if_neg (by rw [byteCount]; omega)]
      simp only [ha, hb, hc, hd]
    · cases h
  · cases h

/-- An escaped unit is read alone, or with the second half of its pair. -/
theorem local_readUnicode : Local readUnicode := by
  refine local_readHex.bind fun unit => ?_
  refine (Local.error _).ite (Local.ite ?_ (Local.ok _))
  refine Local.word (local_readHex.bind fun second => ?_) _
  exact (Local.ok _).ite (Local.error _)

/-- An escape is read without a look behind it. -/
theorem local_readEscape : Local readEscape := by
  intro s c r w h
  unfold readEscape at h
  split at h
  case h_10 rest =>
    obtain ⟨p, rfl, hp⟩ := local_readUnicode h
    exact ⟨'u' :: p, rfl, hp⟩
  all_goals cases h <;> exact ⟨_ :: r, rfl, rfl⟩

/-- A string is read within its own length. -/
theorem readString_cut {fuel : Nat} {s cs r w : List Char}
    (h : readString fuel s = .ok (cs, r ++ w)) :
    ∃ p, s = p ++ w ∧ ∀ fuel', p.length ≤ fuel' → readString fuel' p = .ok (cs, r) := by
  fun_induction readString fuel s generalizing cs with
  | case1 | case2 | case5 => cases h
  | case3 fuel rest =>
    cases h
    refine ⟨'"' :: r, rfl, fun fuel' hfuel => ?_⟩
    cases fuel' with
    | zero => cases hfuel
    | succ fuel' => rfl
  -- the escape is cut first, and then what follows it
  | case4 fuel rest ih =>
    obtain ⟨⟨c, m⟩, hc, h⟩ := bind_eq_ok_iff.mp h
    obtain ⟨⟨cs', r'⟩, hcs, h⟩ := bind_eq_ok_iff.mp h
    cases h
    obtain ⟨m', rfl, hm⟩ := ih m hcs
    obtain ⟨p, rfl, hp⟩ := local_readEscape hc
    have hlength := local_readEscape.length_le hp
    refine ⟨'\\' :: p, rfl, fun fuel' hfuel => ?_⟩
    rw [List.length_cons] at hfuel
    cases fuel' with
    | zero => cases hfuel
    | succ fuel' =>
      have hrest := hm fuel' (by omega)
      exact bind_eq_ok_iff.mpr ⟨(c, m'), hp, bind_eq_ok_iff.mpr ⟨(cs', r), hrest, rfl⟩⟩
  -- a character that stands for itself, and the rest of the text
  | case6 fuel c rest hquote hbackslash hcontrol ih =>
    obtain ⟨⟨cs', r'⟩, hcs, h⟩ := bind_eq_ok_iff.mp h
    cases h
    obtain ⟨m', rfl, hm⟩ := ih hcs
    refine ⟨c :: m', rfl, fun fuel' hfuel => ?_⟩
    rw [List.length_cons] at hfuel
    cases fuel' with
    | zero => cases hfuel
    | succ fuel' =>
      have hrest := hm fuel' (by omega)
      rw [readString.eq_5 _ _ _ hquote hbackslash, if_neg hcontrol]
      exact bind_eq_ok_iff.mpr ⟨(cs', r), hrest, rfl⟩

/-- What is read behind an opening quote. -/
theorem local_readString : Local fun s => readString (s.length + 1) s := by
  intro s cs r w h
  obtain ⟨p, hs, hp⟩ := readString_cut h
  exact ⟨p, hs, hp _ (Nat.le_succ _)⟩

/-! ## Numbers -/

/-- What is dropped stands in front of all that is kept. -/
theorem dropWhile_of_dropWhile_eq {drop : Char → Bool} {s r w : List Char}
    (h : s.dropWhile drop = r ++ w) : r.dropWhile drop = r := by
  cases r with
  | nil => rfl
  | cons c r =>
    have hfirst := List.head?_dropWhile_not drop s
    rw [h] at hfirst
    exact List.dropWhile_cons_of_neg (Bool.eq_false_iff.mp hfirst)

/-- Digits end where the digits end, wherever the text behind them is cut off. -/
theorem spanDigits_cut {s digits r w : List Char} (h : spanDigits s = (digits, r ++ w)) :
    s = (digits ++ r) ++ w ∧ spanDigits (digits ++ r) = (digits, r) := by
  obtain ⟨hdigits, hrest⟩ := Prod.mk.inj h
  have hdrop := dropWhile_of_dropWhile_eq hrest
  -- what was read on did not start with a digit, cut or not
  have htake : r.takeWhile Decimal.isDigit = [] := by
    have hr := List.takeWhile_append_dropWhile (p := Decimal.isDigit) (l := r)
    rwa [hdrop, List.append_left_eq_self] at hr
  have hall : ∀ c ∈ digits, Decimal.isDigit c = true := by
    rw [← hdigits]
    exact List.all_eq_true.mp List.all_takeWhile
  constructor
  · rw [List.append_assoc, ← hrest, ← hdigits, List.takeWhile_append_dropWhile]
  · rw [spanDigits, List.takeWhile_append_of_pos hall, List.dropWhile_append_of_pos hall, htake,
      hdrop, List.append_nil]

/-- Digits are read up to the first character that is none, and there is at least one. -/
theorem readDigits_eq_ok_iff {s digits r : List Char} :
    readDigits s = .ok (digits, r) ↔ spanDigits s = (digits, r) ∧ digits ≠ [] := by
  -- one digit is asked for, and after it as many as there are
  cases s with
  | nil => exact ⟨nofun, fun ⟨h, hne⟩ => absurd (Prod.mk.inj h).1.symm hne⟩
  | cons c rest =>
    rw [readDigits]
    split
    next hc =>
      rw [Except.ok.injEq]
      refine ⟨fun h => ⟨h, ?_⟩, And.left⟩
      rw [← (Prod.mk.inj h).1, List.takeWhile_cons_of_pos hc]
      exact List.cons_ne_nil _ _
    next hc =>
      refine ⟨nofun, fun ⟨h, hne⟩ => absurd ?_ hne⟩
      rw [← (Prod.mk.inj h).1, List.takeWhile_cons_of_neg hc]

/-- Digits end where they end, whatever is cut off behind. -/
theorem local_readDigits : Local readDigits := by
  intro s digits r w h
  obtain ⟨hspan, hne⟩ := readDigits_eq_ok_iff.mp h
  obtain ⟨hs, hcut⟩ := spanDigits_cut hspan
  exact ⟨digits ++ r, hs, readDigits_eq_ok_iff.mpr ⟨hcut, hne⟩⟩

/-- The digits before the point. -/
theorem local_readWhole : Local readWhole := by
  refine local_readDigits.bind fun digits => ?_
  exact (Local.error _).ite (Local.ok _)

/-- The point and the digits after it, if there is a point. -/
theorem local_readPart : Local readPart := by
  intro s part r w h
  unfold readPart at h
  split at h
  next rest =>
    have hlocal : Local fun s => readDigits s >>= fun x => .ok (some x.1, x.2) :=
      local_readDigits.bind fun digits => Local.ok (some digits)
    obtain ⟨p, rfl, hp⟩ := hlocal h
    exact ⟨'.' :: p, rfl, hp⟩
  -- without a point nothing is taken, whatever follows
  next hpoint =>
    cases h
    refine ⟨r, rfl, ?_⟩
    rw [readPart]
    rintro rest rfl
    exact hpoint _ rfl

/-- A sign is taken from the front, so that a cut behind it is not noticed. -/
theorem splitSign_cut {s p w : List Char} {negative : Bool}
    (h : Decimal.splitSign s = (negative, p ++ w)) :
    ∃ q, s = q ++ w ∧ Decimal.splitSign q = (negative, p) := by
  unfold Decimal.splitSign at h
  split at h
  · cases h; exact ⟨'-' :: p, rfl, rfl⟩
  · cases h; exact ⟨'+' :: p, rfl, rfl⟩
  -- a text without a sign is left whole, and so is its front
  next hminus hplus =>
    cases h
    refine ⟨p, rfl, ?_⟩
    rw [Decimal.splitSign]
    · rintro rest rfl; exact hminus _ rfl
    · rintro rest rfl; exact hplus _ rfl

/-- The exponent that some digits stand for. -/
def exponentValue (negative : Bool) (digits : List Char) : Int :=
  let magnitude : Int := Decimal.ofDigits (Decimal.digitValues digits)
  if negative then -magnitude else magnitude

/-- An exponent starts with its letter. -/
theorem readExponent_cons (c : Char) (rest : List Char) :
    readExponent (c :: rest) =
      if c = 'e' || c = 'E' then
        readDigits (Decimal.splitSign rest).2 >>= fun x =>
          .ok (some (exponentValue (Decimal.splitSign rest).1 x.1), x.2)
      else .ok (none, c :: rest) := rfl

/-- The exponent, if there is one. -/
theorem local_readExponent : Local readExponent := by
  intro s exponent r w h
  cases s with
  | nil =>
    obtain ⟨rfl, hnil⟩ := Prod.mk.inj (Except.ok.inj h)
    obtain ⟨rfl, rfl⟩ := List.append_eq_nil_iff.mp hnil.symm
    exact ⟨[], rfl, rfl⟩
  | cons c rest =>
    rw [readExponent_cons] at h
    split at h
    -- behind the letter stand a sign and digits, which are cut as they are read
    next hc =>
      obtain ⟨⟨digits, r'⟩, hdigits, h⟩ := bind_eq_ok_iff.mp h
      cases h
      obtain ⟨p, hp, hdigits'⟩ := local_readDigits hdigits
      obtain ⟨q, rfl, hq⟩ := splitSign_cut (Prod.ext rfl hp)
      refine ⟨c :: q, rfl, ?_⟩
      rw [readExponent_cons, if_pos hc, hq]
      exact bind_eq_ok_iff.mpr ⟨(digits, r), hdigits', rfl⟩
    -- without the letter nothing is read, and none is read without what was cut off either
    next hc =>
      obtain ⟨rfl, hr⟩ := Prod.mk.inj (Except.ok.inj h)
      refine ⟨r, hr, ?_⟩
      cases r with
      | nil => rfl
      | cons d r =>
        obtain ⟨rfl, -⟩ := List.cons.inj hr
        rw [readExponent_cons, if_neg hc]

/-- A number is a whole part, a fraction and an exponent in a row. -/
theorem local_readNumber (negative : Bool) : Local (readNumber negative) := by
  refine local_readWhole.bind fun whole => ?_
  refine local_readPart.bind fun part => ?_
  refine local_readExponent.bind fun exponent => ?_
  show Local fun s => numberValue negative whole part exponent >>= fun v => .ok (v, s)
  cases numberValue negative whole part exponent with
  | error e => exact Local.error e
  | ok v => exact Local.ok v

/-! ## Arrays and objects -/

/-- White space in front of a token does not go by what is behind the token. -/
theorem skipSpace_cut {s r w : List Char} (h : skipSpace s = r ++ w) :
    ∃ p, s = p ++ w ∧ skipSpace p = r := by
  have hdrop : skipSpace r = r := dropWhile_of_dropWhile_eq h
  refine ⟨s.takeWhile isSpace ++ r, ?_, ?_⟩
  · rw [List.append_assoc, ← h, skipSpace, List.takeWhile_append_dropWhile]
  · rw [skipSpace, List.dropWhile_append_of_pos (List.all_eq_true.mp List.all_takeWhile)]
    exact hdrop

/-- Skipping makes nothing longer. -/
theorem length_skipSpace_le (s : List Char) : (skipSpace s).length ≤ s.length :=
  (List.dropWhile_sublist _).length_le

/-- A reader of values goes by what it takes, and this ends in a character that is not blank. -/
structure Exact (read : Reader) : Prop where
  cut : Local read
  solid : ∀ s v, read s = .ok (v, []) → Solid s

/-- Nothing is no value. -/
theorem Exact.not_nil {read : Reader} (h : Exact read) {s r : List Char} {v : Value}
    (hs : read s = .ok (v, r)) : s ≠ [] := by
  rintro rfl
  have hr : r = [] := List.eq_nil_of_length_eq_zero (Nat.le_zero.mp (h.cut.length_le hs))
  rw [hr] at hs
  exact (h.solid [] v hs).ne_nil rfl

/-- Further items are read within the length of their text, each of them taking its comma. -/
theorem readMoreItems_cut {read : Reader} (hread : Local read) {fuel : Nat} {s r w : List Char}
    {vs : List Value} (h : readMoreItems read fuel s = .ok (vs, r ++ w)) :
    ∃ p, s = p ++ w ∧ ∀ fuel', p.length < fuel' → readMoreItems read fuel' p = .ok (vs, r) := by
  -- induction on the reading; any fuel will do that is more than the characters
  fun_induction readMoreItems read fuel s generalizing vs with
  | case1 | case2 | case4 | case6 => cases h
  | case3 fuel s rest hs =>
    cases h
    obtain ⟨p, rfl, hp⟩ := skipSpace_cut (r := ']' :: r) hs
    refine ⟨p, rfl, fun fuel' hfuel => ?_⟩
    cases fuel' with
    | zero => cases hfuel
    | succ fuel' => rw [readMoreItems, hp]; rfl
  | case5 fuel s rest hs hopen ih =>
    obtain ⟨⟨v, m⟩, hv, h⟩ := bind_eq_ok_iff.mp h
    obtain ⟨⟨vs', r'⟩, hvs, h⟩ := bind_eq_ok_iff.mp h
    cases h
    obtain ⟨m', rfl, hm⟩ := ih m hvs
    obtain ⟨q, hq, hv'⟩ := hread hv
    obtain ⟨rest', rfl, hrest⟩ := skipSpace_cut hq
    obtain ⟨p, rfl, hp⟩ := skipSpace_cut (r := ',' :: rest') hs
    -- an item takes characters away, so that the fuel lasts
    have hlength : m'.length < p.length := by
      have hitem := hread.length_le hv'
      have hafter := length_skipSpace_le rest'
      have hbefore := length_skipSpace_le p
      rw [hrest] at hafter
      rw [hp, List.length_cons] at hbefore
      omega
    refine ⟨p, rfl, fun fuel' hfuel => ?_⟩
    cases fuel' with
    | zero => cases hfuel
    | succ fuel' =>
      have hmore := hm fuel' (by omega)
      rw [readMoreItems, hp]
      simp only [hrest]
      split
      next => exact (hopen _ hq).elim
      next => exact bind_eq_ok_iff.mpr ⟨(v, m'), hv', bind_eq_ok_iff.mpr ⟨(vs', r), hmore, rfl⟩⟩

/-- The items of an array, up to the bracket. -/
theorem local_readItems {read : Reader} (hread : Exact read) : Local (readItems read) := by
  intro s vs r w h
  unfold readItems at h
  split at h
  · cases h
  next rest hs =>
    cases h
    obtain ⟨p, rfl, hp⟩ := skipSpace_cut (r := ']' :: r) hs
    exact ⟨p, rfl, by rw [readItems, hp]; rfl⟩
  -- the first item is read where the bracket was looked for: both looks are cut alike
  next hnil hclosed =>
    obtain ⟨⟨v, m⟩, hv, h⟩ := bind_eq_ok_iff.mp h
    obtain ⟨⟨vs', r'⟩, hvs, h⟩ := bind_eq_ok_iff.mp h
    cases h
    obtain ⟨m', rfl, hm⟩ := readMoreItems_cut hread.cut hvs
    obtain ⟨q, hq, hv'⟩ := hread.cut hv
    obtain ⟨p, rfl, hp⟩ := skipSpace_cut hq
    refine ⟨p, rfl, ?_⟩
    rw [readItems, hp]
    split
    next => exact (hread.not_nil hv' rfl).elim
    next => exact (hclosed _ hq).elim
    next => exact bind_eq_ok_iff.mpr ⟨(v, m'), hv',
        bind_eq_ok_iff.mpr ⟨(vs', r), hm _ (Nat.lt_succ_self _), rfl⟩⟩

/-- A name, a colon and a value. -/
theorem local_readMember {read : Reader} (hread : Local read) : Local (readMember read) := by
  intro s m r w h
  unfold readMember at h
  split at h
  · cases h
  next rest =>
    obtain ⟨⟨name, s'⟩, hname, h⟩ := bind_eq_ok_iff.mp h
    dsimp only at h
    split at h
    · cases h
    next rest' hs' =>
      obtain ⟨⟨v, r'⟩, hv, h⟩ := bind_eq_ok_iff.mp h
      cases h
      -- from the end to the front: the value, the space and the name are cut in turn
      obtain ⟨q, rfl, hv'⟩ := hread hv
      obtain ⟨p', rfl, hp'⟩ := skipSpace_cut (r := ':' :: q) hs'
      obtain ⟨p, rfl, hp⟩ := local_readString hname
      refine ⟨'"' :: p, rfl, ?_⟩
      rw [readMember]
      refine bind_eq_ok_iff.mpr ⟨(name, p'), hp, ?_⟩
      dsimp only
      rw [hp']
      exact bind_eq_ok_iff.mpr ⟨(v, r), hv', rfl⟩
    · cases h
  · cases h

/-- Further members are read within the length of their text. -/
theorem readMoreMembers_cut {read : Reader} (hread : Local read) {fuel : Nat} {s r w : List Char}
    {ms : List (String × Value)} (h : readMoreMembers read fuel s = .ok (ms, r ++ w)) :
    ∃ p, s = p ++ w ∧ ∀ fuel', p.length < fuel' → readMoreMembers read fuel' p = .ok (ms, r) := by
  -- induction on the reading, as for items
  fun_induction readMoreMembers read fuel s generalizing ms with
  | case1 | case2 | case5 => cases h
  | case3 fuel s rest hs =>
    cases h
    obtain ⟨p, rfl, hp⟩ := skipSpace_cut (r := '\x7d' :: r) hs
    refine ⟨p, rfl, fun fuel' hfuel => ?_⟩
    cases fuel' with
    | zero => cases hfuel
    | succ fuel' => rw [readMoreMembers, hp]; rfl
  | case4 fuel s rest hs ih =>
    obtain ⟨⟨m, n⟩, hm, h⟩ := bind_eq_ok_iff.mp h
    obtain ⟨⟨ms', r'⟩, hms, h⟩ := bind_eq_ok_iff.mp h
    cases h
    obtain ⟨n', rfl, hn⟩ := ih n hms
    obtain ⟨q, hq, hm'⟩ := local_readMember hread hm
    obtain ⟨rest', rfl, hrest⟩ := skipSpace_cut hq
    obtain ⟨p, rfl, hp⟩ := skipSpace_cut (r := ',' :: rest') hs
    -- a member takes characters away, so that the fuel lasts
    have hlength : n'.length < p.length := by
      have hmember := (local_readMember hread).length_le hm'
      have hafter := length_skipSpace_le rest'
      have hbefore := length_skipSpace_le p
      rw [hrest] at hafter
      rw [hp, List.length_cons] at hbefore
      omega
    refine ⟨p, rfl, fun fuel' hfuel => ?_⟩
    cases fuel' with
    | zero => cases hfuel
    | succ fuel' =>
      have hmore := hn fuel' (by omega)
      rw [← hrest] at hm'
      rw [readMoreMembers, hp]
      exact bind_eq_ok_iff.mpr ⟨(m, n'), hm', bind_eq_ok_iff.mpr ⟨(ms', r), hmore, rfl⟩⟩

/-- The members of an object, up to the brace. -/
theorem local_readMembers {read : Reader} (hread : Local read) : Local (readMembers read) := by
  intro s ms r w h
  unfold readMembers at h
  split at h
  · cases h
  next rest hs =>
    cases h
    obtain ⟨p, rfl, hp⟩ := skipSpace_cut (r := '\x7d' :: r) hs
    exact ⟨p, rfl, by rw [readMembers, hp]; rfl⟩
  -- the first member is read where the brace was looked for
  next hnil hclosed =>
    obtain ⟨⟨m, n⟩, hm, h⟩ := bind_eq_ok_iff.mp h
    obtain ⟨⟨ms', r'⟩, hms, h⟩ := bind_eq_ok_iff.mp h
    cases h
    obtain ⟨n', rfl, hn⟩ := readMoreMembers_cut hread hms
    obtain ⟨q, hq, hm'⟩ := local_readMember hread hm
    obtain ⟨p, rfl, hp⟩ := skipSpace_cut hq
    refine ⟨p, rfl, ?_⟩
    rw [readMembers, hp]
    split
    next => cases hm'
    next => exact (hclosed _ hq).elim
    next => exact bind_eq_ok_iff.mpr ⟨(m, n'), hm',
        bind_eq_ok_iff.mpr ⟨(ms', r), hn _ (Nat.lt_succ_self _), rfl⟩⟩

/-! ## The last character that is taken -/

/-- Blanks in front do not matter to the end. -/
theorem solid_of_skipSpace {s : List Char} (h : Solid (skipSpace s)) : Solid s := by
  have hs := List.takeWhile_append_dropWhile (p := isSpace) (l := s)
  rw [← hs]
  exact h.append _

/-- A string that takes all of the text ends with its quote. -/
theorem solid_readString {fuel : Nat} {s cs : List Char} (h : readString fuel s = .ok (cs, [])) :
    Solid s := by
  fun_induction readString fuel s generalizing cs with
  | case1 | case2 | case5 => cases h
  | case3 fuel rest => cases h; exact solid_singleton rfl
  -- what follows the escape ends the text, by induction
  | case4 fuel rest ih =>
    obtain ⟨⟨c, m⟩, hc, h⟩ := bind_eq_ok_iff.mp h
    obtain ⟨⟨cs', r'⟩, hcs, h⟩ := bind_eq_ok_iff.mp h
    cases h
    exact (local_readEscape.solid hc (ih m hcs)).cons _
  | case6 fuel c rest hquote hbackslash hcontrol ih =>
    obtain ⟨⟨cs', r'⟩, hcs, h⟩ := bind_eq_ok_iff.mp h
    cases h
    exact (ih hcs).cons _

/-- Digits that take all of the text end with a digit. -/
theorem solid_readDigits {s digits : List Char} (h : readDigits s = .ok (digits, [])) :
    Solid s := by
  obtain ⟨hspan, hne⟩ := readDigits_eq_ok_iff.mp h
  obtain ⟨hdigits, hrest⟩ := Prod.mk.inj hspan
  have hs : s = digits := by
    rw [← List.takeWhile_append_dropWhile (p := Decimal.isDigit) (l := s), hrest, hdigits,
      List.append_nil]
  subst hs
  have hall := List.all_eq_true.mp (List.all_takeWhile (p := Decimal.isDigit) (l := s))
  rw [hdigits] at hall
  -- the last of the digits is no blank
  obtain ⟨front, c, rfl⟩ := (List.eq_nil_or_concat s).resolve_left hne
  exact ⟨front, c, List.concat_eq_append, Decimal.isBlank_of_isDigit (hall c (by simp))⟩

/-- An exponent can be missing, and then nothing is taken. -/
theorem solid_readExponent {s : List Char} {exponent : Option Int}
    (h : readExponent s = .ok (exponent, [])) : s = [] ∨ Solid s := by
  cases s with
  | nil => exact .inl rfl
  | cons c rest =>
    rw [readExponent_cons] at h
    split at h
    · obtain ⟨⟨digits, r⟩, hdigits, h⟩ := bind_eq_ok_iff.mp h
      cases h
      have hdigits := solid_readDigits hdigits
      refine .inr (Solid.cons ?_ c)
      -- the digits end the text, with or without a sign in front of them
      unfold Decimal.splitSign at hdigits
      split at hdigits
      · exact hdigits.cons _
      · exact hdigits.cons _
      · exact hdigits
    · cases h

/-- A fraction that takes all of the text ends with a digit, if there is one. -/
theorem solid_readPart {s r : List Char} {part : Option (List Char)}
    (h : readPart s = .ok (part, r)) (hr : r = [] ∨ Solid r) : s = [] ∨ Solid s := by
  obtain rfl | hr := hr
  · unfold readPart at h
    split at h
    · obtain ⟨⟨digits, r⟩, hdigits, h⟩ := bind_eq_ok_iff.mp h
      cases h
      exact .inr ((solid_readDigits hdigits).cons _)
    · cases h
      exact .inl rfl
  · exact .inr (local_readPart.solid h hr)

/-- A number that takes all of the text ends with a digit. -/
theorem solid_readNumber {negative : Bool} {s : List Char} {v : Value}
    (h : readNumber negative s = .ok (v, [])) : Solid s := by
  obtain ⟨⟨whole, m⟩, hwhole, h⟩ := bind_eq_ok_iff.mp h
  obtain ⟨⟨part, m'⟩, hpart, h⟩ := bind_eq_ok_iff.mp h
  obtain ⟨⟨exponent, r⟩, hexponent, h⟩ := bind_eq_ok_iff.mp h
  obtain ⟨x, -, h⟩ := bind_eq_ok_iff.mp h
  cases h
  -- the last of the three that is there ends the number
  obtain rfl | hm := solid_readPart hpart (solid_readExponent hexponent)
  · obtain ⟨⟨digits, r⟩, hdigits, h⟩ := bind_eq_ok_iff.mp hwhole
    dsimp only at h
    split at h
    · cases h
    · cases h
      exact solid_readDigits hdigits
  · exact local_readWhole.solid hwhole hm

/-- A word that takes all of the text is its end. -/
theorem solid_readWord {word s : List Char} (hword : Solid word) {v w : Value}
    (h : (readWord word s).map (fun rest => (v, rest)) = .ok (w, [])) : Solid s := by
  cases hs : readWord word s with
  | error e => rw [hs] at h; cases h
  | ok r =>
    rw [hs] at h
    cases h
    rw [readWord_eq_ok_iff.mp hs, List.append_nil]
    exact hword

/-- Further items end with the bracket. -/
theorem solid_readMoreItems {read : Reader} (hread : Exact read) {fuel : Nat} {s : List Char}
    {vs : List Value} (h : readMoreItems read fuel s = .ok (vs, [])) : Solid s := by
  fun_induction readMoreItems read fuel s generalizing vs with
  | case1 | case2 | case4 | case6 => cases h
  | case3 fuel s rest hs =>
    cases h
    exact solid_of_skipSpace (hs ▸ solid_singleton rfl)
  | case5 fuel s rest hs hopen ih =>
    obtain ⟨⟨v, m⟩, hv, h⟩ := bind_eq_ok_iff.mp h
    obtain ⟨⟨vs', r'⟩, hvs, h⟩ := bind_eq_ok_iff.mp h
    cases h
    -- the text ends where the last item or the bracket ends
    have hrest := solid_of_skipSpace (hread.cut.solid hv (ih m hvs))
    exact solid_of_skipSpace (hs ▸ hrest.cons ',')

/-- An array that takes all of the text ends with the bracket. -/
theorem solid_readItems {read : Reader} (hread : Exact read) {s : List Char} {vs : List Value}
    (h : readItems read s = .ok (vs, [])) : Solid s := by
  unfold readItems at h
  split at h
  · cases h
  next hs =>
    cases h
    exact solid_of_skipSpace (hs ▸ solid_singleton rfl)
  next hnil hclosed =>
    obtain ⟨⟨v, m⟩, hv, h⟩ := bind_eq_ok_iff.mp h
    obtain ⟨⟨vs', r'⟩, hvs, h⟩ := bind_eq_ok_iff.mp h
    cases h
    exact solid_of_skipSpace (hread.cut.solid hv (solid_readMoreItems hread hvs))

/-- Further members end with the brace. -/
theorem solid_readMoreMembers {read : Reader} (hread : Local read) {fuel : Nat} {s : List Char}
    {ms : List (String × Value)} (h : readMoreMembers read fuel s = .ok (ms, [])) : Solid s := by
  fun_induction readMoreMembers read fuel s generalizing ms with
  | case1 | case2 | case5 => cases h
  | case3 fuel s rest hs =>
    cases h
    exact solid_of_skipSpace (hs ▸ solid_singleton rfl)
  | case4 fuel s rest hs ih =>
    obtain ⟨⟨m, n⟩, hm, h⟩ := bind_eq_ok_iff.mp h
    obtain ⟨⟨ms', r'⟩, hms, h⟩ := bind_eq_ok_iff.mp h
    cases h
    -- as with items: a comma, a member, and what ends solidly behind it
    have hrest := solid_of_skipSpace ((local_readMember hread).solid hm (ih n hms))
    exact solid_of_skipSpace (hs ▸ hrest.cons ',')

/-- An object that takes all of the text ends with the brace. -/
theorem solid_readMembers {read : Reader} (hread : Local read) {s : List Char}
    {ms : List (String × Value)} (h : readMembers read s = .ok (ms, [])) : Solid s := by
  unfold readMembers at h
  split at h
  · cases h
  next hs =>
    cases h
    exact solid_of_skipSpace (hs ▸ solid_singleton rfl)
  next hnil hclosed =>
    obtain ⟨⟨m, n⟩, hm, h⟩ := bind_eq_ok_iff.mp h
    obtain ⟨⟨ms', r'⟩, hms, h⟩ := bind_eq_ok_iff.mp h
    cases h
    exact solid_of_skipSpace ((local_readMember hread).solid hm (solid_readMoreMembers hread hms))

/-! ## Values -/

/-- The value of a word is read with the word. -/
theorem local_readWord (word : List Char) (v : Value) :
    Local fun s => (readWord word s).map fun rest => (v, rest) := by
  have hmap (s : List Char) : (readWord word s).map (fun rest => (v, rest)) =
      readWord word s >>= fun rest => .ok (v, rest) := by
    cases readWord word s <;> rfl
  simp only [hmap]
  exact (Local.ok v).word word

/-- Reads a value behind its first character. -/
def readFrom (room : Nat) (first : Char) (rest : List Char) : Except Failure (Value × List Char) :=
  match first with
  | 'n' => (readWord ['u', 'l', 'l'] rest).map fun rest => (.none, rest)
  | 't' => (readWord ['r', 'u', 'e'] rest).map fun rest => (.bool true, rest)
  | 'f' => (readWord ['a', 'l', 's', 'e'] rest).map fun rest => (.bool false, rest)
  | '"' => readString (rest.length + 1) rest >>= fun x => .ok (.text (String.ofList x.1), x.2)
  | '[' =>
    match room with
    | 0 => .error .malformed
    | room + 1 => readItems (readValue room) rest >>= fun x => .ok (.list x.1, x.2)
  | '\x7b' =>
    match room with
    | 0 => .error .malformed
    | room + 1 => readMembers (readValue room) rest >>= fun x => .ok (.ofFields x.1, x.2)
  | '-' => readNumber true rest
  | c => if Decimal.isDigit c then readNumber false (c :: rest) else .error .malformed

/-- A value is read by its first character. -/
theorem readValue_eq (room : Nat) (s : List Char) :
    readValue room s =
      match skipSpace s with
      | [] => .error .truncated
      | c :: rest => readFrom room c rest := by
  rw [readValue.eq_def]
  dsimp only
  cases skipSpace s with
  | nil => rfl
  | cons c rest =>
    dsimp only
    rw [readFrom.eq_def]
    -- one case for each character that a value can start with
    split
    case h_9 heq => cases heq; split <;> simp_all
    all_goals next heq => cases heq <;> rfl

/-- What starts with a character is read locally if what lies below is. -/
theorem local_readFrom {room : Nat} (hbelow : ∀ below, room = below + 1 → Exact (readValue below))
    (c : Char) : Local (readFrom room c) := by
  unfold readFrom
  split
  · exact local_readWord _ _
  · exact local_readWord _ _
  · exact local_readWord _ _
  · exact local_readString.bind fun cs => Local.ok (Value.text (String.ofList cs))
  · cases room with
    | zero => exact Local.error _
    | succ below =>
      exact (local_readItems (hbelow below rfl)).bind fun vs => Local.ok (Value.list vs)
  · cases room with
    | zero => exact Local.error _
    | succ below =>
      exact (local_readMembers (hbelow below rfl).cut).bind fun ms => Local.ok (Value.ofFields ms)
  -- a number with a minus, and one that starts with the digit that was looked at
  · exact local_readNumber true
  · refine Local.ite (fun s v r w h => ?_) (Local.error _)
    obtain ⟨p, hs, hp⟩ := local_readNumber false h
    cases p with
    | nil => cases hp
    | cons d p =>
      obtain ⟨rfl, rfl⟩ := List.cons.inj hs
      exact ⟨p, rfl, hp⟩

/-- What takes all of the text ends it with a character that is no blank. -/
theorem solid_readFrom {room : Nat} (hbelow : ∀ below, room = below + 1 → Exact (readValue below))
    {c : Char} {rest : List Char} {v : Value} (h : readFrom room c rest = .ok (v, [])) :
    Solid (c :: rest) := by
  unfold readFrom at h
  split at h
  · exact (solid_readWord ⟨['u', 'l'], 'l', rfl, rfl⟩ h).cons _
  · exact (solid_readWord ⟨['r', 'u'], 'e', rfl, rfl⟩ h).cons _
  · exact (solid_readWord ⟨['a', 'l', 's'], 'e', rfl, rfl⟩ h).cons _
  · obtain ⟨⟨cs, r⟩, hcs, h⟩ := bind_eq_ok_iff.mp h
    cases h
    exact (solid_readString hcs).cons _
  · cases room with
    | zero => cases h
    | succ below =>
      obtain ⟨⟨vs, r⟩, hvs, h⟩ := bind_eq_ok_iff.mp h
      cases h
      exact (solid_readItems (hbelow below rfl) hvs).cons _
  · cases room with
    | zero => cases h
    | succ below =>
      obtain ⟨⟨ms, r⟩, hms, h⟩ := bind_eq_ok_iff.mp h
      cases h
      exact (solid_readMembers (hbelow below rfl).cut hms).cons _
  -- a number with a minus, and one that starts with the digit that was looked at
  · exact (solid_readNumber h).cons _
  · split at h
    · exact solid_readNumber h
    · cases h

/-- A reader of values is exact if the reader of the values inside is. -/
private theorem exact_readValue_of {room : Nat}
    (hbelow : ∀ below, room = below + 1 → Exact (readValue below)) : Exact (readValue room) := by
  constructor
  case cut =>
    intro s v r w h
    rw [readValue_eq] at h
    split at h
    · cases h
    -- the spaces in front are skipped, and the first character tells what follows
    next c rest hs =>
      obtain ⟨q, rfl, hq⟩ := local_readFrom hbelow c h
      obtain ⟨p, rfl, hp⟩ := skipSpace_cut (r := c :: q) hs
      exact ⟨p, rfl, by rw [readValue_eq, hp]; exact hq⟩
  case solid =>
    intro s v h
    rw [readValue_eq] at h
    split at h
    · cases h
    next c rest hs => exact solid_of_skipSpace (hs ▸ solid_readFrom hbelow h)

/-- The reader is exact at any depth. -/
theorem exact_readValue (room : Nat) : Exact (readValue room) := by
  induction room with
  | zero => exact exact_readValue_of nofun
  | succ room ih => exact exact_readValue_of fun below h => Nat.succ.inj h ▸ ih

/-! ## Documents -/

/-- No value starts with a blank. -/
theorem isBlank_of_readFrom {room : Nat} {c : Char} {rest r : List Char} {v : Value}
    (h : readFrom room c rest = .ok (v, r)) : Text.isBlank c = false := by
  unfold readFrom at h
  split at h
  case h_8 =>
    split at h
    next hc => exact Decimal.isBlank_of_isDigit hc
    next => cases h
  all_goals rfl

/-- The four spaces of the format are blanks. -/
theorem isBlank_of_isSpace {c : Char} (h : isSpace c = true) : Text.isBlank c = true := by
  simp only [isSpace, Bool.or_eq_true, beq_iff_eq] at h
  obtain ((rfl | rfl) | rfl) | rfl := h <;> rfl

/-- In front of what is no blank nothing is skipped. -/
theorem skipSpace_cons_of_isBlank {c : Char} (h : Text.isBlank c = false) (s : List Char) :
    skipSpace (c :: s) = c :: s :=
  List.dropWhile_cons_of_neg fun hspace => by rw [isBlank_of_isSpace hspace] at h; cases h

/-- Where all is skipped, all was blank. -/
theorem blank_of_skipSpace_eq_nil {s : List Char} (h : skipSpace s = []) : Text.Blank s := by
  have hs : s.takeWhile isSpace = s := by
    rw [← List.append_nil (s.takeWhile isSpace), ← h]
    exact List.takeWhile_append_dropWhile
  rw [← hs]
  exact fun c hc => isBlank_of_isSpace (List.all_eq_true.mp List.all_takeWhile c hc)

/-- The text of a value is found between white space. -/
theorem exists_bare {document : String} {v : Value} (h : read document = .ok v) :
    ∃ front body back, document.toList = front ++ body ++ back ∧ Text.Blank front ∧
      Text.Blank back ∧ Text.Bare body ∧ readValue maxNesting body = .ok (v, []) := by
  obtain ⟨⟨v', back⟩, hv, h⟩ := bind_eq_ok_iff.mp h
  dsimp only at h
  split at h
  case isFalse => cases h
  next hback =>
    cases h
    obtain ⟨p, hdocument, hp⟩ := (exact_readValue _).cut (r := []) hv
    obtain ⟨middle, d, hlast, hd⟩ := (exact_readValue _).solid p v hp
    have hfront : Text.Blank (p.takeWhile isSpace) := fun c hc =>
      isBlank_of_isSpace (List.all_eq_true.mp List.all_takeWhile c hc)
    have hsplit : p.takeWhile isSpace ++ skipSpace p = p := List.takeWhile_append_dropWhile
    -- the value is read again from where the leading blanks end
    rw [readValue_eq] at hp
    split at hp
    · cases hp
    next c rest hc =>
      -- the first character starts the value, and the last one ends it
      have hcBlank := isBlank_of_readFrom hp
      rw [hc] at hsplit
      refine ⟨_, c :: rest, back, by rw [hsplit, hdocument], hfront,
        blank_of_skipSpace_eq_nil (List.isEmpty_iff.mp hback), ⟨?_, ?_⟩, ?_⟩
      · intro c' hc'
        rwa [← Option.some.inj hc']
      · intro c' hc'
        have hend : (p.takeWhile isSpace ++ c :: rest).getLast? = some c' := by
          rw [List.getLast?_append, Option.mem_def.mp hc']
          rfl
        rw [hsplit, hlast, List.getLast?_concat, Option.some.injEq] at hend
        rwa [← hend]
      · rw [readValue_eq, skipSpace_cons_of_isBlank hcBlank]
        exact hp

/-- A document is read without the blanks around it, since only white space stands there. -/
theorem read_trim {document : String} {v : Value} (h : read document = .ok v) :
    read (Text.trim document) = .ok v := by
  obtain ⟨front, body, back, hdocument, hfront, hback, hbare, hbody⟩ := exists_bare h
  have htrim : (Text.trim document).toList = body := by
    rw [Text.trim, String.toList_ofList, hdocument, hbare.trimChars_append hfront hback]
  rw [read, htrim, hbody]
  rfl

end Conform.Json
