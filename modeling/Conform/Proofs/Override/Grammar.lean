import Conform.Override
import Conform.Proofs.Json.Locality
import Conform.Proofs.Text.Blank
import Conform.Proofs.Text.Segments

/-!
# The grammar of overrides

What is written as an override is said without the reader: `Override.Written` relates a text to the
keys and the value that it stands for, and `Override.Refused` to what is wrong with it. The reader
gives the one or the other (`Override.parseWith_eq_ok_iff`, `Override.parseWith_eq_error_iff`). Keys
that can be written (`Override.Writable`) are read back, whatever blanks stand around both sides.

All of this is about any decoder of documents that keeps to two rules (`Override.Decoder.Lawful`),
as the reader of JSON documents does (`Json.lawful_read`). Main statement:
`override_reads_exactly_its_grammar`.
-/

namespace Conform

namespace Override

/-! ## Right sides -/

/-- The words that stand for a value on their own. -/
def bareWords : List String := ["True", "False", "None"]

/-- What overrides rely on in a decoder of documents. -/
structure Decoder.Lawful (decode : Decoder) : Prop where
  /-- A document that can be decoded stands for the same without the blanks around it. -/
  trim : ∀ s v, decode s = .ok v → decode (Text.trim s) = .ok v
  /-- A bare word is no document. -/
  bareWord : ∀ s ∈ bareWords, ∀ v, decode s ≠ .ok v

/-- The right sides: bare words and documents. -/
inductive Literal (decode : Decoder) : String → Value → Prop
  | true : Literal decode "True" (.bool .true)
  | false : Literal decode "False" (.bool .false)
  | none : Literal decode "None" .none
  | document {s : String} {v : Value} (decoded : decode s = .ok v) : Literal decode s v

variable {decode : Decoder}

/-- A bare word stands for its value, whatever is decoded. -/
theorem exists_literal_of_bareWord {s : String} (h : s ∈ bareWords) : ∃ v, Literal decode s v := by
  simp only [bareWords, List.mem_cons, List.not_mem_nil, or_false] at h
  obtain rfl | rfl | rfl := h
  · exact ⟨_, .true⟩
  · exact ⟨_, .false⟩
  · exact ⟨_, .none⟩

/-- Every other right side is decoded. -/
theorem readLiteral_of_not_bareWord {s : String} (h : s ∉ bareWords) :
    readLiteral decode s = decode s := by
  simp only [bareWords, List.mem_cons, List.not_mem_nil, or_false, not_or] at h
  rw [readLiteral, if_neg h.1, if_neg h.2.1, if_neg h.2.2]

/-- The reader of right sides gives the value that one stands for. -/
theorem readLiteral_eq_ok_iff (hdecode : decode.Lawful) {s : String} {v : Value} :
    readLiteral decode s = .ok v ↔ Literal decode s v := by
  constructor
  · intro h
    unfold readLiteral at h
    split at h
    next hs => cases h; exact hs ▸ .true
    split at h
    next hs => cases h; exact hs ▸ .false
    split at h
    next hs => cases h; exact hs ▸ .none
    next => exact .document h
  · intro h
    cases h with
    | true | false | none => rfl
    | document decoded =>
      -- the decoder is only reached because it does not decode the bare words itself
      rw [readLiteral_of_not_bareWord fun hs => hdecode.bareWord s hs v decoded, decoded]

/-- Reading a right side fails as the decoder does, where the right side stands for nothing. -/
theorem readLiteral_eq_error_iff (hdecode : decode.Lawful) {s : String} {failure : Json.Failure} :
    readLiteral decode s = .error failure ↔
      decode s = .error failure ∧ ∀ v, ¬ Literal decode s v := by
  by_cases hs : s ∈ bareWords
  · obtain ⟨v, hv⟩ : ∃ v, Literal decode s v := exists_literal_of_bareWord hs
    rw [(readLiteral_eq_ok_iff hdecode).mpr hv]
    exact ⟨nofun, fun h => absurd hv (h.2 v)⟩
  · rw [readLiteral_of_not_bareWord hs]
    refine ⟨fun h => ⟨h, fun v hv => ?_⟩, And.left⟩
    rw [← readLiteral_eq_ok_iff hdecode, readLiteral_of_not_bareWord hs, h] at hv
    cases hv

/-- A right side stands for the same without the blanks around it. -/
theorem Literal.trim (hdecode : decode.Lawful) {s : String} {v : Value} (h : Literal decode s v) :
    Literal decode (Text.trim s) v := by
  cases h with
  | true => exact .true
  | false => exact .false
  | none => exact .none
  | document decoded => exact .document (hdecode.trim s v decoded)

/-! ## Left sides -/

/-- A text falls into two sides at its first equals sign. -/
structure Divided (text left right : String) : Prop where
  text_eq : text = left ++ "=" ++ right
  first : '=' ∉ left.toList

/-- A left side is made of its keys with points between them. -/
structure Dotted (s : String) (keys : List String) : Prop where
  ne_nil : keys ≠ []
  joined : s = Text.join "." keys
  pointless : ∀ key ∈ keys, '.' ∉ key.toList

/-- The segments of a text are the keys whose dotted text it is. -/
theorem dotted_iff {s : String} {keys : List String} :
    Dotted s keys ↔ Text.splitOn '.' s = keys := by
  constructor
  · rintro ⟨hne, rfl, hpointless⟩
    exact Text.splitOn_join hne hpointless
  · rintro rfl
    exact ⟨Text.splitOn_ne_nil '.' s, (Text.join_splitOn '.' s).symm,
      fun _ => Text.not_mem_of_mem_splitOn⟩

/-- A text is cut at its first equals sign. -/
theorem cut_iff_divided {text : String} {left right : List Char} :
    Text.cutChars? '=' text.toList = some (left, right) ↔
      Divided text (String.ofList left) (String.ofList right) := by
  rw [Text.cutChars?_eq_some_iff]
  -- the characters are cut at the first equals sign, and the texts with them
  constructor
  · rintro ⟨htext, hfirst⟩
    refine ⟨?_, by rwa [String.toList_ofList]⟩
    rw [← String.toList_inj, htext]
    simp
  · rintro ⟨rfl, hfirst⟩
    rw [String.toList_ofList] at hfirst
    exact ⟨by simp, hfirst⟩

/-! ## What is written and what is refused -/

/-- A text stands for an override. -/
inductive Written (decode : Decoder) (text : String) : Override → Prop
  | assignment {left right : String} {keys : List String} {v : Value}
      (divided : Divided text left right) (dotted : Dotted (Text.trim left) keys)
      (named : "" ∉ keys) (literal : Literal decode (Text.trim right) v) :
      Written decode text ⟨keys, v⟩

/-- What is wrong with a text, from left to right. -/
inductive Refused (decode : Decoder) (text : String) : OverrideError → Prop
  | missingAssignment (undivided : '=' ∉ text.toList) :
      Refused decode text (.missingAssignment text)
  | emptyKey {left right : String} {keys : List String} (divided : Divided text left right)
      (dotted : Dotted (Text.trim left) keys) (unnamed : "" ∈ keys) :
      Refused decode text (.emptyKey text)
  | literal {left right : String} {keys : List String} {failure : Json.Failure}
      (divided : Divided text left right) (dotted : Dotted (Text.trim left) keys)
      (named : "" ∉ keys) (noLiteral : ∀ v, ¬ Literal decode (Text.trim right) v)
      (unread : decode (Text.trim right) = .error failure) :
      Refused decode text (.literal text failure)

/-- The test for empty names finds the empty name. -/
theorem any_isEmpty_iff {keys : List String} : keys.any String.isEmpty = true ↔ "" ∈ keys := by
  simp [List.any_eq_true]

/-- A text is read by its two sides and the keys of the left one. -/
theorem parseWith_of_divided {text left right : String} {keys : List String}
    (hdivided : Divided text left right) (hdotted : Dotted (Text.trim left) keys) :
    parseWith decode text =
      if "" ∈ keys then .error (.emptyKey text)
      else
        ((readLiteral decode (Text.trim right)).map (Override.mk keys)).mapError
          (.literal text) := by
  have hcut : Text.cutChars? '=' text.toList = some (left.toList, right.toList) := by
    rw [cut_iff_divided, String.ofList_toList, String.ofList_toList]
    exact hdivided
  rw [parseWith, hcut]
  dsimp only
  rw [String.ofList_toList, String.ofList_toList, dotted_iff.mp hdotted]
  -- names are looked at before the value is read
  by_cases hempty : "" ∈ keys
  · rw [if_pos (any_isEmpty_iff.mpr hempty), if_pos hempty]
  · rw [if_neg (mt any_isEmpty_iff.mp hempty), if_neg hempty]
    cases readLiteral decode (Text.trim right) <;> rfl

section Reader

variable (hdecode : decode.Lawful)

include hdecode

/-- What is written is read. -/
theorem parseWith_of_written {text : String} {o : Override} (h : Written decode text o) :
    parseWith decode text = .ok o := by
  cases h with
  | assignment divided dotted named literal =>
    rw [parseWith_of_divided divided dotted, if_neg named,
      (readLiteral_eq_ok_iff hdecode).mpr literal]
    rfl

/-- What is wrong with a text is reported. -/
theorem parseWith_of_refused {text : String} {e : OverrideError} (h : Refused decode text e) :
    parseWith decode text = .error e := by
  cases h with
  | missingAssignment undivided => rw [parseWith, Text.cutChars?_eq_none_iff.mpr undivided]
  | emptyKey divided dotted unnamed => rw [parseWith_of_divided divided dotted, if_pos unnamed]
  | literal divided dotted named noLiteral unread =>
    rw [parseWith_of_divided divided dotted, if_neg named,
      (readLiteral_eq_error_iff hdecode).mpr ⟨unread, noLiteral⟩]
    rfl

/-- Every text stands for an override or is refused. -/
theorem written_or_refused (text : String) :
    (∃ o, Written decode text o) ∨ ∃ e, Refused decode text e := by
  cases hcut : Text.cutChars? '=' text.toList with
  | none => exact .inr ⟨_, .missingAssignment (Text.cutChars?_eq_none_iff.mp hcut)⟩
  | some sides =>
  obtain ⟨left, right⟩ := sides
  have hdivided := cut_iff_divided.mp hcut
  have hdotted := dotted_iff.mpr (Eq.refl (Text.splitOn '.' (Text.trim (String.ofList left))))
  -- the three reasons to refuse are looked for in this order
  by_cases hnamed : "" ∈ Text.splitOn '.' (Text.trim (String.ofList left))
  · exact .inr ⟨_, .emptyKey hdivided hdotted hnamed⟩
  cases hliteral : readLiteral decode (Text.trim (String.ofList right)) with
  | ok v =>
    have hvalue := (readLiteral_eq_ok_iff hdecode).mp hliteral
    exact .inl ⟨_, .assignment hdivided hdotted hnamed hvalue⟩
  | error failure =>
    obtain ⟨hunread, hnone⟩ := (readLiteral_eq_error_iff hdecode).mp hliteral
    exact .inr ⟨_, .literal hdivided hdotted hnamed hnone hunread⟩

/-- A text is read exactly as what it stands for. -/
theorem parseWith_eq_ok_iff {text : String} {o : Override} :
    parseWith decode text = .ok o ↔ Written decode text o := by
  refine ⟨fun h => ?_, parseWith_of_written hdecode⟩
  -- a text that is read is not refused, and stands for one override only
  obtain ⟨o', ho'⟩ | ⟨e, he⟩ := written_or_refused hdecode text
  · rw [parseWith_of_written hdecode ho', Except.ok.injEq] at h
    exact h ▸ ho'
  · rw [parseWith_of_refused hdecode he] at h
    cases h

/-- The reader fails exactly with what is wrong. -/
theorem parseWith_eq_error_iff {text : String} {e : OverrideError} :
    parseWith decode text = .error e ↔ Refused decode text e := by
  refine ⟨fun h => ?_, parseWith_of_refused hdecode⟩
  obtain ⟨o, ho⟩ | ⟨e', he'⟩ := written_or_refused hdecode text
  · rw [parseWith_of_written hdecode ho] at h
    cases h
  · rw [parseWith_of_refused hdecode he', Except.error.injEq] at h
    exact h ▸ he'

end Reader

/-! ## Keys that can be written -/

/-- Keys without points and equals signs, with no blanks around all of them. -/
structure Writable (keys : List String) : Prop where
  ne_nil : keys ≠ []
  plain : ∀ key ∈ keys, key ≠ "" ∧ '.' ∉ key.toList ∧ '=' ∉ key.toList
  first : ∀ key ∈ keys.head?, ∀ c ∈ key.toList.head?, Text.isBlank c = false
  last : ∀ key ∈ keys.getLast?, ∀ c ∈ key.toList.getLast?, Text.isBlank c = false

/-- There is no blank at the ends of the keys with points between them exactly if there is none in
    front of the first and none behind the last. -/
theorem bare_join_iff {keys : List String} (hne : keys ≠ []) (hnamed : "" ∉ keys) :
    Text.Bare (Text.join "." keys).toList ↔
      (∀ key ∈ keys.head?, ∀ c ∈ key.toList.head?, Text.isBlank c = false) ∧
      ∀ key ∈ keys.getLast?, ∀ c ∈ key.toList.getLast?, Text.isBlank c = false := by
  -- names are not empty, so that the first and the last character are those of a name
  have hfirst : (Text.join "." keys).toList.head? =
      keys.head?.bind fun key => key.toList.head? := by
    obtain ⟨key, rest, rfl⟩ := List.exists_cons_of_ne_nil hne
    exact Text.head?_join rest fun h => hnamed (h ▸ List.mem_cons_self)
  have hlast : (Text.join "." keys).toList.getLast? =
      keys.getLast?.bind fun key => key.toList.getLast? := by
    obtain ⟨front, key, rfl⟩ : ∃ front key, keys = front ++ [key] :=
      ⟨_, _, (List.dropLast_concat_getLast hne).symm⟩
    rw [List.getLast?_concat]
    exact Text.getLast?_join front fun h => hnamed (h ▸ List.mem_concat_self)
  -- both ends of the join are ends of names
  constructor
  · rintro ⟨hbare, hbare'⟩
    rw [hfirst] at hbare
    rw [hlast] at hbare'
    exact ⟨fun key hkey c hc => hbare c (Option.bind_eq_some_iff.mpr ⟨key, hkey, hc⟩),
      fun key hkey c hc => hbare' c (Option.bind_eq_some_iff.mpr ⟨key, hkey, hc⟩)⟩
  · rintro ⟨hkeys, hkeys'⟩
    constructor
    · intro c hc
      rw [hfirst] at hc
      obtain ⟨key, hkey, hc⟩ := Option.bind_eq_some_iff.mp hc
      exact hkeys key hkey c hc
    · intro c hc
      rw [hlast] at hc
      obtain ⟨key, hkey, hc⟩ := Option.bind_eq_some_iff.mp hc
      exact hkeys' key hkey c hc

/-- No key that can be written is empty. -/
theorem Writable.named {keys : List String} (h : Writable keys) : "" ∉ keys :=
  fun hmem => (h.plain "" hmem).1 rfl

/-- An equals sign in the dotted text stands in one of the keys. -/
theorem equals_not_mem_join_iff {keys : List String} :
    '=' ∉ (Text.join "." keys).toList ↔ ∀ key ∈ keys, '=' ∉ key.toList := by
  constructor
  · exact fun h key hkey hequals => h (Text.mem_join_of_mem hkey hequals)
  · intro h hequals
    obtain hpoint | ⟨key, hkey, hequals⟩ := Text.mem_of_mem_join hequals
    · exact absurd hpoint (by decide)
    · exact h key hkey hequals

/-- Only such keys are read. -/
theorem Written.writable {text : String} {o : Override} (h : Written decode text o) :
    Writable o.keys := by
  cases h with
  | @assignment left right keys v divided dotted named literal =>
    have hbare := Text.bare_trim left
    have hequals : '=' ∉ (Text.trim left).toList := mt Text.mem_of_mem_trim divided.first
    rw [dotted.joined] at hbare hequals
    obtain ⟨hfirst, hlast⟩ := (bare_join_iff dotted.ne_nil named).mp hbare
    exact ⟨dotted.ne_nil, fun key hkey => ⟨fun hempty => named (hempty ▸ hkey),
      dotted.pointless key hkey, equals_not_mem_join_iff.mp hequals key hkey⟩, hfirst, hlast⟩

/-- An equals sign is no blank. -/
theorem equals_not_mem_of_blank {s : String} (h : Text.Blank s.toList) : '=' ∉ s.toList :=
  fun hequals => absurd (h '=' hequals) (by decide)

/-- Such keys are read from what they make with a right side, whatever blanks stand around. -/
theorem Writable.written (hdecode : decode.Lawful) {keys : List String} (h : Writable keys)
    {literal : String} {v : Value} (hliteral : Literal decode literal v)
    {before between behind after : String}
    (hbefore : Text.Blank before.toList) (hbetween : Text.Blank between.toList)
    (hbehind : Text.Blank behind.toList) (hafter : Text.Blank after.toList) :
    Written decode (before ++ Text.join "." keys ++ between ++ "=" ++ (behind ++ literal ++ after))
      ⟨keys, v⟩ := by
  have hbare := (bare_join_iff h.ne_nil h.named).mpr ⟨h.first, h.last⟩
  have hequals := equals_not_mem_join_iff.mpr fun key hkey => (h.plain key hkey).2.2
  -- the blanks are outside: keys that can be written neither start nor end with one
  have hleft : Text.trim (before ++ Text.join "." keys ++ between) = Text.join "." keys := by
    rw [Text.trim_append hbefore hbetween, Text.trim_eq_self hbare]
  refine .assignment ⟨rfl, ?_⟩ ⟨h.ne_nil, hleft, fun key hkey => (h.plain key hkey).2.1⟩ h.named ?_
  · simp only [String.toList_append, List.mem_append, not_or]
    exact ⟨⟨equals_not_mem_of_blank hbefore, hequals⟩, equals_not_mem_of_blank hbetween⟩
  · rw [Text.trim_append hbehind hafter]
    exact hliteral.trim hdecode

end Override

/-- The reader of JSON documents passes over white space around a document, and knows no bare
    words. -/
theorem Json.lawful_read : Override.Decoder.Lawful Json.read where
  trim _ _ := Json.read_trim
  bareWord := by
    intro s hs v hread
    simp only [Override.bareWords, List.mem_cons, List.not_mem_nil, or_false] at hs
    obtain rfl | rfl | rfl := hs <;>
    · -- no document starts with a capital letter
      rw [Json.read, Json.readValue_eq] at hread
      cases hread

/-- An override is read exactly if its text has an equals sign, keys with names between the points
    of the trimmed text in front of the first one, and a bare word or a document in the trimmed text
    behind it; else what is wrong is reported in this order. The keys that are read are those that
    can be written, and what they make with a right side is read back, whatever blanks stand around
    both sides. -/
theorem override_reads_exactly_its_grammar {decode : Override.Decoder} (hdecode : decode.Lawful) :
    (∀ text o, Override.parseWith decode text = .ok o ↔ Override.Written decode text o) ∧
    (∀ text e, Override.parseWith decode text = .error e ↔ Override.Refused decode text e) ∧
    (∀ keys literal v before between behind after,
      Override.Writable keys → Override.Literal decode literal v →
      Text.Blank before.toList → Text.Blank between.toList → Text.Blank behind.toList →
      Text.Blank after.toList →
      Override.parseWith decode (before ++ Text.join "." keys ++ between ++ "=" ++
        (behind ++ literal ++ after)) = .ok ⟨keys, v⟩) ∧
    ∀ text o, Override.parseWith decode text = .ok o → Override.Writable o.keys := by
  refine ⟨fun text o => Override.parseWith_eq_ok_iff hdecode,
    fun text e => Override.parseWith_eq_error_iff hdecode, ?_,
    fun text o h => ((Override.parseWith_eq_ok_iff hdecode).mp h).writable⟩
  intro keys literal v before between behind after hkeys hliteral hbefore hbetween hbehind hafter
  have hwritten := hkeys.written hdecode hliteral hbefore hbetween hbehind hafter
  exact Override.parseWith_of_written hdecode hwritten

/-- A key with blanks inside, blanks that are not of the format of the value, and an equals sign in
    the value. -/
theorem override_reads_exactly_its_grammar_motd :
    ((Override.Writable ["server", "message of the day"] ∧
        Override.Literal Json.read "\n\"x=y\"" (.text "x=y") ∧ Text.Blank "\u00a0 ".toList) ∧
      Override.parseWith Json.read
          "\u00a0 server.message of the day\u00a0 =\u00a0 \n\"x=y\"\u00a0 " =
        .ok ⟨["server", "message of the day"], .text "x=y"⟩) ∧
    (Override.parseWith Json.read " a . b =1" = .ok ⟨["a ", " b"], .int 1⟩ ∧
      Override.Writable ["a ", " b"]) := by
  have hkeys : Override.Writable ["server", "message of the day"] := by
    constructor <;> simp [Text.isBlank]
  have hliteral : Override.Literal Json.read "\n\"x=y\"" (.text "x=y") := .document rfl
  -- a no-break space is a blank, but no space of a document
  have hblank : Text.Blank "\u00a0 ".toList := List.all_eq_true.mp (by decide)
  have hparse : Override.parseWith Json.read " a . b =1" = .ok ⟨["a ", " b"], .int 1⟩ := rfl
  obtain ⟨-, -, hread, hwritable⟩ := override_reads_exactly_its_grammar Json.lawful_read
  have hmotd := hread _ _ _ "\u00a0 " "\u00a0 " "\u00a0 " "\u00a0 " hkeys hliteral hblank hblank
    hblank hblank
  exact ⟨⟨⟨hkeys, hliteral, hblank⟩, hmotd⟩, hparse, hwritable _ _ hparse⟩

end Conform
