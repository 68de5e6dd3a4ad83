import Conform.Location
import Conform.Proofs.Decimal.Text
import Conform.Proofs.Key.Conversion
import Conform.Proofs.Text.Discerned
import Conform.Proofs.Text.Quoted
import Conform.Proofs.Text.Segments
import Conform.Value.Printer

/-!
# Values can be told apart in messages

A value that is made of scalars with an exact text, sequences and maps (`Value.Legible`) is told
from any other one by its text, and its text shows where it ends (`Value.Legible.discerned`): the
first character tells the kind, and what follows is taken apart item by item. Main statement:
`rendering_is_unambiguous`.
-/

namespace Conform

/-! ## Keys in writing -/

/-- Items are rendered one by one. -/
theorem Value.renderItems_eq_map (items : List Value) :
    renderItems items = items.map render := by
  induction items with
  | nil => rfl
  | cons v rest ih => rw [renderItems, ih, List.map_cons]

/-- Entries are rendered as key and value, with a colon between. -/
theorem Value.renderEntries_eq_map (entries : List (Key × Value)) :
    renderEntries entries = entries.map fun entry => entry.1.render ++ ": " ++ entry.2.render := by
  induction entries with
  | nil => rfl
  | cons entry rest ih => rw [renderEntries, ih, List.map_cons]

/-- Fields are rendered as name and value, with an equals sign between. -/
theorem Value.renderFields_eq_map (fields : List (String × Value)) :
    renderFields fields = fields.map fun field => field.1 ++ "=" ++ field.2.render := by
  induction fields with
  | nil => rfl
  | cons field rest ih => rw [renderFields, ih, List.map_cons]

namespace Key

mutual

/-- A key is written as the value that it stands for. -/
theorem render_toValue : ∀ k : Key, k.toValue.render = k.render
  | none | bool _ | int _ | float _ | complex .. | decimal _ | text _ | bytes _ => rfl
  | tuple items => by
    rw [toValue, Value.render, render, renderItems_toValues items]
  | record name fields => by
    have hfields : (Entries.ofList (toFields fields)).map
        (fun field => (field.1, field.2.render)) = Entries.ofList (renderFields fields) := by
      rw [← Entries.ofList_map_values, renderFields_toFields fields]
    rw [toValue, Value.render, render, ← hfields, Value.renderFields_eq_map, List.map_map]
    rfl

/-- Items of a key are rendered as their values. -/
private theorem renderItems_toValues : ∀ items : List Key,
    Value.renderItems (toValues items) = renderItems items
  | [] => rfl
  | k :: rest => by
    rw [toValues, Value.renderItems, renderItems, render_toValue k, renderItems_toValues rest]

/-- Fields of a key are rendered as their values. -/
private theorem renderFields_toFields : ∀ fields : List (String × Key),
    (toFields fields).map (fun field => (field.1, field.2.render)) = renderFields fields
  | [] => rfl
  | (name, k) :: rest => by
    rw [toFields, List.map_cons, renderFields, renderFields_toFields rest, render_toValue k]

end

end Key

/-! ## Legible values -/

namespace Value

/-- A value whose text shows all of it: made of scalars other than floating-point numbers, of lists,
    tuples and queues, and of maps whose keys stand for such values too. -/
inductive Legible : Value → Prop
  | none : Legible none
  | bool (b : Bool) : Legible (bool b)
  | int (i : Int64) : Legible (int i)
  | decimal (d : Decimal) : Legible (decimal d)
  | text (s : String) : Legible (text s)
  | bytes (b : List UInt8) : Legible (bytes b)
  | list {items : List Value} (each : ∀ v ∈ items, Legible v) : Legible (list items)
  | tuple {items : List Value} (each : ∀ v ∈ items, Legible v) : Legible (tuple items)
  | queue {items : List Value} (each : ∀ v ∈ items, Legible v) : Legible (queue items)
  | map {entries : List (Key × Value)} (eachKey : ∀ entry ∈ entries, Legible entry.1.toValue)
      (each : ∀ entry ∈ entries, Legible entry.2) : Legible (map entries)

variable {a b : Value} {k : Key} {s t : List Char}

/-- A key that stands for a legible value is the key of that value, since it has no records. -/
theorem Legible.proper (k : Key) (h : k.toValue.Legible) : k.Proper := by
  generalize hv : k.toValue = v at h
  -- only tuples have parts, and no legible value is a record
  induction h generalizing k with
  | @tuple values _ ih =>
    cases k with
    | tuple items =>
      cases hv
      refine Key.proper_tuple_iff.mpr fun j hj => ih j.toValue ?_ j rfl
      rw [Key.toValues_eq_map]
      exact List.mem_map_of_mem hj
    | _ => cases hv
  | _ => cases k <;> cases hv <;> rfl

/-- Keys that stand for one legible value are the same. -/
theorem Legible.eq_of_toValue_eq {j : Key} (hj : j.toValue.Legible) (hk : k.toValue.Legible)
    (h : j.toValue = k.toValue) : j = k := by
  have hkey : j.toValue.toKey? = some j := Legible.proper j hj
  rw [h, Legible.proper k hk, Option.some.injEq] at hkey
  exact hkey.symm

/-! ## The first character -/

/-- The kind of the legible values whose text starts with a character. -/
def openedKind? (c : Char) : Option Kind :=
  if c.isDigit then some .int
  else match c with
    | 'N' => some .none
    | 't' | 'f' => some .bool
    | '-' => some .int
    | 'D' => some .decimal
    | '"' => some .text
    | 'b' => some .bytes
    | '[' => some .list
    | '(' => some .tuple
    | 'q' => some .queue
    | '\x7b' => some .map
    | _ => Option.none

/-- A decimal is its text between parentheses, behind its name. -/
theorem toList_render_decimal (d : Decimal) :
    (decimal d).render.toList = "Decimal(".toList ++ (d.textChars ++ [')']) := by
  have htext : d.text.toList = d.textChars := String.toList_ofList
  rw [render, String.toList_append, String.toList_append, List.append_assoc, htext]
  rfl

/-- A list stands between brackets. -/
theorem toList_render_list (items : List Value) :
    (list items).render.toList = '[' :: ((Text.join ", " (items.map render)).toList ++ [']']) := by
  rw [render, String.toList_append, String.toList_append, List.append_assoc, renderItems_eq_map]
  rfl

/-- A tuple stands between parentheses, with a comma if it is the only item. -/
theorem toList_render_tuple (items : List Value) :
    (tuple items).render.toList = '(' :: ((Text.join ", " (items.map render)).toList ++
      if items.length = 1 then [',', ')'] else [')']) := by
  rw [render, renderItems_eq_map]
  match items with
  | [] => rfl
  | [item] => simp [tupleText, Text.join]
  | first :: second :: rest => simp [tupleText]

/-- A queue stands between brackets, behind its name. -/
theorem toList_render_queue (items : List Value) :
    (queue items).render.toList =
      "queue[".toList ++ ((Text.join ", " (items.map render)).toList ++ [']']) := by
  rw [render, String.toList_append, String.toList_append, List.append_assoc, renderItems_eq_map]
  rfl

/-- An entry of a map in writing. -/
def entryText (entry : Key × Value) : String :=
  entry.1.render ++ ": " ++ entry.2.render

/-- A map stands between braces. -/
theorem toList_render_map (entries : List (Key × Value)) :
    (map entries).render.toList =
      '\x7b' :: ((Text.join ", " (entries.map entryText)).toList ++ ['\x7d']) := by
  rw [render, bracedText, String.toList_append, String.toList_append, List.append_assoc,
    renderEntries_eq_map]
  rfl

/-- The text of a legible value starts with a character that tells the kind. -/
theorem Legible.exists_cons (h : a.Legible) :
    ∃ c rest, a.render.toList = c :: rest ∧ openedKind? c = some a.kind := by
  cases h with
  | none => exact ⟨_, _, rfl, rfl⟩
  | bool b => cases b <;> exact ⟨_, _, rfl, rfl⟩
  | int i =>
    rw [render, Text.toList_toString_int]
    -- an integer starts with a minus or with a digit
    split
    next =>
      obtain ⟨c, rest, hdigits⟩ := List.exists_cons_of_ne_nil
        (Nat.toDigits_ne_nil (n := i.toInt.natAbs) (b := 10))
      have hc : c.isDigit = true :=
        Text.isDigit_of_mem_toDigits (by rw [hdigits]; exact List.mem_cons_self)
      exact ⟨c, rest, hdigits, if_pos hc⟩
    next => exact ⟨_, _, rfl, rfl⟩
  | decimal d => exact ⟨_, _, toList_render_decimal d, rfl⟩
  | text s => exact ⟨_, _, Text.toList_quote s, rfl⟩
  | bytes b => exact ⟨_, _, Text.toList_quoteBytes b, rfl⟩
  | list each => exact ⟨_, _, toList_render_list _, rfl⟩
  | tuple each => exact ⟨_, _, toList_render_tuple _, rfl⟩
  | queue each => exact ⟨_, _, toList_render_queue _, rfl⟩
  | map eachKey each => exact ⟨_, _, toList_render_map _, rfl⟩

/-- Values of different kinds are told apart by the first character. -/
theorem Legible.kind_eq (ha : a.Legible) (hb : b.Legible)
    (h : a.render.toList ++ s = b.render.toList ++ t) : a.kind = b.kind := by
  obtain ⟨c, rest, hc, hcKind⟩ := ha.exists_cons
  obtain ⟨d, rest', hd, hdKind⟩ := hb.exists_cons
  rw [hc, hd, List.cons_append, List.cons_append] at h
  rw [(List.cons.inj h).1, hdKind, Option.some.injEq] at hcKind
  exact hcKind.symm

/-! ## What follows -/

/-- No item is written like something that opens no value. -/
def Opens {α : Type} (write : α → String) (items : List α) : Prop :=
  ∀ x ∈ items, ∃ c rest, (write x).toList = c :: rest ∧ openedKind? c ≠ Option.none

/-- The text of a legible item opens it: it is no comma, nor a bracket that closes. -/
theorem opens_items {items : List Value} (h : ∀ v ∈ items, v.Legible) : Opens render items := by
  intro v hv
  obtain ⟨c, rest, htext, hkind⟩ := (h v hv).exists_cons
  exact ⟨c, rest, htext, by rw [hkind]; nofun⟩

/-- An entry starts with its key. -/
theorem toList_entryText (entry : Key × Value) :
    (entryText entry).toList =
      entry.1.toValue.render.toList ++ ':' :: ' ' :: entry.2.render.toList := by
  rw [entryText, String.toList_append, String.toList_append, List.append_assoc, Key.render_toValue]
  rfl

/-- The text of an entry opens as that of its key. -/
theorem opens_entries {entries : List (Key × Value)}
    (h : ∀ entry ∈ entries, entry.1.toValue.Legible) : Opens entryText entries := by
  intro entry hentry
  obtain ⟨c, rest, htext, hkind⟩ := (h entry hentry).exists_cons
  exact ⟨c, _, by rw [toList_entryText, htext]; rfl, by rw [hkind]; nofun⟩

/-- A character that opens no value ends the items in front of it, unless it starts a separator. -/
theorem Opens.ends_of_ne {α : Type} {write : α → String} {items : List α} {c : Char}
    (hitems : Opens write items) (hc : openedKind? c = Option.none)
    (hseparator : ∀ x, c :: s ≠ ',' :: ' ' :: x) : Text.Ends write items (c :: s) where
  stops := by
    refine Text.stops_cons (Bool.eq_false_iff.mpr fun hdigit => ?_) s
    -- a digit would open a number
    have hopened : openedKind? c = some .int := if_pos hdigit
    rw [hopened] at hc
    cases hc
  separator := hseparator
  item x hx rest h := by
    obtain ⟨d, rest', hd, hopened⟩ := hitems x hx
    rw [hd] at h
    exact hopened ((List.cons.inj h).1 ▸ hc)

/-- Items that open are told from what closes the list. -/
theorem Opens.ends {α : Type} {write : α → String} {items : List α} {c : Char}
    (hitems : Opens write items) (hc : openedKind? c = Option.none) (hcomma : c ≠ ',') :
    Text.Ends write items (c :: s) :=
  hitems.ends_of_ne hc fun _ h => hcomma (List.cons.inj h).1

/-- The bracket that closes a tuple ends the items, also behind a comma. -/
theorem Opens.ends_tuple {α : Type} {write : α → String} {items : List α}
    (hitems : Opens write items) (n : Nat) :
    Text.Ends write items ((if n = 1 then [',', ')'] else [')']) ++ s) := by
  split
  · exact hitems.ends_of_ne rfl fun _ h =>
      absurd (List.cons.inj (List.cons.inj h).2).1 (by decide)
  · exact hitems.ends rfl (by decide)

/-- Items are told apart up to the bracket that closes them. -/
theorem Opens.join_append_inj {α : Type} {write : α → String} {as bs : List α} {c : Char}
    (has : Opens write as) (hbs : Opens write bs)
    (hitems : ∀ x ∈ as, ∀ y ∈ bs, Text.Discerned (write x).toList (write y).toList (x = y))
    (hc : openedKind? c = Option.none) (hcomma : c ≠ ',')
    (h : (Text.join ", " (as.map write)).toList ++ ([c] ++ s) =
      (Text.join ", " (bs.map write)).toList ++ ([c] ++ t)) : as = bs ∧ s = t := by
  obtain ⟨hsame, hrest⟩ :=
    Text.join_append_inj hitems (hbs.ends hc hcomma) (has.ends hc hcomma) h
  exact ⟨hsame, (List.cons.inj hrest).2⟩

/-! ## All of a value -/

/-- A decimal is told by the parenthesis that closes it. -/
theorem discerned_decimal (d d' : Decimal) :
    Text.Discerned (decimal d).render.toList (decimal d').render.toList (d = d') := by
  intro s t hs ht h
  rw [toList_render_decimal, toList_render_decimal, List.append_assoc, List.append_assoc] at h
  have hbody : d.textChars ++ ')' :: s = d'.textChars ++ ')' :: t := by
    simpa using List.append_cancel_left h
  have hcut := congrArg (Text.cutChars? ')') hbody
  rw [Text.cutChars?_append Decimal.closingParenthesis_not_mem_textChars,
    Text.cutChars?_append Decimal.closingParenthesis_not_mem_textChars, Option.some.injEq,
    Prod.mk.injEq] at hcut
  exact ⟨Decimal.eq_of_text_eq (congrArg String.ofList hcut.1), hcut.2⟩

/-- Entries are told apart if their keys and their values are. -/
theorem discerned_entry {x y : Key × Value}
    (hkey : Text.Discerned x.1.toValue.render.toList y.1.toValue.render.toList (x.1 = y.1))
    (hvalue : Text.Discerned x.2.render.toList y.2.render.toList (x.2 = y.2)) :
    Text.Discerned (entryText x).toList (entryText y).toList (x = y) := by
  intro s t hs ht h
  rw [toList_entryText, toList_entryText, List.append_assoc, List.append_assoc] at h
  obtain ⟨heqKey, hrest⟩ := hkey (Text.stops_cons (by decide) _) (Text.stops_cons (by decide) _) h
  obtain ⟨heqValue, hend⟩ := hvalue hs ht (List.cons.inj (List.cons.inj hrest).2).2
  exact ⟨Prod.ext heqKey heqValue, hend⟩

/-- Values of different kinds are told apart at once. -/
theorem Legible.discerned_of_kind_eq (ha : a.Legible) (hb : b.Legible)
    (h : a.kind = b.kind → Text.Discerned a.render.toList b.render.toList (a = b)) :
    Text.Discerned a.render.toList b.render.toList (a = b) :=
  fun _ _ hs ht heq => h (ha.kind_eq hb heq) hs ht heq

/-- A legible value is told from any other one, and its text shows where it ends. -/
theorem Legible.discerned (ha : a.Legible) (hb : b.Legible) :
    Text.Discerned a.render.toList b.render.toList (a = b) := by
  -- The first character tells the kind, so that the other value is of the same kind. From there
  -- induction on the value: where the contents are told apart, so is what closes them.
  induction ha generalizing b with
  | none =>
    refine Legible.none.discerned_of_kind_eq hb fun hkind s t hs ht h => ?_
    cases hb <;> cases hkind
    exact ⟨rfl, List.append_cancel_left h⟩
  | bool x =>
    refine (Legible.bool x).discerned_of_kind_eq hb fun hkind s t hs ht h => ?_
    cases hb <;> cases hkind
    case bool y =>
    cases x <;> cases y <;> first
      | exact ⟨rfl, List.append_cancel_left h⟩
      | exact absurd (List.cons.inj h).1 (by decide)
  | int i =>
    refine (Legible.int i).discerned_of_kind_eq hb fun hkind => ?_
    cases hb <;> cases hkind
    case int j =>
    exact (Text.discerned_int i.toInt j.toInt).imp fun h =>
      congrArg Value.int (Int64.toInt_inj.mp h)
  | decimal d =>
    refine (Legible.decimal d).discerned_of_kind_eq hb fun hkind => ?_
    cases hb <;> cases hkind
    case decimal d' => exact (discerned_decimal d d').imp (congrArg Value.decimal)
  | text x =>
    refine (Legible.text x).discerned_of_kind_eq hb fun hkind s t hs ht h => ?_
    cases hb <;> cases hkind
    case text y => exact (Text.quote_append_inj h).imp_left (congrArg Value.text)
  | bytes x =>
    refine (Legible.bytes x).discerned_of_kind_eq hb fun hkind s t hs ht h => ?_
    cases hb <;> cases hkind
    case bytes y => exact (Text.quoteBytes_append_inj h).imp_left (congrArg Value.bytes)
  | @list as has ih =>
    refine (Legible.list has).discerned_of_kind_eq hb fun hkind s t hs ht h => ?_
    cases hb <;> cases hkind
    case list bs hbs =>
    rw [toList_render_list, toList_render_list, List.cons_append, List.cons_append,
      List.append_assoc, List.append_assoc] at h
    exact ((opens_items has).join_append_inj (opens_items hbs)
      (fun v hv w hw => ih v hv (hbs w hw)) rfl (by decide) (List.cons.inj h).2).imp_left
      (congrArg Value.list)
  | @tuple as has ih =>
    refine (Legible.tuple has).discerned_of_kind_eq hb fun hkind s t hs ht h => ?_
    cases hb <;> cases hkind
    case tuple bs hbs =>
    rw [toList_render_tuple, toList_render_tuple, List.cons_append, List.cons_append,
      List.append_assoc, List.append_assoc] at h
    obtain ⟨rfl, hrest⟩ := Text.join_append_inj (fun v hv w hw => ih v hv (hbs w hw))
      ((opens_items hbs).ends_tuple _) ((opens_items has).ends_tuple _) (List.cons.inj h).2
    exact ⟨rfl, List.append_cancel_left hrest⟩
  | @queue as has ih =>
    refine (Legible.queue has).discerned_of_kind_eq hb fun hkind s t hs ht h => ?_
    cases hb <;> cases hkind
    case queue bs hbs =>
    rw [toList_render_queue, toList_render_queue, List.append_assoc, List.append_assoc,
      List.append_assoc, List.append_assoc] at h
    exact ((opens_items has).join_append_inj (opens_items hbs)
      (fun v hv w hw => ih v hv (hbs w hw)) rfl (by decide) (List.append_cancel_left h)).imp_left
      (congrArg Value.queue)
  | @map as hasKeys has ihKey ih =>
    refine (Legible.map hasKeys has).discerned_of_kind_eq hb fun hkind s t hs ht h => ?_
    cases hb <;> cases hkind
    case map bs hbsKeys hbs =>
    rw [toList_render_map, toList_render_map, List.cons_append, List.cons_append,
      List.append_assoc, List.append_assoc] at h
    -- entries are told apart by keys and values, and keys by the values that they stand for
    have hentry : ∀ x ∈ as, ∀ y ∈ bs,
        Text.Discerned (entryText x).toList (entryText y).toList (x = y) := by
      intro x hx y hy
      exact discerned_entry ((ihKey x hx (hbsKeys y hy)).imp
        (Legible.eq_of_toValue_eq (hasKeys x hx) (hbsKeys y hy))) (ih x hx (hbs y hy))
    exact ((opens_entries hasKeys).join_append_inj (opens_entries hbsKeys) hentry rfl (by decide)
      (List.cons.inj h).2).imp_left (congrArg Value.map)

end Value

/-! ## Segments of locations -/

/-- A path is rendered segment by segment. -/
theorem Path.render_append (front back : Path) :
    Path.render (front ++ back) = front.render ++ back.render := by
  induction front with
  | nil => exact String.empty_append.symm
  | cons segment rest ih => rw [List.cons_append, render, render, ih, String.append_assoc]

/-- A key in a location is told from any other one, whatever follows it there. -/
theorem Value.Legible.key_eq_of_path_render_eq {j k : Key} (hj : j.toValue.Legible)
    (hk : k.toValue.Legible) {back back' : Path}
    (h : Path.render (.key j.render :: back) = Path.render (.key k.render :: back')) : j = k := by
  have hchars := congrArg String.toList h
  simp only [Path.render, Segment.render, String.toList_append, List.append_assoc] at hchars
  rw [← Key.render_toValue, ← Key.render_toValue] at hchars
  have hclosed (path : Path) : Text.Stops ("]".toList ++ path.render.toList) :=
    Text.stops_cons (by decide) _
  exact hj.eq_of_toValue_eq hk
    (hj.discerned hk (hclosed back) (hclosed back') (List.append_cancel_left hchars)).1

/-- Legible values with one text are the same in all their parts, with their kinds, the order of
    items and entries, and the sign and the scale of decimals. So are keys that are written in one
    segment: from a different key of a map on, locations are different whatever follows. -/
theorem rendering_is_unambiguous :
    (∀ a b : Value, a.Legible → b.Legible → a.render = b.render → a = b) ∧
    ∀ entries, (Value.map entries).Legible →
      ∀ j ∈ Entries.keys entries, ∀ k ∈ Entries.keys entries, j ≠ k →
        (Segment.key j.render).render ≠ (Segment.key k.render).render ∧
        ∀ front back back' : Path,
          (Location.ofPath (front ++ .key j.render :: back)).render ≠
            (Location.ofPath (front ++ .key k.render :: back')).render := by
  refine ⟨fun a b ha hb h => ?_, fun entries hentries j hj k hk hne => ?_⟩
  · have hchars : a.render.toList ++ [] = b.render.toList ++ [] := by rw [h]
    exact (ha.discerned hb Text.stops_nil Text.stops_nil hchars).1
  -- keys are rendered as the values that they stand for
  have hlegible : ∀ i ∈ Entries.keys entries, i.toValue.Legible := by
    cases hentries with
    | map eachKey each =>
      intro i hi
      obtain ⟨entry, hentry, rfl⟩ := List.mem_map.mp hi
      exact eachKey entry hentry
  have hpath (back back' : Path) :
      Path.render (.key j.render :: back) ≠ Path.render (.key k.render :: back') := fun h =>
    hne (Value.Legible.key_eq_of_path_render_eq (hlegible j hj) (hlegible k hk) h)
  refine ⟨fun h => hpath [] [] ?_, fun front back back' h => hpath back back' ?_⟩
  · rw [Path.render, h]; rfl
  -- what stands in front of the two segments is the same and is left away
  · rw [Location.render, Location.render, Location.ofPath, Location.ofPath, Path.render_append,
      Path.render_append] at h
    exact (String.append_right_inj _).mp ((String.append_right_inj _).mp h)

/-- Keys and values whose texts have brackets, commas and quotes in them. -/
def labels : List (Key × Value) :=
  [(.text "a, b", .list ((["1.0", "1.00"].filterMap Decimal.ofText?).map .decimal)),
    (.text "(\"a\", \"b\")", .tuple [.bool true]),
    (.tuple [.text "a", .text "b"], .queue [.none, .bytes [34], .map []])]

/-- Any choice of the labels makes a legible map. -/
theorem labels_legible {entries : List (Key × Value)} (h : entries ⊆ labels) :
    (Value.map entries).Legible := by
  have hkeys : ∀ entry ∈ labels, entry.1.toValue.Legible := by
    simp only [labels, List.forall_mem_cons, Key.toValue, Key.toValues]
    -- two texts, and a tuple of texts
    refine ⟨.text _, .text _, .tuple ?_, nofun⟩
    simp only [List.forall_mem_cons]
    exact ⟨.text _, .text _, nofun⟩
  have hvalues : ∀ entry ∈ labels, entry.2.Legible := by
    simp only [labels, List.forall_mem_cons]
    refine ⟨.list ?_, .tuple ?_, .queue ?_, nofun⟩
    · intro v hv
      obtain ⟨d, -, rfl⟩ := List.mem_map.mp hv
      exact .decimal d
    · simp only [List.forall_mem_cons]
      exact ⟨.bool _, nofun⟩
    · simp only [List.forall_mem_cons]
      exact ⟨.none, .bytes _, .map nofun nofun, nofun⟩
  exact .map (fun entry hentry => hkeys entry (h hentry))
    fun entry hentry => hvalues entry (h hentry)

/-- Two maps that differ in their order only, and a text that reads like a tuple. -/
theorem rendering_is_unambiguous_labels :
    ((Value.map labels).Legible ∧ (Value.map labels.reverse).Legible ∧
      (Value.map labels).render ≠ (Value.map labels.reverse).render) ∧
    (Location.ofPath [.key (Key.text "(\"a\", \"b\")").render, .index 0]).render ≠
      (Location.ofPath [.key (Key.tuple [.text "a", .text "b"]).render, .index 0]).render := by
  have hlegible := labels_legible (List.Subset.refl labels)
  have hreverse := labels_legible (List.reverse_subset.mpr (List.Subset.refl labels))
  -- the entries stand in another order, and a map is rendered in the order that it has
  have horder : Value.map labels ≠ Value.map labels.reverse := fun h => by simp [labels] at h
  have hpaths := (rendering_is_unambiguous.2 labels hlegible (.text "(\"a\", \"b\")")
    (by simp [labels, Entries.keys]) (.tuple [.text "a", .text "b"])
    (by simp [labels, Entries.keys]) nofun).2 [] [.index 0] [.index 0]
  exact ⟨⟨hlegible, hreverse, mt (rendering_is_unambiguous.1 _ _ hlegible hreverse) horder⟩, hpaths⟩

end Conform
