import Conform.Location
import Conform.Override
import Conform.Proofs.Value.WellFormed

/-!
# Assignments below maps

Nested maps are read along paths of keys (`Value.at?`). An assignment that succeeds is a write in a
frame (`Value.Writes`): its path leads to the value, paths that go another way lead to what they led
to, and the maps on the way keep their entries in place. An assignment that fails has met with a
value that is not a map (`Value.BlockedAt`) and leaves everything as it was, although maps are made
on the way: below a map that has just been made there is nothing to meet with. Main statement:
`override_writes_or_refuses`.
-/

namespace Conform

/-! ## Paths of keys -/

/-- What a path of keys leads to. Only maps are gone through. -/
def Value.at? : List Key → Value → Option Value
  | [], v => some v
  | k :: rest, .map entries => (Entries.find? k entries).bind (Value.at? rest)
  | _ :: _, _ => .none

/-- The keys that are spelled by texts. -/
abbrev textKeys (names : List String) : List Key := names.map Key.text

/-- A value has been written under a path of names. -/
structure Value.Writes (names : List String) (v before after : Value) : Prop where
  read : after.at? (textKeys names) = some v
  /-- A path that is neither a prefix nor an extension leads to what it led to. -/
  frame : ∀ path, ¬ path <+: textKeys names → ¬ textKeys names <+: path →
    after.at? path = before.at? path
  /-- A map on the way keeps its keys in their places, and a new key comes last. -/
  kept : ∀ front name rest entries, names = front ++ name :: rest →
    before.at? (textKeys front) = some (.map entries) →
      ∃ entries', after.at? (textKeys front) = some (.map entries') ∧
        Entries.keys entries' = if Entries.contains (Key.text name) entries
          then Entries.keys entries else Entries.keys entries ++ [Key.text name]
  /-- Where nothing was, there is a map of the next key alone. -/
  made : ∀ front name rest, names = front ++ name :: rest →
    before.at? (textKeys front) = .none →
      ∃ child, after.at? (textKeys front) = some (.map [(Key.text name, child)])

/-- On the way along the names, `front` is the shortest that leads to a value other than a map. -/
structure Value.BlockedAt (target : Value) (names front : List String) : Prop where
  onTheWay : ∃ name rest, names = front ++ name :: rest
  blocked : ∃ w, target.at? (textKeys front) = some w ∧ w.kind ≠ .map
  shortest : ∀ shorter name rest, front = shorter ++ name :: rest →
    ∃ entries, target.at? (textKeys shorter) = some (.map entries)

/-- Whatever stands on the way along the names is a map. -/
def Value.ClearFor (names : List String) (target : Value) : Prop :=
  ∀ front name rest, names = front ++ name :: rest →
    ∀ w, target.at? (textKeys front) = some w → w.kind = .map

/-- A way that is blocked is not clear. -/
theorem Value.BlockedAt.not_clearFor {target : Value} {names front : List String}
    (h : target.BlockedAt names front) : ¬ target.ClearFor names := by
  intro hclear
  obtain ⟨name, rest, hnames⟩ := h.onTheWay
  obtain ⟨w, hw, hkind⟩ := h.blocked
  exact hkind (hclear front name rest hnames w hw)

/-- No key but the text itself equals a text. -/
private theorem beq_text_eq_false {k : Key} {name : String} (h : k ≠ .text name) :
    (Key.text name == k) = false := by
  rw [BEq.comm]
  exact Bool.eq_false_iff.mpr fun heq => h (Key.beq_text_iff.mp heq)

/-- The value under a key, or the map that is made there if there is none. -/
abbrev childAt (k : Key) (entries : List (Key × Value)) : Value :=
  (Entries.find? k entries).getD (.map [])

/-- What a path leads to below a child is what the path through the child leads to. -/
theorem Value.at?_childAt_of_some {k : Key} {path : List Key} {entries : List (Key × Value)}
    {w : Value} (h : (Value.map entries).at? (k :: path) = some w) :
    (childAt k entries).at? path = some w := by
  obtain ⟨child, hchild, hw⟩ := Option.bind_eq_some_iff.mp h
  rw [childAt, hchild]
  exact hw

/-- A child that has to be made has nothing below it. -/
theorem Value.at?_childAt (k : Key) {path : List Key} (hpath : path ≠ [])
    (entries : List (Key × Value)) :
    (Value.map entries).at? (k :: path) = (childAt k entries).at? path := by
  simp only [Value.at?, childAt]
  cases Entries.find? k entries with
  | some child => rfl
  | none =>
    cases path with
    | nil => exact absurd rfl hpath
    | cons j rest => rfl

/-! ## Writing under a path -/

/-- Under the empty path the whole value is written. -/
theorem Value.Writes.whole (before v : Value) : Value.Writes [] v before v where
  read := rfl
  frame := fun path _ hbehind => absurd List.nil_prefix hbehind
  kept := fun front name rest _ hnames _ => by simp at hnames
  made := fun front name rest hnames _ => by simp at hnames

/-- A write below the child under a name is a write below the map that takes the child back. -/
theorem Value.Writes.below {names : List String} {v child' : Value} (name : String)
    {entries : List (Key × Value)}
    (h : Value.Writes names v (childAt (Key.text name) entries) child') :
    Value.Writes (name :: names) v (.map entries)
      (.map (Entries.insert (Key.text name) child' entries)) := by
  -- the map leads from the name to the child that it has taken back, and elsewhere as before
  have hsame : ∀ path, (Value.map (Entries.insert (Key.text name) child' entries)).at?
      (Key.text name :: path) = child'.at? path := by
    intro path
    rw [Value.at?, Entries.find?_insert_self]
    rfl
  constructor
  case read => exact (hsame _).trans h.read
  -- a path away from the names either leaves the child at once or within the child
  case frame =>
    intro path hfront hbehind
    cases path with
    | nil => exact absurd List.nil_prefix hfront
    | cons k rest =>
      by_cases hk : k = .text name
      · subst hk
        simp only [List.map_cons, List.cons_prefix_cons, true_and] at hfront hbehind
        have hrest : rest ≠ [] := by
          rintro rfl
          exact hfront List.nil_prefix
        rw [hsame, h.frame rest hfront hbehind, Value.at?_childAt _ hrest]
      · simp only [Value.at?, Entries.find?_insert, beq_text_eq_false hk, Bool.false_eq_true,
          if_false]
  -- the first map on the way is this one, and all others are in the child
  case kept =>
    intro front name' rest entries' hnames hbefore
    cases front with
    | nil =>
      cases hnames
      cases hbefore
      exact ⟨_, rfl, Entries.keys_insert _ _ _⟩
    | cons first front =>
      obtain ⟨rfl, rfl⟩ := List.cons.inj hnames
      simp only [textKeys, List.map_cons, hsame]
      exact h.kept front name' rest entries' rfl (Value.at?_childAt_of_some hbefore)
  case made =>
    intro front name' rest hnames hbefore
    cases front with
    | nil => cases hbefore
    | cons first front =>
      obtain ⟨rfl, rfl⟩ := List.cons.inj hnames
      simp only [textKeys, List.map_cons, hsame] at hbefore ⊢
      cases front with
      | cons second front =>
        rw [List.map_cons, Value.at?_childAt _ (List.cons_ne_nil _ _)] at hbefore
        exact h.made (second :: front) name' rest rfl hbefore
      | nil =>
        -- the child has been made, so that the next key is its only one
        have hnone : Entries.find? (Key.text name) entries = .none := by
          cases hfind : Entries.find? (Key.text name) entries with
          | none => rfl
          | some child => rw [List.map_nil, Value.at?, hfind] at hbefore; cases hbefore
        have hchild : (childAt (Key.text name) entries).at? [] = some (.map []) := by
          rw [childAt, hnone]
          rfl
        obtain ⟨made, hmade, hkeys⟩ := h.kept [] name' rest [] rfl hchild
        obtain ⟨⟨k, w⟩, rfl, rfl⟩ := List.map_eq_singleton_iff.mp hkeys
        exact ⟨w, hmade⟩

/-! ## Assignments -/

namespace Override

/-- An assignment below a map assigns below its child and takes the child back. -/
theorem assign_cons (walked name : String) (entries : List (Key × Value)) {names : List String}
    (hnames : names ≠ []) (v : Value) :
    assign walked (.map entries) (name :: names) v =
      (.map (Entries.insert (Key.text name)
          (assign (walked ++ "." ++ name) (childAt (Key.text name) entries) names v).1 entries),
        (assign (walked ++ "." ++ name) (childAt (Key.text name) entries) names v).2) := by
  cases names with
  | nil => exact absurd rfl hnames
  | cons next rest => rfl

/-- Whatever is no map cannot be assigned through. -/
theorem assign_of_kind_ne {target : Value} (h : target.kind ≠ .map) (walked : String)
    (names : List String) (v : Value) :
    assign walked target names v = (target, .error (.notAMap walked)) := by
  cases target with
  | map entries => exact absurd rfl h
  | _ => cases names <;> rfl

/-- A value that is no map blocks the way at once. -/
theorem blockedAt_nil {target : Value} (h : target.kind ≠ .map) (name : String)
    (names : List String) : target.BlockedAt (name :: names) [] where
  onTheWay := ⟨name, names, rfl⟩
  blocked := ⟨target, rfl, h⟩
  shortest := fun shorter other rest hfront => by simp at hfront

variable {name : String} {entries : List (Key × Value)} {names : List String}

/-- What blocks the way below a child is not below one that had to be made, which is empty. -/
theorem find?_of_blockedAt {front : List String}
    (h : (childAt (Key.text name) entries).BlockedAt names front) :
    Entries.find? (Key.text name) entries = some (childAt (Key.text name) entries) := by
  obtain ⟨w, hw, hkind⟩ := h.blocked
  cases hfind : Entries.find? (Key.text name) entries with
  | some child => rw [childAt, hfind]; rfl
  | none =>
    rw [childAt, hfind] at hw
    cases front with
    | nil => cases hw; exact absurd rfl hkind
    | cons first front => cases hw

/-- What blocks the way in a child blocks it from the map, one name further. -/
theorem blockedAt_below {front : List String}
    (h : (childAt (Key.text name) entries).BlockedAt names front) :
    (Value.map entries).BlockedAt (name :: names) (name :: front) := by
  -- a path into the child is a path through the map, one name longer
  have hchild : ∀ path, (Value.map entries).at? (Key.text name :: path) =
      (childAt (Key.text name) entries).at? path := by
    intro path
    rw [Value.at?, find?_of_blockedAt h]
    rfl
  constructor
  case onTheWay =>
    obtain ⟨next, rest, hnames⟩ := h.onTheWay
    exact ⟨next, rest, by rw [hnames]; rfl⟩
  case blocked =>
    obtain ⟨w, hw, hkind⟩ := h.blocked
    exact ⟨w, (hchild _).trans hw, hkind⟩
  case shortest =>
    intro shorter next rest hfront
    cases shorter with
    | nil => exact ⟨entries, rfl⟩
    | cons first shorter =>
      obtain ⟨rfl, rfl⟩ := List.cons.inj hfront
      obtain ⟨entries', hentries⟩ := h.shortest shorter next rest rfl
      exact ⟨entries', (hchild _).trans hentries⟩

/-- A way that is clear in the child is clear from the map. -/
theorem clearFor_below (h : (childAt (Key.text name) entries).ClearFor names) :
    (Value.map entries).ClearFor (name :: names) := by
  intro front next rest hnames w hw
  cases front with
  | nil => cases hw; rfl
  | cons first front =>
    obtain ⟨rfl, rfl⟩ := List.cons.inj hnames
    exact h front next rest rfl w (Value.at?_childAt_of_some hw)

/-- An assignment writes if only maps are on the way. If not, it fails at the first other value, and
    nothing has changed. -/
theorem assign_cases (walked : String) (target : Value) {names : List String} (hnames : names ≠ [])
    (v : Value) :
    (∃ after, assign walked target names v = (after, .ok ()) ∧ target.ClearFor names ∧
        Value.Writes names v target after) ∨
      ∃ front, target.BlockedAt names front ∧ assign walked target names v =
        (target, .error (.notAMap (walked ++ Path.render (front.map .field)))) := by
  -- along the names, of which each leads to the child that the rest is assigned below
  induction names generalizing walked target with
  | nil => exact absurd rfl hnames
  | cons name names ih =>
    by_cases hkind : target.kind = .map
    · obtain ⟨entries, rfl⟩ := Value.exists_entries hkind
      by_cases hlast : names = []
      · subst hlast
        refine .inl ⟨_, rfl, ?_, (Value.Writes.whole _ v).below name⟩
        refine clearFor_below fun front next rest hnil => ?_
        simp at hnil
      · rw [assign_cons walked name entries hlast]
        obtain ⟨after, hafter, hclear, hwrites⟩ | ⟨front, hblocked, hfails⟩ :=
          ih (walked ++ "." ++ name) (childAt (Key.text name) entries) hlast
        · rw [hafter]
          exact .inl ⟨_, rfl, clearFor_below hclear, hwrites.below name⟩
        · -- the child is taken back as it was
          rw [hfails, Entries.insert_of_find? (find?_of_blockedAt hblocked)]
          refine .inr ⟨name :: front, blockedAt_below hblocked, ?_⟩
          simp only [List.map_cons, Path.render, Segment.render, String.append_assoc]
    · rw [assign_of_kind_ne hkind]
      -- something that is no map blocks the first name already
      refine .inr ⟨[], blockedAt_nil hkind name names, ?_⟩
      rw [List.map_nil, Path.render, String.append_empty]

/-! ## Several assignments -/

/-- What becomes of a value by overrides that are carried out one after the other, up to the first
    that fails, and how that ends. -/
inductive InTurn : Value → List Override → Value × Except OverrideError Unit → Prop
  | done (v : Value) : InTurn v [] (v, .ok ())
  | applied {o : Override} {rest : List Override} {v next : Value}
      {ended : Value × Except OverrideError Unit} (first : o.apply v = (next, .ok ()))
      (others : InTurn next rest ended) : InTurn v (o :: rest) ended
  | stopped {o : Override} {rest : List Override} {v : Value} {e : OverrideError}
      (first : (o.apply v).2 = .error e) : InTurn v (o :: rest) (v, .error e)

/-- What becomes of a value by overrides that are given as texts. The first text that cannot be read
    is reported before anything is assigned. -/
inductive TextsEnd (target : Value) (texts : List String) :
    Value × Except OverrideError Unit → Prop
  | malformed {before after : List String} {text : String} {e : OverrideError}
      (cut : texts = before ++ text :: after) (earlier : ∀ t ∈ before, ∃ o, parse t = .ok o)
      (failure : parse text = .error e) : TextsEnd target texts (target, .error e)
  | carriedOut {overrides : List Override} {ended : Value × Except OverrideError Unit}
      (read : List.Forall₂ (fun t o => parse t = .ok o) texts overrides)
      (turns : InTurn target overrides ended) : TextsEnd target texts ended

/-- An override that fails leaves the value as it is. -/
theorem apply_eq_self_of_error {o : Override} {target : Value} {e : OverrideError}
    (h : (o.apply target).2 = .error e) : (o.apply target).1 = target := by
  obtain ⟨names, v⟩ := o
  by_cases hnames : names = []
  · -- nothing is assigned under no name
    subst hnames
    cases target with
    | _ => rfl
  -- an assignment succeeds, or gives the target back as it was
  · obtain ⟨after, hafter, -, -⟩ | ⟨front, -, hfails⟩ := assign_cases "$" target hnames v
    · rw [apply, hafter] at h
      cases h
    · rw [apply, hfails]

/-- Overrides are applied in turn, and the first that fails stops them. -/
theorem applyEach_inTurn (overrides : List Override) (target : Value) :
    InTurn target overrides (applyEach target overrides) := by
  induction overrides generalizing target with
  | nil => exact .done target
  | cons o rest ih =>
    rw [applyEach]
    cases happly : o.apply target with
    | mk next outcome =>
      cases outcome with
      | ok _ => exact .applied happly (ih next)
      | error e =>
        -- an override that fails leaves the value as it was
        have hsame : next = target := by
          have := apply_eq_self_of_error (congrArg Prod.snd happly)
          rwa [happly] at this
        subst hsame
        exact .stopped (congrArg Prod.snd happly)

/-- Either all texts can be read, or the first that cannot is reported. -/
theorem mapM_parse_cases (texts : List String) :
    (∃ overrides, List.Forall₂ (fun t o => parse t = .ok o) texts overrides ∧
        texts.mapM parse = .ok overrides) ∨
      ∃ before text after e, texts = before ++ text :: after ∧
        (∀ t ∈ before, ∃ o, parse t = .ok o) ∧ parse text = .error e ∧
        texts.mapM parse = .error e := by
  -- text by text; the first that is malformed ends the reading
  induction texts with
  | nil => exact .inl ⟨[], .nil, rfl⟩
  | cons text texts ih =>
    rw [List.mapM_cons]
    cases htext : parse text with
    | error e =>
      exact .inr ⟨[], text, texts, e, rfl, fun _ h => absurd h List.not_mem_nil, htext, rfl⟩
    | ok o =>
      obtain ⟨overrides, hread, hall⟩ |
        ⟨before, other, after, e, rfl, hbefore, hother, hfirst⟩ := ih
      · rw [hall]
        exact .inl ⟨o :: overrides, .cons htext hread, rfl⟩
      · rw [hfirst]
        refine .inr ⟨text :: before, other, after, e, rfl, ?_, hother, rfl⟩
        exact List.forall_mem_cons.mpr ⟨⟨o, htext⟩, hbefore⟩

/-- All texts are read before the first is applied. -/
theorem applyTexts_ends (target : Value) (texts : List String) :
    TextsEnd target texts (applyTexts target texts) := by
  rw [applyTexts]
  obtain ⟨overrides, hread, hall⟩ | ⟨before, text, after, e, hcut, hbefore, htext, hfirst⟩ :=
    mapM_parse_cases texts
  · rw [hall]
    exact .carriedOut hread (applyEach_inTurn overrides target)
  · rw [hfirst]
    exact .malformed hcut hbefore htext

end Override

/-- An override with at least one key succeeds exactly if only maps are on the way of its keys, and
    then it is a write in a frame. If not, nothing has changed, and the failure names the first on
    the way that is no map. A list of texts is read as a whole before anything is assigned, and is
    then carried out text by text, up to the first that fails. -/
theorem override_writes_or_refuses {o : Override} (hkeys : o.keys ≠ []) (target : Value)
    (texts : List String) :
    ((o.apply target).2 = .ok () ↔ target.ClearFor o.keys) ∧
      ((o.apply target).2 = .ok () →
        Value.Writes o.keys o.value target (o.apply target).1) ∧
      (∀ e, (o.apply target).2 = .error e → (o.apply target).1 = target ∧
        ∃ front, target.BlockedAt o.keys front ∧
          e = .notAMap (Location.ofPath (front.map .field)).render) ∧
      Override.TextsEnd target texts (Override.applyTexts target texts) := by
  -- the way to the last name is clear, or it is blocked
  obtain ⟨after, hafter, hclear, hwrites⟩ | ⟨front, hblocked, hfails⟩ :=
    Override.assign_cases "$" target hkeys o.value
  · have happly : o.apply target = (after, .ok ()) := hafter
    rw [happly]
    refine ⟨iff_of_true rfl hclear, fun _ => hwrites, fun e he => ?_,
      Override.applyTexts_ends target texts⟩
    cases he
  · have happly : o.apply target =
        (target, .error (.notAMap (Location.ofPath (front.map .field)).render)) := hfails
    rw [happly]
    -- a way that is blocked is not clear
    refine ⟨iff_of_false (fun h => ?_) hblocked.not_clearFor, fun h => ?_, fun e he => ?_,
      Override.applyTexts_ends target texts⟩
    · cases h
    · cases h
    cases he
    exact ⟨rfl, front, hblocked, rfl⟩

/-! ## A server -/

/-- Settings of a server, of which the name is no map. -/
def serverSettings : Value :=
  .map [(.text "name", .text "a"), (.text "port", .map [(.text "tcp", .int 80)])]

/-- A new level is made below an entry that is there, which keeps its place. Of the texts, the
    second is refused and the third is not carried out. -/
theorem override_writes_or_refuses_server :
    (⟨["port", "udp", "from"], .int 53⟩ : Override).keys ≠ [] ∧
      Value.Writes ["port", "udp", "from"] (.int 53) serverSettings
        (.map [(.text "name", .text "a"), (.text "port", .map [(.text "tcp", .int 80),
          (.text "udp", .map [(.text "from", .int 53)])])]) ∧
      Override.TextsEnd serverSettings ["port.tcp=None", "name.first=True", "name=False"]
        (.map [(.text "name", .text "a"), (.text "port", .map [(.text "tcp", .none)])],
          .error (.notAMap "$.name")) := by
  have hkeys : (⟨["port", "udp", "from"], .int 53⟩ : Override).keys ≠ [] := by simp
  have h := override_writes_or_refuses hkeys serverSettings
    ["port.tcp=None", "name.first=True", "name=False"]
  refine ⟨hkeys, h.2.1 rfl, ?_⟩
  -- the first override is applied, the second is blocked, and the third is not reached
  have hport : Override.parse "port.tcp=None" = .ok ⟨["port", "tcp"], .none⟩ := rfl
  have hfirst : Override.parse "name.first=True" = .ok ⟨["name", "first"], .bool true⟩ := rfl
  have hname : Override.parse "name=False" = .ok ⟨["name"], .bool false⟩ := rfl
  have htexts : Override.applyTexts serverSettings
      ["port.tcp=None", "name.first=True", "name=False"] =
        (.map [(.text "name", .text "a"), (.text "port", .map [(.text "tcp", .none)])],
          .error (.notAMap "$.name")) := by
    rw [Override.applyTexts, List.mapM_cons, List.mapM_cons, List.mapM_cons, hport, hfirst, hname]
    rfl
  rw [← htexts]
  exact h.2.2.2

end Conform
