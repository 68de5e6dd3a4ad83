import Conform.Proofs.Cast.Agree
import Conform.Proofs.Cast.Reordering
import Conform.Proofs.Entries.Overwriting
import Conform.Proofs.Program.Sequence

/-!
# Casting to maps

A map is cast entry by entry, each key before the value under it (`run_castEntry_ok_iff`), up to the
first entry that fails (`run_castEntry_error_iff`). Entries whose keys are cast to equal keys fall
into one, which has the first of these keys and the last of the values. Main statement:
`map_cast_overwrites`.
-/

namespace Conform

variable {σ : Type} {answer : (request : Request) → StateM σ request.Reply} {ctx : Context}
  {key value : Descriptor} {entry pair : Key × Value} {entries pairs : List (Key × Value)}
  {s s' : σ}

/-- An entry of the whole value is cast one level deeper: its key, to a value that can be a key, and
    then the value under it. -/
inductive EntryCast (answer : (request : Request) → StateM σ request.Reply) (ctx : Context)
    (key value : Descriptor) : Key × Value → σ → Key × Value → σ → Prop
  | intro {k j : Key} {x w y : Value} {s s₁ s' : σ}
    (castKey : ((castAt ctx key [.key k.render] k.toValue).run answer).run s = (.ok w, s₁))
    (hash : w.toKey? = some j)
    (castValue : ((castAt ctx value [.key k.render] x).run answer).run s₁ = (.ok y, s')) :
    EntryCast answer ctx key value (k, x) s (j, y) s'

/-- The cast of an entry fails: for its key, which is refused or cast to a value that can be no key,
    and else for the value under it. -/
inductive EntryFails (answer : (request : Request) → StateM σ request.Reply) (ctx : Context)
    (key value : Descriptor) : Key × Value → σ → CastError → σ → Prop
  | castKey {k : Key} {x : Value} {e : CastError} {s s' : σ}
    (castKey : ((castAt ctx key [.key k.render] k.toValue).run answer).run s = (.error e, s')) :
    EntryFails answer ctx key value (k, x) s e s'
  | hash {k : Key} {x w : Value} {s s' : σ}
    (castKey : ((castAt ctx key [.key k.render] k.toValue).run answer).run s = (.ok w, s'))
    (hash : w.toKey? = none) :
    EntryFails answer ctx key value (k, x) s
      (refused [.key k.render] w key.render .unhashable) s'
  | castValue {k j : Key} {x w : Value} {e : CastError} {s s₁ s' : σ}
    (castKey : ((castAt ctx key [.key k.render] k.toValue).run answer).run s = (.ok w, s₁))
    (hash : w.toKey? = some j)
    (castValue : ((castAt ctx value [.key k.render] x).run answer).run s₁ = (.error e, s')) :
    EntryFails answer ctx key value (k, x) s e s'

/-- The entries are cast one after the other. -/
inductive EntriesCast (answer : (request : Request) → StateM σ request.Reply) (ctx : Context)
    (key value : Descriptor) : List (Key × Value) → σ → List (Key × Value) → σ → Prop
  | nil (s : σ) : EntriesCast answer ctx key value [] s [] s
  | cons {entry pair : Key × Value} {entries pairs : List (Key × Value)} {s s₁ s' : σ}
    (first : EntryCast answer ctx key value entry s pair s₁)
    (next : EntriesCast answer ctx key value entries s₁ pairs s') :
    EntriesCast answer ctx key value (entry :: entries) s (pair :: pairs) s'

/-- Every entry is cast to one pair. -/
theorem EntriesCast.length_eq (h : EntriesCast answer ctx key value entries s pairs s') :
    pairs.length = entries.length := by
  induction h with
  | nil s => rfl
  | cons _ _ ih => rw [List.length_cons, List.length_cons, ih]

/-! ## Runs -/

/-- Casts an entry of the whole value. -/
abbrev castRootEntry (ctx : Context) (key value : Descriptor) (entry : Key × Value) :
    Program (Key × Value) :=
  castEntry (castWithin ctx ctx.config.limits.maxDepth) key value [] entry

/-- An entry gives a pair when its key is cast, has a key form, and its value is cast after it. -/
theorem run_castEntry_ok_iff :
    ((castRootEntry ctx key value entry).run answer).run s = (.ok pair, s') ↔
      EntryCast answer ctx key value entry s pair s' := by
  obtain ⟨k, x⟩ := entry
  rw [castRootEntry, castEntry, Program.run_bind_ok_iff]
  constructor
  · rintro ⟨w, s₁, hw, h⟩
    -- without a key form there is no pair, whatever the value would be cast to
    cases hash : w.toKey? with
    | none => rw [hash] at h; cases h
    | some j =>
      rw [hash] at h
      obtain ⟨y, hy, rfl⟩ := Program.run_bind_pure_ok_iff.mp h
      exact .intro hw hash hy
  · rintro (@⟨_, j, _, w, y, _, s₁, _, hw, hash, hy⟩)
    refine ⟨w, s₁, hw, ?_⟩
    rw [hash]
    exact Program.run_bind_pure_ok_iff.mpr ⟨y, hy, rfl⟩

/-- An entry fails in one of three places: its key, the form of its key, its value. -/
theorem run_castEntry_error_iff {e : CastError} :
    ((castRootEntry ctx key value entry).run answer).run s = (.error e, s') ↔
      EntryFails answer ctx key value entry s e s' := by
  obtain ⟨k, x⟩ := entry
  rw [castRootEntry, castEntry, Program.run_bind_error_iff]
  constructor
  · rintro (h | ⟨w, s₁, hw, h⟩)
    · exact .castKey h
    -- the error comes after the key: of its form, or of the value
    · cases hash : w.toKey? with
      | none => rw [hash] at h; cases h; exact .hash hw hash
      | some j =>
        rw [hash] at h
        exact .castValue hw hash (Program.run_bind_pure_error_iff.mp h)
  · intro h
    cases h with
    | castKey h => exact .inl h
    | @hash _ _ w _ _ hw hash =>
      refine .inr ⟨w, s', hw, ?_⟩
      rw [hash]
      rfl
    | @castValue _ j _ w _ _ s₁ _ hw hash hx =>
      refine .inr ⟨w, s₁, hw, ?_⟩
      rw [hash]
      exact Program.run_bind_pure_error_iff.mpr hx

/-- Entries are cast one after the other. -/
theorem giveInOrder_castEntry_iff :
    Program.GiveInOrder answer (entries.map (castRootEntry ctx key value)) s pairs s' ↔
      EntriesCast answer ctx key value entries s pairs s' := by
  induction entries generalizing s pairs with
  | nil =>
    constructor
    · intro h; cases h; exact .nil _
    · intro h; cases h; exact .nil _
  -- entry by entry, with the same states in between
  | cons entry rest ih =>
    constructor
    · intro h
      cases h with
      | cons first next => exact .cons (run_castEntry_ok_iff.mp first) (ih.mp next)
    · intro h
      cases h with
      | cons first next => exact .cons (run_castEntry_ok_iff.mpr first) (ih.mpr next)

/-- All entries are cast when each is, in order. -/
theorem run_castEntries_ok_iff :
    ((Program.inOrder (entries.map (castRootEntry ctx key value))).run answer).run s =
        (.ok pairs, s') ↔ EntriesCast answer ctx key value entries s pairs s' :=
  Program.run_inOrder_ok_iff.trans giveInOrder_castEntry_iff

/-- The entries before the first that fails are cast, and those behind it are not looked at. -/
theorem run_castEntries_error_iff {e : CastError} :
    ((Program.inOrder (entries.map (castRootEntry ctx key value))).run answer).run s =
        (.error e, s') ↔
      ∃ before entry after pairs s₁, entries = before ++ entry :: after ∧
        EntriesCast answer ctx key value before s pairs s₁ ∧
        EntryFails answer ctx key value entry s₁ e s' := by
  -- the entries before the one that fails are split off from the programs that cast them
  rw [Program.run_inOrder_error_iff]
  constructor
  · rintro ⟨ps, p, qs, pairs, s₁, hsplit, hbefore, hfails⟩
    obtain ⟨before, rest, rfl, rfl, hrest⟩ := List.map_eq_append_iff.mp hsplit
    obtain ⟨entry, after, rfl, rfl, -⟩ := List.map_eq_cons_iff.mp hrest
    exact ⟨before, entry, after, pairs, s₁, rfl, giveInOrder_castEntry_iff.mp hbefore,
      run_castEntry_error_iff.mp hfails⟩
  · rintro ⟨before, entry, after, pairs, s₁, rfl, hbefore, hfails⟩
    exact ⟨_, _, _, pairs, s₁, List.map_append, giveInOrder_castEntry_iff.mpr hbefore,
      run_castEntry_error_iff.mpr hfails⟩

/-- The map that the cast entries make. -/
theorem cast_map_eq {id : Nat} (hid : ctx.converter? id = none) {c : Coercion}
    (hcompile : compile ctx (.node id (.mapOf key value)) = .ok c) :
    cast ctx (.node id (.mapOf key value)) (.map entries) =
      Program.inOrder (entries.map (castRootEntry ctx key value)) >>= fun pairs =>
        pure (.map (Entries.ofList pairs)) := by
  rw [cast_of_compile hcompile, ← castEntries_eq_inOrder]
  exact castWithin_of_no_converter hid _ _ [] _

/-! ## Maps -/

/-- If the map type can be used and nothing converts it, the cast of a map succeeds exactly if its
    entries are cast, one after the other. The map that it gives has the keys that they are cast to
    in the order in which they come first, of equal keys the first, and under each key the value
    that comes last with it; if no two of the keys are equal, these are the cast entries. The cast
    fails as the first entry does that fails, and goes no further. -/
theorem map_cast_overwrites {id : Nat} (hid : ctx.converter? id = none) {c : Coercion}
    (hcompile : compile ctx (.node id (.mapOf key value)) = .ok c) (entries : List (Key × Value))
    (s : σ) :
    (∀ s', (∃ w, ((cast ctx (.node id (.mapOf key value)) (.map entries)).run answer).run s =
        (.ok w, s')) ↔ ∃ pairs, EntriesCast answer ctx key value entries s pairs s') ∧
      (∀ pairs s', EntriesCast answer ctx key value entries s pairs s' →
        ∃ table, ((cast ctx (.node id (.mapOf key value)) (.map entries)).run answer).run s =
            (.ok (.map table), s') ∧
          Entries.keys table = (Entries.keys pairs).eraseDups ∧
          (∀ j y, (j, y) ∈ table → Entries.find? j pairs.reverse = some y) ∧
          (Entries.Distinct pairs → table = pairs ∧ table.length = entries.length)) ∧
      ∀ e s', ((cast ctx (.node id (.mapOf key value)) (.map entries)).run answer).run s =
          (.error e, s') ↔
        ∃ before entry after pairs s₁, entries = before ++ entry :: after ∧
          EntriesCast answer ctx key value before s pairs s₁ ∧
          EntryFails answer ctx key value entry s₁ e s' := by
  -- the cast is that of the entries, put into a table
  simp only [cast_map_eq hid hcompile, Program.run_bind_pure_ok_iff,
    Program.run_bind_pure_error_iff, run_castEntries_ok_iff]
  refine ⟨fun s' => ?_, fun pairs s' hpairs => ?_, fun e s' => run_castEntries_error_iff⟩
  · exact ⟨fun ⟨_, pairs, hpairs, _⟩ => ⟨pairs, hpairs⟩,
      fun ⟨pairs, hpairs⟩ => ⟨_, pairs, hpairs, rfl⟩⟩
  · refine ⟨Entries.ofList pairs, ⟨pairs, hpairs, rfl⟩, Entries.keys_ofList pairs,
      fun j y hy => ?_, fun hdistinct => ?_⟩
    -- what the table has under a key is what the last entry with that key had
    · rw [← Entries.find?_ofList]
      exact Entries.find?_of_mem BEq.rfl (Entries.distinct_ofList pairs) hy
    · rw [Entries.ofList_of_distinct hdistinct]
      exact ⟨rfl, hpairs.length_eq⟩

/-! ## Stock -/

/-- What there is at each price, with one price written in two ways. -/
def writtenStock : List (Key × Value) :=
  [(.text "2.0", .int 4), (.text "0.5", .int 7), (.text "2.00", .int 9)]

/-- The cast entries, of which two have equal keys. -/
def stock : List (Key × Value) :=
  [("2.0", .int 4), ("0.5", .int 7), ("2.00", .int 9)].filterMap fun entry =>
    (Decimal.ofText? entry.1).map fun price => (.decimal price, entry.2)

/-- The three lines of the stock, each cast to its pair. -/
theorem entriesCast_stock :
    EntriesCast numberingHost {} (.node 1 .decimal) (.node 2 (.primitive .int)) writtenStock 7
      stock 7 :=
  .cons (.intro rfl rfl rfl) (.cons (.intro rfl rfl rfl) (.cons (.intro rfl rfl rfl) (.nil 7)))

/-- The first price stays with what came last under it. A map in which a price comes after a word
    fails for the word. -/
theorem map_cast_overwrites_stock :
    (∃ table, ((cast {} (.node 0 (.mapOf (.node 1 .decimal) (.node 2 (.primitive .int))))
          (.map writtenStock)).run numberingHost).run 7 = (.ok (.map table), 7) ∧
        Entries.keys table = (Entries.keys stock).eraseDups) ∧
      ∃ e s', ((cast {} (.node 0 (.mapOf (.node 1 .decimal) (.node 2 (.primitive .int))))
          (.map [(.text "2.0", .int 4), (.text "two", .int 7), (.text "2.00", .int 9)])).run
            numberingHost).run 7 = (.error e, s') ∧
        EntryFails numberingHost {} (.node 1 .decimal) (.node 2 (.primitive .int))
          (.text "two", .int 7) 7 e s' := by
  have hid : Context.converter? {} 0 = none := rfl
  have hcompile : compile {} (.node 0 (.mapOf (.node 1 .decimal) (.node 2 (.primitive .int)))) =
      .ok ⟨.node 0 (.mapOf (.node 1 .decimal) (.node 2 (.primitive .int))), {}⟩ := rfl
  constructor
  · obtain ⟨table, hrun, hkeys, -⟩ := (map_cast_overwrites hid hcompile writtenStock 7).2.1 stock 7
      entriesCast_stock
    exact ⟨table, hrun, hkeys⟩
  -- the first entry is cast, with a key that the third would have written again
  · have hfirst : EntriesCast numberingHost {} (.node 1 .decimal) (.node 2 (.primitive .int))
        [(.text "2.0", .int 4)] 7 (stock.take 1) 7 := .cons (.intro rfl rfl rfl) (.nil 7)
    -- the second key is no number, so that the third entry is not reached
    have hword : EntryFails numberingHost {} (.node 1 .decimal) (.node 2 (.primitive .int))
        (.text "two", .int 7) 7
        (refused [.key (Key.text "two").render] (.text "two") Shape.decimal.render
          .invalidDecimal) 7 := .castKey rfl
    refine ⟨_, 7, ?_, hword⟩
    exact ((map_cast_overwrites hid hcompile _ 7).2.2 _ 7).mpr
      ⟨_, _, [(.text "2.00", .int 9)], _, 7, rfl, hfirst, hword⟩

/-- Settings that allow a single level refuse every map type, and so the empty map, though no entry
    of it fails. -/
theorem not_map_cast_of_one_level :
    let ctx : Context := { config := { limits := { maxDescriptorDepth := 1 } } }
    let key : Descriptor := .node 1 (.primitive .text)
    let value : Descriptor := .node 2 .any
    (ctx.converter? 0 = none ∧ EntriesCast numberingHost ctx key value [] 7 [] 7) ∧
      ∀ w, (((cast ctx (.node 0 (.mapOf key value)) (.map [])).run numberingHost).run 7).1 ≠
        .ok w :=
  ⟨⟨rfl, .nil 7⟩, nofun⟩

end Conform
