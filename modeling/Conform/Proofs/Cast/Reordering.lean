import Conform.Proofs.Cast.Rules
import Conform.Proofs.Key.Conversion
import Conform.Proofs.Program.Parallel
import Conform.Proofs.Value.Reordering

/-!
# Casts and the order of map entries

A cast to a data type does not depend on the order in which maps list their entries: two values that
differ only in it are cast to values that differ only in it, or both are refused
(`castWithin_parallel`). The casts settle in parallel, rule by rule.

A map is cast entry by entry, so that entries may be cast in another order, as long as no two of
them come to one key. They do not: a cast key that can stand in a map is the key that was cast
(`castWithin_keepsKey`), unless decimal numbers are made of it. Main statement: `cast_reordered`.
-/

namespace Conform

/-- A data type whose defaults are values, and in which no decimal numbers are made of the keys of
    maps. -/
def Shape.IgnoresOrder : Shape → Prop
  | record _ fields constructor? =>
    constructor? = none ∧ ∀ f ∈ fields, ∀ factory, f.default? ≠ some (.factory factory)
  | mapOf key _ => key.Everywhere fun _ shape => shape ≠ .decimal
  | symbolPath _ => False
  | invocation .. => False
  | inspectedInvocation _ => False
  | _ => True

/-- A type of such types. -/
def Descriptor.IgnoresOrder (d : Descriptor) : Prop :=
  d.Everywhere fun _ shape => shape.IgnoresOrder

/-- A type of such types that makes no decimal numbers itself. -/
def Descriptor.KeepsKeys (d : Descriptor) : Prop :=
  d.Everywhere fun _ shape => shape.IgnoresOrder ∧ shape ≠ .decimal

/-! ## Keys that stay -/

/-- Of the values that the program gives, only this one may have a key. -/
abbrev KeepsKey (v : Value) (p : Program Value) : Prop :=
  p.Yields (fun _ _ => True) (fun w => w.toKey?.isSome → w = v) (fun _ => True)

section Keys

variable {ctx : Context} {enter enterBelow : Enter} {path : Path} {v : Value}

/-- Values without a key are of no account. -/
theorem keepsKey_of_bind {α : Type} {p : Program α} {f : α → Value}
    (h : ∀ a, (f a).toKey? = none) : KeepsKey v (p >>= fun a => pure (f a)) := by
  refine (Program.yields_any p).bind fun a _ => Program.yields_pure fun hkey => ?_
  rw [h a] at hkey
  cases hkey

/-- A tuple of keys that is cast to keys is unchanged. -/
theorem castEach_keepsKeys {elements : List Descriptor} {items : List Value}
    (hlength : items.length = elements.length)
    (h : ∀ d ∈ elements, ∀ path, ∀ x ∈ items, KeepsKey x (enter d path x)) (i : Nat) :
    (castEach enter path i elements items).Yields (fun _ _ => True)
      (fun ws => (Value.toKeys? ws).isSome → ws = items) (fun _ => True) := by
  induction elements generalizing i items with
  | nil =>
    obtain rfl := List.eq_nil_of_length_eq_zero hlength
    exact Program.yields_pure fun _ => rfl
  | cons d elements ih =>
    cases items with
    | nil => cases hlength
    | cons x rest =>
      rw [castEach]
      refine (h d List.mem_cons_self _ x List.mem_cons_self).bind fun w hw => ?_
      have hrest := ih (i := i + 1) (Nat.succ.inj hlength) fun d hd path y hy =>
        h d (List.mem_cons_of_mem _ hd) path y (List.mem_cons_of_mem _ hy)
      refine hrest.bind fun ws hws => Program.yields_pure fun hkeys => ?_
      -- the results are keys together, so that each of them is one
      obtain ⟨hfirst, hothers⟩ := List.forall_mem_cons.mp (Value.isSome_toKeys?_iff.mp hkeys)
      rw [hw hfirst, hws (Value.isSome_toKeys?_iff.mpr hothers)]

/-- The rule of a type that makes no decimal numbers keeps what can stand in a map. -/
theorem apply_keepsKey (hctx : ctx.NoConversions)
    (henter : ∀ d : Descriptor, d.KeepsKeys → ∀ path x, x.toKey?.isSome →
      KeepsKey x (enter d path x))
    {d : Descriptor} (hd : d.KeepsKeys) (hv : v.toKey?.isSome) :
    KeepsKey v (d.apply ctx enter enterBelow path v) := by
  -- a value that has a key is no map
  have hkind : v.kind ≠ .map := by
    intro hmap
    cases v with
    | map => cases hv
    | _ => cases hmap
  induction hd with
  | @node id shape hroot hparts ih =>
    rw [Descriptor.apply, hctx id]
    cases shape with
    | any => exact Program.yields_pure fun _ => rfl
    | primitive | float | complex | literal =>
      exact castUnchanged_yields (fun _ _ => rfl) fun _ => trivial
    | decimal => exact absurd rfl hroot.2
    | record name fields constructor? =>
      obtain rfl : constructor? = none := hroot.1.1
      show KeepsKey v ((KeywordShape.ofRecord name fields).cast enter path v >>= _)
      rw [KeywordShape.cast_of_kind_ne hkind]
      exact trivial
    | partialRecord name fields total =>
      show KeepsKey v ((KeywordShape.ofPartialRecord name fields total).cast enter path v >>= _)
      rw [KeywordShape.cast_of_kind_ne hkind]
      exact trivial
    -- what these give has no key
    | listOf | queueOf => exact keepsKey_of_bind fun _ => rfl
    | setOf =>
      refine (Program.yields_any _).bind fun items _ => ?_
      exact keepsKey_of_bind fun _ => rfl
    | mapOf =>
      show KeepsKey v (castMap _ _ _ _ _ _)
      rw [castMap_of_kind_ne hkind]
      exact trivial
    | tupleOf elements =>
      cases v with
      | tuple items =>
        show KeepsKey _ (if items.length = elements.length then _ else _)
        split
        -- a tuple is a key when its items are, and each of them keeps its own
        next hlength =>
          have hitems : ∀ x ∈ items, x.toKey?.isSome := by
            rw [Value.toKey?, Option.isSome_map] at hv
            exact Value.isSome_toKeys?_iff.mp hv
          refine Program.Yields.bind (castEach_keepsKeys hlength ?_ 0) fun ws hws => ?_
          · exact fun d hd path x hx => henter d (hparts d hd) path x (hitems x hx)
          · refine Program.yields_pure fun hkey => ?_
            rw [Value.toKey?, Option.isSome_map] at hkey
            rw [hws hkey]
        next => exact trivial
      | list | queue => cases hv
      | _ => exact trivial
    | unionOf alternatives =>
      exact applyFirst_yields (fun d hd => ih d hd) (fun _ _ _ => trivial) fun _ => trivial
    | symbolPath | invocation | inspectedInvocation => exact hroot.1.elim

/-- Whatever room there is, a type that makes no decimal numbers keeps what can stand in a map. -/
theorem castWithin_keepsKey (hctx : ctx.NoConversions) (room : Nat) {d : Descriptor}
    (hd : d.KeepsKeys) (path : Path) (v : Value) (hv : v.toKey?.isSome) :
    KeepsKey v (castWithin ctx room d path v) := by
  induction room generalizing d path v with
  | zero => exact mismatch_yields trivial
  | succ room ih =>
    rw [castWithin_succ]
    exact apply_keepsKey hctx (fun d hd path x hx => ih hd path x hx) hd hv

end Keys

/-! ## Rules -/

section Rules

variable {enter : Enter} {path : Path} {v v' : Value} {expected : String}

/-- Values that differ only in the order of map entries are cast to such values, or refused. -/
def CastParallel (enter : Enter) (d : Descriptor) : Prop :=
  ∀ path (v v' : Value), v.Matched v' →
    Program.Parallel Value.Reordered (enter d path v) (enter d path v')

/-- Both are refused; for which value does not matter. -/
theorem mismatch_parallel {α β : Type} {rel : α → β → Prop} {reason reason' : Mismatch}
    {expected' : String} :
    Program.Parallel rel (mismatch path v expected reason) (mismatch path v' expected' reason') :=
  .refusals rfl rfl

/-! ### Scalars -/

/-- What is returned as it is is reordered as it was. -/
theorem castUnchanged_parallel {holds holds' : Bool} {reason : Mismatch} (h : v.Reordered v')
    (hholds : holds = holds') :
    Program.Parallel Value.Reordered (castUnchanged holds reason expected path v)
      (castUnchanged holds' reason expected path v') := by
  subst hholds
  cases holds with
  | true => exact .pure h
  | false => exact mismatch_parallel

/-- What a decimal can be made of has no order in it. -/
theorem castDecimal_parallel (h : v.Reordered v') :
    Program.Parallel Value.Reordered (castDecimal expected path v)
      (castDecimal expected path v') := by
  have hdecimal : v.toDecimal = v'.toDecimal := by cases h <;> rfl
  rw [castDecimal, castDecimal, ← hdecimal]
  cases v.toDecimal with
  | ok d => exact .pure (.same _)
  | error reason => exact mismatch_parallel

/-! ### Sequences and sets -/

/-- Item by item, at the same places. -/
theorem castItems_parallel {element : Descriptor} (h : CastParallel enter element) (i : Nat)
    {items items' : List Value} (hitems : List.Forall₂ Value.Matched items items') :
    Program.Parallel (List.Forall₂ Value.Reordered) (castItems enter element path i items)
      (castItems enter element path i items') := by
  -- the index moves on with the items
  induction hitems generalizing i with
  | nil => exact .pure .nil
  | cons hx _ ih =>
    exact (h _ _ _ hx).bind fun w w' hw => (ih (i + 1)).bind fun ws ws' hws => .pure (.cons hw hws)

/-- The elements of reordered collections match one to one. -/
theorem castElements_parallel {element : Descriptor} (h : CastParallel enter element)
    (hv : v.Matched v') :
    Program.Parallel (List.Forall₂ Value.Reordered) (castElements enter element expected path v)
      (castElements enter element expected path v') := by
  rw [castElements, castElements]
  have helements := hv.elements
  generalize v.elements? = found at helements ⊢
  generalize v'.elements? = found' at helements ⊢
  cases helements with
  | none => exact mismatch_parallel
  | some hitems => exact castItems_parallel h 0 hitems

/-- Reordered values have the same key. -/
theorem hashItems_parallel {element : Descriptor} (i : Nat) {items items' : List Value}
    (hitems : List.Forall₂ Value.Reordered items items') :
    Program.Parallel Eq (hashItems element path i items) (hashItems element path i items') := by
  induction hitems generalizing i with
  | nil => exact .pure rfl
  | cons hx _ ih =>
    rw [hashItems, hashItems, ← hx.toKey?_eq]
    split
    · exact (ih (i + 1)).bind fun keys keys' hkeys => .pure (by rw [hkeys])
    · exact mismatch_parallel

/-- Sets of reordered collections are the same, as their elements have the same keys. -/
theorem castSet_parallel {element : Descriptor} (h : CastParallel enter element)
    (hv : v.Matched v') :
    Program.Parallel Value.Reordered (castSet enter element expected path v)
      (castSet enter element expected path v') := by
  refine (castElements_parallel h hv).bind fun items items' hitems => ?_
  refine (hashItems_parallel 0 hitems).bind fun keys keys' hkeys => .pure ?_
  rw [hkeys]
  exact .same _

/-! ### Tuples -/

/-- Each element of a tuple is cast by its own type, at the same place. -/
theorem castEach_parallel {elements : List Descriptor}
    (h : ∀ d ∈ elements, CastParallel enter d) (i : Nat) {items items' : List Value}
    (hitems : List.Forall₂ Value.Matched items items') :
    Program.Parallel (List.Forall₂ Value.Reordered) (castEach enter path i elements items)
      (castEach enter path i elements items') := by
  induction elements generalizing i items items' with
  | nil => exact .pure .nil
  | cons d elements ih =>
    have ⟨hd, helements⟩ := List.forall_mem_cons.mp h
    -- elements and items run out together or not, in both values alike
    cases hitems with
    | nil => exact .pure .nil
    | cons hx hrest =>
      exact (hd _ _ _ hx).bind fun w w' hw =>
        (ih helements (i + 1) hrest).bind fun ws ws' hws => .pure (.cons hw hws)

/-- Reordered tuples have the same length. -/
theorem castTuple_parallel {elements : List Descriptor} (h : ∀ d ∈ elements, CastParallel enter d)
    (hv : v.Matched v') :
    Program.Parallel Value.Reordered (castTuple enter elements expected path v)
      (castTuple enter elements expected path v') := by
  rw [castTuple, castTuple]
  have hsequence := hv.sequence
  generalize v.sequence? = found at hsequence ⊢
  generalize v'.sequence? = found' at hsequence ⊢
  cases hsequence with
  | none => exact mismatch_parallel
  | some hitems =>
    -- the lengths agree, so that both are cast or both refused
    simp only [hitems.length_eq]
    split
    · refine (castEach_parallel h 0 hitems).bind fun ws ws' hws => .pure ?_
      exact .tuple hws.length_eq fun pair hpair => List.forall₂_zip hws hpair
    · exact mismatch_parallel

/-! ### Maps -/

/-- Casts one entry of a map. -/
def castEntry (enter : Enter) (key value : Descriptor) (path : Path) (entry : Key × Value) :
    Program (Key × Value) := do
  let here := path ++ [.key entry.1.render]
  let castKey ← enter key here entry.1.toValue
  match castKey.toKey? with
  | some newKey => do
    let newValue ← enter value here entry.2
    pure (newKey, newValue)
  | none => mismatch here castKey key.render .unhashable

/-- The entries of a map are cast one after the other. -/
theorem castEntries_eq_inOrder (key value : Descriptor) (entries : List (Key × Value)) :
    castEntries enter key value path entries =
      Program.inOrder (entries.map (castEntry enter key value path)) := by
  induction entries with
  | nil => rfl
  | cons entry rest ih =>
    obtain ⟨k, x⟩ := entry
    rw [castEntries, List.map_cons, Program.inOrder, castEntry, Program.bind_assoc, ih]
    refine congrArg (_ >>= ·) (funext fun castKey => ?_)
    -- whether the key can be a key decides it in both, before the value is cast
    cases castKey.toKey? with
    | some newKey => simp only [Program.bind_assoc, Program.pure_bind]
    | none => rfl

/-- Cast keys are the keys that were cast. -/
theorem castEntries_keys {key value : Descriptor}
    (hkey : ∀ path (k : Key), k.Proper → KeepsKey k.toValue (enter key path k.toValue))
    {entries : List (Key × Value)} (hproper : ∀ k ∈ Entries.keys entries, k.Proper) :
    (castEntries enter key value path entries).Yields (fun _ _ => True)
      (fun ws => Entries.keys ws = Entries.keys entries) (fun _ => True) := by
  induction entries with
  | nil => exact Program.yields_pure rfl
  | cons entry rest ih =>
    obtain ⟨k, x⟩ := entry
    have ⟨hk, hrest⟩ := List.forall_mem_cons.mp hproper
    rw [castEntries]
    refine (hkey _ k hk).bind fun castKey hcast => ?_
    cases hnew : castKey.toKey? with
    | none => exact trivial
    | some newKey =>
      -- the key is cast to a value that has a key, hence to its own value
      obtain rfl : k = newKey := by
        rw [hcast (by rw [hnew]; rfl), hk] at hnew
        exact Option.some.inj hnew
      refine (Program.yields_any _).bind fun w _ => (ih hrest).bind fun ws hws => ?_
      exact Program.yields_pure (congrArg (k :: ·) hws)

/-- The casts of two values under one key settle in parallel. -/
theorem castEntry_parallel {key value : Descriptor} (hkey : CastParallel enter key)
    (hvalue : CastParallel enter value) (k : Key) {x y : Value} (h : x.Matched y) :
    Program.Parallel (fun entry entry' => entry.1 = entry'.1 ∧ entry.2.Reordered entry'.2)
      (castEntry enter key value path (k, x)) (castEntry enter key value path (k, y)) := by
  refine (hkey _ _ _ (.refl k.properMaps_toValue)).bind fun w w' hw => ?_
  rw [← hw.toKey?_eq]
  cases w.toKey? with
  | some newKey => exact (hvalue _ _ _ h).bind fun u u' hu => .pure ⟨rfl, hu⟩
  | none => exact mismatch_parallel

/-- Entries of reordered maps: the new entries are those of one map and of its reordering. -/
theorem castEntries_parallel {key value : Descriptor} (hkey : CastParallel enter key)
    (hvalue : CastParallel enter value)
    (hkeeps : ∀ path (k : Key), k.Proper → KeepsKey k.toValue (enter key path k.toValue))
    {a b c : List (Key × Value)} (h : Value.MatchedEntries a b c) :
    Program.Parallel
      (fun ws ws' => (Value.map (Entries.ofList ws)).Reordered (.map (Entries.ofList ws')))
      (castEntries enter key value path a) (castEntries enter key value path c) := by
  -- first the values under the keys are replaced, then the entries are reordered
  have hvalues : Program.Parallel (Entries.Alongside Value.Reordered)
      (castEntries enter key value path a) (castEntries enter key value path b) := by
    rw [castEntries_eq_inOrder, castEntries_eq_inOrder]
    refine .inOrder (List.forall₂_map_left_iff.mpr (List.forall₂_map_right_iff.mpr ?_))
    refine h.entries.imp ?_
    rintro ⟨k, x⟩ ⟨_, y⟩ ⟨rfl, hxy⟩
    exact castEntry_parallel hkey hvalue k hxy
  have horder : Program.Parallel List.Perm
      (castEntries enter key value path b) (castEntries enter key value path c) := by
    rw [castEntries_eq_inOrder, castEntries_eq_inOrder]
    refine .inOrder_perm (h.perm.map _) fun p hp => ?_
    obtain ⟨⟨k, y⟩, hmem, rfl⟩ := List.mem_map.mp hp
    obtain ⟨⟨_, x⟩, -, rfl, hxy⟩ := exists_left_of_mem h.entries hmem
    exact (castEntry_parallel hkey hvalue _ hxy).self_right
  have hproper : ∀ k ∈ Entries.keys c, k.Proper := fun k hk =>
    h.proper k (h.keys_perm.mem_iff.mpr hk)
  refine ((hvalues.trans horder).strengthen
    (castEntries_keys hkeeps h.proper) (castEntries_keys hkeeps hproper)).mono ?_
  rintro ws ws' ⟨⟨us, hvalues, horder⟩, hws, hws'⟩
  -- the keys are those of the maps, so that no entry takes the place of another
  have hdistinct : Entries.Distinct ws := by
    rw [Entries.Distinct, hws]
    exact h.distinct
  have hdistinct' : Entries.Distinct ws' := by
    rw [Entries.Distinct, hws']
    exact h.distinct'
  rw [Entries.ofList_of_distinct hdistinct, Entries.ofList_of_distinct hdistinct']
  exact .map hvalues.keys_eq hvalues.values horder

/-- A map that is reordered is cast to a map that is reordered. -/
theorem castMap_parallel {key value : Descriptor} (hkey : CastParallel enter key)
    (hvalue : CastParallel enter value)
    (hkeeps : ∀ path (k : Key), k.Proper → KeepsKey k.toValue (enter key path k.toValue))
    (hv : v.Matched v') :
    Program.Parallel Value.Reordered (castMap enter key value expected path v)
      (castMap enter key value expected path v') := by
  by_cases hkind : v.kind = .map
  · obtain ⟨a, rfl⟩ := Value.exists_entries hkind
    obtain ⟨b, c, rfl, hentries⟩ := hv.entries
    exact (castEntries_parallel hkey hvalue hkeeps hentries).bind fun ws ws' h => .pure h
  · have hkind' : v'.kind ≠ .map := hv.reordered.kind_eq ▸ hkind
    rw [castMap_of_kind_ne hkind, castMap_of_kind_ne hkind']
    exact mismatch_parallel

/-! ### Named fields -/

/-- The fields of a record come in the order of the type, whatever the order of the map. -/
theorem castFields_parallel {fields : List (Field Descriptor)} {a c : List (Key × Value)}
    (henter : ∀ f ∈ fields, CastParallel enter f.type)
    (hdefault : ∀ f ∈ fields, ∀ factory, f.default? ≠ some (.factory factory))
    (h : ∀ k, Option.Rel Value.Matched (Entries.find? k a) (Entries.find? k c)) :
    Program.Parallel (Entries.Alongside Value.Reordered)
      (KeywordShape.castFields enter path a fields)
      (KeywordShape.castFields enter path c fields) := by
  induction fields with
  | nil => exact .pure .nil
  | cons f rest ih =>
    have ⟨hf, hrest⟩ := List.forall_mem_cons.mp henter
    have ⟨hnone, hnones⟩ := List.forall_mem_cons.mp hdefault
    have htail := ih hrest hnones
    have hfound := h (Key.text f.name)
    rw [KeywordShape.castFields, KeywordShape.castFields]
    -- the order of the map is only seen through what is found under a name
    generalize Entries.find? (Key.text f.name) a = found at hfound ⊢
    generalize Entries.find? (Key.text f.name) c = found' at hfound ⊢
    cases hfound with
    | some hx =>
      exact (hf _ _ _ hx).bind fun w w' hw => htail.bind fun ws ws' hws =>
        .pure (.cons ⟨rfl, hw⟩ hws)
    | none =>
      simp only
      cases hd : f.default? with
      | none => exact htail
      | some default =>
        cases default with
        | value w =>
          -- the default is the same for both
          have hproduce : Program.Parallel Value.Reordered (Program.produce (.value w))
              (Program.produce (.value w)) := .pure (.same w)
          exact hproduce.bind fun u u' hu => htail.bind fun ws ws' hws =>
            .pure (.cons ⟨rfl, hu⟩ hws)
        | factory factory => exact absurd hd (hnone factory)

/-- The keys that are missing or unknown are the same as well. -/
theorem KeywordShape.cast_parallel {shape : KeywordShape}
    (henter : ∀ f ∈ shape.fields, CastParallel enter f.type)
    (hdefault : ∀ f ∈ shape.fields, ∀ factory, f.default? ≠ some (.factory factory))
    (hv : v.Matched v') :
    Program.Parallel (Entries.Alongside Value.Reordered) (shape.cast enter path v)
      (shape.cast enter path v') := by
  by_cases hkind : v.kind = .map
  · obtain ⟨a, rfl⟩ := Value.exists_entries hkind
    obtain ⟨b, c, rfl, hentries⟩ := hv.entries
    have hnames : (shape.missing a = [] ∧ shape.unknown a = []) ↔
        (shape.missing c = [] ∧ shape.unknown c = []) := by
      rw [missing_eq_nil_iff, missing_eq_nil_iff, unknown_eq_nil_iff, unknown_eq_nil_iff]
      simp only [hentries.contains_eq, hentries.keys_perm.mem_iff]
    rw [cast_map, cast_map]
    -- the same keys are missing or unknown, in whatever order: one test decides both
    by_cases h : shape.missing a = [] ∧ shape.unknown a = []
    · rw [if_pos h, if_pos (hnames.mp h)]
      exact castFields_parallel henter hdefault hentries.find?
    · rw [if_neg h, if_neg fun h' => h (hnames.mpr h')]
      exact mismatch_parallel
  · have hkind' : v'.kind ≠ .map := hv.reordered.kind_eq ▸ hkind
    rw [cast_of_kind_ne hkind, cast_of_kind_ne hkind']
    exact mismatch_parallel

/-- Records correspond field by field. -/
theorem castRecord_parallel {name : String} {fields : List (Field Descriptor)}
    (henter : ∀ f ∈ fields, CastParallel enter f.type)
    (hdefault : ∀ f ∈ fields, ∀ factory, f.default? ≠ some (.factory factory))
    (hv : v.Matched v') :
    Program.Parallel Value.Reordered (castRecord enter name fields none path v)
      (castRecord enter name fields none path v') :=
  (KeywordShape.cast_parallel henter hdefault hv).bind fun _ _ hws =>
    .pure (.record name hws.keys_eq hws.values)

/-- Partial records correspond field by field. -/
theorem castPartialRecord_parallel {name : String} {fields : List (String × Descriptor)}
    {total : Bool} (henter : ∀ field ∈ fields, CastParallel enter field.2) (hv : v.Matched v') :
    Program.Parallel Value.Reordered (castPartialRecord enter name fields total path v)
      (castPartialRecord enter name fields total path v') := by
  refine (KeywordShape.cast_parallel ?_ ?_ hv).bind
    fun _ _ hws => .pure (.record name hws.keys_eq hws.values)
  · exact List.forall_mem_map.mpr henter
  · exact List.forall_mem_map.mpr fun _ _ _ => nofun

/-! ### Unions and types -/

variable {ctx : Context} {enterBelow : Enter}

/-- The first alternative that takes one value takes the other. -/
theorem applyFirst_parallel {otherwise otherwise' : Program Value} {alternatives : List Descriptor}
    (h : ∀ d ∈ alternatives, Program.Parallel Value.Reordered
      (d.apply ctx enter enterBelow path v) (d.apply ctx enter enterBelow path v'))
    (hotherwise : Program.Parallel Value.Reordered otherwise otherwise') :
    Program.Parallel Value.Reordered (applyFirst ctx enter enterBelow otherwise alternatives path v)
      (applyFirst ctx enter enterBelow otherwise' alternatives path v') := by
  induction alternatives with
  | nil => exact hotherwise
  | cons d rest ih =>
    have ⟨hd, hrest⟩ := List.forall_mem_cons.mp h
    exact hd.inUnion.orElse (ih hrest)

/-- The rules of two values that differ only in the order of map entries settle in parallel. -/
theorem apply_parallel (hctx : ctx.NoConversions)
    (henter : ∀ d : Descriptor, d.IgnoresOrder → CastParallel enter d)
    (hkeeps : ∀ d : Descriptor, d.KeepsKeys → ∀ path x, x.toKey?.isSome →
      KeepsKey x (enter d path x))
    {d : Descriptor} (hd : d.IgnoresOrder) (hv : v.Matched v') :
    Program.Parallel Value.Reordered (d.apply ctx enter enterBelow path v)
      (d.apply ctx enter enterBelow path v') := by
  have hkind := hv.reordered.kind_eq
  -- on the type, for the alternatives of unions; everything else that is cast is a part
  induction hd with
  | @node id shape hroot hparts ih =>
    rw [Descriptor.apply, Descriptor.apply, hctx id]
    have hrule (d : Descriptor) (hmem : d ∈ shape.parts) : CastParallel enter d :=
      henter d (hparts d hmem)
    cases shape with
    | any => exact .pure hv.reordered
    | primitive p =>
      refine castUnchanged_parallel hv.reordered (Bool.eq_iff_iff.mpr ?_)
      rw [Primitive.admits_iff, Primitive.admits_iff, hkind]
    | float =>
      refine castUnchanged_parallel hv.reordered (Bool.eq_iff_iff.mpr ?_)
      rw [Value.isReal_iff, Value.isReal_iff, hkind]
    | complex =>
      refine castUnchanged_parallel hv.reordered (Bool.eq_iff_iff.mpr ?_)
      rw [Value.isNumber_iff, Value.isNumber_iff, hkind]
    | decimal => exact castDecimal_parallel hv.reordered
    | literal allowed =>
      -- equality does not see the order either, so that a member allows both or none
      have hequal := hv.reordered.equal_eq hv.left hv.right
      refine castUnchanged_parallel hv.reordered ?_
      exact List.any_congr rfl fun m => hequal m
    | record name fields constructor? =>
      obtain ⟨rfl, hdefault⟩ := hroot
      exact castRecord_parallel (List.forall_mem_map.mp hrule) hdefault hv
    | partialRecord name fields total =>
      exact castPartialRecord_parallel (List.forall_mem_map.mp hrule) hv
    | listOf element =>
      refine (castElements_parallel (hrule element List.mem_cons_self) hv).bind fun ws ws' hws => ?_
      exact .pure (.list hws.length_eq fun pair hpair => List.forall₂_zip hws hpair)
    | queueOf element =>
      refine (castElements_parallel (hrule element List.mem_cons_self) hv).bind fun ws ws' hws => ?_
      exact .pure (.queue hws.length_eq fun pair hpair => List.forall₂_zip hws hpair)
    | setOf element => exact castSet_parallel (hrule element List.mem_cons_self) hv
    | mapOf key value =>
      have ⟨hkey, hvalue⟩ := List.forall_mem_cons.mp hrule
      refine castMap_parallel hkey (List.forall_mem_singleton.mp hvalue) (fun path k hk => ?_) hv
      -- below a key type there are no decimal numbers
      refine hkeeps key ((hparts key List.mem_cons_self).and hroot) path k.toValue ?_
      rw [hk]
      rfl
    | tupleOf elements => exact castTuple_parallel hrule hv
    | unionOf alternatives => exact applyFirst_parallel ih mismatch_parallel
    | symbolPath | invocation | inspectedInvocation => exact hroot.elim

end Rules

/-! ## Casts -/

section Casts

variable {ctx : Context}

/-- Whatever room there is, the casts of two values that differ only in the order of map entries
    settle in parallel. -/
theorem castWithin_parallel (hctx : ctx.NoConversions) (room : Nat) {d : Descriptor}
    (hd : d.IgnoresOrder) : CastParallel (castWithin ctx room) d := by
  induction room generalizing d with
  | zero => exact fun _ _ _ _ => mismatch_parallel
  | succ room ih =>
    intro path v v' hv
    rw [castWithin_succ, castWithin_succ]
    exact apply_parallel hctx (fun d hd => ih hd)
      (fun d hd path x hx => castWithin_keepsKey hctx room hd path x hx) hd hv

/-- Two runs that leave the host as it was end together: both refuse the value, or they give values
    that differ only in the order of map entries. -/
inductive EndTogether {σ : Type} (s : σ) :
    Except CastError Value × σ → Except CastError Value × σ → Prop
  | refusals (e e' : CoercionError) :
    EndTogether s (.error (.coercion e), s) (.error (.coercion e'), s)
  | values {w w' : Value} (h : w.Reordered w') : EndTogether s (.ok w, s) (.ok w', s)

/-- Programs that run in parallel end with reordered values, or both refuse, at the same state. -/
theorem Program.Parallel.endTogether {p q : Program Value}
    (h : Program.Parallel Value.Reordered p q) {σ : Type}
    (answer : (request : Request) → StateM σ request.Reply) (s : σ) :
    EndTogether s ((p.run answer).run s) ((q.run answer).run s) := by
  cases h with
  | values left right related =>
    rw [left.run, right.run]
    exact .values related
  | refusals left right =>
    rw [left.run, right.run]
    exact .refusals _ _

/-- The order of map entries does not decide a cast. Two values that differ only in it, at any
    depth, are both refused or both cast, to values that differ only in it, and the host is not
    asked for anything. A type that cannot be used fails for both in the same way. -/
theorem cast_reordered (hctx : ctx.NoConversions) {d : Descriptor} (hd : d.IgnoresOrder)
    {v v' : Value} (h : v.Reordered v') (hv : v.ProperMaps) (hv' : v'.ProperMaps) {σ : Type}
    (answer : (request : Request) → StateM σ request.Reply) (s : σ) :
    (∀ c, compile ctx d = .ok c →
      EndTogether s (((cast ctx d v).run answer).run s) (((cast ctx d v').run answer).run s)) ∧
    (∀ e, compile ctx d = .error e →
      ((cast ctx d v).run answer).run s = (.error (.config e), s) ∧
        ((cast ctx d v').run answer).run s = (.error (.config e), s)) := by
  -- the type compiles or it does not, and the values have no part in that
  constructor
  · intro c hcompile
    rw [cast_of_compile hcompile, cast_of_compile hcompile]
    exact (castWithin_parallel hctx _ hd [] v v' ⟨h, hv, hv'⟩).endTogether answer s
  · intro e hcompile
    rw [cast, cast, hcompile]
    exact ⟨rfl, rfl⟩

/-- Maps of anything. -/
def anyMapType : Descriptor :=
  .node 0 (.mapOf (.node 1 .any) (.node 1 .any))

/-- The key of a point. -/
def pointKey : Key :=
  .record "Point" [("x", .none)]

/-- A key that gives the field of a point twice, which no value does. -/
def repeatingKey : Key :=
  .record "Point" [("x", .none), ("x", .none)]

/-- A map of two keys that come to one when they are cast. -/
def collidingMap : Value :=
  .map [(repeatingKey, .bool true), (pointKey, .bool false)]

/-- The same map with its entries in the other order. -/
def reorderedCollidingMap : Value :=
  .map [(pointKey, .bool false), (repeatingKey, .bool true)]

/-- A cast to a union of nothing does not refuse a value, it fails. And a key that no value has
    becomes another one, so that it depends on the order which of two entries stays. -/
theorem not_cast_reordered :
    (Descriptor.IgnoresOrder (.node 0 (.unionOf [])) ∧
      ¬ EndTogether 7 (((cast {} (.node 0 (.unionOf [])) .none).run numberingHost).run 7)
        (((cast {} (.node 0 (.unionOf [])) .none).run numberingHost).run 7)) ∧
    (anyMapType.IgnoresOrder ∧ (repeatingKey == pointKey) = false ∧
      collidingMap.Reordered reorderedCollidingMap ∧
      ¬ EndTogether 7 (((cast {} anyMapType collidingMap).run numberingHost).run 7)
        (((cast {} anyMapType reorderedCollidingMap).run numberingHost).run 7)) := by
  refine ⟨⟨.node trivial nofun, fun h => by cases h⟩,
    ?_, rfl, Value.reordered_of_perm (.swap ..), fun h => ?_⟩
  · simp [anyMapType, Descriptor.IgnoresOrder, Descriptor.everywhere_node, Shape.IgnoresOrder,
      Shape.parts]
  -- both keys become the same one, and the entry that comes later stays
  · have hlast : ((cast {} anyMapType collidingMap).run numberingHost).run 7 =
        (.ok (.map [(pointKey, .bool false)]), 7) := rfl
    have hlast' : ((cast {} anyMapType reorderedCollidingMap).run numberingHost).run 7 =
        (.ok (.map [(pointKey, .bool true)]), 7) := rfl
    rw [hlast, hlast'] at h
    cases h with
    | values hreordered =>
      obtain ⟨b, c, hc, hentries⟩ := Value.Matched.entries ⟨hreordered,
        ⟨List.pairwise_singleton .., List.forall_mem_singleton.mpr rfl, trivial, trivial⟩,
        ⟨List.pairwise_singleton .., List.forall_mem_singleton.mpr rfl, trivial, trivial⟩⟩
      cases hc
      -- the one value would have to differ from the other in the order of entries only
      have hfound := hentries.find? pointKey
      cases hfound with
      | some hmatched => cases hmatched.reordered

end Casts

/-! ## Shelves -/

/-- Shelves under their places: prices with a label, or something else. -/
def shelvesType : Descriptor :=
  .node 0 (.mapOf (.node 1 (.tupleOf [.node 2 (.primitive .text), .node 3 (.primitive .int)]))
    (.node 4 (.unionOf [
      .node 5 (.record "Shelf"
        [⟨"prices", .node 6 (.mapOf (.node 7 (.primitive .text)) (.node 8 .decimal)), none⟩,
          ⟨"label", .node 9 (.primitive .text), some (.value (.text "new"))⟩] none),
      .node 10 .any])))

/-- A shelf with prices. -/
def shelf (prices : List (Key × Value)) : Value :=
  .map [(.text "prices", .map prices)]

/-- What is made of a shelf with prices. -/
def labelledShelf (prices : List (Key × Value)) : Value :=
  .record "Shelf" [("prices", .map prices), ("label", .text "new")]

/-- A shelf with prices and an empty one. -/
def shelves : Value :=
  .map [(.tuple [.text "left", .int 1], shelf [(.text "tea", .int 3), (.text "milk", .int 2)]),
    (.tuple [.text "left", .int 2], .text "empty")]

/-- The same shelves in another order, with the prices in another order. -/
def reorderedShelves : Value :=
  .map [(.tuple [.text "left", .int 2], .text "empty"),
    (.tuple [.text "left", .int 1], shelf [(.text "milk", .int 2), (.text "tea", .int 3)])]

/-- The prices are reordered in their place, and then the shelves. -/
theorem shelves_reordered : shelves.Reordered reorderedShelves := by
  have hprices : (Value.map [(.text "tea", .int 3), (.text "milk", .int 2)]).Reordered
      (.map [(.text "milk", .int 2), (.text "tea", .int 3)]) :=
    Value.reordered_of_perm (.swap ..)
  have hshelf : (shelf [(.text "tea", .int 3), (.text "milk", .int 2)]).Reordered
      (shelf [(.text "milk", .int 2), (.text "tea", .int 3)]) := by
    refine .map ?_ ?_ .rfl
    · rfl
    · exact List.forall_mem_singleton.mpr hprices
  -- the two shelves change places, and the prices of one are reordered
  refine .map ?_ ?_ (.swap ..)
  · rfl
  · exact List.forall_mem_cons.mpr ⟨hshelf, List.forall_mem_singleton.mpr (.same _)⟩

/-- A map of two proper keys that differ. -/
theorem properMaps_pair {j k : Key} {x y : Value} (hne : (j == k) = false) (hj : j.Proper)
    (hk : k.Proper) (hx : x.ProperMaps) (hy : y.ProperMaps) :
    (Value.map [(j, x), (k, y)]).ProperMaps :=
  ⟨List.pairwise_pair.mpr hne, List.forall_mem_cons.mpr ⟨hj, List.forall_mem_singleton.mpr hk⟩,
    hx, hy, trivial⟩

/-- A shelf is a map with one entry. -/
theorem properMaps_shelf {prices : List (Key × Value)} (h : (Value.map prices).ProperMaps) :
    (shelf prices).ProperMaps :=
  ⟨List.pairwise_singleton .., List.forall_mem_singleton.mpr rfl, h, trivial⟩

/-- The shelves are proper at every depth. -/
theorem properMaps_shelves : shelves.ProperMaps :=
  properMaps_pair rfl rfl rfl (properMaps_shelf (properMaps_pair rfl rfl rfl trivial trivial))
    trivial

/-- The shelves are proper at every depth after both maps have been reordered. -/
theorem properMaps_reorderedShelves : reorderedShelves.ProperMaps :=
  properMaps_pair rfl rfl rfl trivial
    (properMaps_shelf (properMaps_pair rfl rfl rfl trivial trivial))

/-- No decimal numbers are made of the places. -/
theorem shelvesType_ignoresOrder : shelvesType.IgnoresOrder := by
  simp [shelvesType, Descriptor.IgnoresOrder, Descriptor.everywhere_node, Shape.IgnoresOrder,
    Shape.parts]

/-- What is made of the shelves. -/
def labelledShelves : Value :=
  .map [(.tuple [.text "left", .int 1],
      labelledShelf [(.text "tea", .decimal (.ofInt64 3)), (.text "milk", .decimal (.ofInt64 2))]),
    (.tuple [.text "left", .int 2], .text "empty")]

/-- What is made of them in the other order. -/
def reorderedLabelledShelves : Value :=
  .map [(.tuple [.text "left", .int 2], .text "empty"),
    (.tuple [.text "left", .int 1],
      labelledShelf [(.text "milk", .decimal (.ofInt64 2)), (.text "tea", .decimal (.ofInt64 3))])]

/-- The shelves come out in the order in which they are given, and so do the prices. -/
theorem cast_reordered_shelves :
    compile {} shelvesType = .ok ⟨shelvesType, {}⟩ ∧
      ((cast {} shelvesType shelves).run numberingHost).run 7 = (.ok labelledShelves, 7) ∧
      ((cast {} shelvesType reorderedShelves).run numberingHost).run 7 =
        (.ok reorderedLabelledShelves, 7) ∧
      labelledShelves.Reordered reorderedLabelledShelves := by
  have hctx : ({} : Context).NoConversions := fun _ => rfl
  have hcompile : compile {} shelvesType = .ok ⟨shelvesType, {}⟩ := rfl
  have hends := (cast_reordered hctx shelvesType_ignoresOrder shelves_reordered properMaps_shelves
    properMaps_reorderedShelves numberingHost 7).1 _ hcompile
  have hcast : ((cast {} shelvesType shelves).run numberingHost).run 7 =
      (.ok labelledShelves, 7) := rfl
  have hcast' : ((cast {} shelvesType reorderedShelves).run numberingHost).run 7 =
      (.ok reorderedLabelledShelves, 7) := rfl
  rw [hcast, hcast'] at hends
  cases hends with
  | values h => exact ⟨hcompile, hcast, hcast', h⟩

end Conform
