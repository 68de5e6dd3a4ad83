import Conform.Proofs.Cast.RoundTrip

/-!
# Casting a second time

A type whose results are of the kinds that it takes changes nothing when its results are cast
again. The rule of such a type gives a value that the rule passes through at every location, which
is `Fixed`: `apply_fixed` states this for one rule, given that it holds of the parts, and
`castWithin_fixed` for whole casts. Main statement: `cast_again_unchanged`.
-/

namespace Conform

/-- The rule takes what it gives. A rule for decimal numbers does not, and neither does one for
    records. Of a union the alternative that gave a value must not come after one that would take
    it, so that only optional types are left. -/
def Shape.IsRepeatable : Shape → Prop
  | any | primitive _ | float | complex | literal _ => True
  | listOf _ | setOf _ | queueOf _ | mapOf .. | tupleOf _ => True
  | unionOf alternatives => ∃ d id, alternatives = [d, .node id (.primitive .none)]
  | _ => False

/-- A type whose rules all take what they give. -/
def Descriptor.IsRepeatable (d : Descriptor) : Prop :=
  d.Everywhere fun _ shape => shape.IsRepeatable

/-- Repeatable types are data types. -/
theorem Descriptor.IsRepeatable.isData {d : Descriptor} (h : d.IsRepeatable) : d.IsData :=
  h.mono fun _ shape hshape => by
    cases shape with
    | record | symbolPath | invocation | inspectedInvocation => exact hshape.elim
    | _ => trivial

/-- A well-formed value that is cast to itself at every location, without the host. -/
structure Fixed (castAt : Path → Value → Program Value) (w : Value) : Prop where
  wellFormed : w.WellFormed
  settles : ∀ path, (castAt path w).SettlesTo (.ok w)

/-- Whatever a program gives is fixed; it may also fail. -/
abbrev GivesFixed (castAt : Path → Value → Program Value) (p : Program Value) : Prop :=
  p.Yields (fun _ _ => True) (Fixed castAt) (fun _ => True)

section Rules

variable {enter : Enter} {expected expected' : String} {path : Path} {v : Value}

/-- A value that is returned as it is is fixed if it is allowed again. -/
private theorem castUnchanged_fixed {castAt : Path → Value → Program Value} {holds : Bool}
    {reason : Mismatch} (hv : v.WellFormed)
    (h : holds = true → ∀ path, (castAt path v).SettlesTo (.ok v)) :
    GivesFixed castAt (castUnchanged holds reason expected path v) :=
  castUnchanged_yields (fun hholds => ⟨hv, h hholds⟩) fun _ => trivial

/-! ## Sequences and sets -/

/-- The elements of what is given are fixed. -/
private theorem castElements_fixed {element : Descriptor}
    (henter : ∀ path x, x.WellFormed → GivesFixed (enter element) (enter element path x))
    (hv : v.WellFormed) :
    (castElements enter element expected path v).Yields (fun _ _ => True)
      (fun ws => ∀ w ∈ ws, Fixed (enter element) w) (fun _ => True) := by
  have hitem : ∀ items, v.elements? = some items → ∀ i x, items[i]? = some x →
      GivesFixed (enter element) (enter element (path ++ [.index i]) x) := by
    intro items hitems i x hx
    exact henter _ x (hv.elements hitems x (List.mem_of_getElem? hx))
  refine (castElements_yields hitem fun _ => trivial).imp fun ws hws w hw => ?_
  obtain ⟨items, -, hfixed⟩ := hws
  -- an element of the result stands at an index, and the item there is what it was cast from
  obtain ⟨i, hi⟩ := List.mem_iff_getElem?.mp hw
  obtain ⟨x, -, hx⟩ := hfixed i w hi
  exact hx

/-- Fixed items are cast to themselves in any container that runs through them. -/
private theorem castElements_again {element : Descriptor} {container : Value} {ws : List Value}
    (hcontainer : container.elements? = some ws) (hws : ∀ w ∈ ws, Fixed (enter element) w) :
    (castElements enter element expected path container).SettlesTo (.ok ws) := by
  rw [castElements, hcontainer]
  exact castItems_settles (List.forall₂_same.mpr fun w hw path => (hws w hw).settles path)

/-- A set that is given is fixed: its elements are, and they stand in order. -/
private theorem castSet_fixed {element : Descriptor}
    (henter : ∀ path x, x.WellFormed → GivesFixed (enter element) (enter element path x))
    (hv : v.WellFormed) :
    GivesFixed (castSet enter element expected') (castSet enter element expected path v) := by
  have hitem : ∀ items, v.elements? = some items → ∀ i x, items[i]? = some x →
      GivesFixed (enter element) (enter element (path ++ [.index i]) x) := by
    intro items hitems i x hx
    exact henter _ x (hv.elements hitems x (List.mem_of_getElem? hx))
  refine Program.Yields.imp
    (castSet_yields hitem (fun _ => trivial) fun _ _ _ _ _ _ _ _ => trivial) ?_
  rintro w ⟨keys, rfl, hascending, hkeys⟩
  -- an element of the set stands for the value that was cast, which has the element as its key
  have hvalue : ∀ k ∈ keys, Fixed (enter element) k.toValue ∧ k.toValue.toKey? = some k := by
    intro k hk
    obtain ⟨i, x, w, hfixed, hkey⟩ := hkeys k hk
    have hw : k.toValue = w := Value.toValue_of_toKey? w k hfixed.wellFormed hkey
    rw [hw]
    exact ⟨hfixed, hkey⟩
  refine ⟨hascending, fun path => ?_⟩
  have hitems : (castElements enter element expected' path (.set keys)).SettlesTo
      (.ok (keys.map Key.toValue)) := by
    refine castElements_again (congrArg some (Key.toValues_eq_map keys)) ?_
    exact List.forall_mem_map.mpr fun k hk => (hvalue k hk).1
  have hhash : (hashItems element path 0 (keys.map Key.toValue)).SettlesTo (.ok keys) := by
    refine hashItems_settles (List.forall₂_map_left_iff.mpr ?_)
    exact List.forall₂_same.mpr fun k hk => (hvalue k hk).2
  refine hitems.bind (hhash.bind ?_)
  -- in the order of the set nothing is left to sort out
  rw [Key.ascending_eq_of_perm hascending .rfl]
  rfl

/-! ## Maps -/

/-- A map that is given is fixed: its keys are, and they are distinct. -/
private theorem castMap_fixed {key value : Descriptor}
    (hkey : ∀ path x, x.WellFormed → GivesFixed (enter key) (enter key path x))
    (hvalue : ∀ path x, x.WellFormed → GivesFixed (enter value) (enter value path x))
    (hv : v.WellFormed) :
    GivesFixed (castMap enter key value expected') (castMap enter key value expected path v) := by
  have hwell : ∀ entries, v = .map entries → ∀ k x, (k, x) ∈ entries → x.WellFormed := by
    rintro entries rfl k x hx
    exact Value.wellFormedEntries_iff.mp hv.2 (k, x) hx
  refine Program.Yields.imp
    (castMap_yields (fun _ _ k _ _ => hkey _ _ (Key.wellFormed_toValue k))
      (fun _ _ _ _ _ _ _ _ => trivial)
      (fun entries hentries k x hx => hvalue _ x (hwell entries hentries k x hx))
      fun _ => trivial) ?_
  rintro w ⟨entries, rfl, hdistinct, hentries⟩
  -- a key is cast as a value, and the value that it becomes is one that is kept
  have hkeys : ∀ entry ∈ entries,
      Fixed (enter key) entry.1.toValue ∧ entry.1.toValue.toKey? = some entry.1 := by
    intro entry hentry
    obtain ⟨k, x, hfixed, hk⟩ := (hentries entry hentry).1
    have hx : entry.1.toValue = x := Value.toValue_of_toKey? x entry.1 hfixed.wellFormed hk
    rw [hx]
    exact ⟨hfixed, hk⟩
  have hvalues : ∀ entry ∈ entries, Fixed (enter value) entry.2 :=
    fun entry hentry => (hentries entry hentry).2
  constructor
  · exact ⟨hdistinct, Value.wellFormedEntries_iff.mpr fun entry h => (hvalues entry h).wellFormed⟩
  · intro path
    have hagain : (castEntries enter key value path entries).SettlesTo (.ok entries) := by
      refine castEntries_settles (List.forall₂_same.mpr fun entry hentry => ⟨fun path => ?_, ?_⟩)
      · exact ⟨_, (hkeys entry hentry).1.settles path, (hkeys entry hentry).2⟩
      · exact (hvalues entry hentry).settles
    refine hagain.bind ?_
    -- no two of the new entries have one key, so that none gives way to another
    rw [Entries.ofList_of_distinct hdistinct]
    rfl

/-! ## Tuples -/

/-- Elements that are fixed are cast to themselves, one after the other. -/
private theorem castEach_again {elements : List Descriptor} {ws : List Value}
    (h : List.Forall₂ (fun d w => Fixed (enter d) w) elements ws) (i : Nat) :
    (castEach enter path i elements ws).SettlesTo (.ok ws) := by
  induction h generalizing i with
  | nil => rfl
  | cons hw _ ih => exact (hw.settles _).bind ((ih (i + 1)).bind rfl)

/-- A tuple that is given is fixed: it has the length that the type asks for. -/
private theorem castTuple_fixed {elements : List Descriptor}
    (henter : ∀ d ∈ elements, ∀ path x, x.WellFormed → GivesFixed (enter d) (enter d path x))
    (hv : v.WellFormed) :
    GivesFixed (castTuple enter elements expected') (castTuple enter elements expected path v) := by
  have hitem : ∀ items, v.sequence? = some items → ∀ i d x, elements[i]? = some d →
      items[i]? = some x → GivesFixed (enter d) (enter d (path ++ [.index i]) x) := by
    intro items hitems i d x hd hx
    exact henter d (List.mem_of_getElem? hd) _ x
      (hv.sequence hitems x (List.mem_of_getElem? hx))
  refine Program.Yields.imp (castTuple_yields hitem (fun _ => trivial) fun _ _ _ => trivial) ?_
  rintro w ⟨ws, rfl, hws⟩
  have hwell : ∀ w ∈ ws, w.WellFormed := by
    intro w hw
    obtain ⟨d, -, hfixed⟩ := exists_left_of_mem hws hw
    exact hfixed.wellFormed
  refine ⟨Value.wellFormedItems_iff.mpr hwell, fun path => ?_⟩
  show (ite _ _ _ : Program Value).SettlesTo _
  -- the length is that of the type, as the first cast has seen to it
  rw [if_pos hws.length_eq.symm]
  exact (castEach_again hws 0).bind rfl

end Rules

/-! ## Casts -/

section Casts

variable {ctx : Context} {enter enterBelow : Enter} {path : Path} {v : Value}

/-- The rule of a repeatable type gives values that it passes through, if the parts are given such
    values below the location. -/
theorem apply_fixed (hctx : ctx.NoConversions)
    (henter : ∀ d : Descriptor, d.IsRepeatable → ∀ path x, x.WellFormed →
      GivesFixed (enter d) (enter d path x))
    {d : Descriptor} (hd : d.IsRepeatable) (hv : v.WellFormed) :
    GivesFixed (d.apply ctx enter enterBelow) (d.apply ctx enter enterBelow path v) := by
  -- on the type, since the type of an optional value is applied at the same level
  induction hd with
  | @node id shape hroot hparts ih =>
    have hpart : ∀ d ∈ shape.parts, ∀ path x, x.WellFormed →
        GivesFixed (enter d) (enter d path x) := fun d hd => henter d (hparts d hd)
    -- the host converts nothing, so that the node is its shape
    have happly : (Descriptor.node id shape).apply ctx enter enterBelow =
        shape.apply ctx enter enterBelow := by
      funext path v
      rw [Descriptor.apply, hctx id]
    rw [happly]
    cases shape with
    | any => exact Program.yields_pure ⟨hv, fun path => rfl⟩
    | primitive | float | complex | literal =>
      exact castUnchanged_fixed hv fun hholds path => castUnchanged_settles hholds
    | listOf element =>
      refine (castElements_fixed (hpart element List.mem_cons_self) hv).bind fun ws hws => ?_
      have hwell : (Value.list ws).WellFormed :=
        Value.wellFormedItems_iff.mpr fun w hw => (hws w hw).wellFormed
      exact Program.yields_pure ⟨hwell, fun path => (castElements_again rfl hws).bind rfl⟩
    | queueOf element =>
      refine (castElements_fixed (hpart element List.mem_cons_self) hv).bind fun ws hws => ?_
      have hwell : (Value.queue ws).WellFormed :=
        Value.wellFormedItems_iff.mpr fun w hw => (hws w hw).wellFormed
      exact Program.yields_pure ⟨hwell, fun path => (castElements_again rfl hws).bind rfl⟩
    | setOf element => exact castSet_fixed (hpart element List.mem_cons_self) hv
    | mapOf key value =>
      exact castMap_fixed (hpart key List.mem_cons_self)
        (hpart value (List.mem_cons_of_mem _ List.mem_cons_self)) hv
    | tupleOf elements => exact castTuple_fixed hpart hv
    | unionOf alternatives =>
      obtain ⟨d, noneId, rfl⟩ := hroot
      -- the value is from the type itself, or it is missing and that type may not take it
      let optional := Shape.unionOf [d, .node noneId (.primitive .none)]
      have hfirst : GivesFixed (optional.apply ctx enter enterBelow)
          (d.apply ctx enter enterBelow path v) := by
        refine (ih d List.mem_cons_self).imp fun w hw => ⟨hw.wellFormed, fun path => ?_⟩
        exact (hw.settles path).inUnion.orElse _
      have hsecond : GivesFixed (optional.apply ctx enter enterBelow)
          ((Descriptor.node noneId (.primitive .none)).apply ctx enter enterBelow path v) := by
        rw [Descriptor.apply, hctx noneId]
        refine castUnchanged_yields (fun hholds => ?_) fun _ => trivial
        obtain rfl : v = .none := by
          cases v with
          | none => rfl
          | _ => cases hholds
        have hdata : d.IsData :=
          (show d.IsRepeatable from hparts d List.mem_cons_self).isData
        exact ⟨trivial, fun path => applyFirst_optional_none hctx (apply_none hctx hdata)⟩
      exact applyFirst_yields
        (List.forall_mem_cons.mpr ⟨hfirst, List.forall_mem_singleton.mpr hsecond⟩)
        (fun _ _ _ => trivial) fun _ => trivial
    | decimal | record | partialRecord => exact hroot.elim
    | symbolPath | invocation | inspectedInvocation => exact hroot.elim

/-- Whatever room there is, a repeatable type gives values that it passes through. -/
theorem castWithin_fixed (hctx : ctx.NoConversions) (room : Nat) (d : Descriptor)
    (hd : d.IsRepeatable) (path : Path) (v : Value) (hv : v.WellFormed) :
    GivesFixed (castWithin ctx room d) (castWithin ctx room d path v) := by
  induction room generalizing d path v with
  -- without room nothing is given
  | zero => exact mismatch_yields trivial
  | succ room ih =>
    have hsucc : castWithin ctx (room + 1) d =
        d.apply ctx (castWithin ctx room) (castWithin ctx (room - 1)) := by
      funext path v
      exact castWithin_succ ctx room d path v
    rw [hsucc]
    exact apply_fixed hctx ih hd hv

end Casts

/-- What a cast to a repeatable type has given, a second cast gives again, as it is and without the
    host. -/
theorem cast_again_unchanged {ctx : Context} (hctx : ctx.NoConversions) {d : Descriptor}
    (hd : d.IsRepeatable) {v w : Value} (hv : v.WellFormed) {σ : Type}
    {answer : (request : Request) → StateM σ request.Reply} {s s' : σ}
    (hcast : ((cast ctx d v).run answer).run s = (.ok w, s')) {τ : Type}
    (answer' : (request : Request) → StateM τ request.Reply) (t : τ) :
    ((cast ctx d w).run answer').run t = (.ok w, t) := by
  -- a type that does not compile gives no value to begin with
  obtain ⟨e, hfails⟩ | hcasts := cast_cases ctx d
  · rw [hfails] at hcast
    cases hcast
  · rw [hcasts] at hcast ⊢
    have hgives := castWithin_fixed hctx (ctx.config.limits.maxDepth + 1) d hd [] v hv
    have hfixed : Fixed (castWithin ctx (ctx.config.limits.maxDepth + 1) d) w :=
      hgives.of_run_ok (fun _ _ => trivial) hcast
    exact (hfixed.settles []).run answer' t

/-- Maps from pairs to sets, where a value may be missing. -/
def sightingsType : Descriptor :=
  .node 0 (.mapOf
    (.node 1 (.tupleOf [.node 2 (.primitive .int), .node 3 .float]))
    (.node 4 (.unionOf [.node 5 (.setOf (.node 6 .any)), .node 7 (.primitive .none)])))

/-- The elements come in another order, and one of them twice. -/
def sightings : Value :=
  .map [(.tuple [.bool true, .int 2], .list [.text "owl", .text "elk", .text "owl"]),
    (.tuple [.int 3, .int 4], .none)]

/-- The sightings with the elements as sets. -/
def sortedSightings : Value :=
  .map [(.tuple [.bool true, .int 2], .set [.text "elk", .text "owl"]),
    (.tuple [.int 3, .int 4], .none)]

/-- Sets and maps under a list: the first cast sorts the set, the second changes nothing. -/
theorem cast_again_unchanged_sightings :
    ((cast {} sightingsType sightings).run numberingHost).run 7 = (.ok sortedSightings, 7) ∧
      ((cast {} sightingsType sortedSightings).run numberingHost).run 8 =
        (.ok sortedSightings, 8) := by
  -- the elements are sorted, and the duplicate is gone
  have hcast : ((cast {} sightingsType sightings).run numberingHost).run 7 =
      (.ok sortedSightings, 7) := rfl
  have hd : sightingsType.IsRepeatable := by
    simp [sightingsType, Descriptor.IsRepeatable, Descriptor.everywhere_node, Shape.IsRepeatable,
      Shape.parts]
  have hv : sightings.WellFormed := by
    have hdistinct : (Key.tuple [.bool true, .int 2] == Key.tuple [.int 3, .int 4]) = false := by
      cbv
    simp [sightings, Value.WellFormed, Value.wellFormedItems_iff, Value.wellFormedEntries_iff,
      Entries.Distinct, Entries.keys, hdistinct]
  exact ⟨hcast, cast_again_unchanged (fun _ => rfl) hd hv hcast numberingHost 8⟩

end Conform
