import Conform.Proofs.Cast.Location
import Conform.Proofs.Cast.RoundTrip
import Conform.Proofs.Key.Ascending
import Conform.Proofs.Program.Sequence

/-!
# Casting to sets

The cast to a set makes keys of the cast items and puts them in ascending order, of equal keys the
first (`ItemsHash.run_cast`). If what an item is cast to depends on the item alone, as it does with
a host without state (`castSteadily_of_stateless`), the order and the number in which the items are
given show at most in which of several equal keys stand in the set (`ItemsHash.again`). Main
statement: `set_cast_is_canonical`.
-/

namespace Conform

variable {σ : Type} {answer : (request : Request) → StateM σ request.Reply} {ctx : Context}
  {element : Descriptor} {items items' : List Value} {keys : List Key} {s s' : σ}

/-- The items of a sequence are cast one after the other. -/
theorem castItems_eq_inOrder (enter : Enter) (element : Descriptor) (path : Path) (i : Nat)
    (items : List Value) :
    castItems enter element path i items =
      Program.inOrder ((items.zipIdx i).map fun item =>
        enter element (path ++ [.index item.2]) item.1) := by
  induction items generalizing i with
  | nil => rfl
  | cons x rest ih => rw [castItems, ih, List.zipIdx_cons, List.map_cons, Program.inOrder]

/-- The items of the whole value are cast one after the other, one level deeper, to values with
    these keys. -/
def ItemsHash (answer : (request : Request) → StateM σ request.Reply) (ctx : Context)
    (element : Descriptor) (items : List Value) (s : σ) (keys : List Key) (s' : σ) : Prop :=
  ∃ ws, Program.GiveInOrder answer
      (items.zipIdx.map fun item => castAt ctx element [.index item.2] item.1) s ws s' ∧
    List.Forall₂ (fun w k => w.toKey? = some k) ws keys

/-- What the items are cast to depends on the items alone, neither on where they stand nor on the
    state of the host. -/
def CastSteadily (answer : (request : Request) → StateM σ request.Reply) (ctx : Context)
    (element : Descriptor) (items : List Value) : Prop :=
  ∀ x ∈ items, ∀ i j s s' w, (((castAt ctx element [.index i] x).run answer).run s).1 = .ok w →
    (((castAt ctx element [.index j] x).run answer).run s').1 = .ok w

/-- With a host whose replies do not depend on its state, all items are cast steadily. -/
theorem castSteadily_of_stateless (h : Program.Stateless answer) (ctx : Context)
    (element : Descriptor) (items : List Value) : CastSteadily answer ctx element items := by
  intro x _ i j s s' w hw
  -- the position is in the path only, and the path in errors only
  have helsewhere : Elsewhere answer s (castAt ctx element [.index i] x)
      (castAt ctx element [.index j] x) := castWithin_elsewhere answer ctx _ element _ _ x s
  rw [← h.run_eq _ s s']
  rw [Elsewhere, Program.Agree] at helsewhere
  generalize ((castAt ctx element [.index i] x).run answer).run s = left at hw helsewhere
  generalize ((castAt ctx element [.index j] x).run answer).run s = right at helsewhere ⊢
  cases helsewhere with
  | value a s => exact hw
  | failure _ s => cases hw

/-- The set that the keys of the cast items make. -/
theorem ItemsHash.run_cast (h : ItemsHash answer ctx element items s keys s') {id : Nat}
    (hid : ctx.converter? id = none) {c : Coercion}
    (hcompile : compile ctx (.node id (.setOf element)) = .ok c) {v : Value}
    (hv : v.elements? = some items) :
    ((cast ctx (.node id (.setOf element)) v).run answer).run s =
      (.ok (.set (Key.ascending keys)), s') := by
  obtain ⟨ws, hws, hkeys⟩ := h
  have hitems : (((castItems (castWithin ctx ctx.config.limits.maxDepth) element [] 0 items).run
      answer).run s) = (.ok ws, s') := by
    rw [castItems_eq_inOrder]
    exact Program.run_inOrder_ok_iff.mpr hws
  rw [cast_of_compile hcompile]
  show (((castWithin ctx (ctx.config.limits.maxDepth + 1) (.node id (.setOf element)) [] v).run
    answer).run s) = _
  rw [castWithin_of_no_converter hid, Shape.apply, castSet, castElements, hv]
  -- once the items are cast, the host has no say
  have hset : (hashItems element [] 0 ws >>= fun keys =>
      pure (Value.set (Key.ascending keys))).SettlesTo (.ok (.set (Key.ascending keys))) :=
    (hashItems_settles hkeys).bind rfl
  exact Program.run_bind_ok_iff.mpr ⟨ws, s', hitems, hset.run answer s'⟩

/-! ## Keys of items -/

/-- Somewhere, and in some state of the host, the item is cast to a value with this key. -/
def CastsToKey (answer : (request : Request) → StateM σ request.Reply) (ctx : Context)
    (element : Descriptor) (x : Value) (k : Key) : Prop :=
  ∃ i s w, (((castAt ctx element [.index i] x).run answer).run s).1 = .ok w ∧ w.toKey? = some k

/-- Each key is that of an item, and each item has its key among them. -/
theorem ItemsHash.castsToKey (h : ItemsHash answer ctx element items s keys s') :
    (∀ k ∈ keys, ∃ x ∈ items, CastsToKey answer ctx element x k) ∧
      ∀ x ∈ items, ∃ k ∈ keys, CastsToKey answer ctx element x k := by
  obtain ⟨ws, hws, hkeys⟩ := h
  -- from a key to the item whose cast has it, and back
  constructor
  · intro k hk
    obtain ⟨w, hw, hwk⟩ := exists_left_of_mem hkeys hk
    obtain ⟨p, hp, s, hrun⟩ := exists_left_of_mem hws.forall₂ hw
    obtain ⟨⟨x, i⟩, hx, rfl⟩ := List.mem_map.mp hp
    exact ⟨x, List.fst_mem_of_mem_zipIdx hx, i, s, w, hrun, hwk⟩
  · intro x hx
    obtain ⟨i, hi⟩ := List.mem_iff_getElem?.mp hx
    have hp := List.mem_map_of_mem (f := fun item => castAt ctx element [.index item.2] item.1)
      (List.mem_zipIdx_iff_getElem?.mpr hi : (x, i) ∈ items.zipIdx)
    obtain ⟨w, hw, s, hrun⟩ := exists_right_of_mem hws.forall₂ hp
    obtain ⟨k, hk, hwk⟩ := exists_right_of_mem hkeys hw
    exact ⟨k, hk, i, s, w, hrun, hwk⟩

/-- An item that is cast steadily is cast to one key. -/
theorem CastSteadily.key_eq (h : CastSteadily answer ctx element items) {x : Value} (hx : x ∈ items)
    {j k : Key} (hj : CastsToKey answer ctx element x j) (hk : CastsToKey answer ctx element x k) :
    j = k := by
  obtain ⟨i, s, w, hw, hj⟩ := hj
  obtain ⟨i', s', w', hw', hk⟩ := hk
  have hsame := h x hx i i' s s' w hw
  rw [hw', Except.ok.injEq] at hsame
  subst hsame
  exact Option.some.inj (hj.symm.trans hk)

/-- Steady items bring no other keys when they are given again. -/
theorem ItemsHash.keys_subset (h : ItemsHash answer ctx element items s keys s') {s₂ s₂' : σ}
    {keys' : List Key} (h' : ItemsHash answer ctx element items' s₂ keys' s₂')
    (hsteady : CastSteadily answer ctx element items) (hsub : items' ⊆ items) : keys' ⊆ keys := by
  intro k hk
  obtain ⟨x, hx, hxk⟩ := h'.castsToKey.1 k hk
  obtain ⟨j, hj, hxj⟩ := h.castsToKey.2 x (hsub hx)
  rwa [hsteady.key_eq (hsub hx) hxk hxj]

/-- Steady items can be given again, in another order and as often as one likes, and their keys are
    the same. -/
theorem ItemsHash.again (h : ItemsHash answer ctx element items s keys s')
    (hsteady : CastSteadily answer ctx element items) (hitems : ∀ x, x ∈ items' ↔ x ∈ items)
    (s₂ : σ) :
    ∃ keys' s₂', ItemsHash answer ctx element items' s₂ keys' s₂' ∧ ∀ k, k ∈ keys' ↔ k ∈ keys := by
  -- each item gives its value again, from whatever state
  have hgives : ∀ p ∈ items'.zipIdx.map fun item => castAt ctx element [.index item.2] item.1,
      ∃ w, w.toKey?.isSome ∧ ∀ s, ((p.run answer).run s).1 = .ok w := by
    rintro p hp
    obtain ⟨⟨x, j⟩, hx, rfl⟩ := List.mem_map.mp hp
    have hx : x ∈ items := (hitems x).mp (List.fst_mem_of_mem_zipIdx hx)
    obtain ⟨k, -, i, s, w, hw, hk⟩ := h.castsToKey.2 x hx
    exact ⟨w, by rw [hk]; rfl, fun s' => hsteady x hx i j s s' w hw⟩
  obtain ⟨ws, s₂', hws, hhash⟩ := Program.exists_giveInOrder hgives s₂
  have hkey : ∀ w ∈ ws, ∃ k, w.toKey? = some k := by
    intro w hw
    obtain ⟨p, -, hsome⟩ := exists_left_of_mem hhash hw
    exact Option.isSome_iff_exists.mp hsome
  obtain ⟨keys', hkeys'⟩ := exists_forall₂ hkey
  have hitems' : ItemsHash answer ctx element items' s₂ keys' s₂' := ⟨ws, hws, hkeys'⟩
  have hsub : items' ⊆ items := fun x hx => (hitems x).mp hx
  have hsup : items ⊆ items' := fun x hx => (hitems x).mpr hx
  refine ⟨keys', s₂', hitems', fun k => ⟨fun hk => ?_, fun hk => ?_⟩⟩
  · exact h.keys_subset hitems' hsteady hsub hk
  · exact hitems'.keys_subset h (fun x hx => hsteady x (hsub hx)) hsup hk

/-! ## Sets -/

/-- If the set type can be used and nothing converts it, a container whose items are cast, one after
    the other, to values with keys is cast to the set of these keys, which lists them in ascending
    order, and of equal keys the first. If the items are cast steadily, as they are with a host
    without state, a container of the same items, of whatever kind and in whatever order and number,
    is cast to an equal set. -/
theorem set_cast_is_canonical {id : Nat} (hid : ctx.converter? id = none) {c : Coercion}
    (hcompile : compile ctx (.node id (.setOf element)) = .ok c) {v : Value}
    (hv : v.elements? = some items) (hkeys : ItemsHash answer ctx element items s keys s') :
    (Std.TransCmp Key.compare ∧ ∀ j k, Key.compare j k = .eq ↔ (j == k) = true) ∧
      (Program.Stateless answer → CastSteadily answer ctx element items) ∧
      ∃ elements, ((cast ctx (.node id (.setOf element)) v).run answer).run s =
          (.ok (.set elements), s') ∧
        Key.Ascending elements ∧ elements.Perm keys.eraseDups ∧
        (CastSteadily answer ctx element items →
          ∀ v' items' s₂, v'.elements? = some items' → (∀ x, x ∈ items' ↔ x ∈ items) →
            ∃ elements' s₂', ((cast ctx (.node id (.setOf element)) v').run answer).run s₂ =
                (.ok (.set elements'), s₂') ∧
              (Value.set elements').equal (.set elements) = true) := by
  refine ⟨⟨inferInstance, fun _ _ => Key.beq_iff_compare_eq.symm⟩,
    fun h => castSteadily_of_stateless h ctx element items, Key.ascending keys,
    hkeys.run_cast hid hcompile hv, Key.ascending_ascending keys,
    Key.perm_ascending_eraseDups keys, fun hsteady v' items' s₂ hv' hitems => ?_⟩
  -- items that are cast steadily give the same keys again, in whatever order they come
  obtain ⟨keys', s₂', hkeys', hsame⟩ := hkeys.again hsteady hitems s₂
  refine ⟨Key.ascending keys', s₂', hkeys'.run_cast hid hcompile hv', ?_⟩
  rw [Value.equal]
  exact Key.sameItems_ascending hsame

/-! ## Prices -/

/-- Prices in writing, of which two are the same number. -/
def writtenPrices : List Value := [.text "2.0", .text "0.5", .text "2.00"]

/-- The numbers that are written. -/
def prices : List Key := (["2.0", "0.5", "2.00"].filterMap Decimal.ofText?).map Key.decimal

/-- The three prices, each cast to its key. -/
theorem itemsHash_prices :
    ItemsHash numberingHost {} (.node 1 .decimal) writtenPrices 7 prices 7 :=
  ⟨prices.map Key.toValue, .cons rfl (.cons rfl (.cons rfl (.nil 7))),
    .cons rfl (.cons rfl (.cons rfl .nil))⟩

/-- Decimals are cast the same at any position and in any state. -/
theorem castSteadily_prices :
    CastSteadily numberingHost {} (.node 1 .decimal) writtenPrices := by
  simp only [CastSteadily, writtenPrices, List.forall_mem_cons]
  exact ⟨fun _ _ _ _ _ h => h, fun _ _ _ _ _ h => h, fun _ _ _ _ _ h => h,
    fun _ h => absurd h List.not_mem_nil⟩

/-- The prices in a queue, the other way round, one of them twice. -/
theorem set_cast_is_canonical_prices :
    ∃ elements elements', ((cast {} (.node 0 (.setOf (.node 1 .decimal)))
          (.list writtenPrices)).run numberingHost).run 7 = (.ok (.set elements), 7) ∧
      elements.Perm prices.eraseDups ∧
      ((cast {} (.node 0 (.setOf (.node 1 .decimal)))
          (.queue [.text "2.00", .text "0.5", .text "2.0", .text "0.5"])).run
            numberingHost).run 3 = (.ok (.set elements'), 3) ∧
      (Value.set elements').equal (.set elements) = true := by
  have hid : Context.converter? {} 0 = none := rfl
  have hcompile : compile {} (.node 0 (.setOf (.node 1 .decimal))) =
      .ok ⟨.node 0 (.setOf (.node 1 .decimal)), {}⟩ := rfl
  have hlist : (Value.list writtenPrices).elements? = some writtenPrices := rfl
  -- the same prices in another order, one of them twice
  have hsame : ∀ x, x ∈ [.text "2.00", .text "0.5", .text "2.0", .text "0.5"] ↔
      x ∈ writtenPrices := by
    intro x
    simp only [writtenPrices, List.mem_cons, List.not_mem_nil, or_false]
    grind
  obtain ⟨-, -, elements, hrun, -, hperm, hagain⟩ :=
    set_cast_is_canonical hid hcompile hlist itemsHash_prices
  obtain ⟨elements', s', hrun', hequal⟩ := hagain castSteadily_prices
    (.queue [.text "2.00", .text "0.5", .text "2.0", .text "0.5"]) _ 3 rfl hsame
  obtain rfl : s' = 3 := by cases hrun'; rfl
  exact ⟨elements, elements', hrun, hperm, hrun', hequal⟩

/-- Settings that allow a single level refuse every set type, and so the empty set. -/
theorem not_set_cast_of_one_level :
    let ctx : Context := { config := { limits := { maxDescriptorDepth := 1 } } }
    let element : Descriptor := .node 1 (.primitive .int)
    (ctx.converter? 0 = none ∧ (Value.list []).elements? = some [] ∧
      ItemsHash numberingHost ctx element [] 7 [] 7) ∧
      ∀ elements, (((cast ctx (.node 0 (.setOf element)) (.list [])).run numberingHost).run 7).1 ≠
        .ok (.set elements) :=
  ⟨⟨rfl, rfl, [], .nil 7, .nil⟩, nofun⟩

end Conform
