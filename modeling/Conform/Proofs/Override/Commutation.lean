import Conform.Proofs.Entries.Overwriting
import Conform.Proofs.Override.Assignment
import Conform.Proofs.Value.Reordering

/-!
# The order of assignments

`Value.write?` is an assignment without its failure: the value that it leads to, if it succeeds
(`Override.apply_eq_ok_iff`). Writes under paths of which neither is a prefix of the other may be
made in either order, as far as the order of map entries goes (`Value.write?_comm`), and a write is
lost in a later one under a prefix of its path (`Value.write?_of_prefix`). Main statement:
`overrides_commute`.
-/

namespace Conform

/-- The value in which `v` is written under a path of names, unless the path leads through something
    else than a map. Maps that are missing on the way are made. -/
def Value.write? (v : Value) : List String → Value → Option Value
  | [], _ => some v
  | name :: names, .map entries =>
    (v.write? names (childAt (Key.text name) entries)).map fun child =>
      .map (Entries.insert (Key.text name) child entries)
  | _ :: _, _ => .none

/-! ## Assignments as writes -/

namespace Override

/-- An assignment succeeds when there is something to write to. -/
theorem assign_eq_ok_iff {walked : String} {target v after : Value} {names : List String}
    (hnames : names ≠ []) :
    assign walked target names v = (after, .ok ()) ↔ v.write? names target = some after := by
  -- along the names, of which each leads to the child that the rest is assigned below
  induction names generalizing walked target after with
  | nil => exact absurd rfl hnames
  | cons name names ih =>
    by_cases hkind : target.kind = .map
    · obtain ⟨entries, rfl⟩ := Value.exists_entries hkind
      by_cases hlast : names = []
      · subst hlast
        show (Value.map _, Except.ok ()) = _ ↔ some (Value.map _) = _
        rw [Prod.mk.injEq, Option.some.injEq, and_iff_left rfl]
      · rw [assign_cons walked name entries hlast, Value.write?, Option.map_eq_some_iff]
        constructor
        · intro h
          obtain ⟨rfl, hok⟩ := Prod.mk.inj h
          exact ⟨_, (ih hlast).mp (Prod.ext rfl hok), rfl⟩
        · rintro ⟨child, hchild, rfl⟩
          rw [(ih hlast).mpr hchild]
    · rw [assign_of_kind_ne hkind]
      cases target with
      | map entries => exact absurd rfl hkind
      | _ => exact iff_of_false (fun h => by cases h) (fun h => by cases h)

/-- An override succeeds when there is something to write to. -/
theorem apply_eq_ok_iff {o : Override} (ho : o.keys ≠ []) {target after : Value} :
    o.apply target = (after, .ok ()) ↔ o.value.write? o.keys target = some after :=
  assign_eq_ok_iff ho

/-- Two overrides succeed one after the other exactly if their writes do. -/
theorem applyEach_pair_eq_ok_iff {o o' : Override} (ho : o.keys ≠ []) (ho' : o'.keys ≠ [])
    {target after : Value} : applyEach target [o, o'] = (after, .ok ()) ↔
      (o.value.write? o.keys target).bind (o'.value.write? o'.keys) = some after := by
  rw [Option.bind_eq_some_iff]
  simp only [← apply_eq_ok_iff ho, ← apply_eq_ok_iff ho', applyEach]
  constructor
  · intro h
    -- the second is only applied to what the first has given
    split at h
    next next hfirst =>
      refine ⟨next, hfirst, ?_⟩
      split at h
      next last hsecond => rw [hsecond, h]
      next => cases h
    next => cases h
  · rintro ⟨next, hfirst, hsecond⟩
    simp only [hfirst, hsecond]

end Override

/-! ## Two writes -/

namespace Value

variable {v v' : Value} {names names' : List String}

/-- A value that is given to a key of a map may be reordered. -/
theorem reordered_insert (k : Key) {a b : Value} (h : a.Reordered b)
    (entries : List (Key × Value)) :
    (map (Entries.insert k a entries)).Reordered (map (Entries.insert k b entries)) := by
  have halongside : Entries.Alongside Reordered (Entries.insert k a entries)
      (Entries.insert k b entries) := by
    -- the value is replaced in its place, or put at the end
    induction entries with
    | nil => exact .cons ⟨rfl, h⟩ .nil
    | cons entry rest ih =>
      have hrest : Entries.Alongside Reordered rest rest :=
        List.forall₂_same.mpr fun entry _ => ⟨rfl, .same entry.2⟩
      simp only [Entries.insert]
      split
      · exact .cons ⟨rfl, h⟩ hrest
      · exact .cons ⟨rfl, .same entry.2⟩ ih
  exact .map halongside.keys_eq halongside.values .rfl

/-- A child that has been given to a key is there. -/
theorem childAt_insert_self (k : Key) (child : Value) (entries : List (Key × Value)) :
    childAt k (Entries.insert k child entries) = child := by
  rw [childAt, Entries.find?_insert_self]
  rfl

/-- A child is not seen under another key. -/
theorem childAt_insert_of_ne {j k : Key} (h : (j == k) = false) (child : Value)
    (entries : List (Key × Value)) :
    childAt k (Entries.insert j child entries) = childAt k entries := by
  rw [childAt, Entries.find?_insert, h]
  rfl

/-- Two writes below one name are two writes below its child. -/
theorem write?_bind_below (name : String) (entries : List (Key × Value)) :
    (v.write? (name :: names) (map entries)).bind (v'.write? (name :: names')) =
      ((v.write? names (childAt (Key.text name) entries)).bind (v'.write? names')).map fun child =>
        map (Entries.insert (Key.text name) child entries) := by
  rw [write?]
  cases v.write? names (childAt (Key.text name) entries) with
  | none => rfl
  | some child =>
    simp only [Option.map_some, Option.bind_some, write?, childAt_insert_self,
      Entries.insert_insert]

/-- Writes below two names do not meet. -/
theorem write?_bind_apart {name name' : String} (h : (Key.text name == Key.text name') = false)
    (entries : List (Key × Value)) :
    (v.write? (name :: names) (map entries)).bind (v'.write? (name' :: names')) =
      (v.write? names (childAt (Key.text name) entries)).bind fun child =>
        (v'.write? names' (childAt (Key.text name') entries)).map fun child' =>
          map (Entries.insert (Key.text name') child'
            (Entries.insert (Key.text name) child entries)) := by
  rw [write?]
  cases v.write? names (childAt (Key.text name) entries) with
  | none => rfl
  | some child => simp only [Option.map_some, Option.bind_some, write?, childAt_insert_of_ne h]

/-- Whether two writes succeed does not depend on their order, and neither does what they lead to,
    but for the order of map entries, if neither path is a prefix of the other. -/
theorem write?_comm (h : ¬ names <+: names') (h' : ¬ names' <+: names) (target : Value) :
    Option.Rel Reordered ((v.write? names target).bind (v'.write? names'))
      ((v'.write? names' target).bind (v.write? names)) := by
  -- down to the map in which the paths part
  induction names generalizing names' target with
  | nil => exact absurd List.nil_prefix h
  | cons name names ih =>
    cases names' with
    | nil => exact absurd List.nil_prefix h'
    | cons name' names' =>
      by_cases hkind : target.kind = .map
      · obtain ⟨entries, rfl⟩ := Value.exists_entries hkind
        by_cases hname : name = name'
        · subst hname
          simp only [List.cons_prefix_cons, true_and] at h h'
          have hbelow := ih h h' (childAt (Key.text name) entries)
          rw [write?_bind_below, write?_bind_below]
          generalize (v.write? names _).bind _ = left at hbelow ⊢
          generalize (v'.write? names' _).bind _ = right at hbelow ⊢
          cases hbelow with
          | none => exact .none
          | some hchild => exact .some (reordered_insert _ hchild entries)
        · have hne : (Key.text name == Key.text name') = false :=
            Bool.eq_false_iff.mpr fun heq => hname (eq_of_beq heq)
          have hne' : (Key.text name' == Key.text name) = false := by rwa [BEq.comm]
          rw [write?_bind_apart hne, write?_bind_apart hne']
          -- below two names of one map the writes do not meet, and either of them may fail
          cases v.write? names (childAt (Key.text name) entries) with
          | none =>
            cases v'.write? names' (childAt (Key.text name') entries) with
            | none => exact .none
            | some child' => exact .none
          | some child =>
            cases v'.write? names' (childAt (Key.text name') entries) with
            | none => exact .none
            | some child' =>
              exact .some (reordered_of_perm (Entries.insert_comm hne child child' _))
      -- nothing is written into what is no map
      · cases target with
        | map entries => exact absurd rfl hkind
        | _ => exact Option.Rel.none

/-- A write is lost in a later one under a prefix of its path. -/
theorem write?_of_prefix (h : names' <+: names) {target next : Value}
    (hnext : v.write? names target = some next) :
    v'.write? names' next = v'.write? names' target := by
  -- along the prefix, in the maps of which nothing but the child on the way has been written
  induction names' generalizing names target next with
  | nil => rfl
  | cons name names' ih =>
    obtain ⟨rest, rfl⟩ := h
    by_cases hkind : target.kind = .map
    · obtain ⟨entries, rfl⟩ := Value.exists_entries hkind
      obtain ⟨child, hchild, rfl⟩ := Option.map_eq_some_iff.mp hnext
      rw [write?, write?, childAt_insert_self, ih (List.prefix_append ..) hchild]
      simp only [Entries.insert_insert]
    · cases target with
      | map entries => exact absurd rfl hkind
      | _ => cases hnext

end Value

/-! ## Two overrides -/

/-- Two overrides under paths of which neither is a prefix of the other succeed in both orders or
    fail in both. If they succeed, the values differ in the order of map entries only. An override
    under a path that equals or extends that of a later one leaves no trace behind it. -/
theorem overrides_commute {o o' : Override} (ho : o.keys ≠ []) (ho' : o'.keys ≠ [])
    (target : Value) :
    (¬ o.keys <+: o'.keys → ¬ o'.keys <+: o.keys →
      ((Override.applyEach target [o, o']).2 = .ok () ↔
          (Override.applyEach target [o', o]).2 = .ok ()) ∧
        ((Override.applyEach target [o, o']).2 = .ok () →
          (Override.applyEach target [o, o']).1.Reordered
            (Override.applyEach target [o', o]).1)) ∧
      (o'.keys <+: o.keys → (Override.applyEach target [o, o']).2 = .ok () →
        o'.apply target = Override.applyEach target [o, o']) := by
  constructor
  · intro h h'
    have hrel : Option.Rel Value.Reordered
        ((o.value.write? o.keys target).bind (o'.value.write? o'.keys))
        ((o'.value.write? o'.keys target).bind (o.value.write? o.keys)) :=
      Value.write?_comm h h' target
    have hleft : ∀ after, Override.applyEach target [o, o'] = (after, .ok ()) ↔
        (o.value.write? o.keys target).bind (o'.value.write? o'.keys) = some after :=
      fun _ => Override.applyEach_pair_eq_ok_iff ho ho'
    have hright : ∀ after, Override.applyEach target [o', o] = (after, .ok ()) ↔
        (o'.value.write? o'.keys target).bind (o.value.write? o.keys) = some after :=
      fun _ => Override.applyEach_pair_eq_ok_iff ho' ho
    generalize (o.value.write? o.keys target).bind _ = left at hrel hleft
    generalize (o'.value.write? o'.keys target).bind _ = right at hrel hright
    -- both ways fail, or both succeed with reordered results
    cases hrel with
    | none =>
      have hfails : (Override.applyEach target [o, o']).2 ≠ .ok () :=
        fun hok => by cases (hleft _).mp (Prod.ext rfl hok)
      have hfails' : (Override.applyEach target [o', o]).2 ≠ .ok () :=
        fun hok => by cases (hright _).mp (Prod.ext rfl hok)
      exact ⟨iff_of_false hfails hfails', fun hok => absurd hok hfails⟩
    | some hreordered =>
      rw [(hleft _).mpr rfl, (hright _).mpr rfl]
      exact ⟨Iff.rfl, fun _ => hreordered⟩
  · intro hprefix hok
    obtain ⟨next, hnext, hafter⟩ := Option.bind_eq_some_iff.mp
      ((Override.applyEach_pair_eq_ok_iff ho ho').mp (Prod.ext rfl hok))
    -- what was written further down is written over
    rw [Value.write?_of_prefix hprefix hnext] at hafter
    rw [(Override.apply_eq_ok_iff ho').mpr hafter]
    exact Prod.ext rfl hok.symm

/-! ## Ports -/

/-- A port in a map that is made for it. -/
def udpPort : Override := ⟨["port", "udp", "from"], .int 53⟩

/-- A port beside that map. -/
def sctpPort : Override := ⟨["port", "sctp"], .int 9⟩

/-- A map without ports in the place of the one that there is. -/
def noPorts : Override := ⟨["port"], .map []⟩

/-- The new ports come in the order in which they are given, and none is left behind `noPorts`. -/
theorem overrides_commute_ports :
    (udpPort.keys ≠ [] ∧ sctpPort.keys ≠ [] ∧ noPorts.keys ≠ []) ∧
      (¬ udpPort.keys <+: sctpPort.keys ∧ ¬ sctpPort.keys <+: udpPort.keys) ∧
      (Value.map [(.text "name", .text "a"), (.text "port", .map [(.text "tcp", .int 80),
        (.text "udp", .map [(.text "from", .int 53)]), (.text "sctp", .int 9)])]).Reordered
          (.map [(.text "name", .text "a"), (.text "port", .map [(.text "tcp", .int 80),
            (.text "sctp", .int 9), (.text "udp", .map [(.text "from", .int 53)])])]) ∧
      noPorts.keys <+: udpPort.keys ∧
      Override.applyEach serverSettings [udpPort, noPorts] = noPorts.apply serverSettings := by
  have hudp : udpPort.keys ≠ [] := List.cons_ne_nil _ _
  have hsctp : sctpPort.keys ≠ [] := List.cons_ne_nil _ _
  have hnone : noPorts.keys ≠ [] := List.cons_ne_nil _ _
  have hapart : ¬ udpPort.keys <+: sctpPort.keys := by decide
  have hapart' : ¬ sctpPort.keys <+: udpPort.keys := by decide
  have hprefix : noPorts.keys <+: udpPort.keys := ⟨["udp", "from"], rfl⟩
  refine ⟨⟨hudp, hsctp, hnone⟩, ⟨hapart, hapart'⟩, ?_, hprefix, ?_⟩
  · exact ((overrides_commute hudp hsctp serverSettings).1 hapart hapart').2 rfl
  · exact ((overrides_commute hudp hnone serverSettings).2 hprefix rfl).symm

end Conform
