import Conform.Proofs.Cast.Visibility

/-!
# How far a path leads

A walk along a path goes through the values that its prefixes lead to (`Value.walks_append_iff`),
and the text of the prefix that has been walked goes with the value (`Value.walk_append`). So where
a walk stops, the text is that of the longest prefix that resolves, and the next segment is the one
that is missing (`Registry.lookup_eq_missing`). Main statement:
`failed_lookup_names_longest_prefix`.
-/

namespace Conform

namespace Value

variable {v u w : Value} {front back members : List String} {owner : String}

/-! ## Walks along prefixes -/

/-- A walk goes through the value that any prefix of the path leads to. -/
theorem walks_append_iff :
    v.Walks (front ++ back) w ↔ ∃ u, v.Walks front u ∧ u.Walks back w := by
  -- on the first part, through the value that it leads to
  induction front generalizing v with
  | nil =>
    constructor
    · exact fun h => ⟨v, .here v, h⟩
    · rintro ⟨u, hfront, hback⟩
      cases hfront
      exact hback
  | cons segment rest ih =>
    simp only [List.cons_append, walks_cons_iff, ih]
    constructor
    · rintro ⟨next, hnext, u, hrest, hback⟩
      exact ⟨u, ⟨next, hnext, hrest⟩, hback⟩
    · rintro ⟨u, ⟨next, hnext, hrest⟩, hback⟩
      exact ⟨next, hnext, u, hrest, hback⟩

/-- A path leads to one value. -/
theorem Walks.unique (hu : v.Walks members u) (hw : v.Walks members w) : u = w := by
  induction members generalizing v with
  | nil => cases hu; cases hw; rfl
  | cons segment rest ih =>
    obtain ⟨next, hnext, hu⟩ := walks_cons_iff.mp hu
    obtain ⟨next', hnext', hw⟩ := walks_cons_iff.mp hw
    rw [hnext, Option.some.injEq] at hnext'
    subst hnext'
    exact ih hu hw

/-- A member that stands for two segments is written as the two. -/
private theorem join_cons_append (sep owner segment : String) (rest : List String) :
    Text.join sep ((owner ++ sep ++ segment) :: rest) =
      Text.join sep (owner :: segment :: rest) := by
  cases rest with
  | nil => rfl
  | cons next rest => simp only [Text.join, String.append_assoc]

/-- On the way the text of the path that has been walked goes along with the value reached. -/
theorem walk_append (h : v.Walks front u) (owner : String) (back : List String) :
    v.walk owner (front ++ back) = u.walk (Text.join "." (owner :: front)) back := by
  induction front generalizing v owner with
  | nil => cases h; rfl
  | cons segment rest ih =>
    obtain ⟨next, hnext, hrest⟩ := walks_cons_iff.mp h
    rw [List.cons_append, walk, hnext, ← join_cons_append]
    exact ih hrest _

/-- A walk that does not come to its end stops at a value without the next member. -/
theorem exists_stop (h : ¬ ∃ w, v.Walks members w) : ∃ front segment back u,
    members = front ++ segment :: back ∧ v.Walks front u ∧ u.member? segment = .none := by
  induction members generalizing v with
  | nil => exact absurd ⟨v, .here v⟩ h
  | cons segment rest ih =>
    cases hnext : v.member? segment with
    | none => exact ⟨[], segment, rest, v, rfl, .here v, hnext⟩
    | some next =>
      -- the member is there, so that the walk is stuck behind it
      have hstuck : ¬ ∃ w, next.Walks rest w := fun ⟨w, hw⟩ =>
        h ⟨w, walks_cons_iff.mpr ⟨next, hnext, hw⟩⟩
      obtain ⟨front, missing, back, u, rfl, hfront, hu⟩ := ih hstuck
      exact ⟨segment :: front, missing, back, u, rfl, walks_cons_iff.mpr ⟨next, hnext, hfront⟩, hu⟩

end Value

/-! ## Prefixes that resolve -/

namespace Registry

variable {registry : Registry} {root segment : String} {front back members : List String}
  {u w : Value}

/-- The root is registered, and each segment names a member or a field of the value reached. -/
def Resolves (registry : Registry) (root : String) (members : List String) : Prop :=
  ∃ w, registry.Names root members w

/-- A longer path goes on from the value that a shorter one names. -/
theorem names_append_iff : registry.Names root (front ++ back) w ↔
    ∃ u, registry.Names root front u ∧ u.Walks back w := by
  simp only [Names, Value.walks_append_iff]
  constructor
  · rintro ⟨n, hn, u, hfront, hback⟩
    exact ⟨u, ⟨n, hn, hfront⟩, hback⟩
  · rintro ⟨u, ⟨n, hn, hfront⟩, hback⟩
    exact ⟨n, hn, u, hfront, hback⟩

/-- A path names one value. -/
theorem Names.unique (hu : registry.Names root members u) (hw : registry.Names root members w) :
    u = w := by
  obtain ⟨n, hn, hu⟩ := hu
  obtain ⟨n', hn', hw⟩ := hw
  rw [hn, Option.some.injEq] at hn'
  subst hn'
  exact hu.unique hw

/-- With a path its prefixes resolve. -/
theorem Resolves.of_append (h : registry.Resolves root (front ++ back)) :
    registry.Resolves root front := by
  obtain ⟨w, hw⟩ := h
  obtain ⟨u, hu, -⟩ := names_append_iff.mp hw
  exact ⟨u, hu⟩

/-- A path resolves when each of its prefixes does. -/
theorem resolves_iff_forall_take : registry.Resolves root members ↔
    ∀ i ≤ members.length, registry.Resolves root (members.take i) := by
  constructor
  · intro h i _
    rw [← List.take_append_drop i members] at h
    exact h.of_append
  · intro h
    have hall := h members.length (Nat.le_refl _)
    rwa [List.take_length] at hall

/-- Where the path stops resolving, exactly the prefixes up to there resolve. -/
theorem resolves_take_iff (hfront : registry.Resolves root front)
    (hstop : ¬ registry.Resolves root (front ++ [segment])) {i : Nat}
    (hi : i ≤ (front ++ segment :: back).length) :
    registry.Resolves root ((front ++ segment :: back).take i) ↔ i ≤ front.length := by
  constructor
  · intro h
    by_contra hlonger
    -- a longer prefix contains the segment that is missing
    obtain ⟨k, rfl⟩ : ∃ k, i = (front ++ [segment]).length + k := by
      refine ⟨i - (front.length + 1), ?_⟩
      rw [List.length_append, List.length_singleton]
      omega
    have hsplit : front ++ segment :: back = (front ++ [segment]) ++ back := by simp
    rw [hsplit, List.take_length_add_append] at h
    exact hstop h.of_append
  · intro h
    rw [List.take_append_of_le_length h]
    exact resolves_iff_forall_take.mp hfront i h

/-- A path below a registered root that does not resolve is reported by its longest prefix that does
    and the segment behind it. -/
theorem lookup_eq_missing {n : Namespace} (hn : registry.get? root = some n)
    (h : ¬ registry.Resolves root members) : ∃ front segment back,
      members = front ++ segment :: back ∧ registry.Resolves root front ∧
      ¬ registry.Resolves root (front ++ [segment]) ∧
      registry.lookup root members =
        .error (.missingMember (Text.join "." (root :: front)) segment) := by
  have hstuck : ¬ ∃ w, n.toValue.Walks members w := fun ⟨w, hw⟩ => h ⟨w, n, hn, hw⟩
  -- the walk gets as far as some member, which has not got the next segment
  obtain ⟨front, segment, back, u, rfl, hfront, hmissing⟩ := Value.exists_stop hstuck
  have hnames : registry.Names root front u := ⟨n, hn, hfront⟩
  refine ⟨front, segment, back, rfl, ⟨u, hnames⟩, ?_, ?_⟩
  · rintro ⟨w, hw⟩
    obtain ⟨u', hu', hnext⟩ := names_append_iff.mp hw
    obtain ⟨next, hmember, -⟩ := Value.walks_cons_iff.mp hnext
    rw [← hnames.unique hu', hmissing] at hmember
    cases hmember
  · rw [lookup, hn]
    show n.toValue.walk root _ = _
    rw [Value.walk_append hfront, Value.walk, hmissing]

end Registry

variable {registry : Registry} {spec : SymbolPath} {dotted root : String} {members : List String}

/-- If no converter stands in for it, a path that is allowed is looked up. -/
private theorem cast_symbol_eq_lookup (id : Nat)
    (hsegments : Text.splitOn '.' dotted = root :: members)
    (hnonempty : ∀ segment ∈ Text.splitOn '.' dotted, segment ≠ "")
    (hroot : spec.roots.admits root = true) (hadmits : spec.admits root members = true)
    {ctx : Context} (hregistry : ctx.registry = registry) (hconverter : ctx.converter? id = none)
    (hlimit : 0 < ctx.config.limits.maxDescriptorDepth) :
    cast ctx (.node id (.symbolPath spec)) (.text dotted) =
      .ofExcept ((registry.lookup root members).mapError .lookup) := by
  subst hregistry
  exact cast_symbol_of_resolve hconverter hlimit
    (SymbolPath.resolve_of_admits hsegments hnonempty hroot hadmits)

/-- The value that is found is the one that is returned. -/
private theorem ofExcept_mapError_eq_pure_iff {found : Except LookupError Value} {w : Value} :
    Program.ofExcept (found.mapError .lookup) = pure w ↔ found = .ok w := by
  constructor
  · intro h
    cases found with
    | ok x => cases h; rfl
    | error e => cases h
  · rintro rfl
    rfl

/-- An allowed path of a registered root and members is cast to the value that it names, and the
    cast succeeds exactly if all prefixes of the path resolve. If the root is not registered, it is
    the root that the failure names. Otherwise the failure names the longest prefix that resolves,
    and the segment behind it. A longer prefix resolves by way of the values that the shorter ones
    name. Settings and converters do not matter, as long as the rule of the type is applied. -/
theorem failed_lookup_names_longest_prefix (registry : Registry) (id : Nat) (spec : SymbolPath)
    {dotted root : String} {members : List String}
    (hsegments : Text.splitOn '.' dotted = root :: members)
    (hnonempty : ∀ segment ∈ Text.splitOn '.' dotted, segment ≠ "")
    (hroot : spec.roots.admits root = true) (hadmits : spec.admits root members = true) :
    (∀ w, cast (Context.withRegistry registry {}) (.node id (.symbolPath spec)) (.text dotted) =
        pure w ↔ registry.Names root members w) ∧
    ((∃ w, cast (Context.withRegistry registry {}) (.node id (.symbolPath spec)) (.text dotted) =
        pure w) ↔ ∀ i ≤ members.length, registry.Resolves root (members.take i)) ∧
    (registry.get? root = none →
      cast (Context.withRegistry registry {}) (.node id (.symbolPath spec)) (.text dotted) =
        .throw (.lookup (.unknownRoot root))) ∧
    (registry.get? root ≠ none →
      (∃ i ≤ members.length, ¬ registry.Resolves root (members.take i)) →
      ∃ front segment back, members = front ++ segment :: back ∧
        (∀ i ≤ members.length, registry.Resolves root (members.take i) ↔ i ≤ front.length) ∧
        cast (Context.withRegistry registry {}) (.node id (.symbolPath spec)) (.text dotted) =
          .throw (.lookup (.missingMember (Text.join "." (root :: front)) segment))) ∧
    (∀ i j w, i ≤ j → registry.Names root (members.take j) w →
      ∃! u, registry.Names root (members.take i) u ∧ u.Walks ((members.take j).drop i) w) ∧
    ∀ ctx : Context, ctx.registry = registry → ctx.converter? id = none →
      0 < ctx.config.limits.maxDescriptorDepth →
      cast ctx (.node id (.symbolPath spec)) (.text dotted) =
        cast (Context.withRegistry registry {}) (.node id (.symbolPath spec)) (.text dotted) := by
  -- the symbol allows the path, so that its cast is a lookup in the registry
  have hcast : cast (Context.withRegistry registry {}) (.node id (.symbolPath spec))
      (.text dotted) = .ofExcept ((registry.lookup root members).mapError .lookup) :=
    cast_symbol_eq_lookup id hsegments hnonempty hroot hadmits rfl rfl (Nat.zero_lt_succ _)
  have hpure (w : Value) : cast (Context.withRegistry registry {}) (.node id (.symbolPath spec))
      (.text dotted) = pure w ↔ registry.Names root members w := by
    rw [hcast, ofExcept_mapError_eq_pure_iff, Registry.lookup_eq_ok_iff]
  refine ⟨hpure, ?_, fun hn => ?_, fun hn hunresolved => ?_, fun i j w hij hw => ?_,
    fun ctx hregistry hconverter hlimit => ?_⟩
  · rw [← Registry.resolves_iff_forall_take]
    exact exists_congr hpure
  · rw [hcast, Registry.lookup, hn]
    rfl
  · obtain ⟨n, hn⟩ := Option.ne_none_iff_exists'.mp hn
    -- a prefix that does not resolve leaves the whole path unresolved
    have hstuck : ¬ registry.Resolves root members := fun h => by
      obtain ⟨i, hi, hprefix⟩ := hunresolved
      exact hprefix (Registry.resolves_iff_forall_take.mp h i hi)
    obtain ⟨front, segment, back, rfl, hfront, hstop, hlookup⟩ :=
      Registry.lookup_eq_missing hn hstuck
    refine ⟨front, segment, back, rfl, fun i hi => Registry.resolves_take_iff hfront hstop hi, ?_⟩
    rw [hcast, hlookup]
    rfl
  -- the longer prefix is the shorter one and what comes after it
  · have hsplit : members.take j = members.take i ++ (members.take j).drop i := by
      conv_lhs => rw [← List.take_append_drop i (members.take j), List.take_take,
        Nat.min_eq_left hij]
    rw [hsplit] at hw
    -- a walk along a longer path goes through what the shorter one names
    obtain ⟨u, hu, hwalk⟩ := Registry.names_append_iff.mp hw
    exact ⟨u, ⟨hu, hwalk⟩, fun u' hu' => hu'.1.unique hu⟩
  · rw [cast_symbol_eq_lookup id hsegments hnonempty hroot hadmits hregistry hconverter hlimit,
      hcast]

/-! ## Below a number -/

/-- A number has no members, so that the path to it is the longest prefix that resolves. -/
theorem failed_lookup_names_longest_prefix_tcp :
    Text.splitOn '.' "app.settings.port.tcp" = ["app", "settings", "port", "tcp"] ∧
      (∀ segment ∈ Text.splitOn '.' "app.settings.port.tcp", segment ≠ "") ∧
      belowTwoRoots.roots.admits "app" = true ∧
      belowTwoRoots.admits "app" ["settings", "port", "tcp"] = true ∧
      settingsContext.registry.get? "app" ≠ none ∧
      ∃ front segment back, ["settings", "port", "tcp"] = front ++ segment :: back ∧
        (∀ i ≤ 3, settingsContext.registry.Resolves "app" (["settings", "port", "tcp"].take i) ↔
          i ≤ front.length) ∧
        cast (Context.withRegistry settingsContext.registry {})
            (.node 0 (.symbolPath belowTwoRoots)) (.text "app.settings.port.tcp") =
          .throw (.lookup (.missingMember (Text.join "." ("app" :: front)) segment)) := by
  have hsegments : Text.splitOn '.' "app.settings.port.tcp" = ["app", "settings", "port", "tcp"] :=
    rfl
  have hnonempty : ∀ segment ∈ Text.splitOn '.' "app.settings.port.tcp", segment ≠ "" := by
    rw [hsegments]
    decide
  have hregistered : settingsContext.registry.get? "app" ≠ none := nofun
  -- the port is a number, which has no members
  have hstuck : ¬ settingsContext.registry.Resolves "app" ["settings", "port", "tcp"] := by
    rintro ⟨w, hw⟩
    have hlookup := Registry.lookup_eq_ok_iff.mpr hw
    cases hlookup
  have h := failed_lookup_names_longest_prefix settingsContext.registry 0 belowTwoRoots hsegments
    hnonempty rfl rfl
  exact ⟨hsegments, hnonempty, rfl, rfl, hregistered,
    h.2.2.2.1 hregistered ⟨3, Nat.le_refl 3, hstuck⟩⟩

end Conform
