import Conform.Proofs.Text.Segments
import Conform.Symbol

/-!
# Where symbols lead

`Value.Walks` is a walk through members and fields and `Registry.Names` one that starts at a
registered namespace: the walks that `Registry.lookup` carries out. What `SymbolPath.resolve` gives
is named by a path that is allowed (`SymbolPath.reaches_of_resolve`), and it searches for nothing
else (`SymbolPath.lookup_of_resolve`). With a list of whole paths only these can be reached, each at
its own name.
-/

namespace Conform

/-! ## Walks -/

/-- A walk from namespaces to their members and from records to their fields. -/
inductive Value.Walks : Value → List String → Value → Prop
  | here (v : Value) : Walks v [] v
  | member {id : Nat} {name segment : String} {members : List (String × Value)}
      {next w : Value} {rest : List String} (found : Entries.find? segment members = some next)
      (walk : Walks next rest w) : Walks (.nspace id name members) (segment :: rest) w
  | field {name segment : String} {fields : List (String × Value)} {next w : Value}
      {rest : List String} (found : Entries.find? segment fields = some next)
      (walk : Walks next rest w) : Walks (.record name fields) (segment :: rest) w

/-- The namespace that is registered as the root leads to the value. -/
def Registry.Names (registry : Registry) (root : String) (members : List String) (w : Value) :
    Prop :=
  ∃ n, registry.get? root = some n ∧ n.toValue.Walks members w

namespace Value

/-- A walk starts with a member of the value. -/
theorem walks_cons_iff {v w : Value} {segment : String} {rest : List String} :
    v.Walks (segment :: rest) w ↔ ∃ next, v.member? segment = some next ∧ next.Walks rest w := by
  constructor
  · intro h
    cases h with
    | member found walk => exact ⟨_, found, walk⟩
    | field found walk => exact ⟨_, found, walk⟩
  · rintro ⟨next, hnext, hwalk⟩
    -- nothing but namespaces and records has members
    cases v with
    | nspace id name members => exact .member hnext hwalk
    | record name fields => exact .field hnext hwalk
    | _ => cases hnext

/-- The walk that is computed is the one that is described. -/
theorem walk_eq_ok_iff {owner : String} {v w : Value} {members : List String} :
    v.walk owner members = .ok w ↔ v.Walks members w := by
  induction members generalizing owner v with
  | nil =>
    rw [walk, Except.ok.injEq]
    constructor
    · rintro rfl; exact .here v
    · intro h; cases h; rfl
  | cons segment rest ih =>
    rw [walks_cons_iff, walk]
    -- a segment is a member, or the walk ends there
    cases hnext : v.member? segment with
    | none => simp
    | some next => simpa using ih

end Value

/-- A lookup gives the value that the path names. -/
theorem Registry.lookup_eq_ok_iff {registry : Registry} {root : String} {members : List String}
    {w : Value} : registry.lookup root members = .ok w ↔ registry.Names root members w := by
  rw [lookup, Names]
  cases registry.get? root with
  | none => simp
  | some n => simpa using Value.walk_eq_ok_iff

/-! ## Resolving a path -/

namespace SymbolPath

variable {spec : SymbolPath} {registry : Registry} {dotted : String} {w : Value}

/-- Of the listed roots this is the first below which the path is allowed and found. -/
def FirstBelow (spec : SymbolPath) (registry : Registry) (root : String) (segments : List String) :
    Prop :=
  ∃ before after, spec.roots = .only (before ++ root :: after) ∧
    ∀ other ∈ before, ∀ w, ¬ (spec.admits other segments = true ∧ registry.Names other segments w)

/-- A dotted path reaches a value: it has no empty segment, and either it starts at an admitted root
    and is allowed, or it starts at a name that is neither admitted nor registered, and is allowed
    below a listed root, the first below which it is found. -/
inductive Reaches (spec : SymbolPath) (registry : Registry) (dotted : String) (w : Value) : Prop
  | absolute {root : String} {members : List String}
      (segments : Text.splitOn '.' dotted = root :: members)
      (nonempty : ∀ segment ∈ Text.splitOn '.' dotted, segment ≠ "")
      (admittedRoot : spec.roots.admits root = true) (admitted : spec.admits root members = true)
      (named : registry.Names root members w)
  | below {root : String}
      (nonempty : ∀ segment ∈ Text.splitOn '.' dotted, segment ≠ "")
      (foreign : spec.roots.admits (leading dotted) = false)
      (unregistered : registry.get? (leading dotted) = none)
      (first : spec.FirstBelow registry root (Text.splitOn '.' dotted))
      (admitted : spec.admits root (Text.splitOn '.' dotted) = true)
      (named : registry.Names root (Text.splitOn '.' dotted) w)

/-- A name that is resolved below a root is resolved below the first that has it. -/
theorem firstBelow_of_resolveBelow {segments : List String}
    (h : spec.resolveBelow registry segments = some w) :
    ∃ root, spec.FirstBelow registry root segments ∧ spec.admits root segments = true ∧
      registry.Names root segments w := by
  rw [resolveBelow] at h
  cases hroots : spec.roots with
  | any => rw [hroots] at h; cases h
  | only roots =>
    rw [hroots] at h
    obtain ⟨passed, root, later, hfilter, hroot, hpassed⟩ := List.findSome?_eq_some_iff.mp h
    -- the admitted roots before this one, and the others between them
    obtain ⟨before, rest, rfl, hbefore, hrest⟩ := List.filter_eq_append_iff.mp hfilter
    obtain ⟨between, after, rfl, hbetween, hadmitted, -⟩ := List.filter_eq_cons_iff.mp hrest
    have hnamed : registry.Names root segments w := by
      rw [← Registry.lookup_eq_ok_iff]
      cases hlookup : registry.lookup root segments with
      | error e => rw [hlookup] at hroot; cases hroot
      | ok x => rw [hlookup] at hroot; cases hroot; rfl
    refine ⟨root, ⟨before ++ between, after, ?_, ?_⟩, hadmitted, hnamed⟩
    · rw [hroots, List.append_assoc]
    · rintro other hother x ⟨hadmits, hnames⟩
      -- a root before the first was tried in vain, and one in between is not admitted
      rcases List.mem_append.mp hother with hother | hother
      · have hnone := hpassed other (hbefore ▸ List.mem_filter.mpr ⟨hother, hadmits⟩)
        rw [Registry.lookup_eq_ok_iff.mpr hnames] at hnone
        cases hnone
      · exact hbetween other hother hadmits

/-- What a path is resolved to it reaches. -/
theorem reaches_of_resolve (h : spec.resolve registry dotted = .ok w) :
    spec.Reaches registry dotted w := by
  rw [resolve] at h
  cases hsegments : Text.splitOn '.' dotted with
  | nil => rw [hsegments] at h; cases h
  | cons root rest =>
    rw [hsegments] at h
    simp only at h
    -- Resolution tests in this order: empty segments, the root as it stands, whether it is
    -- registered, and the listed roots.
    have hleading : leading dotted = root := by rw [leading, hsegments]; rfl
    split at h
    · cases h
    next hempty =>
      have hnonempty : ∀ segment ∈ Text.splitOn '.' dotted, segment ≠ "" := by
        rw [hsegments]
        rintro segment hmem rfl
        exact hempty (List.any_eq_true.mpr ⟨"", hmem, rfl⟩)
      split at h
      next hroot =>
        split at h
        next hadmits =>
          cases hlookup : registry.lookup root rest with
          | error e => rw [hlookup] at h; cases h
          | ok x =>
            rw [hlookup] at h
            cases h
            exact .absolute hsegments hnonempty hroot hadmits (Registry.lookup_eq_ok_iff.mp hlookup)
        next => cases h
      next hroot =>
        split at h
        · cases h
        next hregistered =>
          cases hbelow : spec.resolveBelow registry (root :: rest) with
          | none => rw [hbelow] at h; cases h
          | some x =>
            rw [hbelow] at h
            cases h
            rw [← hsegments] at hbelow
            obtain ⟨below, hfirst, hadmits, hnames⟩ := firstBelow_of_resolveBelow hbelow
            refine .below hnonempty ?_ ?_ hfirst hadmits hnames
            · rw [hleading]; exact Bool.eq_false_iff.mpr hroot
            · rw [hleading]; exact Option.not_isSome_iff_eq_none.mp hregistered

/-- A path names something in the registry. -/
theorem exists_names_of_resolve (h : spec.resolve registry dotted = .ok w) :
    ∃ root members, registry.Names root members w := by
  cases reaches_of_resolve h with
  | absolute _ _ _ _ named => exact ⟨_, _, named⟩
  | below _ _ _ _ _ named => exact ⟨_, _, named⟩

/-- A path that starts at an admitted root and is allowed is looked up. -/
theorem resolve_of_admits {root : String} {members : List String}
    (hsegments : Text.splitOn '.' dotted = root :: members)
    (hnonempty : ∀ segment ∈ Text.splitOn '.' dotted, segment ≠ "")
    (hroot : spec.roots.admits root = true) (hadmits : spec.admits root members = true) :
    spec.resolve registry dotted = (registry.lookup root members).mapError .lookup := by
  -- no segment is empty, which is what is tested first
  have hempty : ¬ (root :: members).any String.isEmpty = true := by
    rw [List.any_eq_true]
    rintro ⟨segment, hmem, hsegment⟩
    rw [← hsegments] at hmem
    exact hnonempty segment hmem (String.isEmpty_iff.mp hsegment)
  rw [resolve, hsegments]
  simp only [if_neg hempty, hroot, hadmits, if_true]

/-- Only a path that starts at an admitted root and is allowed can lead nowhere. -/
theorem lookup_of_resolve {e : LookupError}
    (h : spec.resolve registry dotted = .error (.lookup e)) :
    ∃ root members, Text.splitOn '.' dotted = root :: members ∧
      (∀ segment ∈ Text.splitOn '.' dotted, segment ≠ "") ∧ spec.roots.admits root = true ∧
      spec.admits root members = true ∧ registry.lookup root members = .error e := by
  rw [resolve] at h
  cases hsegments : Text.splitOn '.' dotted with
  | nil => rw [hsegments] at h; cases h
  | cons root rest =>
    rw [hsegments] at h
    simp only at h
    split at h
    · cases h
    -- only a lookup under an admitted root has an error of its own
    next hempty =>
      split at h
      next hroot =>
        split at h
        next hadmits =>
          refine ⟨root, rest, rfl, ?_, hroot, hadmits, ?_⟩
          · rintro segment hmem rfl
            exact hempty (List.any_eq_true.mpr ⟨"", hmem, rfl⟩)
          · cases hlookup : registry.lookup root rest with
            | ok x => rw [hlookup] at h; cases h
            | error e' => rw [hlookup] at h; cases h; rfl
        next => cases h
      next =>
        split at h
        · cases h
        · split at h <;> cases h

/-! ## Lists of whole paths -/

/-- Collecting leading segments adds exactly those, each of them once. -/
private theorem mem_insertRoots (paths : List String) (name : String) (known : List String) :
    name ∈ paths.foldl (fun roots path =>
        if roots.contains (leading path) then roots else roots ++ [leading path]) known ↔
      name ∈ known ∨ name ∈ paths.map leading := by
  induction paths generalizing known with
  | nil => simp
  | cons path rest ih =>
    rw [List.foldl_cons, ih, List.map_cons, List.mem_cons]
    split
    -- a leading segment that is known is not added again
    next hknown =>
      have hmem : leading path ∈ known := List.contains_iff_mem.mp hknown
      constructor
      · exact fun h => h.imp_right .inr
      · rintro (h | rfl | h)
        · exact .inl h
        · exact .inl hmem
        · exact .inr h
    next => rw [List.mem_append, List.mem_singleton, or_assoc]

/-- The roots of a list of paths are their first segments. -/
theorem admits_roots_onlyPaths {paths : List String} {name : String} :
    (onlyPaths paths).roots.admits name = true ↔ ∃ path ∈ paths, leading path = name := by
  have hroots := mem_insertRoots paths name []
  rw [or_iff_right List.not_mem_nil, List.mem_map] at hroots
  exact List.contains_iff_mem.trans hroots

/-- The leading segment is a segment. -/
theorem leading_mem (dotted : String) : leading dotted ∈ Text.splitOn '.' dotted := by
  rw [leading]
  cases h : Text.splitOn '.' dotted with
  | nil => exact absurd h (Text.splitOn_ne_nil _ _)
  | cons root rest => exact List.mem_cons_self

/-- Members with nonempty names are joined to a nonempty name. -/
private theorem join_isEmpty {members : List String} (h : ∀ segment ∈ members, segment ≠ "") :
    (Text.join "." members).isEmpty = members.isEmpty := by
  cases members with
  | nil => rfl
  | cons member rest =>
    have hmember : member ≠ "" := h member List.mem_cons_self
    -- a member in front is not empty, with or without others behind it
    have hjoin : Text.join "." (member :: rest) ≠ "" := by
      cases rest with
      | nil => exact hmember
      | cons next rest => simp [Text.join, hmember]
    rw [List.isEmpty_cons, Bool.eq_false_iff]
    exact fun hempty => hjoin (String.isEmpty_iff.mp hempty)

/-- A list of paths allows what joins to one of them. -/
theorem admits_onlyPaths_iff {paths : List String} {root : String} {members : List String}
    (h : ∀ segment ∈ members, segment ≠ "") :
    (onlyPaths paths).admits root members = true ↔ Text.join "." (root :: members) ∈ paths := by
  have hjoin : (if (Text.join "." members).isEmpty = true then root
      else root ++ "." ++ Text.join "." members) = Text.join "." (root :: members) := by
    rw [join_isEmpty h]
    cases members <;> rfl
  show ((true && paths.contains _) = true) ↔ _
  rw [Bool.true_and, hjoin, List.contains_iff_mem]

/-- Only the listed paths lead anywhere. -/
theorem mem_onlyPaths_of_reaches {paths : List String}
    (h : (onlyPaths paths).Reaches registry dotted w) :
    ∃ path ∈ paths, ∃ root members, Text.splitOn '.' path = root :: members ∧
      registry.Names root members w := by
  cases h with
  | @absolute root members hsegments hnonempty hroot hadmits hnamed =>
    have hmembers : ∀ segment ∈ members, segment ≠ "" := fun segment hmem =>
      hnonempty segment (hsegments ▸ List.mem_cons_of_mem root hmem)
    -- the text is itself one of the listed paths
    have hpath := (admits_onlyPaths_iff hmembers).mp hadmits
    rw [← hsegments] at hpath
    have hjoin : Text.join "." (Text.splitOn '.' dotted) = dotted := Text.join_splitOn '.' dotted
    rw [hjoin] at hpath
    exact ⟨dotted, hpath, root, members, hsegments, hnamed⟩
  | @below root hnonempty _ _ hfirst hadmits hnamed =>
    obtain ⟨before, after, hroots, -⟩ := hfirst
    -- the root is the first segment of a listed path, and so free of dots
    have hlisted : (onlyPaths paths).roots.admits root = true := by
      rw [hroots]
      exact List.contains_iff_mem.mpr (List.mem_append_right before List.mem_cons_self)
    obtain ⟨path, -, rfl⟩ := admits_roots_onlyPaths.mp hlisted
    have hpieces : ∀ piece ∈ leading path :: Text.splitOn '.' dotted, '.' ∉ piece.toList := by
      intro piece hpiece
      rcases List.mem_cons.mp hpiece with rfl | hpiece
      · exact Text.not_mem_of_mem_splitOn (leading_mem path)
      · exact Text.not_mem_of_mem_splitOn hpiece
    exact ⟨_, (admits_onlyPaths_iff hnonempty).mp hadmits, _, _,
      Text.splitOn_join (List.cons_ne_nil _ _) hpieces, hnamed⟩

/-- A listed path without empty segments is looked up. -/
theorem resolve_onlyPaths {paths : List String} (hlisted : dotted ∈ paths) {root : String}
    {members : List String} (hsegments : Text.splitOn '.' dotted = root :: members)
    (hnonempty : ∀ segment ∈ Text.splitOn '.' dotted, segment ≠ "") :
    (onlyPaths paths).resolve registry dotted =
      (registry.lookup root members).mapError .lookup := by
  have hmembers : ∀ segment ∈ members, segment ≠ "" := fun segment hmem =>
    hnonempty segment (hsegments ▸ List.mem_cons_of_mem root hmem)
  refine resolve_of_admits hsegments hnonempty ?_ ?_
  · refine admits_roots_onlyPaths.mpr ⟨dotted, hlisted, ?_⟩
    rw [leading, hsegments]
    rfl
  -- the segments joined again are the listed path
  · have hjoin : Text.join "." (Text.splitOn '.' dotted) = dotted := Text.join_splitOn '.' dotted
    rwa [admits_onlyPaths_iff hmembers, ← hsegments, hjoin]

end SymbolPath

end Conform
