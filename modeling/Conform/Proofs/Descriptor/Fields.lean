import Conform.Descriptor.Builder
import Mathlib.Data.List.Induction
import Mathlib.Data.String.Basic

/-!
# Declared fields

A sequence of declarations leaves each declared name in the place of its first declaration, with its
last declaration (`Field.declareAll_eq_lastDeclarations`). The builders of records and partial
records leave the fields that were declared in this way (`RecordBuilder.buildAll_eq`,
`PartialRecordBuilder.foldl_perform_eq`).
-/

namespace Conform

/-! ## Names in ascending order -/

/-- Inserting a name adds it and removes none. -/
theorem mem_insertName {name other : String} {names : List String} :
    name ∈ insertName other names ↔ name = other ∨ name ∈ names := by
  induction names with
  | nil => simp [insertName]
  | cons first rest ih =>
    rw [insertName]
    split
    · exact List.mem_cons
    split
    next heq => rw [heq]; simp
    next => rw [List.mem_cons, ih, List.mem_cons, or_left_comm]

/-- A name is among the sorted names exactly if it is among the names. -/
theorem mem_sortNames {name : String} {names : List String} :
    name ∈ sortNames names ↔ name ∈ names := by
  -- with the names that have been sorted in before
  suffices ∀ sorted, name ∈ names.foldl (fun sorted name => insertName name sorted) sorted ↔
      name ∈ sorted ∨ name ∈ names from
    (this []).trans (or_iff_right List.not_mem_nil)
  induction names with
  | nil => exact fun sorted => (or_iff_left List.not_mem_nil).symm
  | cons first rest ih =>
    intro sorted
    rw [List.foldl_cons, ih, mem_insertName, List.mem_cons, or_comm (a := name = first), or_assoc]

/-- Inserting a name keeps the names in order. -/
theorem insertName_ascending {name : String} {names : List String} (h : names.Pairwise (· < ·)) :
    (insertName name names).Pairwise (· < ·) := by
  induction names with
  | nil => exact List.pairwise_singleton _ _
  | cons first rest ih =>
    have ⟨hfirst, hrest⟩ := List.pairwise_cons.mp h
    rw [insertName]
    split
    -- the name comes before all others, or somewhere behind the first
    next hlt =>
      refine List.pairwise_cons.mpr ⟨List.forall_mem_cons.mpr ⟨hlt, fun other hother => ?_⟩, h⟩
      exact lt_trans hlt (hfirst other hother)
    next hnot =>
      split
      next => exact h
      next hne =>
        have hgreater : first < name := lt_of_le_of_ne (not_lt.mp hnot) (Ne.symm hne)
        refine List.pairwise_cons.mpr ⟨fun other hother => ?_, ih hrest⟩
        obtain rfl | hmem := mem_insertName.mp hother
        · exact hgreater
        · exact hfirst other hmem

/-- Sorted names ascend strictly, so that each is there once. -/
theorem sortNames_ascending (names : List String) : (sortNames names).Pairwise (· < ·) := by
  suffices ∀ sorted : List String, sorted.Pairwise (· < ·) →
      (names.foldl (fun sorted name => insertName name sorted) sorted).Pairwise (· < ·) from
    this [] .nil
  induction names with
  | nil => exact fun sorted h => h
  | cons first rest ih => exact fun sorted h => ih _ (insertName_ascending h)

/-- The required names are those of the fields without a default. -/
theorem Field.mem_requiredNames_iff {δ : Type} {name : String} {fields : List (Field δ)} :
    name ∈ requiredNames fields ↔ ∃ f ∈ fields, f.name = name ∧ f.default? = none := by
  simp only [requiredNames, mem_sortNames, List.mem_map, List.mem_filter, Option.isNone_iff_eq_none]
  exact exists_congr fun f => and_assoc.trans (and_congr_right fun _ => and_comm)

/-- A declaration without a default makes its name required. -/
theorem Field.mem_requiredNames {δ : Type} {f : Field δ} {fields : List (Field δ)} (hf : f ∈ fields)
    (hdefault : f.default? = none) : f.name ∈ requiredNames fields :=
  mem_requiredNames_iff.mpr ⟨f, hf, rfl, hdefault⟩

/-! ## Declaring fields -/

/-- A new field goes to the end. -/
theorem Field.declare_of_not_mem {δ : Type} {f : Field δ} {fields : List (Field δ)}
    (h : f.name ∉ fields.map Field.name) : f.declare fields = fields ++ [f] := by
  induction fields with
  | nil => rfl
  | cons g rest ih =>
    rw [List.map_cons, List.mem_cons, not_or] at h
    have hne : (g.name == f.name) = false := beq_false_of_ne (Ne.symm h.1)
    rw [declare, hne, ih h.2]
    rfl

/-- Fields with distinct names are all declared, in their order. -/
theorem Field.declareAll_of_nodup {δ : Type} {fields : List (Field δ)}
    (h : (fields.map Field.name).Nodup) : declareAll fields = fields := by
  -- with the fields that have been declared before
  suffices ∀ declared : List (Field δ), ((declared ++ fields).map Field.name).Nodup →
      fields.foldl (fun declared f => f.declare declared) declared = declared ++ fields from
    this [] h
  clear h
  induction fields with
  | nil => exact fun declared _ => (List.append_nil declared).symm
  | cons f rest ih =>
    intro declared h
    have hf : f.name ∉ declared.map Field.name := by
      rw [List.map_append, List.map_cons] at h
      exact fun hmem => (List.nodup_append.mp h).2.2 _ hmem _ List.mem_cons_self rfl
    rw [List.foldl_cons, declare_of_not_mem hf, ih _ (by rwa [List.append_assoc]),
      List.append_assoc, List.singleton_append]

/-- A declaration adds its field and nothing else. -/
theorem Field.mem_of_mem_declare {δ : Type} {f g : Field δ} {fields : List (Field δ)}
    (h : f ∈ g.declare fields) : f = g ∨ f ∈ fields := by
  induction fields with
  | nil => exact .inl (List.mem_singleton.mp h)
  | cons first rest ih =>
    rw [declare] at h
    split at h
    · exact (List.mem_cons.mp h).imp_right (List.mem_cons_of_mem first)
    · cases List.mem_cons.mp h with
      | inl h => exact .inr (List.mem_cons.mpr (.inl h))
      | inr h => exact (ih h).imp_right (List.mem_cons_of_mem first)

/-- Only fields that are declared are left. -/
theorem Field.mem_of_mem_declareAll {δ : Type} {f : Field δ} {fields : List (Field δ)}
    (h : f ∈ declareAll fields) : f ∈ fields := by
  -- with the fields that have been declared before
  suffices ∀ declared : List (Field δ),
      f ∈ fields.foldl (fun declared f => f.declare declared) declared →
        f ∈ declared ∨ f ∈ fields from
    (this [] h).resolve_left List.not_mem_nil
  clear h
  induction fields with
  | nil => exact fun declared h => .inl h
  | cons g rest ih =>
    intro declared h
    rw [List.foldl_cons] at h
    rw [List.mem_cons]
    cases ih _ h with
    | inl h => exact (mem_of_mem_declare h).elim (fun h => .inr (.inl h)) .inl
    | inr h => exact .inr (.inr h)

/-- The declared names in the order of their first declarations, each with its last declaration. -/
def Field.lastDeclarations {δ : Type} (declarations : List (Field δ)) : List (Field δ) :=
  (declarations.map Field.name).eraseDups.filterMap fun name =>
    declarations.reverse.find? fun f => f.name == name

/-- A name that comes last is new, or it is among the names before. -/
theorem eraseDups_concat (names : List String) (name : String) :
    (names ++ [name]).eraseDups =
      if name ∈ names then names.eraseDups else names.eraseDups ++ [name] := by
  rw [List.eraseDups_append]
  by_cases h : name ∈ names <;> simp [List.removeAll, List.eraseDups_cons, h]

/-- What is left has no duplicates. -/
theorem nodup_eraseDups (names : List String) : names.eraseDups.Nodup := by
  induction names using List.reverseRecOn with
  | nil => exact .nil
  | append_singleton names name ih =>
    rw [eraseDups_concat]
    split
    next => exact ih
    -- the name is new, so that it is none of those that are left
    next h =>
      refine List.nodup_append.mpr ⟨ih, List.pairwise_singleton _ name, ?_⟩
      rintro other hother _ hname rfl
      rw [List.mem_singleton.mp hname] at hother
      exact h (List.mem_eraseDups.mp hother)

/-- A declaration that is looked up under its name replaces the one that was found before. -/
theorem Field.declare_filterMap {δ : Type} {f : Field δ} {found : String → Option (Field δ)}
    {names : List String} (hnodup : names.Nodup) (hf : f.name ∈ names)
    (hfound : ∀ name ∈ names, ∃ g, found name = some g ∧ g.name = name) :
    f.declare (names.filterMap found) =
      names.filterMap fun name => if f.name == name then some f else found name := by
  induction names with
  | nil => cases hf
  | cons name rest ih =>
    have ⟨hname, hrest⟩ := List.nodup_cons.mp hnodup
    have ⟨hfirst, hothers⟩ := List.forall_mem_cons.mp hfound
    obtain ⟨g, hg, rfl⟩ := hfirst
    by_cases heq : f.name = g.name
    · -- the names behind are others
      have hsame : rest.filterMap (fun name => if f.name == name then some f else found name) =
          rest.filterMap found := by
        refine List.filterMap_congr fun other hother => if_neg fun h => ?_
        rw [← heq, beq_iff_eq.mp h] at hname
        exact hname hother
      rw [List.filterMap_cons_some hg, declare, ← heq, beq_self_eq_true, if_pos rfl]
      simp only [List.filterMap_cons, beq_self_eq_true, if_true, hsame]
    -- the declaration is further behind, and this name keeps its own
    · have hmem : f.name ∈ rest := (List.mem_cons.mp hf).resolve_left heq
      have hne : (g.name == f.name) = false := beq_false_of_ne (Ne.symm heq)
      have hne' : (f.name == g.name) = false := beq_false_of_ne heq
      rw [List.filterMap_cons_some hg, declare, hne, ih hrest hmem hothers]
      simp only [List.filterMap_cons, hne', hg, Bool.false_eq_true, if_false]

section LastDeclarations

variable {δ : Type} {declarations : List (Field δ)}

/-- A declared name has a last declaration. -/
theorem Field.exists_last {name : String} (h : name ∈ declarations.map Field.name) :
    ∃ f, (declarations.reverse.find? fun f => f.name == name) = some f ∧ f.name = name := by
  obtain ⟨f, hf, hname⟩ := List.mem_map.mp h
  have hsome : (declarations.reverse.find? fun f => f.name == name).isSome := by
    refine List.find?_isSome.mpr ⟨f, List.mem_reverse.mpr hf, ?_⟩
    exact beq_iff_eq.mpr hname
  obtain ⟨g, hg⟩ := Option.isSome_iff_exists.mp hsome
  exact ⟨g, hg, by simpa using List.find?_some hg⟩

/-- The names come in the order of their first declarations. -/
theorem Field.map_name_lastDeclarations :
    (lastDeclarations declarations).map Field.name = (declarations.map Field.name).eraseDups := by
  have hfound : ∀ name ∈ (declarations.map Field.name).eraseDups,
      ((declarations.reverse.find? fun f => f.name == name).map Field.name) = some name := by
    intro name hname
    obtain ⟨f, hf, rfl⟩ := exists_last (List.mem_eraseDups.mp hname)
    rw [hf]
    rfl
  rw [lastDeclarations, List.map_filterMap, List.filterMap_congr hfound, List.filterMap_some]

/-- One more declaration replaces the field in its place, or adds it at the end. -/
theorem Field.lastDeclarations_concat (declarations : List (Field δ)) (f : Field δ) :
    lastDeclarations (declarations ++ [f]) = f.declare (lastDeclarations declarations) := by
  have hlookup : ∀ name, ((declarations ++ [f]).reverse.find? fun g => g.name == name) =
      if f.name == name then some f else declarations.reverse.find? fun g => g.name == name := by
    intro name
    rw [List.reverse_append, List.reverse_singleton, List.singleton_append, List.find?_cons]
    split <;> simp_all
  have hnames : f.name ∈ (lastDeclarations declarations).map Field.name ↔
      f.name ∈ declarations.map Field.name := by
    rw [map_name_lastDeclarations, List.mem_eraseDups]
  have hconcat : lastDeclarations (declarations ++ [f]) =
      (declarations.map Field.name ++ [f.name]).eraseDups.filterMap fun name =>
        if f.name == name then some f
        else declarations.reverse.find? fun g => g.name == name := by
    rw [lastDeclarations, List.map_append, List.map_singleton]
    exact congrArg (List.filterMap · _) (funext hlookup)
  rw [hconcat, eraseDups_concat]
  -- a name that was declared keeps its place and gets the new declaration
  by_cases hf : f.name ∈ declarations.map Field.name
  · rw [if_pos hf]
    refine (declare_filterMap (nodup_eraseDups _) (List.mem_eraseDups.mpr hf) ?_).symm
    exact fun name hname => exists_last (List.mem_eraseDups.mp hname)
  · rw [if_neg hf, declare_of_not_mem (fun h => hf (hnames.mp h)), List.filterMap_append]
    -- none of the names before is the new one
    have hothers : ((declarations.map Field.name).eraseDups.filterMap fun name =>
        if f.name == name then some f
        else declarations.reverse.find? fun g => g.name == name) =
          lastDeclarations declarations := by
      refine List.filterMap_congr fun name hname => if_neg fun h => hf ?_
      rw [beq_iff_eq.mp h]
      exact List.mem_eraseDups.mp hname
    rw [hothers]
    simp

/-- Declaring fields one after the other leaves the last declaration of each name, in the order of
    the first declarations. -/
theorem Field.declareAll_eq_lastDeclarations (declarations : List (Field δ)) :
    declareAll declarations = lastDeclarations declarations := by
  induction declarations using List.reverseRecOn with
  | nil => rfl
  | append_singleton declarations f ih =>
    rw [lastDeclarations_concat, ← ih, declareAll, List.foldl_concat]
    rfl

end LastDeclarations

/-! ## Builders -/

/-- The field that a call declares. -/
def RecordCall.field? : RecordCall → Option (Field Descriptor)
  | field f => some f
  | constructor _ => none

/-- The constructor that a call gives. -/
def RecordCall.constructor? : RecordCall → Option Callable
  | field _ => none
  | constructor c => some c

/-- The field that a call declares, which has no default. -/
def PartialRecordCall.field? : PartialRecordCall → Option (Field Descriptor)
  | field name type => some ⟨name, type, none⟩
  | total _ => none

/-- What a call says about whether the fields are required. -/
def PartialRecordCall.total? : PartialRecordCall → Option Bool
  | field .. => none
  | total required => some required

/-- The builder of a record leaves the fields as they are declared, and the last constructor. -/
theorem RecordBuilder.buildAll_eq (name : String) (calls : List RecordCall) :
    buildAll name calls =
      .record name (Field.lastDeclarations (calls.filterMap RecordCall.field?))
        (calls.filterMap RecordCall.constructor?).getLast? := by
  -- the builder itself, call by call
  suffices calls.foldl perform (start name) =
      ⟨name, Field.lastDeclarations (calls.filterMap RecordCall.field?),
        (calls.filterMap RecordCall.constructor?).getLast?⟩ by
    rw [buildAll, this]
    rfl
  induction calls using List.reverseRecOn with
  | nil => rfl
  | append_singleton calls call ih =>
    rw [List.foldl_concat, ih, List.filterMap_append, List.filterMap_append]
    cases call with
    | field f =>
      simp [perform, RecordCall.field?, RecordCall.constructor?, List.filterMap_cons,
        Field.lastDeclarations_concat]
    | constructor c =>
      simp [perform, RecordCall.field?, RecordCall.constructor?, List.filterMap_cons]

/-- A field without a default, from its name and its type. -/
def Field.ofEntry {δ : Type} (entry : String × δ) : Field δ :=
  ⟨entry.1, entry.2, none⟩

/-- Inserting an entry declares its field. -/
theorem Field.map_ofEntry_insert {δ : Type} (name : String) (type : δ)
    (fields : List (String × δ)) :
    (Entries.insert name type fields).map ofEntry =
      (⟨name, type, none⟩ : Field δ).declare (fields.map ofEntry) := by
  induction fields with
  | nil => rfl
  | cons field rest ih =>
    obtain ⟨other, type'⟩ := field
    rw [Entries.insert, List.map_cons, declare]
    -- the entry that is replaced is the field that is declared again
    by_cases h : other = name
    · subst h
      simp [ofEntry]
    · have hne : (other == name) = false := beq_false_of_ne h
      rw [hne]
      simp only [ofEntry, hne, List.map_cons, Bool.false_eq_true, if_false, ih]

/-- The builder of a partial record leaves the fields as they are declared, and the last word on
    whether they are required, which they are if there is none. -/
theorem PartialRecordBuilder.buildAll_eq (name : String) (calls : List PartialRecordCall) :
    ∃ fields, buildAll name calls = .partialRecord name fields
        ((calls.filterMap PartialRecordCall.total?).getLast?.getD true) ∧
      fields.map Field.ofEntry =
        Field.lastDeclarations (calls.filterMap PartialRecordCall.field?) := by
  suffices ∃ fields, calls.foldl perform (start name) =
        ⟨name, fields, (calls.filterMap PartialRecordCall.total?).getLast?.getD true⟩ ∧
      fields.map Field.ofEntry =
        Field.lastDeclarations (calls.filterMap PartialRecordCall.field?) by
    obtain ⟨fields, hbuilder, hfields⟩ := this
    refine ⟨fields, ?_, hfields⟩
    rw [buildAll, hbuilder]
    rfl
  -- on the calls, of which the last one is performed last
  induction calls using List.reverseRecOn with
  | nil => exact ⟨[], rfl, rfl⟩
  | append_singleton calls call ih =>
    obtain ⟨fields, hbuilder, hfields⟩ := ih
    rw [List.foldl_concat, hbuilder, List.filterMap_append, List.filterMap_append]
    cases call with
    | field name' type =>
      -- a field is declared in the place that its name has
      refine ⟨Entries.insert name' type fields, ?_, ?_⟩
      · simp [perform, PartialRecordCall.total?, List.filterMap_cons]
      · rw [Field.map_ofEntry_insert, hfields, ← Field.lastDeclarations_concat]
        rfl
    | total required =>
      refine ⟨fields, ?_, ?_⟩
      · simp [perform, PartialRecordCall.total?]
      · simp [PartialRecordCall.field?, List.filterMap_cons, hfields]

end Conform
