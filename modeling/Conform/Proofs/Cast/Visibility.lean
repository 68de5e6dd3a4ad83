import Conform.Proofs.Cast.Symbol
import Conform.Proofs.Descriptor.Parts

/-!
# What a symbol sees of the registry

A path is resolved by looking at the namespaces under the listed roots, or, if all roots are
admitted, at the one under its first segment, and by asking whether its first segment is registered
(`SymbolPath.SeesAlike`). Nothing else in the registry changes what a cast to a symbol comes to
(`symbol_cast_sees_admitted`).
-/

namespace Conform

/-- The same context with other namespaces. -/
def Context.withRegistry (registry : Registry) (ctx : Context) : Context :=
  { ctx with registry }

namespace SymbolPath

variable {spec : SymbolPath} {dotted : String} {registry registry' : Registry}

/-- Two registries agree on the namespaces under the listed roots, or under the first segment of the
    path if no roots are listed, and on whether the first segment is registered. -/
structure SeesAlike (spec : SymbolPath) (dotted : String) (registry registry' : Registry) :
    Prop where
  listed : ∀ roots, spec.roots = .only roots → ∀ root ∈ roots,
    registry.get? root = registry'.get? root
  unlisted : spec.roots = .any → registry.get? (leading dotted) = registry'.get? (leading dotted)
  registered : (registry.get? (leading dotted)).isSome = (registry'.get? (leading dotted)).isSome

/-- A lookup depends on the entry of the root only. -/
theorem lookup_congr {root : String} (h : registry.get? root = registry'.get? root)
    (members : List String) : registry.lookup root members = registry'.lookup root members := by
  rw [Registry.lookup, Registry.lookup, h]

/-- The leading segment of a dotted text is the root of the lookup. -/
theorem leading_eq {root : String} {rest : List String}
    (h : Text.splitOn '.' dotted = root :: rest) : leading dotted = root := by
  rw [leading, h]
  rfl

/-- An admitted first segment is the only root that is looked at. -/
theorem resolve_congr_of_admits (hroot : spec.roots.admits (leading dotted) = true)
    (h : registry.get? (leading dotted) = registry'.get? (leading dotted)) :
    spec.resolve registry dotted = spec.resolve registry' dotted := by
  rw [resolve, resolve]
  cases hsegments : Text.splitOn '.' dotted with
  | nil => rfl
  | cons root rest =>
    rw [leading_eq hsegments] at hroot h
    simp only [if_pos hroot, lookup_congr h]

/-- Below the listed roots nothing but their namespaces is looked at. -/
theorem SeesAlike.resolveBelow (h : spec.SeesAlike dotted registry registry')
    (segments : List String) :
    spec.resolveBelow registry segments = spec.resolveBelow registry' segments := by
  rw [SymbolPath.resolveBelow, SymbolPath.resolveBelow]
  cases hroots : spec.roots with
  | any => rfl
  | only roots =>
    simp only [← List.head?_filterMap]
    refine congrArg List.head? (List.filterMap_congr fun root hroot => ?_)
    rw [lookup_congr (h.listed roots hroots root (List.mem_of_mem_filter hroot))]

/-- Registries that are seen alike resolve the path to the same. -/
theorem SeesAlike.resolve (h : spec.SeesAlike dotted registry registry') :
    spec.resolve registry dotted = spec.resolve registry' dotted := by
  by_cases hroot : spec.roots.admits (leading dotted) = true
  · -- an admitted root is listed, unless all roots are admitted
    refine resolve_congr_of_admits hroot ?_
    cases hroots : spec.roots with
    | any => exact h.unlisted hroots
    | only roots =>
      rw [hroots] at hroot
      exact h.listed roots hroots _ (List.contains_iff_mem.mp hroot)
  -- the text is looked up below the listed roots, unless its own root is registered
  · have hregistered := h.registered
    rw [SymbolPath.resolve, SymbolPath.resolve]
    cases hsegments : Text.splitOn '.' dotted with
    | nil => rfl
    | cons root rest =>
      rw [leading_eq hsegments] at hroot hregistered
      simp only [if_neg hroot, hregistered, h.resolveBelow]

/-- A namespace whose name is not admitted is not seen, unless it is the first segment of the path
    and has not been registered. -/
theorem SeesAlike.insert {n : Namespace} (hn : spec.roots.admits n.name = false)
    (hregistered : leading dotted = n.name → (registry.get? n.name).isSome = true) :
    spec.SeesAlike dotted (registry.insert n) registry := by
  have hget : ∀ root, (registry.insert n).get? root =
      if n.name == root then some n else registry.get? root :=
    fun root => Entries.find?_insert n.name root n registry.roots
  constructor
  case listed =>
    intro roots hroots root hroot
    -- the list does not contain the new name
    have hne : (n.name == root) = false := by
      refine beq_false_of_ne ?_
      rintro rfl
      rw [hroots] at hn
      exact absurd (List.contains_iff_mem.mpr hroot) (Bool.eq_false_iff.mp hn)
    rw [hget, hne, if_neg Bool.false_ne_true]
  case unlisted =>
    intro hroots
    rw [hroots] at hn
    cases hn
  -- the name of the new namespace may be the leading one only if it was registered before
  case registered =>
    rw [hget]
    split
    next heq =>
      have hname : n.name = leading dotted := beq_iff_eq.mp heq
      rw [← hname, hregistered hname.symm]
      rfl
    next => rfl

end SymbolPath

variable {spec : SymbolPath} {registry registry' : Registry}

/-- The registry matters to a cast only through what the path resolves to. -/
theorem cast_symbol_congr (ctx : Context) (id : Nat) {v : Value}
    (h : ∀ dotted, v = .text dotted →
      spec.resolve registry dotted = spec.resolve registry' dotted) :
    cast (ctx.withRegistry registry) (.node id (.symbolPath spec)) v =
      cast (ctx.withRegistry registry') (.node id (.symbolPath spec)) v := by
  have hrule : castSymbol (ctx.withRegistry registry) spec spec.render [] v =
      castSymbol (ctx.withRegistry registry') spec spec.render [] v := by
    rw [castSymbol, castSymbol]
    cases v with
    | text dotted => simp only [Value.text?, Context.withRegistry, h dotted rfl]
    | _ => rfl
  -- compilation does not look into the registry
  have hcheck : (Descriptor.node id (.symbolPath spec)).check (ctx.withRegistry registry) 0 =
      (Descriptor.node id (.symbolPath spec)).check (ctx.withRegistry registry') 0 := by
    rw [Descriptor.check, Descriptor.check]
    rfl
  rw [cast, cast, compile, compile, hcheck]
  cases (Descriptor.node id (.symbolPath spec)).check (ctx.withRegistry registry') 0 with
  | error e => rfl
  | ok _ =>
    show castWithin (ctx.withRegistry registry) (ctx.config.limits.maxDepth + 1) _ [] v =
      castWithin (ctx.withRegistry registry') (ctx.config.limits.maxDepth + 1) _ [] v
    rw [castWithin_succ, castWithin_succ, Descriptor.apply, Descriptor.apply]
    -- a converted symbol is left to the host, with the same converter
    cases hid : ctx.converter? id with
    | some c =>
      have hleft : (ctx.withRegistry registry).converter? id = some c := hid
      have hright : (ctx.withRegistry registry').converter? id = some c := hid
      rw [hleft, hright]
    | none =>
      have hleft : (ctx.withRegistry registry).converter? id = none := hid
      have hright : (ctx.withRegistry registry').converter? id = none := hid
      rw [hleft, hright]
      exact hrule

/-- Whatever is cast to a symbol, the cast is the same with two registries that agree on the
    namespaces under the listed roots and on whether the first segment of the path is registered. If
    the first segment is an admitted root, it is enough that they agree on its namespace. So a
    namespace whose name is not admitted may be registered, or replaced, unless it makes the first
    segment of the path a registered one. -/
theorem symbol_cast_sees_admitted (ctx : Context) (id : Nat) (spec : SymbolPath) (v : Value)
    (registry registry' : Registry) :
    ((∀ dotted, v = .text dotted → spec.SeesAlike dotted registry registry') →
      cast (ctx.withRegistry registry) (.node id (.symbolPath spec)) v =
        cast (ctx.withRegistry registry') (.node id (.symbolPath spec)) v) ∧
      (∀ dotted, v = .text dotted → spec.roots.admits (SymbolPath.leading dotted) = true →
        registry.get? (SymbolPath.leading dotted) = registry'.get? (SymbolPath.leading dotted) →
        cast (ctx.withRegistry registry) (.node id (.symbolPath spec)) v =
          cast (ctx.withRegistry registry') (.node id (.symbolPath spec)) v) ∧
      ∀ n : Namespace, spec.roots.admits n.name = false →
        (∀ dotted, v = .text dotted → SymbolPath.leading dotted = n.name →
          (registry.get? n.name).isSome = true) →
        cast (ctx.withRegistry (registry.insert n)) (.node id (.symbolPath spec)) v =
          cast (ctx.withRegistry registry) (.node id (.symbolPath spec)) v := by
  refine ⟨fun h => cast_symbol_congr ctx id fun dotted hv => (h dotted hv).resolve, ?_, ?_⟩
  · rintro dotted rfl hroot h
    refine cast_symbol_congr ctx id fun other hother => ?_
    cases hother
    exact SymbolPath.resolve_congr_of_admits hroot h
  · intro n hn hregistered
    refine cast_symbol_congr ctx id fun dotted hv => ?_
    exact (SymbolPath.SeesAlike.insert hn (hregistered dotted hv)).resolve

/-! ## A secret namespace -/

/-- A namespace whose name is none of the two roots. -/
def secretNamespace : Namespace := ⟨2, "secret", [("settings", .int 443)]⟩

/-- The namespaces of `settingsContext` in another order, and the secret one. -/
def secretRegistry : Registry :=
  ⟨[("secret", secretNamespace), ("lib", ⟨1, "lib", []⟩),
    ("app", ⟨0, "app", [("settings", .record "Settings" [("port", .int 80)])]⟩)]⟩

/-- Another namespace in the place of the first root. -/
def otherLibrary : Registry := .insert ⟨3, "lib", [("app", .none)]⟩ secretRegistry

/-- The secret namespace cannot be seen from a path below the roots, nor can the first root from a
    path that starts at the second. -/
theorem symbol_cast_sees_admitted_port :
    belowTwoRoots.SeesAlike "settings.port" secretRegistry settingsContext.registry ∧
      cast (Context.withRegistry secretRegistry {}) (.node 0 (.symbolPath belowTwoRoots))
          (.text "settings.port") = pure (.int 80) ∧
      (belowTwoRoots.roots.admits (SymbolPath.leading "app.settings.port") = true ∧
        otherLibrary.get? (SymbolPath.leading "app.settings.port") =
          secretRegistry.get? (SymbolPath.leading "app.settings.port")) ∧
      cast (Context.withRegistry otherLibrary {}) (.node 0 (.symbolPath belowTwoRoots))
          (.text "app.settings.port") = pure (.int 80) ∧
      belowTwoRoots.roots.admits secretNamespace.name = false ∧
      cast (Context.withRegistry (settingsContext.registry.insert secretNamespace) {})
          (.node 0 (.symbolPath belowTwoRoots)) (.text "settings.port") = pure (.int 80) := by
  -- the secret namespace is not listed, and the two that are listed are the same
  have hseen : belowTwoRoots.SeesAlike "settings.port" secretRegistry settingsContext.registry := by
    refine ⟨fun roots hroots => ?_, nofun, rfl⟩
    cases hroots
    exact List.forall_mem_cons.mpr ⟨rfl, List.forall_mem_singleton.mpr rfl⟩
  have hbelow : cast (Context.withRegistry settingsContext.registry {})
      (.node 0 (.symbolPath belowTwoRoots)) (.text "settings.port") = pure (.int 80) := rfl
  have hroot : cast (Context.withRegistry secretRegistry {})
      (.node 0 (.symbolPath belowTwoRoots)) (.text "app.settings.port") = pure (.int 80) := rfl
  have hlisted := symbol_cast_sees_admitted {} 0 belowTwoRoots (.text "settings.port")
    secretRegistry settingsContext.registry
  have hadmitted := symbol_cast_sees_admitted {} 0 belowTwoRoots (.text "app.settings.port")
    otherLibrary secretRegistry
  have hinserted := symbol_cast_sees_admitted {} 0 belowTwoRoots (.text "settings.port")
    settingsContext.registry settingsContext.registry
  refine ⟨hseen, ?_, ⟨rfl, rfl⟩, ?_, rfl, ?_⟩
  · refine (hlisted.1 fun dotted h => ?_).trans hbelow
    cases h
    exact hseen
  · exact (hadmitted.2.1 _ rfl rfl rfl).trans hroot
  -- the path does not start with the name of the secret namespace
  · refine (hinserted.2.2 secretNamespace rfl fun dotted h hleading => ?_).trans hbelow
    cases h
    exact absurd hleading (by decide)

end Conform
