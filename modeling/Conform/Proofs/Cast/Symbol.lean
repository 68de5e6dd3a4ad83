import Conform.Cast
import Conform.Proofs.Program.Outcome
import Conform.Proofs.Symbol

/-!
# Casting to a symbol

A cast to a symbol gives what the path resolves to, and fails where it does not resolve. So nothing
is reached by it but what the roots, the names and the paths of the type allow, at the location that
they allow (`symbol_cast_is_allowed`).
-/

namespace Conform

variable {σ : Type} {answer : (request : Request) → StateM σ request.Reply} {ctx : Context}
  {id : Nat} {spec : SymbolPath} {v : Value} {s : σ}

/-- A symbol is checked for its depth only. -/
private theorem check_symbol (hconverter : ctx.converter? id = none) :
    (Descriptor.node id (.symbolPath spec)).check ctx 0 =
      if ctx.config.limits.maxDescriptorDepth < 1 then
        .error (.descriptorTooDeep ctx.config.limits.maxDescriptorDepth)
      else .ok () := by
  rw [Descriptor.check, hconverter]
  rfl

/-- Once the type can be used, its rule is applied to the value at the root. -/
private theorem cast_symbol_eq (hconverter : ctx.converter? id = none)
    (hlimit : ¬ ctx.config.limits.maxDescriptorDepth < 1) :
    cast ctx (.node id (.symbolPath spec)) v = castSymbol ctx spec spec.render [] v := by
  have hcheck : (Descriptor.node id (.symbolPath spec)).check ctx 0 = _ := check_symbol hconverter
  rw [if_neg hlimit] at hcheck
  rw [cast, compile, hcheck]
  show castWithin ctx (ctx.config.limits.maxDepth + 1) _ [] v = _
  cases ctx.config.limits.maxDepth with
  | zero => rw [castWithin, Descriptor.apply, hconverter]; rfl
  | succ room => rw [castWithin, Descriptor.apply, hconverter]; rfl

/-- Where no descriptor at all may be compiled, none is resolved. -/
private theorem cast_symbol_eq_throw (hconverter : ctx.converter? id = none)
    (hlimit : ctx.config.limits.maxDescriptorDepth < 1) :
    cast ctx (.node id (.symbolPath spec)) v =
      .throw (.config (.descriptorTooDeep ctx.config.limits.maxDescriptorDepth)) := by
  have hcheck : (Descriptor.node id (.symbolPath spec)).check ctx 0 = _ := check_symbol hconverter
  rw [if_pos hlimit] at hcheck
  rw [cast, compile, hcheck]
  rfl

/-- A symbol that is cast is a text, and the cast gives what the text resolves to. -/
private theorem resolve_of_cast_ok (hconverter : ctx.converter? id = none) {w : Value}
    (hrun : (((cast ctx (.node id (.symbolPath spec)) v).run answer).run s).1 = .ok w) :
    ∃ dotted, v = .text dotted ∧ spec.resolve ctx.registry dotted = .ok w := by
  -- with no depth allowed even this type does not compile
  by_cases hlimit : ctx.config.limits.maxDescriptorDepth < 1
  · rw [cast_symbol_eq_throw hconverter hlimit] at hrun
    cases hrun
  rw [cast_symbol_eq hconverter hlimit] at hrun
  cases v with
  | text dotted =>
    refine ⟨dotted, rfl, ?_⟩
    simp only [castSymbol, Value.text?] at hrun
    split at hrun
    next resolved hresolve => cases hrun; exact hresolve
    all_goals cases hrun
  -- only texts are resolved
  | _ => cases hrun

/-- A symbol that is not found is a text that does not resolve for that reason. -/
private theorem resolve_of_cast_lookup (hconverter : ctx.converter? id = none) {e : LookupError}
    (hrun : (((cast ctx (.node id (.symbolPath spec)) v).run answer).run s).1 =
      .error (.lookup e)) :
    ∃ dotted, v = .text dotted ∧ spec.resolve ctx.registry dotted = .error (.lookup e) := by
  -- an error of a lookup is not an error of the configuration
  by_cases hlimit : ctx.config.limits.maxDescriptorDepth < 1
  · rw [cast_symbol_eq_throw hconverter hlimit] at hrun
    cases hrun
  rw [cast_symbol_eq hconverter hlimit] at hrun
  cases v with
  | text dotted =>
    refine ⟨dotted, rfl, ?_⟩
    simp only [castSymbol, Value.text?] at hrun
    -- of the four outcomes of a resolution one is an error of a lookup
    split at hrun
    next => cases hrun
    next => cases hrun
    next => cases hrun
    next e' hresolve => cases hrun; exact hresolve
  | _ => cases hrun

/-- A text that is looked up gives what is found, or fails because it is not found. -/
theorem cast_symbol_of_resolve (hconverter : ctx.converter? id = none)
    (hlimit : 0 < ctx.config.limits.maxDescriptorDepth) {dotted : String}
    {found : Except LookupError Value}
    (hresolve : spec.resolve ctx.registry dotted = found.mapError .lookup) :
    cast ctx (.node id (.symbolPath spec)) (.text dotted) =
      .ofExcept (found.mapError .lookup) := by
  rw [cast_symbol_eq hconverter (Nat.not_lt.mpr hlimit)]
  simp only [castSymbol, Value.text?, hresolve]
  cases found <;> rfl

/-- The outcome of a symbol is the outcome of its resolution. -/
private theorem cast_of_resolve (hconverter : ctx.converter? id = none)
    (hlimit : 0 < ctx.config.limits.maxDescriptorDepth) {dotted : String}
    {found : Except LookupError Value}
    (hresolve : spec.resolve ctx.registry dotted = found.mapError .lookup) :
    (((cast ctx (.node id (.symbolPath spec)) (.text dotted)).run answer).run s).1 =
      found.mapError .lookup := by
  rw [cast_symbol_of_resolve hconverter hlimit hresolve]
  cases found <;> rfl

/-- A cast to a symbol keeps to what the type allows. What it gives is named by an admitted root and
    allowed members. They are the path that was cast, or, if that starts at a name that is neither
    admitted nor registered, the whole path below the first listed root below which it is allowed
    and found. Only an allowed path that starts at an admitted root is reported to lead nowhere. If
    the type lists whole paths, only these can be reached, and each is looked up by its own name. -/
theorem symbol_cast_is_allowed (hconverter : ctx.converter? id = none)
    {r : Except CastError Value}
    (hrun : (((cast ctx (.node id (.symbolPath spec)) v).run answer).run s).1 = r) :
    (∀ w, r = .ok w → ∃ dotted root members, v = .text dotted ∧
        (∀ segment ∈ Text.splitOn '.' dotted, segment ≠ "") ∧
        spec.roots.admits root = true ∧ spec.admits root members = true ∧
        ctx.registry.Names root members w ∧
        (Text.splitOn '.' dotted = root :: members ∧ Text.join "." (root :: members) = dotted ∨
          spec.roots.admits (SymbolPath.leading dotted) = false ∧
            ctx.registry.get? (SymbolPath.leading dotted) = none ∧
            members = Text.splitOn '.' dotted ∧ spec.FirstBelow ctx.registry root members)) ∧
      (∀ e, r = .error (.lookup e) → ∃ dotted root members, v = .text dotted ∧
        Text.splitOn '.' dotted = root :: members ∧
        (∀ segment ∈ Text.splitOn '.' dotted, segment ≠ "") ∧
        spec.roots.admits root = true ∧ spec.admits root members = true ∧
        ctx.registry.lookup root members = .error e) ∧
      ∀ paths, spec = .onlyPaths paths →
        (∀ w, r = .ok w → ∃ path ∈ paths, ∃ root members,
          Text.splitOn '.' path = root :: members ∧ ctx.registry.Names root members w) ∧
        ∀ path ∈ paths, v = .text path → (∀ segment ∈ Text.splitOn '.' path, segment ≠ "") →
          0 < ctx.config.limits.maxDescriptorDepth → ∃ root members,
            Text.splitOn '.' path = root :: members ∧
              r = (ctx.registry.lookup root members).mapError .lookup := by
  subst hrun
  refine ⟨fun w hw => ?_, fun e he => ?_, fun paths hspec => ⟨fun w hw => ?_, ?_⟩⟩
  · obtain ⟨dotted, hv, hresolve⟩ := resolve_of_cast_ok hconverter hw
    -- the text is read as it stands, or below one of the listed roots
    cases SymbolPath.reaches_of_resolve hresolve with
    | @absolute root members hsegments hnonempty hroot hadmits hnamed =>
      have hjoin : Text.join "." (root :: members) = dotted := by
        rw [← hsegments]
        exact Text.join_splitOn '.' dotted
      exact ⟨dotted, root, members, hv, hnonempty, hroot, hadmits, hnamed,
        .inl ⟨hsegments, hjoin⟩⟩
    | @below root hnonempty hforeign hunregistered hfirst hadmits hnamed =>
      refine ⟨dotted, root, _, hv, hnonempty, ?_, hadmits, hnamed,
        .inr ⟨hforeign, hunregistered, rfl, hfirst⟩⟩
      -- the root that is found stands in the list
      obtain ⟨before, after, hroots, -⟩ := hfirst
      rw [hroots]
      exact List.contains_iff_mem.mpr (List.mem_append_right before List.mem_cons_self)
  · obtain ⟨dotted, hv, hresolve⟩ := resolve_of_cast_lookup hconverter he
    obtain ⟨root, members, hfound⟩ := SymbolPath.lookup_of_resolve hresolve
    exact ⟨dotted, root, members, hv, hfound⟩
  · obtain ⟨dotted, -, hresolve⟩ := resolve_of_cast_ok hconverter hw
    rw [hspec] at hresolve
    exact SymbolPath.mem_onlyPaths_of_reaches (SymbolPath.reaches_of_resolve hresolve)
  · rintro path hpath rfl hnonempty hlimit
    obtain ⟨root, members, hsegments⟩ :=
      List.exists_cons_of_ne_nil (Text.splitOn_ne_nil '.' path)
    refine ⟨root, members, hsegments, cast_of_resolve hconverter hlimit ?_⟩
    -- a listed path admits itself, and is looked up from its own root
    rw [hspec]
    exact SymbolPath.resolve_onlyPaths hpath hsegments hnonempty

/-- A context with a namespace that holds a record and one that holds nothing. -/
def settingsContext : Context where
  registry := ⟨[("app", ⟨0, "app", [("settings", .record "Settings" [("port", .int 80)])]⟩),
    ("lib", ⟨1, "lib", []⟩)]⟩

/-- Everything below two roots. -/
def belowTwoRoots : SymbolPath := ⟨.only ["lib", "app"], .any, .any⟩

/-- A path below the second root, since there is no such path below the first. -/
theorem symbol_cast_is_allowed_port :
    settingsContext.converter? 0 = none ∧
      ∃ dotted root members, Value.text "settings.port" = .text dotted ∧
        (∀ segment ∈ Text.splitOn '.' dotted, segment ≠ "") ∧
        belowTwoRoots.roots.admits root = true ∧ belowTwoRoots.admits root members = true ∧
        settingsContext.registry.Names root members (.int 80) ∧
        (Text.splitOn '.' dotted = root :: members ∧ Text.join "." (root :: members) = dotted ∨
          belowTwoRoots.roots.admits (SymbolPath.leading dotted) = false ∧
            settingsContext.registry.get? (SymbolPath.leading dotted) = none ∧
            members = Text.splitOn '.' dotted ∧
            belowTwoRoots.FirstBelow settingsContext.registry root members) := by
  have hconverter : settingsContext.converter? 0 = none := rfl
  have hrun : (((cast settingsContext (.node 0 (.symbolPath belowTwoRoots))
      (.text "settings.port")).run numberingHost).run 0).1 = .ok (.int 80) := rfl
  exact ⟨hconverter, (symbol_cast_is_allowed hconverter hrun).1 _ rfl⟩

end Conform
