import Conform.Proofs.Cast.Invocation
import Conform.Proofs.Cast.Signature

/-!
# Parameters that a call requires

A signature may declare a name several times. The keyword arguments of an inspected call are then
cast by the last declaration of each name. A name is required, though, if any of its declarations
has no default, also one that a later declaration has replaced; so that a call may be refused for
the lack of a keyword whose default is known. No call lacks a declared parameter.
`KeywordShape.Covers` says this of the shape that is made for a signature, and `InspectedCall` tells
how an inspected call goes on once it has found its callable. Main statement:
`inspected_call_requires`.
-/

namespace Conform

/-! ## Declarations of parameters -/

namespace Signature

/-- The declared names in the order of their first declarations, each once. -/
def names (signature : Signature) : List String :=
  (signature.params.map Param.name).eraseDups

/-- The last declaration of a name. -/
def last? (signature : Signature) (name : String) : Option Param :=
  signature.params.reverse.find? fun p => p.name == name

/-- Some declaration of the name has no default. -/
def Demands (signature : Signature) (name : String) : Prop :=
  ∃ p ∈ signature.params, p.name = name ∧ p.default? = none

/-- A name that has been declared without a default is not given one by its last declaration. -/
def Steady (signature : Signature) : Prop :=
  ∀ name, signature.Demands name → ∀ p, signature.last? name = some p → p.default? = none

variable {signature : Signature} {name : String} {p : Param}

/-- The declaration that is found under a name is one of them, and has the name. -/
theorem mem_of_last? (h : signature.last? name = some p) : p ∈ signature.params ∧ p.name = name :=
  ⟨List.mem_reverse.mp (List.mem_of_find?_eq_some h), by simpa using List.find?_some h⟩

end Signature

/-- The last declarations are those that are found from behind. -/
theorem Field.mem_lastDeclarations_iff {δ : Type} {f : Field δ} {declarations : List (Field δ)} :
    f ∈ lastDeclarations declarations ↔
      (declarations.reverse.find? fun g => g.name == f.name) = some f := by
  rw [lastDeclarations, List.mem_filterMap]
  constructor
  · rintro ⟨name, -, hf⟩
    have hname : f.name = name := by simpa using List.find?_some hf
    rw [hname]
    exact hf
  -- what is found last is declared, so that its name is listed
  · intro hf
    have hmem : f ∈ declarations := List.mem_reverse.mp (List.mem_of_find?_eq_some hf)
    exact ⟨f.name, List.mem_eraseDups.mpr (List.mem_map_of_mem hmem), hf⟩

/-- A field that is found under its name is declared by the parameter that is found there. -/
private theorem find?_of_declare {params : List Param} {fields : List (Field Descriptor)}
    (h : Declare params fields) {name : String} {f : Field Descriptor}
    (hf : (fields.find? fun f => f.name == name) = some f) :
    ∃ p, (params.find? fun p => p.name == name) = some p ∧ p.field? = some f := by
  induction h with
  | nil => cases hf
  | @cons q g _ _ hg _ ih =>
    have hname : g.name = q.name := (Param.eq_of_field? hg).2.1
    rw [List.find?_cons, hname] at hf
    rw [List.find?_cons]
    -- parameters and fields have the same names in the same order
    cases hq : q.name == name with
    | true =>
      rw [hq] at hf
      cases hf
      exact ⟨q, rfl, hg⟩
    | false =>
      rw [hq] at hf
      exact ih hf

/-! ## The shape for a signature -/

/-- What the shape that is made for a signature has to do with its declarations. -/
structure KeywordShape.Covers (shape : KeywordShape) (signature : Signature) : Prop where
  names : shape.fields.map Field.name = signature.names
  /-- A field is that of the last declaration of its name. -/
  kept : ∀ f ∈ shape.fields, ∃ p, signature.last? f.name = some p ∧ p.field? = some f
  required : ∀ name, name ∈ shape.required ↔ signature.Demands name
  /-- The required names are those of the fields without a default, provided that no default has
      come with a later declaration. -/
  matched :
    (∀ name, name ∈ shape.required ↔ ∃ f ∈ shape.fields, f.name = name ∧ f.default? = none) ↔
      signature.Steady

namespace KeywordShape

variable {ctx : Context} {c : Callable} {signature : Signature} {shape : KeywordShape}

/-- The names that are required are the names that some declaration gives no default. -/
theorem mem_required_iff {declarations : List (Field Descriptor)}
    (hdeclare : Declare signature.params declarations) (name : String) :
    name ∈ Field.requiredNames declarations ↔ signature.Demands name := by
  -- each declaration comes from a parameter of its name, and each parameter has one
  rw [Field.mem_requiredNames_iff]
  constructor
  · rintro ⟨f, hf, rfl, hdefault⟩
    obtain ⟨p, hp, hfield⟩ := exists_param_of_declare hdeclare hf
    exact ⟨p, hp, (Param.eq_of_field? hfield).2.1.symm,
      (Param.default?_eq_none_iff hfield).mp hdefault⟩
  · rintro ⟨p, hp, rfl, hdefault⟩
    obtain ⟨f, hf, hfield⟩ := exists_of_declare hdeclare hp
    exact ⟨f, hf, (Param.eq_of_field? hfield).2.1,
      (Param.default?_eq_none_iff hfield).mpr hdefault⟩

/-- The name of a field without a default has been declared without one. -/
theorem demands_of_kept {f : Field Descriptor}
    (hkept : ∃ p, signature.last? f.name = some p ∧ p.field? = some f)
    (hdefault : f.default? = none) : signature.Demands f.name := by
  obtain ⟨p, hp, hfield⟩ := hkept
  obtain ⟨hmem, hname⟩ := Signature.mem_of_last? hp
  exact ⟨p, hmem, hname, (Param.default?_eq_none_iff hfield).mp hdefault⟩

/-- The demanded names are those of the fields without a default exactly if no name gets its default
    later. -/
theorem demands_iff_steady (hnames : shape.fields.map Field.name = signature.names)
    (hkept : ∀ f ∈ shape.fields, ∃ p, signature.last? f.name = some p ∧ p.field? = some f) :
    (∀ name, signature.Demands name ↔ ∃ f ∈ shape.fields, f.name = name ∧ f.default? = none) ↔
      signature.Steady := by
  constructor
  -- the last declaration of a demanded name is the one that is kept, which has no default
  · intro hmatched name hname p hp
    obtain ⟨f, hf, rfl, hdefault⟩ := (hmatched name).mp hname
    obtain ⟨q, hq, hfield⟩ := hkept f hf
    rw [hp] at hq
    cases hq
    exact (Param.default?_eq_none_iff hfield).mp hdefault
  · refine fun hsteady name => ⟨fun hname => ?_, ?_⟩
    · -- a demanded name is declared, so that a field is kept for it
      have hmem : name ∈ shape.fields.map Field.name := by
        obtain ⟨p, hp, rfl, -⟩ := hname
        rw [hnames, Signature.names, List.mem_eraseDups]
        exact List.mem_map_of_mem hp
      obtain ⟨f, hf, rfl⟩ := List.mem_map.mp hmem
      obtain ⟨p, hp, hfield⟩ := hkept f hf
      exact ⟨f, hf, rfl, (Param.default?_eq_none_iff hfield).mpr (hsteady f.name hname p hp)⟩
    · rintro ⟨f, hf, rfl, hdefault⟩
      exact demands_of_kept (hkept f hf) hdefault

/-- The shape that is made for a callable is the one for its signature. -/
theorem covers_ofCallable (hsignature : ctx.signatures.get? c = some signature)
    (h : ofCallable ctx c = .ok shape) : shape.Covers signature := by
  obtain ⟨found, declarations, hfound, hdeclare, -, hfields, hrequired⟩ := ofCallable_cases h
  rw [hsignature] at hfound
  cases hfound
  rw [Field.declareAll_eq_lastDeclarations] at hfields
  have hnames : shape.fields.map Field.name = signature.names := by
    rw [hfields, Field.map_name_lastDeclarations, map_name_of_declare hdeclare, Signature.names]
  -- of the declarations of a name the last one is kept
  have hkept : ∀ f ∈ shape.fields, ∃ p, signature.last? f.name = some p ∧ p.field? = some f := by
    intro f hf
    rw [hfields, Field.mem_lastDeclarations_iff] at hf
    exact find?_of_declare (List.rel_reverse hdeclare) hf
  have hdemands : ∀ name, name ∈ shape.required ↔ signature.Demands name := by
    rw [hrequired]
    exact mem_required_iff hdeclare
  refine ⟨hnames, hkept, hdemands, ?_⟩
  simp only [hdemands]
  exact demands_iff_steady hnames hkept

/-- A map is refused for lacking just the demanded names that it does not have. -/
theorem Covers.mem_missing_iff (h : shape.Covers signature) {entries : List (Key × Value)}
    {name : String} : name ∈ shape.missing entries ↔
      signature.Demands name ∧ Entries.find? (Key.text name) entries = none := by
  rw [missing, List.mem_filter, h.required, Bool.not_eq_true', ← Entries.isSome_find?,
    Option.isSome_eq_false_iff, Option.isNone_iff_eq_none]

end KeywordShape

/-! ## Runs of inspected calls -/

/-- What a program yields is good on every trace, whatever the replies were. -/
theorem Program.Ends.good_of_yields {α : Type} {p : Program α} {good : α → Prop}
    {bad : CastError → Prop} (hp : p.Yields (fun _ _ => True) good bad) {t : List Occurrence}
    {a : α} (h : p.Ends t (.ok a)) : good a := by
  -- along the replies of the trace
  induction p generalizing t with
  | done result =>
    obtain ⟨-, rfl⟩ := h
    exact hp
  | ask unions request resume ih =>
    obtain ⟨reply, rest, -, h⟩ := h
    exact ih reply (hp reply trivial) h
  | raise unions e next ih =>
    obtain ⟨rest, -, h⟩ := h
    exact ih hp h

/-- How an inspected call goes on once it has found its callable, and how it ends. -/
inductive InspectedCall (ctx : Context) (enter : Enter) (path : Path) (c : Callable)
    (kwargs : Value) : List Occurrence → Except CastError Value → Prop
  | unusable {e : ConfigError} (fails : KeywordShape.ofCallable ctx c = .error e) :
    InspectedCall ctx enter path c kwargs [.raised 0 (.config e)] (.error (.config e))
  | notAMap {signature : Signature} {shape : KeywordShape} {e : CastError}
      (signed : ctx.signatures.get? c = some signature)
      (made : KeywordShape.ofCallable ctx c = .ok shape) (kind : kwargs.kind ≠ .map)
      (failure : e = refused path kwargs shape.label .wrongKind) :
    InspectedCall ctx enter path c kwargs [.raised 0 e] (.error e)
  | wrongNames {signature : Signature} {shape : KeywordShape} {entries : List (Key × Value)}
      {missing unknown : List String} {e : CastError}
      (signed : ctx.signatures.get? c = some signature)
      (made : KeywordShape.ofCallable ctx c = .ok shape) (map : kwargs = .map entries)
      (reported : ∀ name, name ∈ missing ↔
        signature.Demands name ∧ Entries.find? (Key.text name) entries = none)
      (some : missing ≠ [] ∨ unknown ≠ [])
      (failure : e = refused path kwargs shape.label (.keySet missing unknown)) :
    InspectedCall ctx enter path c kwargs [.raised 0 e] (.error e)
  | argumentFails {signature : Signature} {shape : KeywordShape} {entries : List (Key × Value)}
      {t : List Occurrence} {e : CastError} (signed : ctx.signatures.get? c = some signature)
      (made : KeywordShape.ofCallable ctx c = .ok shape) (map : kwargs = .map entries)
      (given : ∀ name, signature.Demands name → Entries.find? (Key.text name) entries ≠ none)
      (fails : (KeywordShape.castFields enter path entries shape.fields).Ends t (.error e)) :
    InspectedCall ctx enter path c kwargs t (.error e)
  | called {signature : Signature} {shape : KeywordShape} {entries : List (Key × Value)}
      {keyword : List (String × Value)} {t : List Occurrence} {reply : Except HostFailure Value}
      (signed : ctx.signatures.get? c = some signature)
      (made : KeywordShape.ofCallable ctx c = .ok shape) (map : kwargs = .map entries)
      (given : ∀ name, signature.Demands name → Entries.find? (Key.text name) entries ≠ none)
      (casts : (KeywordShape.castFields enter path entries shape.fields).Ends t (.ok keyword))
      (names : Entries.keys keyword = signature.names) :
    InspectedCall ctx enter path c kwargs (t ++ [.asked 0 (.call c [] keyword) reply])
      (reply.mapError .ofHost)

namespace KeywordShape

variable {ctx : Context} {c : Callable} {signature : Signature} {shape : KeywordShape}
  {enter : Enter} {path : Path} {entries : List (Key × Value)}

/-- The arguments that are cast are those of all declared names, if no demanded name is missing. -/
theorem Covers.keys_of_castFields (h : shape.Covers signature)
    (hgiven : ∀ name, signature.Demands name → Entries.find? (Key.text name) entries ≠ none)
    {t : List Occurrence} {keyword : List (String × Value)}
    (hends : (castFields enter path entries shape.fields).Ends t (.ok keyword)) :
    Entries.keys keyword = signature.names := by
  have hfilled := hends.good_of_yields (castFields_yields
    (fun _ _ _ _ => Program.yields_any _) fun _ _ _ _ => Program.yields_any _)
  rw [← h.names]
  refine hfilled.keys_eq fun f hf ⟨habsent, hdefault⟩ => ?_
  exact hgiven f.name (demands_of_kept (h.kept f hf) hdefault) habsent

/-- Once a shape has been made for the callable, the arguments are cast, and then it is called. -/
theorem inspectedCall_of_ends (hsignature : ctx.signatures.get? c = some signature)
    (hshape : ofCallable ctx c = .ok shape) {kwargs : Value} {t : List Occurrence}
    {r : Except CastError Value}
    (h : (shape.cast enter path kwargs >>= fun keyword => Program.call c [] keyword).Ends t r) :
    InspectedCall ctx enter path c kwargs t r := by
  have hcovers := covers_ofCallable hsignature hshape
  -- no map, wrong names, an argument that fails, or the call
  by_cases hkind : kwargs.kind = .map
  case neg =>
    rw [cast_of_kind_ne hkind] at h
    obtain ⟨rfl, rfl⟩ := Program.ends_throw_bind h
    exact .notAMap hsignature hshape hkind rfl
  obtain ⟨entries, rfl⟩ : ∃ entries, kwargs = .map entries := by
    cases kwargs with
    | map entries => exact ⟨entries, rfl⟩
    | _ => cases hkind
  rw [cast_map] at h
  by_cases hnames : shape.missing entries = [] ∧ shape.unknown entries = []
  case neg =>
    rw [if_neg hnames] at h
    obtain ⟨rfl, rfl⟩ := Program.ends_throw_bind h
    exact .wrongNames hsignature hshape rfl (fun name => hcovers.mem_missing_iff)
      (not_and_or.mp hnames) rfl
  -- what the signature demands is then in the map
  have hgiven : ∀ name, signature.Demands name → Entries.find? (Key.text name) entries ≠ none :=
    fun name hname => find?_of_missing_eq_nil hnames.1 ((hcovers.required name).mpr hname)
  rw [if_pos hnames] at h
  obtain ⟨keyword, t₁, t₂, rfl, hcast, hcall⟩ | ⟨e, rfl, hcast⟩ := h.of_bind
  · obtain ⟨reply, rest, rfl, rfl, rfl⟩ := hcall
    exact .called hsignature hshape rfl hgiven hcast (hcovers.keys_of_castFields hgiven hcast)
  · exact .argumentFails hsignature hshape rfl hgiven hcast

end KeywordShape

/-- How an inspected invocation goes: it finds no callable, or it goes on with the one it has
    found. -/
inductive InspectedRun (ctx : Context) (enter enterBelow : Enter) (symbol : Descriptor)
    (expected : String) (path : Path) (v : Value) :
    List Occurrence → Except CastError Value → Prop
  | noCallable {t : List Occurrence} {e : CastError}
      (target : (callTarget enter ctx.config.envelope symbol expected path v).Ends t (.error e)) :
    InspectedRun ctx enter enterBelow symbol expected path v t (.error e)
  | found {envelope : List (Key × Value)} {c : Callable} {t₁ t₂ : List Occurrence}
      {r : Except CastError Value}
      (target : (callTarget enter ctx.config.envelope symbol expected path v).Ends t₁
        (.ok (envelope, c)))
      (call : InspectedCall ctx enterBelow (path ++ [.field ctx.config.envelope.kwargs]) c
        ((Entries.find? (Key.text ctx.config.envelope.kwargs) envelope).getD (.map [])) t₂ r) :
    InspectedRun ctx enter enterBelow symbol expected path v (t₁ ++ t₂) r

/-- The shape for a signature requires every name that has a declaration without a default. These
    are the names of the fields without a default exactly if no later declaration has brought a
    default for one of them. An inspected call is refused for lacking just the required keywords
    that are not given, and if it calls the callable then with a keyword for every declared name. -/
theorem inspected_call_requires {ctx : Context} {enter enterBelow : Enter} {symbol : Descriptor}
    {expected : String} {path : Path} {v : Value} {t : List Occurrence}
    {r : Except CastError Value}
    (h : (castInspectedInvocation ctx enter enterBelow symbol expected path v).Ends t r) :
    (∀ c signature shape, ctx.signatures.get? c = some signature →
      KeywordShape.ofCallable ctx c = .ok shape → shape.Covers signature) ∧
    InspectedRun ctx enter enterBelow symbol expected path v t r := by
  refine ⟨fun c signature shape => KeywordShape.covers_ofCallable, ?_⟩
  obtain ⟨⟨envelope, c⟩, t₁, t₂, rfl, htarget, h⟩ | ⟨e, rfl, htarget⟩ := h.of_bind
  case inr => exact .noCallable htarget
  -- the callable is there; its parameters may still be unusable
  refine .found htarget ?_
  cases hshape : KeywordShape.ofCallable ctx c with
  | error e =>
    simp only [hshape] at h
    obtain ⟨rfl, rfl⟩ := Program.ends_throw_bind h
    exact .unusable hshape
  | ok shape =>
    simp only [hshape] at h
    obtain ⟨signature, -, hsignature, -⟩ := KeywordShape.ofCallable_cases hshape
    exact KeywordShape.inspectedCall_of_ends hsignature hshape h

/-! ## A name that is declared twice -/

/-- A parameter that gets its default with the second declaration. -/
def repeatedSignature : Signature :=
  ⟨[⟨"count", some (.node 5 (.primitive .int)), none⟩,
    ⟨"count", some (.node 5 (.primitive .int)), some (.int 1)⟩]⟩

/-- A context in which the symbol `m.f` leads to a callable with that parameter. -/
def repeatedContext : Context where
  registry := Registry.empty.insert ⟨0, "m", [("f", .callable ⟨0, "f"⟩)]⟩
  signatures := ⟨[(0, repeatedSignature)]⟩

/-- The only field has a default, and is required. -/
def repeatedShape : KeywordShape :=
  ⟨"f" ++ repeatedSignature.render,
    [⟨"count", .node 5 (.primitive .int), some (.value (.int 1))⟩], ["count"]⟩

/-- A call without keywords is refused for the lack of one whose default is known. -/
theorem inspected_call_requires_repeated :
    (repeatedShape.Covers repeatedSignature ∧ ¬ repeatedSignature.Steady) ∧
      (castInspectedInvocation repeatedContext (castAt repeatedContext) (castAt repeatedContext)
        (.node 1 (.symbolPath .unrestricted)) "Call" [] (.map [(.text "fn", .text "m.f")])).Ends
        [.raised 0 (refused [.field "kwargs"] (.map []) repeatedShape.label
          (.keySet ["count"] []))]
        (.error (refused [.field "kwargs"] (.map []) repeatedShape.label
          (.keySet ["count"] []))) ∧
      InspectedRun repeatedContext (castAt repeatedContext) (castAt repeatedContext)
        (.node 1 (.symbolPath .unrestricted)) "Call" [] (.map [(.text "fn", .text "m.f")])
        [.raised 0 (refused [.field "kwargs"] (.map []) repeatedShape.label
          (.keySet ["count"] []))]
        (.error (refused [.field "kwargs"] (.map []) repeatedShape.label
          (.keySet ["count"] []))) := by
  have hends : (castInspectedInvocation repeatedContext (castAt repeatedContext)
      (castAt repeatedContext) (.node 1 (.symbolPath .unrestricted)) "Call" []
      (.map [(.text "fn", .text "m.f")])).Ends
      [.raised 0 (refused [.field "kwargs"] (.map []) repeatedShape.label (.keySet ["count"] []))]
      (.error (refused [.field "kwargs"] (.map []) repeatedShape.label
        (.keySet ["count"] []))) :=
    ⟨[], rfl, rfl, rfl⟩
  obtain ⟨hcovers, hrun⟩ := inspected_call_requires hends
  refine ⟨⟨hcovers ⟨0, "f"⟩ repeatedSignature repeatedShape rfl rfl, fun hsteady => ?_⟩, hends,
    hrun⟩
  -- the name is demanded by its first declaration and has a default in its second
  have hdemands : repeatedSignature.Demands "count" := ⟨_, List.mem_cons_self, rfl, rfl⟩
  cases hsteady "count" hdemands _ rfl

end Conform
