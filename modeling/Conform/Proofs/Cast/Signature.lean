import Conform.Proofs.Cast.Rules

/-!
# Signatures as fields

A signature whose parameters are all typed and have distinct names declares the fields of a record.
`ofCallable_eq` says that casting by a signature takes just these fields, and `fillDefaults_eq_self`
that no default is left to fill in behind them.
-/

namespace Conform

/-- The field that a typed parameter declares. -/
def Param.field? (p : Param) : Option (Field Descriptor) :=
  p.type?.map fun type => ⟨p.name, type, p.default?.map .value⟩

/-- The parameters declare the fields, in order. -/
abbrev Declare (params : List Param) (fields : List (Field Descriptor)) : Prop :=
  List.Forall₂ (fun p f => p.field? = some f) params fields

/-- The field of a parameter has its type, its name and its default. -/
theorem Param.eq_of_field? {p : Param} {f : Field Descriptor} (h : p.field? = some f) :
    p.type? = some f.type ∧ f.name = p.name ∧ f.default? = p.default?.map .value := by
  obtain ⟨type, htype, rfl⟩ := Option.map_eq_some_iff.mp h
  exact ⟨htype, rfl, rfl⟩

/-- A field has a default when the parameter has one. -/
theorem Param.default?_eq_none_iff {p : Param} {f : Field Descriptor} (h : p.field? = some f) :
    f.default? = none ↔ p.default? = none := by
  rw [(eq_of_field? h).2.2, Option.map_eq_none_iff]

/-- The names of the fields are those of the parameters. -/
theorem map_name_of_declare {params : List Param} {fields : List (Field Descriptor)}
    (h : Declare params fields) : fields.map Field.name = params.map Param.name := by
  induction h with
  | nil => rfl
  | cons hf _ ih =>
    rw [List.map_cons, List.map_cons, ih, (Param.eq_of_field? hf).2.1]

/-- Every parameter has its field. -/
theorem exists_of_declare {params : List Param} {fields : List (Field Descriptor)}
    (h : Declare params fields) {p : Param} (hp : p ∈ params) :
    ∃ f ∈ fields, p.field? = some f := by
  induction h with
  | nil => cases hp
  | @cons q f _ _ hf _ ih =>
    cases List.mem_cons.mp hp with
    | inl h => subst h; exact ⟨f, List.mem_cons_self, hf⟩
    | inr h =>
      obtain ⟨g, hg, hfield⟩ := ih h
      exact ⟨g, List.mem_cons_of_mem f hg, hfield⟩

/-- Every field has its parameter. -/
theorem exists_param_of_declare {params : List Param} {fields : List (Field Descriptor)}
    (h : Declare params fields) {f : Field Descriptor} (hf : f ∈ fields) :
    ∃ p ∈ params, p.field? = some f := by
  induction h with
  | nil => cases hf
  | @cons p g _ _ hp _ ih =>
    cases List.mem_cons.mp hf with
    | inl h => subst h; exact ⟨p, List.mem_cons_self, hp⟩
    | inr h =>
      obtain ⟨q, hq, hfield⟩ := ih h
      exact ⟨q, List.mem_cons_of_mem p hq, hfield⟩

/-- Where every parameter has a type, the fields are theirs once the types are checked. -/
theorem KeywordShape.parameterFields_eq {ctx : Context} {c : Callable} {signature : Signature}
    {params : List Param} {fields : List (Field Descriptor)} (h : Declare params fields) :
    parameterFields ctx c signature params = (checkFields ctx 0 fields).map fun _ => fields := by
  induction h with
  | nil => rfl
  | @cons p f params fields hf _ ih =>
    obtain ⟨type, htype, rfl⟩ := Option.map_eq_some_iff.mp hf
    simp only [parameterFields, htype, checkFields, ih]
    cases type.check ctx 0 with
    | error e => rfl
    | ok _ => cases checkFields ctx 0 fields <;> rfl

/-- The fields of parameters are only given if all of them are typed and their types can be used. -/
theorem KeywordShape.declare_of_parameterFields {ctx : Context} {c : Callable}
    {signature : Signature} {params : List Param} {fields : List (Field Descriptor)}
    (h : parameterFields ctx c signature params = .ok fields) :
    Declare params fields ∧ ∀ f ∈ fields, f.type.check ctx 0 = .ok () := by
  induction params generalizing fields with
  | nil => cases h; exact ⟨.nil, fun _ hf => absurd hf List.not_mem_nil⟩
  | cons p rest ih =>
    rw [parameterFields] at h
    cases htype : p.type? with
    | none => rw [htype] at h; cases h
    | some type =>
      rw [htype] at h
      simp only at h
      -- a parameter is declared once its type has been checked
      cases hcheck : type.check ctx 0 with
      | error e => rw [hcheck] at h; cases h
      | ok _ =>
        rw [hcheck] at h
        cases hrest : parameterFields ctx c signature rest with
        | error e => rw [hrest] at h; cases h
        | ok others =>
          rw [hrest] at h
          cases h
          obtain ⟨hdeclare, hall⟩ := ih hrest
          refine ⟨.cons ?_ hdeclare, List.forall_mem_cons.mpr ⟨hcheck, hall⟩⟩
          rw [Param.field?, htype]
          rfl

/-- A signature casts its fields, once their types have been checked. -/
theorem KeywordShape.ofCallable_eq {ctx : Context} {c : Callable} {signature : Signature}
    {fields : List (Field Descriptor)} (hsignature : ctx.signatures.get? c = some signature)
    (hdeclares : Declare signature.params fields)
    (hnames : (signature.params.map Param.name).Nodup) :
    ofCallable ctx c = (checkFields ctx 0 fields).map fun _ =>
      ⟨c.name ++ signature.render, fields, Field.requiredNames fields⟩ := by
  rw [ofCallable, hsignature]
  simp only [parameterFields_eq hdeclares]
  cases checkFields ctx 0 fields with
  | error e => rfl
  | ok _ =>
    -- no name is declared twice, so that no declaration replaces another
    rw [← map_name_of_declare hdeclares] at hnames
    show Except.ok (KeywordShape.mk _ (Field.declareAll fields) _) = _
    rw [Field.declareAll_of_nodup hnames]
    rfl

/-- A callable with a shape has a signature. Its declarations are gone through one by one for what
    is required, and a field that is declared again is replaced. -/
theorem KeywordShape.ofCallable_cases {ctx : Context} {c : Callable} {shape : KeywordShape}
    (h : ofCallable ctx c = .ok shape) :
    ∃ signature declarations, ctx.signatures.get? c = some signature ∧
      Declare signature.params declarations ∧
      (∀ f ∈ declarations, f.type.check ctx 0 = .ok ()) ∧
      shape.fields = Field.declareAll declarations ∧
      shape.required = Field.requiredNames declarations := by
  rw [ofCallable] at h
  -- without a signature there is no shape, and with one its parameters have been checked
  cases hsignature : ctx.signatures.get? c with
  | none => rw [hsignature] at h; cases h
  | some signature =>
    rw [hsignature] at h
    simp only at h
    cases hfields : parameterFields ctx c signature signature.params with
    | error e => rw [hfields] at h; cases h
    | ok declarations =>
      rw [hfields] at h
      cases h
      obtain ⟨hdeclare, hcheck⟩ := declare_of_parameterFields hfields
      exact ⟨signature, declarations, rfl, hdeclare, hcheck, rfl, rfl⟩

/-- The types of parameters that are cast to can be used, and they are those of the signature. -/
theorem KeywordShape.type_of_ofCallable {ctx : Context} {c : Callable} {shape : KeywordShape}
    (h : ofCallable ctx c = .ok shape) {f : Field Descriptor} (hf : f ∈ shape.fields) :
    f.type.check ctx 0 = .ok () ∧ ∃ signature, ctx.signatures.get? c = some signature ∧
      ∃ p ∈ signature.params, p.type? = some f.type := by
  obtain ⟨signature, declarations, hsignature, hdeclare, hcheck, hfields, -⟩ := ofCallable_cases h
  have hmem : f ∈ declarations := by
    rw [hfields] at hf
    exact Field.mem_of_mem_declareAll hf
  obtain ⟨p, hp, hfield⟩ := exists_param_of_declare hdeclare hmem
  exact ⟨hcheck f hmem, signature, hsignature, p, hp, (Param.eq_of_field? hfield).1⟩

/-- The default of a parameter is a value, which the host need not make. -/
theorem KeywordShape.default_of_ofCallable {ctx : Context} {c : Callable} {shape : KeywordShape}
    (h : ofCallable ctx c = .ok shape) {f : Field Descriptor} (hf : f ∈ shape.fields) {d : Default}
    (hd : f.default? = some d) : ∃ v, d = .value v := by
  obtain ⟨signature, declarations, -, hdeclare, -, hfields, -⟩ := ofCallable_cases h
  rw [hfields] at hf
  obtain ⟨p, -, hfield⟩ := exists_param_of_declare hdeclare (Field.mem_of_mem_declareAll hf)
  rw [(Param.eq_of_field? hfield).2.2] at hd
  obtain ⟨v, -, rfl⟩ := Option.map_eq_some_iff.mp hd
  exact ⟨v, rfl⟩

/-! ## Filling in defaults -/

/-- Where every default is covered, nothing is filled in. -/
theorem fillDefaults_eq_self {signature : Signature} {keyword : List (String × Value)}
    (h : ∀ p ∈ signature.params, ∀ v, p.default? = some v →
      Entries.contains p.name keyword = true) :
    fillDefaults (some signature) 0 keyword = keyword := by
  obtain ⟨params⟩ := signature
  show params.foldl _ keyword = keyword
  induction params with
  | nil => rfl
  | cons p rest ih =>
    have ⟨hp, hrest⟩ := List.forall_mem_cons.mp h
    rw [List.foldl_cons]
    -- the first parameter adds nothing, whether or not it has a default
    cases hdefault : p.default? with
    | none => exact ih hrest
    | some v =>
      simp only [hp v hdefault, if_true]
      exact ih hrest

/-- A field is taken over unless it is absent. -/
theorem Filled.contains {present supplied : Field Descriptor → Value → Prop}
    {absent : Field Descriptor → Prop} {fields : List (Field Descriptor)}
    {ws : List (String × Value)} (h : Filled present supplied absent fields ws)
    {f : Field Descriptor} (hf : f ∈ fields) (habsent : ¬ absent f) :
    Entries.contains f.name ws = true := by
  induction h with
  | nil => cases hf
  | present _ _ ih | supplied _ _ ih =>
    rw [Entries.contains, List.any_cons, Bool.or_eq_true]
    cases List.mem_cons.mp hf with
    | inl h => left; subst h; exact beq_self_eq_true _
    | inr h => right; exact ih h
  -- the field in question is not the one that is left out
  | absent head _ ih =>
    cases List.mem_cons.mp hf with
    | inl h => subst h; exact absurd head habsent
    | inr h => exact ih h

/-- The keyword arguments that are cast to the fields of a signature cover its defaults. -/
theorem fillDefaults_cast {enter : Enter} {path : Path} {v : Value} {shape : KeywordShape}
    {signature : Signature} (hdeclare : Declare signature.params shape.fields) :
    (shape.cast enter path v).Yields (fun _ _ => True)
      (fun keyword => fillDefaults (some signature) 0 keyword = keyword) (fun _ => True) := by
  refine (KeywordShape.cast_yields (fun _ _ _ _ _ _ => Program.yields_any _)
    (fun _ _ _ _ => Program.yields_any _) (fun _ => trivial) fun _ _ _ => trivial).imp ?_
  rintro keyword ⟨entries, -, -, hfilled⟩
  refine fillDefaults_eq_self fun p hp v hv => ?_
  obtain ⟨f, hf, hfield⟩ := exists_of_declare hdeclare hp
  obtain ⟨-, hname, hdefault⟩ := Param.eq_of_field? hfield
  rw [← hname]
  refine hfilled.contains hf fun habsent => ?_
  -- an absent field has no default, but this one has that of its parameter
  have hnone : f.default? = none := habsent.2
  rw [hnone, hv] at hdefault
  cases hdefault

end Conform
