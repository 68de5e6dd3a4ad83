import Conform.Proofs.Cast.Agree
import Conform.Proofs.Cast.Depth

/-!
# Identities of types

A cast reads the identities of nodes in one way only: to see whether the host converts a node. Two
types that are the same but for their identities are cast alike in two contexts that differ in
their conversions, if corresponding nodes have the same converters (`Descriptor.Alike`). What a
converted node is made of is not read at all.

The types of parameters belong to the signatures and not to the type that is cast to, so that the
same is asked of them: of the parameters of every callable that may be called
(`Context.MayCall`).
-/

namespace Conform

/-- The same types but for the identities of the nodes, of which corresponding ones have the same
    converters in the two contexts. What lies below a converted node may be something else, as long
    as the same is written of it. -/
inductive Descriptor.Alike (ctx ctx' : Context) : Descriptor → Descriptor → Prop
  | node {id id' : Nat} {shape : Shape} {parts : List Descriptor}
      (converters : ctx'.converter? id' = ctx.converter? id)
      (length : shape.parts.length = parts.length)
      (alike : ∀ pair ∈ shape.parts.zip parts, Alike ctx ctx' pair.1 pair.2) :
    Alike ctx ctx' (.node id shape) (.node id' (shape.withParts parts))
  | converted {d d' : Descriptor} {c : Converter} (converter : ctx.converter? d.id = some c)
      (converter' : ctx'.converter? d'.id = some c) (render : d'.render = d.render)
      (symbolPath : d'.symbolPath?.isNone = d.symbolPath?.isNone) : Alike ctx ctx' d d'

/-- The callables that an inspected invocation may find: those that are registered, and those that a
    converter may give. -/
inductive Context.MayCall {σ : Type} (answer : (request : Request) → StateM σ request.Reply)
    (ctx : Context) (c : Callable) : Prop
  | registered (root : String) (members : List String)
      (names : ctx.registry.Names root members (.callable c))
  | converted (id : Nat) (converter : Converter) (v : Value) (s : σ)
      (converts : ctx.converter? id = some converter)
      (reply : ((answer (.convert converter v)).run s).1 = .ok (.callable c))

/-- The type is that of a parameter of the callable. -/
def Context.HasParameter (ctx : Context) (c : Callable) (type : Descriptor) : Prop :=
  ∃ signature, ctx.signatures.get? c = some signature ∧ ∃ p ∈ signature.params, p.type? = some type

variable {ctx : Context} {conversions : Conversions} {d d' : Descriptor}

/-! ## Types that are alike -/

/-- Neither the identity nor the parts decide whether a type is a symbol. -/
theorem Shape.symbolPath?_withParts (id id' : Nat) (shape : Shape) (parts : List Descriptor) :
    (Descriptor.node id' (shape.withParts parts)).symbolPath? =
      (Descriptor.node id shape).symbolPath? := by
  unfold withParts
  split <;> rfl

/-- Types that are alike come to the same check, and the same is written of them. -/
theorem Descriptor.Alike.checksAlike (h : d.Alike ctx (ctx.withConversions conversions) d')
    (depth : Nat) : ChecksAlike ctx (ctx.withConversions conversions) depth d d' := by
  -- induction on how the types correspond, for every depth at once
  induction h generalizing depth with
  | @node id id' shape parts hconverters hlength _ ih =>
    have hparts : List.Forall₂ (ChecksAlike ctx (ctx.withConversions conversions) (depth + 1))
        shape.parts parts :=
      List.forall₂_iff_zip.mpr ⟨hlength, fun hmem => ih _ hmem (depth + 1)⟩
    refine ⟨?_, Shape.render_withParts (hparts.imp fun _ _ h => h.render), ?_⟩
    · rw [check, check, Shape.check_withParts hparts, hconverters]
      rfl
    · rw [Shape.symbolPath?_withParts id id']
  | @converted d d' c hconverter hconverter' hrender hsymbol =>
    refine ⟨?_, hrender, hsymbol⟩
    obtain ⟨id, shape⟩ := d
    obtain ⟨id', shape'⟩ := d'
    have hid : ctx.converter? id = some c := hconverter
    have hid' : (ctx.withConversions conversions).converter? id' = some c := hconverter'
    rw [check, check, hid, hid']
    rfl

section Run

variable {σ : Type} {answer : (request : Request) → StateM σ request.Reply}

/-- What the path of an invocation gives may be called. -/
theorem mayCall_of_run {symbol : Descriptor} (hsymbol : symbol.symbolPath?.isSome) {room : Nat}
    {path : Path} {reference : Value} {s s' : σ} {c : Callable}
    (h : ((castWithin ctx room symbol path reference).run answer).run s =
      (.ok (.callable c), s')) : ctx.MayCall answer c := by
  cases room with
  | zero => cases h
  | succ room =>
    -- a callable comes from a converter or from the registry
    cases hconverter : ctx.converter? symbol.id with
    | some converter =>
      rw [castWithin_of_converter hconverter] at h
      exact .converted symbol.id converter reference s hconverter (congrArg Prod.fst h)
    | none =>
      obtain ⟨id, shape⟩ := symbol
      cases shape with
      | symbolPath spec =>
        have hid : ctx.converter? id = none := hconverter
        rw [castWithin_of_no_converter hid, Shape.apply, castSymbol] at h
        cases htext : reference.text? with
        | none => rw [htext] at h; cases h
        | some dotted =>
          rw [htext] at h
          simp only at h
          split at h
          next resolved hresolve =>
            cases h
            obtain ⟨root, members, hnames⟩ := SymbolPath.exists_names_of_resolve hresolve
            exact .registered root members hnames
          all_goals cases h
      -- no other shape is that of a symbol
      | _ => cases hsymbol

/-- A log does not change what may be called. -/
theorem Context.MayCall.of_logged {c : Callable} (h : ctx.MayCall (logged answer) c) :
    ctx.MayCall answer c := by
  cases h with
  | registered root members names => exact .registered root members names
  | converted id converter v s converts reply => exact .converted id converter v s.1 converts reply

/-- The types of parameters are alike if a callable that takes them may be called. -/
def Context.ParametersAlike (answer : (request : Request) → StateM σ request.Reply)
    (ctx ctx' : Context) : Prop :=
  ∀ c, ctx.MayCall answer c → ∀ type, ctx.HasParameter c type → type.Alike ctx ctx' type

/-- The fields of the parameters depend on conversions only through the checks of their types. -/
theorem KeywordShape.parameterFields_withConversions {c : Callable} {signature : Signature}
    {params : List Param} (h : ∀ p ∈ params, ∀ type, p.type? = some type →
      type.check (ctx.withConversions conversions) 0 = type.check ctx 0) :
    parameterFields (ctx.withConversions conversions) c signature params =
      parameterFields ctx c signature params := by
  induction params with
  | nil => rfl
  | cons p rest ih =>
    have ⟨hp, hrest⟩ := List.forall_mem_cons.mp h
    -- the conversions come in only where the type of a parameter is compiled
    rw [parameterFields, parameterFields, ih hrest]
    cases htype : p.type? with
    | none => rfl
    | some type => simp only [hp type htype]

/-- A signature is read in the same way if the types of its parameters are alike. -/
theorem KeywordShape.ofCallable_withConversions {c : Callable}
    (h : ∀ type, ctx.HasParameter c type → type.Alike ctx (ctx.withConversions conversions) type) :
    ofCallable (ctx.withConversions conversions) c = ofCallable ctx c := by
  have hsignatures : (ctx.withConversions conversions).signatures = ctx.signatures := rfl
  rw [ofCallable, ofCallable, hsignatures]
  cases hsignature : ctx.signatures.get? c with
  | none => rfl
  | some signature =>
    -- the types of all parameters are checked alike
    have hcheck : ∀ p ∈ signature.params, ∀ type, p.type? = some type →
        type.check (ctx.withConversions conversions) 0 = type.check ctx 0 :=
      fun p hp type htype => ((h type ⟨signature, hsignature, p, hp, htype⟩).checksAlike 0).check
    simp only [parameterFields_withConversions hcheck]

/-- Types that are alike are cast alike, whatever room there is. -/
theorem castWithin_alike
    (hparameters : ctx.ParametersAlike answer (ctx.withConversions conversions)) (room : Nat)
    (h : d.Alike ctx (ctx.withConversions conversions) d') (hd : d.Usable ctx) (path : Path)
    (v : Value) (s : σ) :
    Program.Agree answer Eq s (castWithin ctx room d path v)
      (castWithin (ctx.withConversions conversions) room d' path v) := by
  -- an inspected invocation reaches its arguments two levels down
  induction room using Nat.strongRecOn generalizing d d' path v s with
  | ind room ih =>
    cases room with
    | zero =>
      rw [castWithin, castWithin, (h.checksAlike 0).render]
      exact .refl (fun _ => rfl) _
    | succ room =>
      -- a union recurses into its alternatives
      induction h generalizing path v s with
      | @converted d d' c hconverter hconverter' =>
        rw [castWithin_of_converter hconverter, castWithin_of_converter hconverter']
        exact .refl (fun _ => rfl) _
      | @node id id' shape parts hconverters hlength halike ihparts =>
        show Program.Agree answer Comparison.exact.similar s _ _
        refine castWithin_node_agree hconverters (fun hconverter => ?_) v s
        obtain ⟨depth, hcheck⟩ := hd.shape hconverter
        have hnode := Descriptor.Alike.node hconverters hlength halike
        refine ⟨(hnode.checksAlike 0).render.symm, ?_, ?_⟩
        · refine List.forall₂_iff_zip.mpr ⟨hlength, fun {d d'} hmem => ?_⟩
          have husable : d.Usable ctx :=
            ⟨depth, Shape.check_parts hcheck d (List.of_mem_zip hmem).1⟩
          refine ⟨((halike _ hmem).checksAlike 0).render.symm, fun room' hroom => ?_⟩
          cases Nat.lt_or_eq_of_le hroom with
          | inl hless => exact ih room' hless (halike _ hmem) husable
          | inr heq => rw [heq]; exact ihparts _ hmem husable
        · rintro symbol rfl reference segment s₁ s₂ c hrun
          have hcall := mayCall_of_run (Shape.check_inspected hcheck) hrun
          refine ⟨KeywordShape.ofCallable_withConversions (hparameters c hcall), ?_⟩
          intro shape hshape f hf segment'
          obtain ⟨hcheck, hparameter⟩ := KeywordShape.type_of_ofCallable hshape hf
          have htype := hparameters c hcall f.type hparameter
          exact ⟨rfl, fun segment => ih (room - 1) (by omega) htype ⟨0, hcheck⟩ _⟩

/-- Types that are alike can be used or not for the same reason. -/
theorem compile_alike (h : d.Alike ctx (ctx.withConversions conversions) d') :
    (compile (ctx.withConversions conversions) d').map (fun _ => ()) =
      (compile ctx d).map fun _ => () := by
  rw [compile, compile, (h.checksAlike 0).check]
  cases d.check ctx 0 <;> rfl

/-- Types that are alike give the same outcome and the same requests, compilation included. -/
theorem castRun_alike
    (hparameters : ctx.ParametersAlike answer (ctx.withConversions conversions))
    (h : d.Alike ctx (ctx.withConversions conversions) d') (v : Value) (s : σ) :
    castRun answer s (ctx.withConversions conversions) d' v = castRun answer s ctx d v := by
  have hcheck : d'.check (ctx.withConversions conversions) 0 = d.check ctx 0 :=
    (h.checksAlike 0).check
  -- both are refused by the same check, or both compile
  cases hd : d.check ctx 0 with
  | error e =>
    have hd' := hcheck.trans hd
    rw [castRun, castRun, cast, cast, compile, compile, hd, hd']
    rfl
  | ok _ =>
    have hcompile : compile ctx d = .ok ⟨d, ctx⟩ := by rw [compile, hd]; rfl
    have hcompile' : compile (ctx.withConversions conversions) d' =
        .ok ⟨d', ctx.withConversions conversions⟩ := by rw [compile, hcheck, hd]; rfl
    rw [castRun_of_compile hcompile, castRun_of_compile hcompile']
    have hlogged : ctx.ParametersAlike (logged answer) (ctx.withConversions conversions) :=
      fun c hcall => hparameters c hcall.of_logged
    exact (castWithin_alike hlogged _ h ⟨0, hd⟩ [] v (s, [])).eq.symm

/-! ## Other conversions -/

/-- A converter registered for one identity is not seen at another. -/
theorem Conversions.get?_insert_of_ne {id : Nat} {e : Descriptor} (h : id ≠ e.id)
    (converter : Converter) : (conversions.insert e converter).get? id = conversions.get? id := by
  have hne : (e.id == id) = false := beq_false_of_ne (Ne.symm h)
  -- what is removed was registered for the other identity
  have hfilter : ∀ entry : Descriptor × Converter,
      (entry.1.id != e.id && entry.1.id == id) = (entry.1.id == id) := by
    intro entry
    cases hid : entry.1.id == id with
    | false => rw [Bool.and_false]
    | true => rw [beq_iff_eq.mp hid, bne_iff_ne.mpr h, Bool.and_true]
  simp only [get?, insert, List.find?_append, List.find?_filter, Bool.decide_and,
    Bool.decide_eq_true, hfilter, List.find?_singleton, hne,
    Bool.false_eq_true, if_false, Option.or_none]

/-- A type without a node of this identity. -/
def Descriptor.Lacks (d : Descriptor) (id : Nat) : Prop :=
  d.Everywhere fun other _ => other ≠ id

/-- A type is like itself if its nodes have the same converters. -/
theorem Descriptor.Everywhere.alike {ctx' : Context}
    (h : d.Everywhere fun id _ => ctx'.converter? id = ctx.converter? id) : d.Alike ctx ctx' d := by
  induction h with
  | @node id shape hroot hparts ih =>
    have hzip : List.Forall₂ (Alike ctx ctx') shape.parts shape.parts := List.forall₂_same.mpr ih
    have halike := Alike.node hroot rfl fun _ hmem => (List.forall₂_iff_zip.mp hzip).2 hmem
    rwa [Shape.withParts_parts] at halike

/-- Another conversion leaves a type as it is that lacks the node. -/
theorem Descriptor.Lacks.alike {e : Descriptor} (h : d.Lacks e.id) (converter : Converter) :
    d.Alike ctx (ctx.withConversions (ctx.conversions.insert e converter)) d := by
  refine Everywhere.alike ?_
  induction h with
  | node hroot _ ih => exact .node (Conversions.get?_insert_of_ne hroot converter) ih

/-- A converted type can be used whatever it is made of, unless no types can be used. -/
theorem Descriptor.check_of_converter {c : Converter} (h : ctx.converter? d.id = some c)
    (hdepth : 0 < ctx.config.limits.maxDescriptorDepth) : d.check ctx 0 = .ok () := by
  obtain ⟨id, shape⟩ := d
  have hid : ctx.converter? id = some c := h
  rw [check, hid, if_neg (by omega)]
  rfl

/-- Of the identities of types, only those matter that have converters. Types that are the same but
    for their identities can be used or not for the same reason, and are cast alike, if
    corresponding nodes have the same converters, and so have the nodes of the types of parameters
    that a cast may come to. A conversion for a node of none of these types changes no cast. A
    converter replaces the rule of its type wherever that is cast, and what the type is made of does
    not matter. -/
theorem only_converted_identities_matter (answer : (request : Request) → StateM σ request.Reply)
    (ctx : Context) :
    (∀ conversions, ctx.ParametersAlike answer (ctx.withConversions conversions) →
      ∀ d d', d.Alike ctx (ctx.withConversions conversions) d' →
        (compile (ctx.withConversions conversions) d').map (fun _ => ()) =
          (compile ctx d).map (fun _ => ()) ∧
        ∀ v s, castRun answer s (ctx.withConversions conversions) d' v =
          castRun answer s ctx d v) ∧
    (∀ e converter d, d.Lacks e.id →
      (∀ c, ctx.MayCall answer c → ∀ type, ctx.HasParameter c type → type.Lacks e.id) →
        ∀ v s, castRun answer s (ctx.withConversions (ctx.conversions.insert e converter)) d v =
          castRun answer s ctx d v) ∧
    (∀ e converter, ctx.converter? e.id = some converter →
      (∀ room path v, castWithin ctx (room + 1) e path v = Program.convert converter v) ∧
      (0 < ctx.config.limits.maxDescriptorDepth →
        ∀ v, cast ctx e v = Program.convert converter v)) := by
  refine ⟨fun conversions hparameters d d' h => ?_, fun e converter d hd hparameters v s => ?_,
    fun e converter h => ⟨castWithin_of_converter h, fun hdepth v => ?_⟩⟩
  · exact ⟨compile_alike h, castRun_alike hparameters h⟩
  -- a type without the identity is like itself under both sets of conversions
  · have halike : ctx.ParametersAlike answer
        (ctx.withConversions (ctx.conversions.insert e converter)) :=
      fun c hcall type htype => (hparameters c hcall type htype).alike converter
    exact castRun_alike halike (hd.alike converter) v s
  -- a converted type compiles whatever it contains
  · have hcompile : compile ctx e = .ok ⟨e, ctx⟩ := by
      rw [compile, Descriptor.check_of_converter h hdepth]
      rfl
    rw [cast, hcompile]
    exact castWithin_of_converter h _ [] v

end Run

/-! ## Calls with other identities -/

/-- `callType` with other identities. -/
def otherCallType : Descriptor :=
  .node 11 (.inspectedInvocation (.node 10 (.symbolPath .unrestricted)))

/-- Conversions of the symbols with an identity, and of the rows of numbers. -/
def symbolConversions (symbol : Nat) : Conversions :=
  ⟨[(.node symbol (.symbolPath .unrestricted), ⟨0⟩), (.node 6 (.listOf (.node 7 .decimal)), ⟨1⟩)]⟩

/-- The symbol and the rows are converted under either identity of the symbol, and a conversion for
    another node changes nothing. -/
theorem only_converted_identities_matter_rows :
    (oneParameterContext rowsType (symbolConversions 0)).ParametersAlike callableHost
        (oneParameterContext rowsType (symbolConversions 10)) ∧
      callType.Alike (oneParameterContext rowsType (symbolConversions 0))
        (oneParameterContext rowsType (symbolConversions 10)) otherCallType ∧
      castRun callableHost () (oneParameterContext rowsType (symbolConversions 10)) otherCallType
          callWithRow =
        castRun callableHost () (oneParameterContext rowsType (symbolConversions 0)) callType
          callWithRow ∧
      callType.Lacks 99 ∧ rowsType.Lacks 99 ∧
      castRun callableHost () (oneParameterContext rowsType
          ((symbolConversions 0).insert (.node 99 .any) ⟨2⟩)) callType callWithRow =
        castRun callableHost () (oneParameterContext rowsType (symbolConversions 0)) callType
          callWithRow := by
  -- the parameter of the registered callable is the list of rows, with the converter that it has in
  -- both
  have hparameters : (oneParameterContext rowsType (symbolConversions 0)).ParametersAlike
      callableHost (oneParameterContext rowsType (symbolConversions 10)) := by
    rintro c - type ⟨signature, hsignature, p, hp, htype⟩
    rw [eq_of_mem_oneParameterContext hsignature hp htype]
    refine Descriptor.Everywhere.alike ?_
    simp only [rowsType, Descriptor.everywhere_node, Shape.parts, List.forall_mem_singleton,
      List.not_mem_nil, false_implies, implies_true, and_true]
    exact ⟨rfl, rfl, rfl⟩
  have halike : callType.Alike (oneParameterContext rowsType (symbolConversions 0))
      (oneParameterContext rowsType (symbolConversions 10)) otherCallType := by
    -- the symbol is converted under its new identity as it was under the old one
    have hsymbol : (Descriptor.node 0 (.symbolPath .unrestricted)).Alike
        (oneParameterContext rowsType (symbolConversions 0))
        (oneParameterContext rowsType (symbolConversions 10))
        (.node 10 (.symbolPath .unrestricted)) := .converted rfl rfl rfl rfl
    show Descriptor.Alike _ _ _ (.node 11
      ((Shape.inspectedInvocation (.node 0 (.symbolPath .unrestricted))).withParts
        [.node 10 (.symbolPath .unrestricted)]))
    exact .node rfl rfl (List.forall_mem_singleton.mpr hsymbol)
  have hcall : callType.Lacks 99 := by
    simp [Descriptor.Lacks, callType, Descriptor.everywhere_node, Shape.parts]
  have hrows : rowsType.Lacks 99 := by
    simp [Descriptor.Lacks, rowsType, Descriptor.everywhere_node, Shape.parts]
  have hmatter := only_converted_identities_matter callableHost
    (oneParameterContext rowsType (symbolConversions 0))
  refine ⟨hparameters, halike, (hmatter.1 (symbolConversions 10) hparameters _ _ halike).2 _ (),
    hcall, hrows, hmatter.2.1 (.node 99 .any) ⟨2⟩ callType hcall ?_ _ ()⟩
  rintro c - type ⟨signature, hsignature, p, hp, htype⟩
  rw [eq_of_mem_oneParameterContext hsignature hp htype]
  exact hrows

/-- The type of the parameter in `convertedContext`. -/
def rowsOrAny : Descriptor := .node 8 (.unionOf [rowsType, .node 9 .any])

/-- It is not enough that the parameters of the registered callables have types that are alike. A
    converter may give a callable that is not registered, and a conversion of what it takes changes
    the call. -/
theorem not_only_converted_identities_of_registered :
    callType.Alike convertedContext (convertedContext.withConversions
        (convertedContext.conversions.insert rowsOrAny ⟨1⟩)) callType ∧
      (∀ root members c, convertedContext.registry.Names root members (.callable c) →
        ∀ type, convertedContext.HasParameter c type →
          type.Alike convertedContext (convertedContext.withConversions
            (convertedContext.conversions.insert rowsOrAny ⟨1⟩)) type) ∧
      castRun callableHost () (convertedContext.withConversions
          (convertedContext.conversions.insert rowsOrAny ⟨1⟩)) callType callWithRow ≠
        castRun callableHost () convertedContext callType callWithRow := by
  -- the type of the call does not contain the type that is registered in addition
  have hcall : callType.Lacks 8 := by
    simp [Descriptor.Lacks, callType, Descriptor.everywhere_node, Shape.parts]
  refine ⟨hcall.alike ⟨1⟩, ?_, fun h => ?_⟩
  · -- nothing is registered
    rintro root members c ⟨n, hroot, -⟩
    cases hroot
  · -- the argument is converted, against rows of numbers
    cases congrArg Prod.fst h

end Conform
