import Conform.Proofs.Cast.Signature
import Conform.Proofs.Descriptor.Parts
import Conform.Proofs.Program.Trace

/-!
# Which failures end a cast

The rules of the types are orderly: no rule but that of a union goes on behind a failure. So a
failure that no open union catches is the last thing that happens in a cast, and its outcome, and a
cast fails with a failure of the host only if the host has failed with it.

The unions that are open around an occurrence are those of the type. `Descriptor.LeadsTo` counts
them on the way from a type down to another, and `Descriptor.Asks` says what the rule of a type asks
of the host itself. Whatever happens in a cast lies in its type with as many unions around it
(`Occurrence.LiesIn`). Main statement: `cast_ends_at_failure`.
-/

namespace Conform

/-! ## Where things happen in a type -/

/-- A union of types. -/
def Shape.isUnion : Shape → Bool
  | unionOf _ => true
  | _ => false

/-- A cast to a type leads to another type, below which as many unions are open as the number says.
    A union is opened around its alternatives and by nothing else. Below a type that the host
    converts nothing is cast, and the parameters of a callable lie below the call. -/
inductive Descriptor.LeadsTo (ctx : Context) : Descriptor → Nat → Descriptor → Prop
  | here (d : Descriptor) : LeadsTo ctx d 0 d
  | part {id n : Nat} {shape : Shape} {d d' : Descriptor} (plain : ctx.converter? id = none)
      (noUnion : shape.isUnion = false) (part : d ∈ shape.parts) (rest : LeadsTo ctx d n d') :
      LeadsTo ctx (.node id shape) n d'
  | alternative {id n : Nat} {alternatives : List Descriptor} {d d' : Descriptor}
      (plain : ctx.converter? id = none) (alternative : d ∈ alternatives)
      (rest : LeadsTo ctx d n d') : LeadsTo ctx (.node id (.unionOf alternatives)) (n + 1) d'
  | parameter {id n : Nat} {symbol d d' : Descriptor} {c : Callable} {signature : Signature}
      {p : Param} (plain : ctx.converter? id = none)
      (signed : ctx.signatures.get? c = some signature) (declared : p ∈ signature.params)
      (typed : p.type? = some d) (rest : LeadsTo ctx d n d') :
      LeadsTo ctx (.node id (.inspectedInvocation symbol)) n d'

/-- What the rule of a type asks of the host by itself: its conversion, or else the constructor and
    the factories of a record and the calls of an invocation. -/
inductive Descriptor.Asks (ctx : Context) : Descriptor → Request → Prop
  | conversion {id : Nat} {shape : Shape} {c : Converter} (registered : ctx.converter? id = some c)
      (v : Value) : Asks ctx (.node id shape) (.convert c v)
  | construction {id : Nat} {name : String} {fields : List (Field Descriptor)} {c : Callable}
      (plain : ctx.converter? id = none) (arguments : List (String × Value)) :
      Asks ctx (.node id (.record name fields (some c))) (.call c [] arguments)
  | default {id : Nat} {name : String} {fields : List (Field Descriptor)}
      {constructor? : Option Callable} {f : Field Descriptor} {factory : Factory}
      (plain : ctx.converter? id = none) (declared : f ∈ fields)
      (default : f.default? = some (.factory factory)) :
      Asks ctx (.node id (.record name fields constructor?)) (.produce factory)
  | invocation {id : Nat} {symbol args kwargs : Descriptor} (plain : ctx.converter? id = none)
      (c : Callable) (positional : List Value) (keyword : List (String × Value)) :
      Asks ctx (.node id (.invocation symbol args kwargs)) (.call c positional keyword)
  | inspected {id : Nat} {symbol : Descriptor} (plain : ctx.converter? id = none) (c : Callable)
      (keyword : List (String × Value)) :
      Asks ctx (.node id (.inspectedInvocation symbol)) (.call c [] keyword)

namespace Occurrence

/-- Something happens at a type inside another one, with just those unions open that lie between the
    two. A request is one that the rule of the inner type puts. -/
def LiesIn (ctx : Context) (d : Descriptor) (x : Occurrence) : Prop :=
  ∃ d', d.LeadsTo ctx x.unions d' ∧ ∀ request, x.request? = some request → d'.Asks ctx request

variable {ctx : Context} {d : Descriptor} {x : Occurrence} {id : Nat}

/-- A failure of the cast itself lies anywhere. -/
theorem liesIn_raised (e : CastError) : (raised 0 e).LiesIn ctx d :=
  ⟨d, .here d, fun _ h => by cases h⟩

/-- A request that the rule of a type makes lies in that type, with no union around it. -/
theorem liesIn_asked {request : Request} (h : d.Asks ctx request) (reply : request.Reply) :
    (asked 0 request reply).LiesIn ctx d :=
  ⟨d, .here d, fun _ heq => by cases heq; exact h⟩

/-- What lies in a part lies in the whole. -/
theorem LiesIn.part {shape : Shape} (hplain : ctx.converter? id = none)
    (hunion : shape.isUnion = false) (hd : d ∈ shape.parts) (h : x.LiesIn ctx d) :
    x.LiesIn ctx (.node id shape) := by
  obtain ⟨d', hleads, hasks⟩ := h
  exact ⟨d', .part hplain hunion hd hleads, hasks⟩

/-- What lies in an alternative lies in the union, which is open around it. -/
theorem LiesIn.alternative {alternatives : List Descriptor} (hplain : ctx.converter? id = none)
    (hd : d ∈ alternatives) (h : x.LiesIn ctx d) :
    x.inUnion.LiesIn ctx (.node id (.unionOf alternatives)) := by
  obtain ⟨d', hleads, hasks⟩ := h
  refine ⟨d', ?_, ?_⟩
  · rw [unions_inUnion]
    exact .alternative hplain hd hleads
  · cases x with
    | asked => exact hasks
    | raised => exact hasks

/-- What lies in the type of a parameter lies in the invocation that casts to it. -/
theorem LiesIn.parameter {symbol : Descriptor} {c : Callable} {shape : KeywordShape}
    (hplain : ctx.converter? id = none) (hshape : KeywordShape.ofCallable ctx c = .ok shape)
    {f : Field Descriptor} (hf : f ∈ shape.fields) (h : x.LiesIn ctx f.type) :
    x.LiesIn ctx (.node id (.inspectedInvocation symbol)) := by
  obtain ⟨d', hleads, hasks⟩ := h
  obtain ⟨-, signature, hsignature, p, hp, htype⟩ := KeywordShape.type_of_ofCallable hshape hf
  exact ⟨d', .parameter hplain hsignature hp htype hleads, hasks⟩

end Occurrence

/-! ## Scalars and containers -/

section Rules

open Program

variable {ctx : Context} {enter enterBelow : Enter} {path : Path} {v : Value} {expected : String}
  {may : Occurrence → Prop} (hraised : ∀ e, may (.raised 0 e))

include hraised

/-- A refusal ends a rule. -/
theorem mismatch_orderly {α : Type} {reason : Mismatch} :
    (mismatch path v expected reason : Program α).Orderly may :=
  orderly_throw (hraised _) fun _ h => by cases h

/-- A value is returned as it is or refused, and nothing is asked. -/
theorem castUnchanged_orderly {holds : Bool} {reason : Mismatch} :
    (castUnchanged holds reason expected path v).Orderly may := by
  cases holds with
  | true => exact orderly_pure v
  | false => exact mismatch_orderly hraised

/-- A number is made a decimal or refused, and nothing is asked. -/
theorem castDecimal_orderly : (castDecimal expected path v).Orderly may := by
  rw [castDecimal]
  cases v.toDecimal with
  | ok d => exact orderly_pure _
  | error reason => exact mismatch_orderly hraised

omit hraised in
/-- The first item that fails is the last one that is cast. -/
theorem castItems_orderly {element : Descriptor}
    (henter : ∀ path v, (enter element path v).Orderly may) {i : Nat} {items : List Value} :
    (castItems enter element path i items).Orderly may := by
  induction items generalizing i with
  | nil => exact orderly_pure []
  | cons x rest ih => exact (henter _ _).bind fun _ => ih.bind fun _ => orderly_pure _

/-- A collection raises what its items raise, or refuses the value. -/
theorem castElements_orderly {element : Descriptor}
    (henter : ∀ path v, (enter element path v).Orderly may) :
    (castElements enter element expected path v).Orderly may := by
  rw [castElements]
  cases v.elements? with
  | some items => exact castItems_orderly henter
  | none => exact mismatch_orderly hraised

/-- The first item without a key is refused, after all were cast. -/
theorem hashItems_orderly {element : Descriptor} {i : Nat} {items : List Value} :
    (hashItems element path i items).Orderly may := by
  induction items generalizing i with
  | nil => exact orderly_pure []
  | cons x rest ih =>
    rw [hashItems]
    cases x.toKey? with
    | some k => exact ih.bind fun _ => orderly_pure _
    | none => exact mismatch_orderly hraised

/-- The elements come first, their keys after them. -/
theorem castSet_orderly {element : Descriptor}
    (henter : ∀ path v, (enter element path v).Orderly may) :
    (castSet enter element expected path v).Orderly may :=
  (castElements_orderly hraised henter).bind fun _ =>
    (hashItems_orderly hraised).bind fun _ => orderly_pure _

/-- A key that fails is not followed by its value, and neither by another entry. -/
theorem castEntries_orderly {key value : Descriptor}
    (hkey : ∀ path v, (enter key path v).Orderly may)
    (hvalue : ∀ path v, (enter value path v).Orderly may) {entries : List (Key × Value)} :
    (castEntries enter key value path entries).Orderly may := by
  induction entries with
  | nil => exact orderly_pure []
  | cons entry rest ih =>
    obtain ⟨k, x⟩ := entry
    rw [castEntries]
    refine (hkey _ _).bind fun castKey => ?_
    -- a key without a key form is refused after it has been cast
    cases castKey.toKey? with
    | some newKey => exact (hvalue _ _).bind fun _ => ih.bind fun _ => orderly_pure _
    | none => exact mismatch_orderly hraised

/-- A map raises what its keys and values raise. -/
theorem castMap_orderly {key value : Descriptor}
    (hkey : ∀ path v, (enter key path v).Orderly may)
    (hvalue : ∀ path v, (enter value path v).Orderly may) :
    (castMap enter key value expected path v).Orderly may := by
  unfold castMap
  split
  · exact (castEntries_orderly hraised hkey hvalue).bind fun _ => orderly_pure _
  · exact mismatch_orderly hraised

omit hraised in
/-- Each element of a tuple is cast by its own type. -/
theorem castEach_orderly {elements : List Descriptor}
    (henter : ∀ d ∈ elements, ∀ path v, (enter d path v).Orderly may) {i : Nat}
    {items : List Value} : (castEach enter path i elements items).Orderly may := by
  -- for lists of any lengths: the shorter one ends it
  induction elements generalizing i items with
  | nil => exact orderly_pure []
  | cons element rest ih =>
    have ⟨helement, hrest⟩ := List.forall_mem_cons.mp henter
    cases items with
    | nil => exact orderly_pure []
    | cons x items => exact (helement _ _).bind fun _ => (ih hrest).bind fun _ => orderly_pure _

/-- A tuple raises what its elements raise, once the length is right. -/
theorem castTuple_orderly {elements : List Descriptor}
    (henter : ∀ d ∈ elements, ∀ path v, (enter d path v).Orderly may) :
    (castTuple enter elements expected path v).Orderly may := by
  rw [castTuple]
  cases v.sequence? with
  | some items =>
    simp only
    split
    · exact (castEach_orderly henter).bind fun _ => orderly_pure _
    · exact mismatch_orderly hraised
  | none => exact mismatch_orderly hraised

/-! ## Named fields -/

omit hraised in
/-- The first field that fails is the last one that is cast or made. -/
theorem castFields_orderly {entries : List (Key × Value)} {fields : List (Field Descriptor)}
    (henter : ∀ f ∈ fields, ∀ path v, (enter f.type path v).Orderly may)
    (hdefault : ∀ f ∈ fields, ∀ d, f.default? = some d → (produce d).Orderly may) :
    (KeywordShape.castFields enter path entries fields).Orderly may := by
  induction fields with
  | nil => exact orderly_pure []
  | cons f rest ih =>
    have ⟨hf, hrest⟩ := List.forall_mem_cons.mp henter
    have ⟨hd, hrestDefault⟩ := List.forall_mem_cons.mp hdefault
    have htail := ih hrest hrestDefault
    rw [KeywordShape.castFields]
    cases Entries.find? (Key.text f.name) entries with
    | some x => exact (hf _ _).bind fun _ => htail.bind fun _ => orderly_pure _
    | none =>
      simp only
      -- the field is missing: its default is made, which may ask the host
      cases hdefault? : f.default? with
      | some d => exact (hd d hdefault?).bind fun _ => htail.bind fun _ => orderly_pure _
      | none => exact htail

/-- Fields and defaults may ask the host; keys that do not fit are refused before. -/
theorem KeywordShape.cast_orderly {shape : KeywordShape}
    (henter : ∀ f ∈ shape.fields, ∀ path v, (enter f.type path v).Orderly may)
    (hdefault : ∀ f ∈ shape.fields, ∀ d, f.default? = some d → (produce d).Orderly may) :
    (shape.cast enter path v).Orderly may := by
  unfold KeywordShape.cast
  split
  next entries =>
    simp only
    split
    · exact castFields_orderly henter hdefault
    · exact mismatch_orderly hraised
  next => exact mismatch_orderly hraised

/-- The constructor is called after all fields, and nothing follows it. -/
theorem castRecord_orderly {name : String} {fields : List (Field Descriptor)}
    {constructor? : Option Callable}
    (henter : ∀ f ∈ fields, ∀ path v, (enter f.type path v).Orderly may)
    (hdefault : ∀ f ∈ fields, ∀ d, f.default? = some d → (produce d).Orderly may)
    (hcall : ∀ c, constructor? = some c → ∀ arguments, (call c [] arguments).Orderly may) :
    (castRecord enter name fields constructor? path v).Orderly may := by
  refine (KeywordShape.cast_orderly hraised henter hdefault).bind fun arguments => ?_
  cases constructor? with
  | some c => exact hcall c rfl arguments
  | none => exact orderly_pure _

/-- A partial record raises what its fields raise. -/
theorem castPartialRecord_orderly {name : String} {fields : List (String × Descriptor)}
    {total : Bool} (henter : ∀ field ∈ fields, ∀ path v, (enter field.2 path v).Orderly may) :
    (castPartialRecord enter name fields total path v).Orderly may := by
  refine (KeywordShape.cast_orderly hraised ?_ ?_).bind fun _ => orderly_pure _
  · intro f hf
    obtain ⟨field, hfield, rfl⟩ := List.mem_map.mp hf
    exact henter field hfield
  · -- no field of a partial record has a default
    intro f hf d hd
    obtain ⟨field, -, rfl⟩ := List.mem_map.mp hf
    cases hd

/-! ## Symbols and calls -/

/-- A symbol is resolved without the host, and refused here or by the registry. -/
theorem castSymbol_orderly {spec : SymbolPath} :
    (castSymbol ctx spec expected path v).Orderly may := by
  rw [castSymbol]
  cases v.text? with
  | none => exact mismatch_orderly hraised
  | some dotted =>
    simp only
    -- the four outcomes of a resolution
    split
    · exact orderly_pure _
    · exact mismatch_orderly hraised
    · exact mismatch_orderly hraised
    · exact orderly_throw (hraised _) fun _ h => by cases h

/-- A reference is cast by the type of the symbol. -/
theorem callTarget_orderly {keys : EnvelopeKeys} {symbol : Descriptor}
    (hsymbol : ∀ path v, (enter symbol path v).Orderly may) :
    (callTarget enter keys symbol expected path v).Orderly may := by
  unfold callTarget
  split
  next envelope =>
    -- a missing reference is refused, and so is one to something that cannot be called
    cases Entries.find? (Key.text keys.callable) envelope with
    | none => exact mismatch_orderly hraised
    | some reference =>
      refine (hsymbol _ _).bind fun target => ?_
      cases target with
      | callable c => exact orderly_pure _
      | _ => exact mismatch_orderly hraised
  next => exact mismatch_orderly hraised

/-- Arguments that are no sequence are refused without a location. -/
theorem positionalArguments_orderly {args : Descriptor} :
    (positionalArguments args v).Orderly may := by
  rw [positionalArguments]
  cases v.sequence? with
  | some items => exact orderly_pure items
  | none => exact orderly_throw (hraised _) fun _ h => by cases h

/-- Named arguments that are no map are refused without a location. -/
theorem keywordArguments_orderly {kwargs : Descriptor} :
    (keywordArguments kwargs v).Orderly may := by
  simp only [keywordArguments]
  -- on whether there are arguments, not on the value that they come from
  split
  · exact orderly_pure _
  · exact orderly_throw (hraised _) fun _ h => by cases h

/-- Each stage of an invocation is reached only if all before it end well, and the call comes
    last. -/
theorem castInvocation_orderly {symbol args kwargs : Descriptor}
    (hsymbol : ∀ path v, (enter symbol path v).Orderly may)
    (hargs : ∀ path v, (enter args path v).Orderly may)
    (hkwargs : ∀ path v, (enter kwargs path v).Orderly may)
    (hcall : ∀ c positional keyword, (call c positional keyword).Orderly may) :
    (castInvocation ctx enter symbol args kwargs expected path v).Orderly may := by
  refine (callTarget_orderly hraised hsymbol).bind fun found => ?_
  refine (hargs _ _).bind fun castArgs =>
    (positionalArguments_orderly hraised).bind fun positional => ?_
  exact (hkwargs _ _).bind fun castKwargs =>
    (keywordArguments_orderly hraised).bind fun keyword => hcall _ _ _

/-- The parameters are cast by their own types; the call is the last thing that is asked. -/
theorem castInspectedInvocation_orderly {symbol : Descriptor}
    (hsymbol : ∀ path v, (enter symbol path v).Orderly may)
    (hbelow : ∀ c shape, KeywordShape.ofCallable ctx c = .ok shape → ∀ f ∈ shape.fields,
      ∀ path v, (enterBelow f.type path v).Orderly may)
    (hcall : ∀ c keyword, (call c [] keyword).Orderly may) :
    (castInspectedInvocation ctx enter enterBelow symbol expected path v).Orderly may := by
  refine (callTarget_orderly hraised hsymbol).bind fun (envelope, c) => ?_
  simp only
  cases hshape : KeywordShape.ofCallable ctx c with
  | error e =>
    -- without the types of the parameters nothing more is done
    exact orderly_throw (hraised (.config e)) fun _ h => by cases h
  | ok shape =>
    show Orderly may (shape.cast .. >>= _)
    refine Orderly.bind (KeywordShape.cast_orderly hraised ?_ ?_) fun keyword => hcall c keyword
    · exact hbelow c shape hshape
    · intro f hf d hd
      -- the defaults of parameters are not made by the host
      obtain ⟨w, rfl⟩ := KeywordShape.default_of_ofCallable hshape hf hd
      exact orderly_pure w

end Rules

/-! ## Types -/

section Types

open Program Occurrence

variable {ctx : Context} {enter enterBelow : Enter}

/-- What happens in a part happens in the whole. -/
private theorem enter_orderly (henter : ∀ d path v, (enter d path v).Orderly (LiesIn ctx d))
    {id : Nat} {shape : Shape} (hplain : ctx.converter? id = none)
    (hunion : shape.isUnion = false) {d : Descriptor} (hd : d ∈ shape.parts)
    (path : Path) (v : Value) : (enter d path v).Orderly (LiesIn ctx (.node id shape)) :=
  (henter d path v).mono fun _ => LiesIn.part hplain hunion hd

mutual

/-- Whatever happens in the rule of a type lies in the type, if that is so for its parts. -/
theorem Descriptor.apply_orderly
    (henter : ∀ d path v, (enter d path v).Orderly (LiesIn ctx d))
    (hbelow : ∀ d path v, (enterBelow d path v).Orderly (LiesIn ctx d)) :
    ∀ (d : Descriptor) (path : Path) (v : Value),
      (d.apply ctx enter enterBelow path v).Orderly (LiesIn ctx d)
  | .node id shape, path, v => by
    rw [Descriptor.apply]
    cases hconverter : ctx.converter? id with
    | some c => exact orderly_convert (liesIn_asked (.conversion hconverter v))
    | none => exact Shape.apply_orderly henter hbelow hconverter shape path v

/-- The rule of each shape, given the casts one level down: what happens lies in the type, and only
    the rule of a union goes on after an error. -/
theorem Shape.apply_orderly
    (henter : ∀ d path v, (enter d path v).Orderly (LiesIn ctx d))
    (hbelow : ∀ d path v, (enterBelow d path v).Orderly (LiesIn ctx d)) {id : Nat}
    (hplain : ctx.converter? id = none) :
    ∀ (shape : Shape) (path : Path) (v : Value),
      (shape.apply ctx enter enterBelow path v).Orderly (LiesIn ctx (.node id shape))
  | .any, _, v => orderly_pure v
  -- scalars ask for nothing
  | .primitive _, _, _ | .float, _, _ | .complex, _, _ | .literal _, _, _ =>
    castUnchanged_orderly liesIn_raised
  | .decimal, _, _ => castDecimal_orderly liesIn_raised
  | .record .., _, _ => by
    refine castRecord_orderly liesIn_raised (fun f hf => ?_) (fun f hf d hd => ?_) ?_
    · exact enter_orderly henter hplain rfl (List.mem_map_of_mem hf)
    · exact orderly_produce fun factory h => liesIn_asked (.default hplain hf (h ▸ hd))
    · rintro c rfl arguments
      exact orderly_call (liesIn_asked (.construction hplain arguments))
  | .partialRecord .., _, _ => castPartialRecord_orderly liesIn_raised fun field hfield =>
      enter_orderly henter hplain rfl (List.mem_map_of_mem hfield)
  | .listOf _, _, _ | .queueOf _, _, _ =>
    (castElements_orderly liesIn_raised
      (enter_orderly henter hplain rfl List.mem_cons_self)).bind fun _ => orderly_pure _
  | .setOf _, _, _ =>
    castSet_orderly liesIn_raised (enter_orderly henter hplain rfl List.mem_cons_self)
  | .mapOf .., _, _ =>
    castMap_orderly liesIn_raised (enter_orderly henter hplain rfl List.mem_cons_self)
      (enter_orderly henter hplain rfl (List.mem_cons_of_mem _ List.mem_cons_self))
  | .tupleOf elements, _, _ => by
    have hpart : ∀ d ∈ elements, ∀ path v,
        (enter d path v).Orderly (LiesIn ctx (.node id (.tupleOf elements))) := by
      intro d hd
      exact enter_orderly henter hplain rfl hd
    exact castTuple_orderly liesIn_raised hpart
  -- the one rule that goes on after an error
  | .unionOf alternatives, path, v =>
    applyFirst_orderly henter hbelow (mismatch_orderly liesIn_raised) alternatives
      (fun d hd x => LiesIn.alternative hplain hd) path v
  | .symbolPath _, _, _ => castSymbol_orderly liesIn_raised
  | .invocation symbol args kwargs, _, _ => by
    have hpart : ∀ d ∈ [symbol, args, kwargs], ∀ path v,
        (enter d path v).Orderly (LiesIn ctx (.node id (.invocation symbol args kwargs))) := by
      intro d hd
      exact enter_orderly henter hplain rfl hd
    exact castInvocation_orderly liesIn_raised (hpart symbol (by simp)) (hpart args (by simp))
      (hpart kwargs (by simp)) fun c positional keyword =>
        orderly_call (liesIn_asked (.invocation hplain c positional keyword))
  | .inspectedInvocation _, _, _ => by
    refine castInspectedInvocation_orderly liesIn_raised
      (enter_orderly henter hplain rfl List.mem_cons_self) ?_ fun c keyword =>
        orderly_call (liesIn_asked (.inspected hplain c keyword))
    -- what happens in the type of a parameter happens in the invocation that casts to it
    exact fun c shape hshape f hf path v =>
      (hbelow f.type path v).mono fun _ => LiesIn.parameter hplain hshape hf

/-- The alternatives of a union may do what their types do, with the union open around it. -/
theorem applyFirst_orderly
    (henter : ∀ d path v, (enter d path v).Orderly (LiesIn ctx d))
    (hbelow : ∀ d path v, (enterBelow d path v).Orderly (LiesIn ctx d))
    {may : Occurrence → Prop} {otherwise : Program Value} (hotherwise : otherwise.Orderly may) :
    ∀ (alternatives : List Descriptor)
      (_ : ∀ d ∈ alternatives, ∀ x : Occurrence, x.LiesIn ctx d → may x.inUnion)
      (path : Path) (v : Value),
      (applyFirst ctx enter enterBelow otherwise alternatives path v).Orderly may
  | [], _, _, _ => hotherwise
  -- what the alternative does, it does inside the union; the rest is reached after a refusal only
  | d :: rest, hmay, path, v => by
    have ⟨hd, hrest⟩ := List.forall_mem_cons.mp hmay
    exact ((Descriptor.apply_orderly henter hbelow d path v).mono hd).inUnion_orElse
      (applyFirst_orderly henter hbelow hotherwise rest hrest path v)

end

/-- Casts at a location are orderly, whatever room is left there. -/
theorem castWithin_orderly (room : Nat) (d : Descriptor) (path : Path) (v : Value) :
    (castWithin ctx room d path v).Orderly (LiesIn ctx d) := by
  -- an inspected invocation reaches its arguments two levels down
  induction room using Nat.strongRecOn generalizing d path v with
  | ind room ih =>
    match room with
    | 0 => exact mismatch_orderly liesIn_raised
    | 1 => exact Descriptor.apply_orderly (ih 0 (by omega)) (ih 0 (by omega)) d path v
    | room + 2 =>
      exact Descriptor.apply_orderly (ih (room + 1) (by omega)) (ih room (by omega)) d path v

/-- A whole cast: what happens lies in its type, or it does not compile and nothing happens. -/
theorem cast_orderly (d : Descriptor) (v : Value) : (cast ctx d v).Orderly (LiesIn ctx d) := by
  rw [cast]
  cases hcompile : compile ctx d with
  | ok c =>
    rw [compile_eq_ok hcompile]
    exact castWithin_orderly _ d [] v
  | error e => exact orderly_throw (liesIn_raised _) fun _ h => by cases h

end Types

/-! ## The end of a cast -/

/-- How the failures in a cast to a type relate what happens in the cast to its outcome. -/
structure EndsAtFailure (ctx : Context) (d : Descriptor) (t : List Occurrence)
    (r : Except CastError Value) : Prop where
  /-- A failure that no open union catches, whether the host has failed with it or the cast has
      raised it, is the last thing that happens, and the outcome. -/
  stops : ∀ before x after e, t = before ++ x :: after → x.Uncaught e → after = [] ∧ r = .error e
  /-- A cast that fails fails with what has gone wrong last. -/
  last : ∀ e, r = .error e → ∃ before x, t = before ++ [x] ∧ x.failure? = some e
  /-- A failure of the host is one that the host has failed with, in its last reply. -/
  host : ∀ message, r = .error (.host message) → ∃ before unions request reply,
    t = before ++ [.asked unions request reply] ∧ request.failure? reply = some (.host message)
  /-- The open unions are those of the type, around the part of it that asks the host. -/
  lies : ∀ x ∈ t, x.LiesIn ctx d

/-- What abides by its failures ends at them. -/
theorem Program.Abides.endsAtFailure {ctx : Context} {d : Descriptor} {t : List Occurrence}
    {r : Except CastError Value} (h : Program.Abides (Occurrence.LiesIn ctx d) t r) :
    EndsAtFailure ctx d t r where
  stops := h.stops
  last := h.last
  host := by
    intro message hr
    obtain ⟨before, x, rfl, hx⟩ := h.last _ hr
    cases x with
    | asked unions request reply => exact ⟨before, unions, request, reply, rfl, hx⟩
    | raised unions e =>
      cases hx
      -- the cast itself raises nothing in the name of the host
      exact absurd (List.mem_append_right before List.mem_cons_self) (h.own unions message)
  lies := h.admitted

/-- Failures end a cast. Whatever the host replies, one that no open union catches is the last thing
    that happens, and the outcome; a failure of the host comes of its last reply; and the unions
    that are open around each request are those of the type around the part that puts it. This holds
    of every run: it goes through a trace with the replies of its host. -/
theorem cast_ends_at_failure (ctx : Context) (d : Descriptor) (v : Value) :
    (∀ t r, (cast ctx d v).Ends t r → EndsAtFailure ctx d t r) ∧
      ∀ {σ : Type} (answer : (request : Request) → StateM σ request.Reply) (s : σ), ∃ t,
        (cast ctx d v).Ends t (((cast ctx d v).run answer).run s).1 ∧ RepliesFrom answer s t ∧
          (((cast ctx d v).run (logged answer)).run (s, [])).2.2 =
            t.filterMap Occurrence.request? := by
  refine ⟨fun t r hends => (cast_orderly d v t r hends).endsAtFailure, fun answer s => ?_⟩
  exact Program.exists_ends_of_run answer (cast ctx d v) s []

/-- Lists of records that a callable makes. -/
def madeListType : Descriptor :=
  .node 1 (.listOf (.node 2 (.record "Made" [] (some ⟨0, "make"⟩))))

/-- Values of a type, or anything. -/
def orAnyType (d : Descriptor) : Descriptor :=
  .node 0 (.unionOf [d, .node 3 .any])

/-- A refusal that a callable comes to by itself. -/
def idRefusal : CastError :=
  .coercion ⟨.ofPath [.field "id"], .none, "Id", .wrongKind⟩

/-- The callable makes no record, for some reason, inside some unions. -/
def notMade (unions : Nat) (e : HostFailure) : List Occurrence :=
  [.asked unions (.call ⟨0, "make"⟩ [] []) (.error e)]

/-- A refusal by the callable ends a cast without unions, as it is and before the second record. The
    second alternative of a union is not tried when the callable fails otherwise in the first, and
    neither when a symbol leads nowhere there. -/
theorem cast_ends_at_failure_made :
    ((cast {} madeListType (.list [.map [], .map []])).Ends (notMade 0 (.forwarded idRefusal))
        (.error idRefusal) ∧
      EndsAtFailure {} madeListType (notMade 0 (.forwarded idRefusal)) (.error idRefusal)) ∧
    ((cast {} (orAnyType madeListType) (.list [.map [], .int 1])).Ends
        (notMade 1 (.raised "broken")) (.error (.host "broken")) ∧
      EndsAtFailure {} (orAnyType madeListType) (notMade 1 (.raised "broken"))
        (.error (.host "broken"))) ∧
    ((cast {} (orAnyType (.node 4 (.symbolPath .unrestricted))) (.text "gone.away")).Ends
        [.raised 1 (.lookup (.unknownRoot "gone"))] (.error (.lookup (.unknownRoot "gone"))) ∧
      EndsAtFailure {} (orAnyType (.node 4 (.symbolPath .unrestricted)))
        [.raised 1 (.lookup (.unknownRoot "gone"))] (.error (.lookup (.unknownRoot "gone")))) := by
  -- no union: the refusal that the host forwards ends the cast at the first item
  have hrefused : (cast {} madeListType (.list [.map [], .map []])).Ends
      (notMade 0 (.forwarded idRefusal)) (.error idRefusal) :=
    ⟨.error (.forwarded idRefusal), [], rfl, rfl, rfl⟩
  -- one union: a failure of the host is not caught
  have hbroken : (cast {} (orAnyType madeListType) (.list [.map [], .int 1])).Ends
      (notMade 1 (.raised "broken")) (.error (.host "broken")) :=
    ⟨.error (.raised "broken"), [], rfl, rfl, rfl⟩
  -- one union: an error of a lookup is not caught either
  have hgone : (cast {} (orAnyType (.node 4 (.symbolPath .unrestricted))) (.text "gone.away")).Ends
      [.raised 1 (.lookup (.unknownRoot "gone"))] (.error (.lookup (.unknownRoot "gone"))) :=
    ⟨[], rfl, rfl, rfl⟩
  exact ⟨⟨hrefused, (cast_ends_at_failure ..).1 _ _ hrefused⟩,
    ⟨hbroken, (cast_ends_at_failure ..).1 _ _ hbroken⟩,
    ⟨hgone, (cast_ends_at_failure ..).1 _ _ hgone⟩⟩

end Conform
