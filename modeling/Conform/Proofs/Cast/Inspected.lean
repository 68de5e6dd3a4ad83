import Conform.Proofs.Cast.Signature
import Conform.Proofs.Compilation
import Conform.Proofs.Program.Run

/-!
# Inspected invocations

An inspected invocation takes its keyword arguments from the signature of the callable that it
finds. It runs like the explicit invocation that takes no positional arguments and whose keyword
arguments are a record that spells the signature out. The two differ in what they say was expected,
and in when they look at the types of the parameters: the explicit one when it is prepared, the
inspected one when it has found the callable.
-/

namespace Conform

/-- Two invocations of the same symbols. One inspects the signature, the other takes no positional
    arguments and a record of fields. -/
structure InvocationForms where
  symbol : Descriptor
  name : String
  fields : List (Field Descriptor)
  inspectedId : Nat
  explicitId : Nat
  argsId : Nat
  kwargsId : Nat

namespace InvocationForms

variable (forms : InvocationForms)

def inspected : Descriptor :=
  .node forms.inspectedId (.inspectedInvocation forms.symbol)

def args : Descriptor :=
  .node forms.argsId (.tupleOf [])

def kwargs : Descriptor :=
  .node forms.kwargsId (.record forms.name forms.fields none)

def explicit : Descriptor :=
  .node forms.explicitId (.invocation forms.symbol forms.args forms.kwargs)

/-- The fields spell out the signature of a callable, and neither the two forms nor the record are
    converted by the host. -/
structure SpellOut (ctx : Context) (c : Callable) (signature : Signature) : Prop where
  declare : Declare signature.params forms.fields
  names : (signature.params.map Param.name).Nodup
  signature : ctx.signatures.get? c = some signature
  symbol : forms.symbol.symbolPath?.isSome
  inspected : ctx.converter? forms.inspectedId = none
  explicit : ctx.converter? forms.explicitId = none
  kwargs : ctx.converter? forms.kwargsId = none

end InvocationForms

variable {ctx : Context} {forms : InvocationForms} {c : Callable} {signature : Signature}

/-! ## Preparing the two forms -/

/-- A node without a converter is checked by its shape, one level down. -/
private theorem check_node {id : Nat} (h : ctx.converter? id = none) (shape : Shape) (depth : Nat) :
    (Descriptor.node id shape).check ctx depth =
      if ctx.config.limits.maxDescriptorDepth < depth + 1 then tooDeep ctx
      else shape.check ctx (depth + 1) := by
  rw [Descriptor.check, h]
  rfl

/-- All that a symbol is checked for is its depth, converted or not. -/
private theorem check_of_symbolPath? {d : Descriptor} (h : d.symbolPath?.isSome) (depth : Nat) :
    d.check ctx depth = if ctx.config.limits.maxDescriptorDepth < depth + 1 then tooDeep ctx
      else .ok () := by
  obtain ⟨id, shape⟩ := d
  cases shape with
  | symbolPath spec =>
    rw [Descriptor.check]
    split
    · rfl
    · split <;> rfl
  | _ => cases h

/-- Unless the explicit form nests too deep, only the types of the parameters can keep it from being
    prepared, and nothing the inspected form. -/
private theorem check_forms (hforms : forms.SpellOut ctx c signature)
    (hdepth : forms.explicit.check ctx 0 ≠ tooDeep ctx) :
    forms.explicit.check ctx 0 = checkFields ctx 0 forms.fields ∧
      forms.inspected.check ctx 0 = .ok () := by
  have hpath : ¬ forms.symbol.symbolPath?.isNone = true := by
    rw [Option.isNone_iff_eq_none]
    exact Option.isSome_iff_ne_none.mp hforms.symbol
  have hsymbol : forms.symbol.check ctx 1 = _ := check_of_symbolPath? hforms.symbol 1
  rw [InvocationForms.explicit, check_node hforms.explicit] at hdepth ⊢
  rw [InvocationForms.inspected, check_node hforms.inspected]
  rw [Shape.check, if_neg hpath, hsymbol] at hdepth ⊢
  rw [Shape.check, if_neg hpath, hsymbol]
  -- the invocation stands at the first level, and its three types at the second
  by_cases hone : ctx.config.limits.maxDescriptorDepth < 0 + 1
  · rw [if_pos hone] at hdepth
    exact absurd rfl hdepth
  by_cases htwo : ctx.config.limits.maxDescriptorDepth < 1 + 1
  · rw [if_neg hone, if_pos htwo] at hdepth
    exact absurd rfl hdepth
  have hargs : forms.args.check ctx 1 = .ok () := by
    rw [InvocationForms.args, Descriptor.check, if_neg htwo]
    split <;> rfl
  have hkwargs : forms.kwargs.check ctx 1 = checkFields ctx 2 forms.fields := by
    rw [InvocationForms.kwargs, check_node hforms.kwargs, if_neg htwo]
    rfl
  rw [if_neg hone, if_neg htwo, hargs, hkwargs] at hdepth ⊢
  refine ⟨?_, if_neg hone⟩
  -- the explicit form checks the types of the parameters two levels down
  cases checkFields_deeper 2 forms.fields 0 with
  | inl h => exact absurd h hdepth
  | inr h => exact h

/-! ## Running the two forms -/

section Running

variable {σ : Type} {answer : (request : Request) → StateM σ request.Reply} {s s' : σ} {path : Path}
  {v : Value} {enter : Enter} {keys : EnvelopeKeys} {symbol : Descriptor}
  {expected expected' : String}

/-- Refusals are alike that differ in the text of what was expected. -/
private theorem mismatch_runAlike {α : Type} {reason : Mismatch} :
    Program.RunAlike answer s (mismatch path v expected reason : Program α)
      (mismatch path v expected' reason) :=
  ⟨rfl, rfl⟩

/-- The search for the callable is the same for both forms. -/
private theorem callTarget_runAlike :
    Program.RunAlike answer s (callTarget enter keys symbol expected path v)
      (callTarget enter keys symbol expected' path v) := by
  unfold callTarget
  split
  next envelope =>
    cases Entries.find? (Key.text keys.callable) envelope with
    | none => exact mismatch_runAlike
    | some reference =>
      refine Program.RunAlike.bind (.refl _) fun target s' _ => ?_
      cases target with
      | callable c => exact .refl _
      | _ => exact mismatch_runAlike
  next => exact mismatch_runAlike

/-- The callable that is found is what the reference is cast to. -/
theorem callTarget_run_ok {envelope : List (Key × Value)} {c : Callable}
    (h : ((callTarget enter keys symbol expected path v).run answer).run s =
      (.ok (envelope, c), s')) :
    v = .map envelope ∧ ∃ reference, v.get? keys.callable = some reference ∧
      ((enter symbol (path ++ [.field keys.callable]) reference).run answer).run s =
        (.ok (.callable c), s') := by
  unfold callTarget at h
  split at h
  next entries =>
    cases hfind : Entries.find? (Key.text keys.callable) entries with
    | none => rw [hfind] at h; cases h
    | some reference =>
      rw [hfind] at h
      obtain ⟨target, s₁, htarget, h⟩ := Program.run_bind_ok h
      -- only a callable is a target
      cases target with
      | callable c => cases h; exact ⟨rfl, reference, hfind, htarget⟩
      | _ => cases h
  next => cases h

/-- A reference that is cast without the host is found without the host. -/
private theorem callTarget_eq_pure {reference : Value} {c : Callable}
    (hreference : v.get? keys.callable = some reference)
    (h : enter symbol (path ++ [.field keys.callable]) reference = pure (.callable c)) :
    ∃ envelope, callTarget enter keys symbol expected path v = pure (envelope, c) := by
  cases v with
  | map envelope =>
    have hfind : Entries.find? (Key.text keys.callable) envelope = some reference := hreference
    refine ⟨envelope, ?_⟩
    rw [callTarget, hfind]
    simp only [h, Program.pure_bind]
  | _ => cases hreference

/-- Two shapes of the same fields differ in their names only. -/
private theorem cast_runAlike {fields : List (Field Descriptor)} {required : List String} :
    Program.RunAlike answer s ((KeywordShape.mk expected fields required).cast enter path v)
      ((KeywordShape.mk expected' fields required).cast enter path v) := by
  unfold KeywordShape.cast
  split
  next entries =>
    -- which names are missing and which are unknown does not depend on the label
    cases hnames : ((KeywordShape.mk expected fields required).missing entries).isEmpty &&
        ((KeywordShape.mk expected fields required).unknown entries).isEmpty with
    | true =>
      have hnames' : (((KeywordShape.mk expected' fields required).missing entries).isEmpty &&
          ((KeywordShape.mk expected' fields required).unknown entries).isEmpty) = true := hnames
      simp only [hnames, hnames', if_true]
      exact .refl _
    | false =>
      have hnames' : (((KeywordShape.mk expected' fields required).missing entries).isEmpty &&
          ((KeywordShape.mk expected' fields required).unknown entries).isEmpty) = false := hnames
      simp only [hnames, hnames', Bool.false_eq_true, if_false]
      exact mismatch_runAlike
  next => exact mismatch_runAlike

/-- With room for the positional arguments, none of them are cast to none. -/
private theorem castWithin_args (hargs : ctx.converter? forms.argsId = none) (room : Nat) :
    castWithin ctx (room + 1) forms.args path (.list []) = pure (.tuple []) := by
  rw [castWithin_succ, InvocationForms.args, Descriptor.apply, hargs]
  rfl

/-- The keyword arguments of the explicit form are cast by the record of the parameters. -/
private theorem castWithin_kwargs (hkwargs : ctx.converter? forms.kwargsId = none) (room : Nat) :
    castWithin ctx (room + 1) forms.kwargs path v =
      (KeywordShape.ofRecord forms.name forms.fields).cast (castWithin ctx room) path v >>=
        fun fields => pure (.record forms.name fields) := by
  rw [castWithin_succ, InvocationForms.kwargs, Descriptor.apply, hkwargs]
  rfl

/-- Once the signature has been looked at, the two forms cast the same arguments and call. -/
private theorem arguments_runAlike (hforms : forms.SpellOut ctx c signature)
    (hargs : ctx.converter? forms.argsId = none) {room : Nat} {argsPath : Path} :
    Program.RunAlike answer s
      ((KeywordShape.mk expected forms.fields (Field.requiredNames forms.fields)).cast
        (castWithin ctx room) path v >>= fun keyword => Program.call c [] keyword)
      (castWithin ctx (room + 1) forms.args argsPath (.list []) >>= fun castArgs =>
        positionalArguments forms.args castArgs >>= fun positional =>
        castWithin ctx (room + 1) forms.kwargs path v >>= fun castKwargs =>
        keywordArguments forms.kwargs castKwargs >>= fun keyword =>
        Program.call c positional
          (fillDefaults (ctx.signatures.get? c) positional.length keyword)) := by
  have hnone : positionalArguments forms.args (.tuple []) = pure [] := rfl
  -- casting no arguments to a type of lists gives no arguments, and asks for nothing
  rw [castWithin_args hargs, Program.pure_bind, hnone, Program.pure_bind,
    castWithin_kwargs hforms.kwargs, Program.bind_assoc]
  refine cast_runAlike.bind fun keyword s' hkeyword => ?_
  have hcover : ((KeywordShape.mk expected forms.fields
      (Field.requiredNames forms.fields)).cast (castWithin ctx room) path v).Yields
      (fun _ _ => True) (fun keyword => fillDefaults (some signature) 0 keyword = keyword)
      (fun _ => True) := fillDefaults_cast hforms.declare
  have hfill := hcover.of_run_ok (fun _ _ => trivial) hkeyword
  rw [Program.pure_bind, hforms.signature]
  -- the record gives back its fields, and no default is left to be filled in
  show Program.RunAlike answer s' (Program.call c [] keyword)
    (Program.call c [] (fillDefaults (some signature) 0 keyword))
  rw [hfill]
  exact .refl _

end Running

/-! ## The two forms run alike -/

/-- An inspected invocation that compiles is cast by its rule. -/
private theorem cast_inspected (hforms : forms.SpellOut ctx c signature) {v : Value}
    (hcheck : forms.inspected.check ctx 0 = .ok ()) :
    cast ctx forms.inspected v =
      castInspectedInvocation ctx (castWithin ctx ctx.config.limits.maxDepth)
        (castWithin ctx (ctx.config.limits.maxDepth - 1)) forms.symbol
        (Shape.inspectedInvocation forms.symbol).render [] v := by
  rw [cast, compile, hcheck]
  show castWithin ctx (ctx.config.limits.maxDepth + 1) forms.inspected [] v = _
  rw [castWithin_succ, InvocationForms.inspected, Descriptor.apply, hforms.inspected]
  rfl

/-- The explicit form of an invocation that compiles is cast by its rule. -/
private theorem cast_explicit (hforms : forms.SpellOut ctx c signature) {v : Value}
    (hcheck : forms.explicit.check ctx 0 = .ok ()) :
    cast ctx forms.explicit v =
      castInvocation ctx (castWithin ctx ctx.config.limits.maxDepth) forms.symbol forms.args
        forms.kwargs (Shape.invocation forms.symbol forms.args forms.kwargs).render [] v := by
  rw [cast, compile, hcheck]
  show castWithin ctx (ctx.config.limits.maxDepth + 1) forms.explicit [] v = _
  rw [castWithin_succ, InvocationForms.explicit, Descriptor.apply, hforms.explicit]
  rfl

/-- A host, a context and a value for which the two forms can be compared: no type nests too deep,
    the value has no positional arguments, and what its reference leads to, if it leads to a
    callable, is the callable whose signature is spelled out. -/
structure InvocationForms.Comparable {σ : Type} (forms : InvocationForms)
    (answer : (request : Request) → StateM σ request.Reply) (s : σ) (ctx : Context) (c : Callable)
    (signature : Signature) (v : Value) : Prop where
  spellOut : forms.SpellOut ctx c signature
  depth : compile ctx forms.explicit ≠
    .error (.descriptorTooDeep ctx.config.limits.maxDescriptorDepth)
  positional : v.get? ctx.config.envelope.args = none
  reference : ∀ reference, v.get? ctx.config.envelope.callable = some reference → ∀ c',
    (((castAt ctx forms.symbol [.field ctx.config.envelope.callable] reference).run answer).run
      s).1 = .ok (.callable c') → c' = c

/-- The types of the parameters can all be used, or the reference leads to the callable without the
    host, so that both forms find out about them before anything is asked of the host. -/
def InvocationForms.TypesAgree (forms : InvocationForms) (ctx : Context) (c : Callable)
    (v : Value) : Prop :=
  (∀ f ∈ forms.fields, f.type.check ctx 0 = .ok ()) ∨
    ∃ reference, v.get? ctx.config.envelope.callable = some reference ∧
      castAt ctx forms.symbol [.field ctx.config.envelope.callable] reference = pure (.callable c)

section Main

variable {σ : Type} {answer : (request : Request) → StateM σ request.Reply} {s : σ} {v : Value}

/-- The callable that the inspected form finds is the one whose signature is spelled out. -/
private theorem callTarget_run_eq (h : forms.Comparable answer s ctx c signature v)
    {expected : String} {envelope : List (Key × Value)} {c' : Callable} {s' : σ}
    (hfound : ((callTarget (castWithin ctx ctx.config.limits.maxDepth) ctx.config.envelope
      forms.symbol expected [] v).run answer).run s = (.ok (envelope, c'), s')) :
    v = .map envelope ∧ c' = c ∧ ∃ room, ctx.config.limits.maxDepth = room + 1 := by
  obtain ⟨hv, reference, hget, htarget⟩ := callTarget_run_ok hfound
  refine ⟨hv, ?_, ?_⟩
  -- the reference is cast as it is for comparison, at the depth of the whole call
  · refine h.reference reference hget c' ?_
    rw [← castWithin_eq_castAt rfl]
    exact congrArg Prod.fst htarget
  · cases hroom : ctx.config.limits.maxDepth with
    | zero => rw [hroom] at htarget; cases htarget
    | succ room => exact ⟨room, rfl⟩

/-- Of two comparable forms the inspected one compiles, and the explicit one is checked for its
    parameters only. -/
private theorem InvocationForms.Comparable.check (h : forms.Comparable answer s ctx c signature v) :
    forms.explicit.check ctx 0 = checkFields ctx 0 forms.fields ∧
      forms.inspected.check ctx 0 = .ok () := by
  refine check_forms h.spellOut fun hdeep => h.depth ?_
  rw [compile, hdeep]
  rfl

/-- A host that keeps a log answers in the same way. -/
private theorem InvocationForms.Comparable.logged (h : forms.Comparable answer s ctx c signature v)
    (log : List Request) : forms.Comparable (logged answer) (s, log) ctx c signature v where
  spellOut := h.spellOut
  depth := h.depth
  positional := h.positional
  reference := by
    intro reference hget c' hrun
    refine h.reference reference hget c' ?_
    -- a host that keeps a log answers as the host itself does
    obtain ⟨calls, hlogged⟩ := Program.run_logged (castAt ctx forms.symbol
      [.field ctx.config.envelope.callable] reference) s log
    rw [hlogged] at hrun
    exact hrun

/-- The two forms run alike with any host. -/
theorem inspected_runAlike_explicit (h : forms.Comparable answer s ctx c signature v)
    (hargs : ctx.converter? forms.argsId = none) (htypes : forms.TypesAgree ctx c v) :
    Program.RunAlike answer s (cast ctx forms.inspected v) (cast ctx forms.explicit v) := by
  have hforms := h.spellOut
  obtain ⟨hexplicit, hinspected⟩ := h.check
  have hshape := KeywordShape.ofCallable_eq hforms.signature hforms.declare hforms.names
  rw [cast_inspected hforms hinspected]
  cases hfields : checkFields ctx 0 forms.fields with
  | error e =>
    -- both look at the types of the parameters before anything is asked of the host
    obtain htypes | ⟨reference, hget, hpure⟩ := htypes
    · rw [checkFields_eq_checkAll,
        checkAll_eq_ok_iff.mpr (List.forall_mem_map.mpr htypes)] at hfields
      cases hfields
    have htarget : ∃ envelope, callTarget (castWithin ctx ctx.config.limits.maxDepth)
        ctx.config.envelope forms.symbol (Shape.inspectedInvocation forms.symbol).render [] v =
        pure (envelope, c) := callTarget_eq_pure hget ((castWithin_eq_castAt rfl).trans hpure)
    obtain ⟨envelope, htarget⟩ := htarget
    have hcast : cast ctx forms.explicit v = .throw (.config e) := by
      rw [cast, compile, hexplicit, hfields]; rfl
    rw [hcast, castInspectedInvocation, htarget]
    simp only [Program.pure_bind, hshape, hfields]
    exact .refl _
  | ok _ =>
    -- both search for the callable, and from there on cast the same arguments
    rw [hfields] at hexplicit
    rw [cast_explicit hforms hexplicit, castInspectedInvocation, castInvocation]
    refine callTarget_runAlike.bind fun found s' hfound => ?_
    obtain ⟨envelope, c'⟩ := found
    obtain ⟨rfl, rfl, room, hroom⟩ := callTarget_run_eq h hfound
    have hnone : Entries.find? (Key.text ctx.config.envelope.args) envelope = none := h.positional
    simp only [hshape, hfields, hnone, hroom]
    exact arguments_runAlike hforms hargs

/-- An inspected invocation that gives a value has called the callable last. -/
private theorem last_call_of_inspected {log : List Request}
    (h : forms.Comparable (logged answer) (s, log) ctx c signature v) {w : Value}
    {ended : σ × List Request}
    (hrun : ((cast ctx forms.inspected v).run (logged answer)).run (s, log) = (.ok w, ended)) :
    ∃ calls kwargs, ended.2 = calls ++ [.call c [] kwargs] := by
  rw [cast_inspected h.spellOut h.check.2, castInspectedInvocation] at hrun
  obtain ⟨⟨envelope, c'⟩, s₁, hfound, hrun⟩ := Program.run_bind_ok hrun
  obtain ⟨-, rfl, -⟩ := callTarget_run_eq h hfound
  obtain ⟨shape, s₂, -, hrun⟩ := Program.run_bind_ok hrun
  obtain ⟨keyword, ⟨s₃, calls⟩, -, hrun⟩ := Program.run_bind_ok hrun
  exact ⟨calls, keyword, (congrArg (fun ended => ended.2.2) hrun).symm⟩

/-- An inspected invocation runs like the explicit one that takes no positional arguments and a
    record that spells out the signature: it ends alike, but for what was expected of a value that
    does not fit, and puts the same requests to the host in the same order. If it gives a value, the
    last request was to call the callable, without positional arguments. -/
theorem inspected_runs_as_explicit (h : forms.Comparable answer s ctx c signature v)
    (hargs : ctx.converter? forms.argsId = none) (htypes : forms.TypesAgree ctx c v) :
    Program.RunAlike (logged answer) (s, []) (cast ctx forms.inspected v)
        (cast ctx forms.explicit v) ∧
      ∀ w ended, ((cast ctx forms.inspected v).run (logged answer)).run (s, []) = (.ok w, ended) →
        ∃ calls kwargs, ended.2 = calls ++ [.call c [] kwargs] :=
  ⟨inspected_runAlike_explicit (h.logged []) hargs htypes,
    fun _ _ hrun => last_call_of_inspected (h.logged []) hrun⟩

end Main

/-! ## Forms of one parameter -/

/-- The two forms for a callable with one parameter. -/
def oneParameterForms (type : Descriptor) : InvocationForms :=
  ⟨.node 0 (.symbolPath .unrestricted), "Arguments", [⟨"x", type, none⟩], 1, 2, 3, 4⟩

/-- A context in which the symbol `m.f` leads to a callable with one parameter. -/
def oneParameterContext (type : Descriptor) (conversions : Conversions) : Context where
  registry := ⟨[("m", ⟨0, "m", [("f", .callable ⟨0, "f"⟩)]⟩)]⟩
  conversions := conversions
  signatures := ⟨[(0, ⟨[⟨"x", some type, none⟩]⟩)]⟩

/-- There is one signature, and it has one parameter. -/
theorem eq_of_mem_oneParameterContext {taken type : Descriptor} {conversions : Conversions}
    {c : Callable} {signature : Signature} {p : Param}
    (hsignature : (oneParameterContext taken conversions).signatures.get? c = some signature)
    (hp : p ∈ signature.params) (htype : p.type? = some type) : type = taken := by
  obtain ⟨_, hmem, -⟩ := Entries.mem_of_find? hsignature
  cases List.mem_singleton.mp hmem
  cases List.mem_singleton.mp hp
  exact (Option.some.inj htype).symm

/-- A host whose callables give back their arguments, and whose converters make a list. -/
def echoHost : (request : Request) → StateM Unit request.Reply
  | .convert .. => pure (.ok (.list [.int 1]))
  | .call _ args kwargs =>
    pure (.ok (.ofFields [("args", .list args), ("kwargs", .ofFields kwargs)]))
  | .produce _ => pure .none

def decimalsType : Descriptor := .node 5 (.listOf (.node 6 .decimal))

/-- A call of `m.f` with two numbers. -/
def callWithNumbers : Value :=
  .map [(.text "fn", .text "m.f"), (.text "kwargs", .map [(.text "x", .list [.int 2, .int 3])])]

/-- A parameter that is a list of decimals: both forms call the host once, with the decimals. -/
theorem inspected_runs_as_explicit_decimals :
    Program.RunAlike (logged echoHost) ((), [])
        (cast (oneParameterContext decimalsType .empty) (oneParameterForms decimalsType).inspected
          callWithNumbers)
        (cast (oneParameterContext decimalsType .empty) (oneParameterForms decimalsType).explicit
          callWithNumbers) ∧
      ∀ w ended, ((cast (oneParameterContext decimalsType .empty)
          (oneParameterForms decimalsType).inspected callWithNumbers).run (logged echoHost)).run
          ((), []) = (.ok w, ended) →
        ∃ calls kwargs, ended.2 = calls ++ [.call ⟨0, "f"⟩ [] kwargs] := by
  have h : (oneParameterForms decimalsType).Comparable echoHost ()
      (oneParameterContext decimalsType .empty) ⟨0, "f"⟩ ⟨[⟨"x", some decimalsType, none⟩]⟩
      callWithNumbers := by
    -- the reference is resolved to the callable whose signature was spelled out
    refine ⟨⟨.cons rfl .nil, by decide, rfl, rfl, rfl, rfl, rfl⟩, ?_, rfl, ?_⟩
    · intro hdeep
      cases hdeep
    · intro reference hget c' hrun
      cases hget
      cases hrun
      rfl
  refine inspected_runs_as_explicit h rfl (.inl fun f hf => ?_)
  cases List.mem_singleton.mp hf
  rfl

/-- The two forms do not run alike if the type of a parameter cannot be used and the inspected form
    does not get so far as to look at it, nor if the host converts the positional arguments. -/
theorem not_inspected_runs_as_explicit :
    [({} : EnvelopeKeys).callable, ({} : EnvelopeKeys).args, ({} : EnvelopeKeys).kwargs].Nodup ∧
    ((oneParameterForms (.node 5 (.unionOf []))).Comparable echoHost ()
        (oneParameterContext (.node 5 (.unionOf [])) .empty) ⟨0, "f"⟩
        ⟨[⟨"x", some (.node 5 (.unionOf [])), none⟩]⟩ (.map []) ∧
      ¬ Program.RunAlike (logged echoHost) ((), [])
        (cast (oneParameterContext (.node 5 (.unionOf [])) .empty)
          (oneParameterForms (.node 5 (.unionOf []))).inspected (.map []))
        (cast (oneParameterContext (.node 5 (.unionOf [])) .empty)
          (oneParameterForms (.node 5 (.unionOf []))).explicit (.map []))) ∧
    ((oneParameterForms decimalsType).Comparable echoHost ()
        (oneParameterContext decimalsType ⟨[(.node 3 (.tupleOf []), ⟨0⟩)]⟩) ⟨0, "f"⟩
        ⟨[⟨"x", some decimalsType, none⟩]⟩ callWithNumbers ∧
      ¬ Program.RunAlike (logged echoHost) ((), [])
        (cast (oneParameterContext decimalsType ⟨[(.node 3 (.tupleOf []), ⟨0⟩)]⟩)
          (oneParameterForms decimalsType).inspected callWithNumbers)
        (cast (oneParameterContext decimalsType ⟨[(.node 3 (.tupleOf []), ⟨0⟩)]⟩)
          (oneParameterForms decimalsType).explicit callWithNumbers)) := by
  -- a parameter that does not compile, and a converter for the positional arguments
  refine ⟨by decide, ⟨?_, fun h => ?_⟩, ?_, fun h => ?_⟩
  · refine ⟨⟨.cons rfl .nil, by decide, rfl, rfl, rfl, rfl, rfl⟩, ?_, rfl, ?_⟩
    · intro hdeep
      cases hdeep
    · intro reference hget
      cases hget
  · -- the map names no callable, but the explicit form fails for the type alone
    cases h.result
  · refine ⟨⟨.cons rfl .nil, by decide, rfl, rfl, rfl, rfl, rfl⟩, ?_, rfl, ?_⟩
    · intro hdeep
      cases hdeep
    · intro reference hget c' hrun
      cases hget
      cases hrun
      rfl
  · -- the explicit form asks the host for the positional arguments before it calls
    have hcalls : 1 = 2 := congrArg (fun ended => ended.2.length) h.state
    exact absurd hcalls (by decide)

end Conform
