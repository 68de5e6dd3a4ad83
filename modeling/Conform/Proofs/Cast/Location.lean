import Conform.Proofs.Cast.Agree

/-!
# The location of a cast

Where a value stands shows in the failures of its cast and in nothing else: at two locations with
the same room it is cast to the same value, or it is refused at both, and the host is left in the
same state (`castWithin_elsewhere`). There is one statement for each rule.
-/

namespace Conform

/-- Failures that are the same but for the locations of values. -/
inductive CastError.SameElsewhere : CastError → CastError → Prop
  | same (e : CastError) : SameElsewhere e e
  | refused (path path' : Path) (v : Value) (expected : String) (reason : Mismatch) :
    SameElsewhere (Conform.refused path v expected reason)
      (Conform.refused path' v expected reason)

/-- A refusal elsewhere is a refusal. -/
theorem CastError.SameElsewhere.isCoercion {e e' : CastError} (h : e.SameElsewhere e') :
    e.isCoercion = e'.isCoercion := by
  cases h <;> rfl

variable {σ : Type} {answer : (request : Request) → StateM σ request.Reply}

/-- The runs of two programs agree but for the locations of values that they refuse. -/
abbrev Elsewhere {α : Type} (answer : (request : Request) → StateM σ request.Reply) (s : σ)
    (p q : Program α) : Prop :=
  Program.Agree answer CastError.SameElsewhere s p q

/-- Parts are cast in the same way at all locations. -/
def LocationFree (answer : (request : Request) → StateM σ request.Reply) (enter : Enter) : Prop :=
  ∀ d path path' v s, Elsewhere answer s (enter d path v) (enter d path' v)

variable {enter enterBelow : Enter} {path path' : Path} {v : Value} {s : σ} {expected : String}

/-- A program that knows no location agrees with itself. -/
theorem elsewhere_refl {α : Type} (p : Program α) : Elsewhere answer s p p := .refl .same p

/-- A value is refused for the same reason wherever it stands. -/
theorem mismatch_elsewhere {α : Type} {reason : Mismatch} :
    Elsewhere answer s (mismatch path v expected reason : Program α)
      (mismatch path' v expected reason) :=
  .throw (.refused ..)

/-! ## Scalars -/

/-- Whether a scalar is admitted does not depend on where it stands. -/
theorem castUnchanged_elsewhere {holds : Bool} {reason : Mismatch} :
    Elsewhere answer s (castUnchanged holds reason expected path v)
      (castUnchanged holds reason expected path' v) := by
  cases holds with
  | true => exact .pure v
  | false => exact mismatch_elsewhere

/-- The decimal number that a value stands for does not depend on its location. -/
theorem castDecimal_elsewhere :
    Elsewhere answer s (castDecimal expected path v) (castDecimal expected path' v) := by
  rw [castDecimal, castDecimal]
  cases v.toDecimal with
  | ok d => exact .pure _
  | error reason => exact mismatch_elsewhere

/-! ## Containers -/

/-- The items of a sequence move along with the sequence. -/
theorem castItems_elsewhere (h : LocationFree answer enter) (element : Descriptor) (i : Nat)
    (items : List Value) (s : σ) :
    Elsewhere answer s (castItems enter element path i items)
      (castItems enter element path' i items) := by
  induction items generalizing i s with
  | nil => exact .pure []
  -- both sides leave the host in one state, from which the other items are cast
  | cons x rest ih => exact (h ..).bind fun w s' _ => (ih ..).bind fun ws s'' _ => .pure _

/-- A sequence has the same items everywhere. -/
theorem castElements_elsewhere (h : LocationFree answer enter) (element : Descriptor) :
    Elsewhere answer s (castElements enter element expected path v)
      (castElements enter element expected path' v) := by
  rw [castElements, castElements]
  cases v.elements? with
  | some items => exact castItems_elsewhere h element 0 items s
  | none => exact mismatch_elsewhere

/-- Keys are made of values alone. -/
theorem hashItems_elsewhere (element : Descriptor) (i : Nat) (items : List Value) (s : σ) :
    Elsewhere answer s (hashItems element path i items) (hashItems element path' i items) := by
  induction items generalizing i s with
  | nil => exact .pure []
  | cons x rest ih =>
    rw [hashItems, hashItems]
    cases x.toKey? with
    | some k => exact (ih ..).bind fun keys s' _ => .pure _
    | none => exact mismatch_elsewhere

/-- A set is made of the same keys everywhere. -/
theorem castSet_elsewhere (h : LocationFree answer enter) (element : Descriptor) :
    Elsewhere answer s (castSet enter element expected path v)
      (castSet enter element expected path' v) := by
  refine (castElements_elsewhere h element).bind fun items s' _ => ?_
  exact (hashItems_elsewhere element 0 items s').bind fun keys s'' _ => .pure _

/-- The entries of a map move along with the map. -/
theorem castEntries_elsewhere (h : LocationFree answer enter) (key value : Descriptor)
    (entries : List (Key × Value)) (s : σ) :
    Elsewhere answer s (castEntries enter key value path entries)
      (castEntries enter key value path' entries) := by
  induction entries generalizing s with
  | nil => exact .pure []
  | cons entry rest ih =>
    obtain ⟨k, x⟩ := entry
    rw [castEntries, castEntries]
    -- the key decides alike on both sides whether its value is cast
    refine (h ..).bind fun castKey s' _ => ?_
    cases castKey.toKey? with
    | some newKey => exact (h ..).bind fun w s₁ _ => (ih s₁).bind fun ws s₂ _ => .pure _
    | none => exact mismatch_elsewhere

/-- A map is cast, or refused for what it is, alike everywhere. -/
theorem castMap_elsewhere (h : LocationFree answer enter) (key value : Descriptor) :
    Elsewhere answer s (castMap enter key value expected path v)
      (castMap enter key value expected path' v) := by
  unfold castMap
  split
  · exact (castEntries_elsewhere h key value _ s).bind fun entries s' _ => .pure _
  · exact mismatch_elsewhere

/-- The items of a tuple move along with the tuple. -/
theorem castEach_elsewhere (h : LocationFree answer enter) (elements : List Descriptor) (i : Nat)
    (items : List Value) (s : σ) :
    Elsewhere answer s (castEach enter path i elements items)
      (castEach enter path' i elements items) := by
  induction elements generalizing i items s with
  | nil => exact .pure []
  | cons d elements ih =>
    cases items with
    | nil => exact .pure []
    | cons x items => exact (h ..).bind fun w s' _ => (ih ..).bind fun ws s'' _ => .pure _

/-- A tuple has the same arity everywhere. -/
theorem castTuple_elsewhere (h : LocationFree answer enter) (elements : List Descriptor) :
    Elsewhere answer s (castTuple enter elements expected path v)
      (castTuple enter elements expected path' v) := by
  rw [castTuple, castTuple]
  cases v.sequence? with
  | some items =>
    simp only
    split
    · exact (castEach_elsewhere h elements 0 items s).bind fun ws s' _ => .pure _
    · exact mismatch_elsewhere
  | none => exact mismatch_elsewhere

/-! ## Named fields -/

/-- The same fields are cast and the same defaults are made. -/
theorem castFields_elsewhere (h : LocationFree answer enter) (entries : List (Key × Value))
    (fields : List (Field Descriptor)) (s : σ) :
    Elsewhere answer s (KeywordShape.castFields enter path entries fields)
      (KeywordShape.castFields enter path' entries fields) := by
  induction fields generalizing s with
  | nil => exact .pure []
  | cons f rest ih =>
    rw [KeywordShape.castFields, KeywordShape.castFields]
    cases Entries.find? (Key.text f.name) entries with
    -- present, supplied, or left out; a default is made without a location
    | some x => exact (h ..).bind fun w s₁ _ => (ih s₁).bind fun ws s₂ _ => .pure _
    | none =>
      simp only
      cases f.default? with
      | some d => exact (elsewhere_refl _).bind fun w s₁ _ => (ih s₁).bind fun ws s₂ _ => .pure _
      | none => exact ih s

/-- The same names are missing or unknown everywhere. -/
theorem KeywordShape.cast_elsewhere (h : LocationFree answer enter) (shape : KeywordShape) :
    Elsewhere answer s (shape.cast enter path v) (shape.cast enter path' v) := by
  unfold KeywordShape.cast
  split
  next entries =>
    simp only
    split
    · exact castFields_elsewhere h entries shape.fields s
    · exact mismatch_elsewhere
  next => exact mismatch_elsewhere

/-! ## Calls -/

/-- A symbol is resolved in the registry, which knows no locations. -/
theorem castSymbol_elsewhere (ctx : Context) (spec : SymbolPath) :
    Elsewhere answer s (castSymbol ctx spec expected path v)
      (castSymbol ctx spec expected path' v) := by
  rw [castSymbol, castSymbol]
  cases v.text? with
  | none => exact mismatch_elsewhere
  | some dotted =>
    simp only
    split
    · exact .pure _
    · exact mismatch_elsewhere
    · exact mismatch_elsewhere
    -- the error of a lookup has no location in it
    · exact elsewhere_refl _

/-- The same callable is found wherever an invocation stands. -/
theorem callTarget_elsewhere (h : LocationFree answer enter) (keys : EnvelopeKeys)
    (symbol : Descriptor) :
    Elsewhere answer s (callTarget enter keys symbol expected path v)
      (callTarget enter keys symbol expected path' v) := by
  unfold callTarget
  split
  next envelope =>
    cases Entries.find? (Key.text keys.callable) envelope with
    | none => exact mismatch_elsewhere
    | some reference =>
      refine (h ..).bind fun target s' _ => ?_
      cases target with
      | callable c => exact .pure _
      -- the reference is blamed, at its own location on each side
      | _ => exact mismatch_elsewhere
  next => exact mismatch_elsewhere

/-- The arguments of an invocation move along with it. -/
theorem castInvocation_elsewhere (h : LocationFree answer enter) (ctx : Context)
    (symbol args kwargs : Descriptor) :
    Elsewhere answer s (castInvocation ctx enter symbol args kwargs expected path v)
      (castInvocation ctx enter symbol args kwargs expected path' v) := by
  refine (callTarget_elsewhere h _ symbol).bind fun found s₁ _ => ?_
  refine (h ..).bind fun castArgs s₂ _ => ?_
  refine (elsewhere_refl _).bind fun positional s₃ _ => ?_
  refine (h ..).bind fun castKwargs s₄ _ => ?_
  exact elsewhere_refl _

/-- The arguments two levels down move along as well. -/
theorem castInspectedInvocation_elsewhere (h : LocationFree answer enter)
    (hbelow : LocationFree answer enterBelow) (ctx : Context) (symbol : Descriptor) :
    Elsewhere answer s (castInspectedInvocation ctx enter enterBelow symbol expected path v)
      (castInspectedInvocation ctx enter enterBelow symbol expected path' v) := by
  refine (callTarget_elsewhere h _ symbol).bind fun found s₁ _ => ?_
  refine (elsewhere_refl _).bind fun shape s₂ _ => ?_
  exact (KeywordShape.cast_elsewhere hbelow shape).bind fun keyword s₃ _ => elsewhere_refl _

/-! ## Types -/

/-- The alternatives of a union are cast at its own location. -/
theorem apply_elsewhere (h : LocationFree answer enter) (hbelow : LocationFree answer enterBelow)
    (ctx : Context) (d : Descriptor) (path path' : Path) (v : Value) (s : σ) :
    Elsewhere answer s (d.apply ctx enter enterBelow path v)
      (d.apply ctx enter enterBelow path' v) := by
  -- induction on the type for the alternatives of unions, which are tried at the same location
  induction d using Descriptor.ofParts generalizing s with
  | h id shape ih =>
    rw [Descriptor.apply, Descriptor.apply]
    cases ctx.converter? id with
    | some c => exact elsewhere_refl _
    | none =>
      simp only
      cases shape with
      | any => exact .pure v
      | primitive | float | complex | literal => exact castUnchanged_elsewhere
      | decimal => exact castDecimal_elsewhere
      | record name fields constructor? =>
        exact (KeywordShape.cast_elsewhere h _).bind fun arguments s' _ => elsewhere_refl _
      | partialRecord name fields total =>
        exact (KeywordShape.cast_elsewhere h _).bind fun present s' _ => .pure _
      | listOf element | queueOf element =>
        exact (castElements_elsewhere h element).bind fun items s' _ => .pure _
      | setOf element => exact castSet_elsewhere h element
      | mapOf key value => exact castMap_elsewhere h key value
      | tupleOf elements => exact castTuple_elsewhere h elements
      | unionOf alternatives =>
        -- alternative by alternative, since only refusals are passed on and they agree
        rw [Shape.apply, Shape.apply, applyFirst_eq_firstOf, applyFirst_eq_firstOf]
        refine .firstOf (fun _ _ => CastError.SameElsewhere.isCoercion) ?_
          (fun s => mismatch_elsewhere) s
        rw [List.forall₂_map_left_iff, List.forall₂_map_right_iff]
        exact List.forall₂_same.mpr ih
      | symbolPath spec => exact castSymbol_elsewhere ctx spec
      | invocation symbol args kwargs => exact castInvocation_elsewhere h ctx symbol args kwargs
      | inspectedInvocation symbol => exact castInspectedInvocation_elsewhere h hbelow ctx symbol

/-- Wherever a value stands, with the same room it is cast to the same value or refused for the same
    reason, and the host is left in the same state. -/
theorem castWithin_elsewhere (answer : (request : Request) → StateM σ request.Reply) (ctx : Context)
    (room : Nat) : LocationFree answer (castWithin ctx room) := by
  induction room using Nat.strongRecOn with
  | ind room ih =>
    intro d path path' v s
    -- an inspected invocation reaches two levels down, hence the strong induction
    cases room with
    | zero => exact mismatch_elsewhere
    | succ room =>
      rw [castWithin_succ, castWithin_succ]
      exact apply_elsewhere (ih room (by omega)) (ih (room - 1) (by omega)) ctx d path path' v s

end Conform
