import Conform.Proofs.Cast.Agree
import Conform.Proofs.Program.Trace

/-!
# Explicit invocations

The cast of a value to an explicit invocation goes through stages: the reference is cast, then the
positional and then the keyword arguments, and then the callable is called.
`ExplicitInvocation.Goes` tells, for each stage at which it can end, what has happened until then.
The callable is called in the last of them only, as the last thing that happens. What it gets are
the arguments that the casts have given, followed by the defaults of those parameters that they do
not cover (`fillDefaults_eq_append`). Main statement: `invocation_calls_last`.
-/

namespace Conform

/-! ## Defaults behind the keyword arguments -/

/-- The name and the default of a parameter that no keyword argument covers. -/
def Param.supplied? (keyword : List (String × Value)) (p : Param) : Option (String × Value) :=
  if p.name ∈ Entries.keys keyword then none else p.default?.map fun v => (p.name, v)

/-- The names and the defaults of the parameters that neither a position nor a keyword argument
    covers, in declared order. The positions cover the parameters with smaller indices. -/
def Signature.uncovered (signature : Signature) (positional : Nat)
    (keyword : List (String × Value)) : List (String × Value) :=
  signature.params.zipIdx.filterMap fun (p, i) =>
    if positional ≤ i then p.supplied? keyword else none

/-- Going through the items from an index on is going through what is left behind that index. -/
private theorem filterMap_zipIdx {α β : Type} (f : α → Option β) (n start : Nat) (items : List α) :
    (items.zipIdx start).filterMap (fun (a, i) => if n ≤ i then f a else none) =
      (items.drop (n - start)).filterMap f := by
  induction items generalizing start with
  | nil => simp
  | cons a rest ih =>
    rw [List.zipIdx_cons, List.filterMap_cons]
    by_cases h : n ≤ start
    · -- from here on every item counts
      have hrest : n - (start + 1) = 0 := by omega
      have hall : n - start = 0 := by omega
      rw [hall, List.drop_zero, List.filterMap_cons, ih, hrest, List.drop_zero]
      simp only [h, if_true]
    -- this item is dropped, and one less is to be dropped of the rest
    · have hnext : n - start = (n - (start + 1)) + 1 := by omega
      rw [hnext, List.drop_succ_cons, ih]
      simp only [h, if_false]

/-- Defaults that have been appended do not keep others from being appended, if all the names are
    different. -/
private theorem foldl_supplied (keyword : List (String × Value)) {params : List Param}
    (hnames : (params.map Param.name).Nodup) (added : List (String × Value))
    (hadded : ∀ p ∈ params, p.name ∉ Entries.keys added) :
    params.foldl (fun keyword p => match p.default? with
        | some v => if Entries.contains p.name keyword then keyword else keyword ++ [(p.name, v)]
        | none => keyword) (keyword ++ added) =
      keyword ++ added ++ params.filterMap (Param.supplied? keyword) := by
  -- with what the parameters before have added
  induction params generalizing added with
  | nil => simp
  | cons p rest ih =>
    obtain ⟨hp, hrest⟩ := List.nodup_cons.mp hnames
    obtain ⟨hfirst, hothers⟩ := List.forall_mem_cons.mp hadded
    rw [List.foldl_cons, List.filterMap_cons]
    cases hdefault : p.default? with
    | none =>
      have hnone : p.supplied? keyword = none := by simp [Param.supplied?, hdefault]
      rw [hnone]
      exact ih hrest added hothers
    | some v =>
      -- what was added before bears other names, so that only the given arguments can cover the
      -- parameter
      have hcontains : Entries.contains p.name (keyword ++ added) = true ↔
          p.name ∈ Entries.keys keyword := by
        rw [Entries.contains_iff_mem_keys, Entries.keys, List.map_append, List.mem_append]
        exact or_iff_left hfirst
      by_cases hcovered : p.name ∈ Entries.keys keyword
      · have hnone : p.supplied? keyword = none := if_pos hcovered
        simp only [hnone, hcontains.mpr hcovered, if_true]
        exact ih hrest added hothers
      · have hsome : p.supplied? keyword = some (p.name, v) := by
          simp [Param.supplied?, hcovered, hdefault]
        have hnew : ∀ q ∈ rest, q.name ∉ Entries.keys (added ++ [(p.name, v)]) := by
          intro q hq hmem
          rw [Entries.keys, List.map_append, List.mem_append] at hmem
          cases hmem with
          | inl h => exact hothers q hq h
          | inr h =>
            -- another parameter has another name
            rw [List.map_singleton, List.mem_singleton] at h
            exact hp (List.mem_map.mpr ⟨q, hq, h⟩)
        simp only [hsome, mt hcontains.mp hcovered, Bool.false_eq_true, if_false]
        rw [List.append_assoc, ih hrest _ hnew]
        simp only [List.append_assoc, List.singleton_append]

/-- A callable whose parameters have distinct names gets the defaults that are not covered. -/
theorem fillDefaults_eq_append {signature : Signature}
    (hnames : (signature.params.map Param.name).Nodup) (positional : Nat)
    (keyword : List (String × Value)) :
    fillDefaults (some signature) positional keyword =
      keyword ++ signature.uncovered positional keyword := by
  -- the parameters that are not given by position still have distinct names
  have hdropped : ((signature.params.drop positional).map Param.name).Nodup := by
    rw [List.map_drop]
    exact hnames.sublist (List.drop_sublist _ _)
  have h := foldl_supplied keyword hdropped [] fun p _ hp => by cases hp
  rw [List.append_nil] at h
  rw [Signature.uncovered, filterMap_zipIdx, Nat.sub_zero]
  exact h

/-! ## What casts of arguments give -/

/-- The value is a list, a tuple or a queue of these items. -/
inductive Value.IsSequence : Value → List Value → Prop
  | list (items : List Value) : IsSequence (.list items) items
  | tuple (items : List Value) : IsSequence (.tuple items) items
  | queue (items : List Value) : IsSequence (.queue items) items

/-- The value is a map with text keys only, or a record, that holds these keyword arguments. -/
inductive Value.IsKeywords : Value → List (String × Value) → Prop
  | map (keyword : List (String × Value)) :
    IsKeywords (.map (keyword.map fun entry => (.text entry.1, entry.2))) keyword
  | record (name : String) (fields : List (String × Value)) :
    IsKeywords (.record name fields) fields

/-- A sequence is passed on item by item, and nothing else is. -/
theorem positionalArguments_cases (args : Descriptor) (v : Value) :
    (∃ items, v.IsSequence items ∧ positionalArguments args v = pure items) ∨
      (∀ items, ¬ v.IsSequence items) ∧
        positionalArguments args v =
          .throw (.config (.argsNotSequence args.render v.kind.name)) := by
  cases v with
  | list items => exact .inl ⟨items, .list items, rfl⟩
  | tuple items => exact .inl ⟨items, .tuple items, rfl⟩
  | queue items => exact .inl ⟨items, .queue items, rfl⟩
  | _ => exact .inr ⟨fun _ h => (by cases h), rfl⟩

/-- Entries are keyword arguments when every key is a text. -/
theorem textEntries?_eq_some_iff {entries : List (Key × Value)} {keyword : List (String × Value)} :
    textEntries? entries = some keyword ↔
      entries = keyword.map fun entry => (.text entry.1, entry.2) := by
  induction entries generalizing keyword with
  | nil => cases keyword <;> simp [textEntries?]
  | cons entry rest ih =>
    obtain ⟨k, v⟩ := entry
    cases k with
    | text name =>
      cases keyword with
      | nil => simp [textEntries?]
      | cons first others =>
        obtain ⟨other, w⟩ := first
        simp only [textEntries?, Option.map_eq_some_iff, ih, List.map_cons, List.cons.injEq,
          Prod.mk.injEq, Key.text.injEq]
        constructor
        · rintro ⟨rest', hrest, ⟨hname, hv⟩, rfl⟩
          exact ⟨⟨hname, hv⟩, hrest⟩
        · rintro ⟨hfirst, hrest⟩
          exact ⟨others, hrest, hfirst, rfl⟩
    -- a key that is no text rules out keyword arguments
    | _ => cases keyword <;> simp [textEntries?]

/-- The entries of a map with text keys only, or the fields of a record, are passed on, and nothing
    else is. -/
theorem keywordArguments_cases (kwargs : Descriptor) (v : Value) :
    (∃ keyword, v.IsKeywords keyword ∧ keywordArguments kwargs v = pure keyword) ∨
      (∀ keyword, ¬ v.IsKeywords keyword) ∧ keywordArguments kwargs v =
        .throw (.config (.kwargsNotMapping kwargs.render v.kind.name)) := by
  cases v with
  | record name fields => exact .inl ⟨fields, .record name fields, rfl⟩
  | map entries =>
    -- a map of arguments has texts for all of its keys
    cases htexts : textEntries? entries with
    | some keyword =>
      obtain rfl := textEntries?_eq_some_iff.mp htexts
      refine .inl ⟨keyword, .map keyword, ?_⟩
      simp only [keywordArguments, htexts]
    | none =>
      refine .inr ⟨fun keyword h => ?_, ?_⟩
      · cases h
        rw [textEntries?_eq_some_iff.mpr rfl] at htexts
        cases htexts
      · simp only [keywordArguments, htexts]
  | _ => exact .inr ⟨fun _ h => (by cases h), rfl⟩

/-! ## Stages of an invocation -/

/-- An explicit invocation: the types of the reference, of the positional and of the keyword
    arguments. -/
structure ExplicitInvocation where
  id : Nat
  symbol : Descriptor
  args : Descriptor
  kwargs : Descriptor

namespace ExplicitInvocation

def descriptor (inv : ExplicitInvocation) : Descriptor :=
  .node inv.id (.invocation inv.symbol inv.args inv.kwargs)

variable (ctx : Context) (inv : ExplicitInvocation) (path : Path)

/-- The cast of a reference goes through a trace to a result. -/
def ReferenceEnds (reference : Value) (t : List Occurrence) (r : Except CastError Value) : Prop :=
  (castAt ctx inv.symbol (path ++ [.field ctx.config.envelope.callable]) reference).Ends t r

/-- The cast of the positional arguments goes through a trace to a result. If there are none, an
    empty list is cast. -/
def ArgsEnd (envelope : List (Key × Value)) (t : List Occurrence) (r : Except CastError Value) :
    Prop :=
  (castAt ctx inv.args (path ++ [.field ctx.config.envelope.args])
    ((Entries.find? (Key.text ctx.config.envelope.args) envelope).getD (.list []))).Ends t r

/-- The cast of the keyword arguments goes through a trace to a result. If there are none, an empty
    map is cast. -/
def KwargsEnd (envelope : List (Key × Value)) (t : List Occurrence) (r : Except CastError Value) :
    Prop :=
  (castAt ctx inv.kwargs (path ++ [.field ctx.config.envelope.kwargs])
    ((Entries.find? (Key.text ctx.config.envelope.kwargs) envelope).getD (.map []))).Ends t r

/-- The reference of the map has led to a callable. -/
structure Finds (envelope : List (Key × Value)) (t : List Occurrence) (c : Callable) : Prop where
  ends : ∃ reference, Entries.find? (Key.text ctx.config.envelope.callable) envelope =
    some reference ∧ inv.ReferenceEnds ctx path reference t (.ok (.callable c))

/-- The keyword arguments with which a callable is called: those that the cast has given, and behind
    them the defaults that are not covered, if the callable has a signature. -/
structure Completes (c : Callable) (positional : Nat) (keyword passed : List (String × Value)) :
    Prop where
  unsigned : ctx.signatures.get? c = none → passed = keyword
  signed : ∀ signature, ctx.signatures.get? c = some signature →
    (signature.params.map Param.name).Nodup →
      passed = keyword ++ signature.uncovered positional keyword

/-- A failure that the cast raises itself. -/
abbrev raises (e : CastError) : List Occurrence := [.raised 0 e]

/-- How the cast of a value to an explicit invocation goes, and how it ends. -/
inductive Goes (v : Value) : List Occurrence → Except CastError Value → Prop
  | tooDeep {e : CastError} (deep : ctx.config.limits.maxDepth < path.length)
      (failure : e = refused path v inv.descriptor.render
        (.depthExceeded ctx.config.limits.maxDepth)) :
    Goes v (raises e) (.error e)
  | notAMap {e : CastError} (kind : v.kind ≠ .map)
      (failure : e = refused path v inv.descriptor.render .wrongKind) :
    Goes v (raises e) (.error e)
  | noReference {envelope : List (Key × Value)} {e : CastError} (map : v = .map envelope)
      (absent : Entries.find? (Key.text ctx.config.envelope.callable) envelope = none)
      (failure : e = refused path v inv.descriptor.render
        (.missingCallableKey ctx.config.envelope.callable)) :
    Goes v (raises e) (.error e)
  | referenceFails {envelope : List (Key × Value)} {reference : Value} {t : List Occurrence}
      {e : CastError} (map : v = .map envelope)
      (present : Entries.find? (Key.text ctx.config.envelope.callable) envelope = some reference)
      (ends : inv.ReferenceEnds ctx path reference t (.error e)) :
    Goes v t (.error e)
  | notCallable {envelope : List (Key × Value)} {reference target : Value} {t : List Occurrence}
      {e : CastError} (map : v = .map envelope)
      (present : Entries.find? (Key.text ctx.config.envelope.callable) envelope = some reference)
      (ends : inv.ReferenceEnds ctx path reference t (.ok target))
      (kind : target.kind ≠ .callable)
      (failure : e = refused (path ++ [.field ctx.config.envelope.callable]) reference
        inv.descriptor.render .notCallable) :
    Goes v (t ++ raises e) (.error e)
  | argsFail {envelope : List (Key × Value)} {c : Callable} {t₁ t₂ : List Occurrence}
      {e : CastError} (map : v = .map envelope) (finds : inv.Finds ctx path envelope t₁ c)
      (args : inv.ArgsEnd ctx path envelope t₂ (.error e)) :
    Goes v (t₁ ++ t₂) (.error e)
  | argsNotSequence {envelope : List (Key × Value)} {c : Callable} {a : Value}
      {t₁ t₂ : List Occurrence} {e : CastError} (map : v = .map envelope)
      (finds : inv.Finds ctx path envelope t₁ c)
      (args : inv.ArgsEnd ctx path envelope t₂ (.ok a)) (other : ∀ items, ¬ a.IsSequence items)
      (failure : e = .config (.argsNotSequence inv.args.render a.kind.name)) :
    Goes v (t₁ ++ (t₂ ++ raises e)) (.error e)
  | kwargsFail {envelope : List (Key × Value)} {c : Callable} {a : Value}
      {positional : List Value} {t₁ t₂ t₃ : List Occurrence} {e : CastError}
      (map : v = .map envelope) (finds : inv.Finds ctx path envelope t₁ c)
      (args : inv.ArgsEnd ctx path envelope t₂ (.ok a)) (sequence : a.IsSequence positional)
      (kwargs : inv.KwargsEnd ctx path envelope t₃ (.error e)) :
    Goes v (t₁ ++ (t₂ ++ t₃)) (.error e)
  | kwargsNotMapping {envelope : List (Key × Value)} {c : Callable} {a k : Value}
      {positional : List Value} {t₁ t₂ t₃ : List Occurrence} {e : CastError}
      (map : v = .map envelope) (finds : inv.Finds ctx path envelope t₁ c)
      (args : inv.ArgsEnd ctx path envelope t₂ (.ok a)) (sequence : a.IsSequence positional)
      (kwargs : inv.KwargsEnd ctx path envelope t₃ (.ok k))
      (other : ∀ keyword, ¬ k.IsKeywords keyword)
      (failure : e = .config (.kwargsNotMapping inv.kwargs.render k.kind.name)) :
    Goes v (t₁ ++ (t₂ ++ (t₃ ++ raises e))) (.error e)
  | called {envelope : List (Key × Value)} {c : Callable} {a k : Value} {positional : List Value}
      {keyword passed : List (String × Value)} {t₁ t₂ t₃ : List Occurrence}
      {reply : Except HostFailure Value} (map : v = .map envelope)
      (finds : inv.Finds ctx path envelope t₁ c)
      (args : inv.ArgsEnd ctx path envelope t₂ (.ok a)) (sequence : a.IsSequence positional)
      (kwargs : inv.KwargsEnd ctx path envelope t₃ (.ok k)) (mapping : k.IsKeywords keyword)
      (completes : Completes ctx c positional.length keyword passed) :
    Goes v (t₁ ++ (t₂ ++ (t₃ ++ [.asked 0 (.call c positional passed) reply])))
      (reply.mapError .ofHost)

end ExplicitInvocation

/-! ## The stages of a cast -/

/-- What follows a failure that is raised does not happen. -/
theorem Program.ends_throw_bind {α β : Type} {e : CastError} {f : α → Program β}
    {t : List Occurrence} {r : Except CastError β}
    (h : ((Program.throw e : Program α) >>= f).Ends t r) : t = [.raised 0 e] ∧ r = .error e := by
  obtain ⟨rest, rfl, rfl, rfl⟩ := h
  exact ⟨rfl, rfl⟩

namespace ExplicitInvocation

variable {ctx : Context} {inv : ExplicitInvocation} {path : Path} {envelope : List (Key × Value)}
  {c : Callable} {t₁ t : List Occurrence} {r : Except CastError Value}

/-- The keyword arguments are completed as the signature says. -/
theorem completes_fillDefaults (c : Callable) (positional : Nat)
    (keyword : List (String × Value)) :
    Completes ctx c positional keyword
      (fillDefaults (ctx.signatures.get? c) positional keyword) where
  unsigned := fun h => by rw [h]; rfl
  signed := fun signature h hnames => by rw [h]; exact fillDefaults_eq_append hnames _ _

/-- Once the callable has been found, the arguments are cast, and then it is called. -/
theorem goes_of_arguments (hfinds : inv.Finds ctx path envelope t₁ c)
    (h : (castAt ctx inv.args (path ++ [.field ctx.config.envelope.args])
        ((Entries.find? (Key.text ctx.config.envelope.args) envelope).getD (.list [])) >>= fun a =>
      positionalArguments inv.args a >>= fun positional =>
      castAt ctx inv.kwargs (path ++ [.field ctx.config.envelope.kwargs])
        ((Entries.find? (Key.text ctx.config.envelope.kwargs) envelope).getD (.map [])) >>= fun k =>
      keywordArguments inv.kwargs k >>= fun keyword =>
      Program.call c positional
        (fillDefaults (ctx.signatures.get? c) positional.length keyword)).Ends t r) :
    inv.Goes ctx path (.map envelope) (t₁ ++ t) r := by
  -- each stage either fails, which ends the invocation, or the next stage starts behind it
  obtain ⟨a, t₂, t', rfl, hargs, h⟩ | ⟨e, rfl, hargs⟩ := h.of_bind
  case inr => exact .argsFail rfl hfinds hargs
  obtain ⟨positional, hsequence, hpositional⟩ | ⟨hother, hpositional⟩ :=
    positionalArguments_cases inv.args a
  case inr =>
    rw [hpositional] at h
    obtain ⟨rfl, rfl⟩ := Program.ends_throw_bind h
    exact .argsNotSequence rfl hfinds hargs hother rfl
  rw [hpositional, Program.pure_bind] at h
  obtain ⟨k, t₃, t'', rfl, hkwargs, h⟩ | ⟨e, rfl, hkwargs⟩ := h.of_bind
  case inr => exact .kwargsFail rfl hfinds hargs hsequence hkwargs
  obtain ⟨keyword, hmapping, hkeyword⟩ | ⟨hother, hkeyword⟩ :=
    keywordArguments_cases inv.kwargs k
  case inr =>
    rw [hkeyword] at h
    obtain ⟨rfl, rfl⟩ := Program.ends_throw_bind h
    exact .kwargsNotMapping rfl hfinds hargs hsequence hkwargs hother rfl
  rw [hkeyword, Program.pure_bind] at h
  -- the call is the only request of the invocation itself
  obtain ⟨reply, rest, rfl, rfl, rfl⟩ := h
  exact .called rfl hfinds hargs hsequence hkwargs hmapping (completes_fillDefaults ..)

/-- A reference that is there is cast, and what follows is done with the callable that it leads
    to. -/
theorem goes_of_reference {enter : Enter}
    (henter : ∀ d name x,
      enter d (path ++ [.field name]) x = castAt ctx d (path ++ [.field name]) x)
    (h : (castInvocation ctx enter inv.symbol inv.args inv.kwargs inv.descriptor.render path
      (.map envelope)).Ends t r) : inv.Goes ctx path (.map envelope) t r := by
  rw [castInvocation, callTarget] at h
  cases hpresent : Entries.find? (Key.text ctx.config.envelope.callable) envelope with
  | none =>
    simp only [hpresent] at h
    obtain ⟨rfl, rfl⟩ := Program.ends_throw_bind h
    exact .noReference rfl hpresent rfl
  | some reference =>
    simp only [hpresent, Program.bind_assoc, henter] at h
    obtain ⟨target, t₁, t', rfl, hends, h⟩ | ⟨e, rfl, hends⟩ := h.of_bind
    case inr => exact .referenceFails rfl hpresent hends
    -- the reference is cast, and what it is cast to may not be callable
    cases target with
    | callable c => exact goes_of_arguments ⟨reference, hpresent, hends⟩ h
    | _ =>
      obtain ⟨rfl, rfl⟩ := Program.ends_throw_bind h
      exact .notCallable rfl hpresent hends (fun h => (by cases h)) rfl

end ExplicitInvocation

/-- The cast of a value to an explicit invocation that nothing converts goes through its stages in
    order. The callable that the reference leads to is called once, when the reference and then the
    arguments have been cast, with the arguments that the casts have given and the defaults that are
    not covered; this is the last thing that happens, and its reply is the outcome. If a stage
    fails, that is the outcome, and the callable is not called. -/
theorem invocation_calls_last {ctx : Context} {inv : ExplicitInvocation}
    (hid : ctx.converter? inv.id = none) {path : Path} {v : Value} {t : List Occurrence}
    {r : Except CastError Value} (h : (castAt ctx inv.descriptor path v).Ends t r) :
    inv.Goes ctx path v t r := by
  by_cases hdeep : ctx.config.limits.maxDepth < path.length
  · have hroom : ctx.config.limits.maxDepth + 1 - path.length = 0 := by omega
    rw [castAt, hroom] at h
    obtain ⟨rest, rfl, rfl, rfl⟩ := h
    exact .tooDeep hdeep rfl
  · obtain ⟨room, hroom⟩ := Nat.exists_eq_add_of_le (Nat.not_lt.mp hdeep)
    -- there is room for one more level, in which the envelope is taken apart
    have hcast : castAt ctx inv.descriptor path v = castInvocation ctx (castWithin ctx room)
        inv.symbol inv.args inv.kwargs inv.descriptor.render path v := by
      rw [castAt, show ctx.config.limits.maxDepth + 1 - path.length = room + 1 by omega]
      exact castWithin_of_no_converter hid room _ path v
    rw [hcast] at h
    cases v with
    | map envelope =>
      refine ExplicitInvocation.goes_of_reference (fun d name x => castWithin_eq_castAt ?_) h
      rw [List.length_append, List.length_singleton]
      omega
    | _ =>
      obtain ⟨rfl, rfl⟩ := Program.ends_throw_bind h
      exact .notAMap (fun h => (by cases h)) rfl

/-! ## A delivery -/

/-- A call of any symbol with a list of positional arguments and a map of keyword arguments. -/
def anyCall : ExplicitInvocation where
  id := 0
  symbol := .node 1 (.symbolPath .unrestricted)
  args := .node 2 (.listOf (.node 3 .any))
  kwargs := .node 4 (.mapOf (.node 5 (.primitive .text)) (.node 3 .any))

/-- A context in which the symbol `shop.deliver` leads to a callable with three parameters, of which
    two have a default. -/
def deliveryContext : Context where
  registry := Registry.empty.insert ⟨0, "shop", [("deliver", .callable ⟨0, "deliver"⟩)]⟩
  signatures := ⟨[(0, ⟨[⟨"order", none, none⟩, ⟨"parcels", none, some (.int 1)⟩,
    ⟨"days", none, some (.int 3)⟩]⟩)]⟩

/-- A delivery within a day. -/
def deliveryEnvelope : Value :=
  .map [(.text "fn", .text "shop.deliver"), (.text "args", .list [.int 10]),
    (.text "kwargs", .map [(.text "days", .int 1)])]

/-- The position covers the first parameter and the name the last, so that one default is left. -/
theorem invocation_calls_last_delivery :
    deliveryContext.converter? anyCall.id = none ∧
      (castAt deliveryContext anyCall.descriptor [] deliveryEnvelope).Ends
        [.asked 0 (.call ⟨0, "deliver"⟩ [.int 10] [("days", .int 1), ("parcels", .int 1)])
          (.ok (.text "sent"))] (.ok (.text "sent")) ∧
      anyCall.Goes deliveryContext [] deliveryEnvelope
        [.asked 0 (.call ⟨0, "deliver"⟩ [.int 10] [("days", .int 1), ("parcels", .int 1)])
          (.ok (.text "sent"))] (.ok (.text "sent")) := by
  have hends : (castAt deliveryContext anyCall.descriptor [] deliveryEnvelope).Ends
      [.asked 0 (.call ⟨0, "deliver"⟩ [.int 10] [("days", .int 1), ("parcels", .int 1)])
        (.ok (.text "sent"))] (.ok (.text "sent")) :=
    ⟨.ok (.text "sent"), [], rfl, rfl, rfl⟩
  exact ⟨rfl, hends, invocation_calls_last rfl hends⟩

end Conform
