import Conform.Proofs.Cast.Follows
import Conform.Proofs.Cast.Inspected
import Conform.Proofs.Compilation
import Conform.Proofs.Symbol

/-!
# The depth limit of casts

`castMarked` is `cast` with a mark of each location at which the rule of a type is applied. With
these marks a run tells where it has been, and `castWithin_follows` compares the cast under one
limit with the marked cast under another that is no smaller.

Under the same limit nothing is cut off: the marks do not change the run, and none of them lies
beyond the limit. Under a greater limit the cast is cut off where it comes to a location beyond the
smaller one. A union would catch this failure and go on with another alternative, so that the
comparison is one of types without unions (`depth_limit_cuts_short`).
-/

namespace Conform

variable {ctx : Context} {d : Descriptor} {limit : Nat}

/-! ## Another limit -/

/-- The same context with another limit of depth. -/
def Context.withMaxDepth (limit : Nat) (ctx : Context) : Context :=
  { ctx with config := { ctx.config with limits := { ctx.config.limits with maxDepth := limit } } }

/-- Which types can be used does not depend on how deep values may nest. -/
theorem Descriptor.check_withMaxDepth (d : Descriptor) (depth : Nat) :
    d.check (ctx.withMaxDepth limit) depth = d.check ctx depth := by
  -- the recursion on the type carries the context along and reads its other fields only
  delta Descriptor.check
  rfl

/-- The types of parameters are checked alike under every limit. -/
theorem KeywordShape.parameterFields_withMaxDepth (c : Callable) (signature : Signature)
    (params : List Param) :
    parameterFields (ctx.withMaxDepth limit) c signature params =
      parameterFields ctx c signature params := by
  induction params with
  | nil => rfl
  | cons p rest ih => simp only [parameterFields, Descriptor.check_withMaxDepth, ih]

/-- A signature is read alike under every limit. -/
theorem KeywordShape.ofCallable_withMaxDepth (c : Callable) :
    ofCallable (ctx.withMaxDepth limit) c = ofCallable ctx c := by
  simp only [ofCallable, parameterFields_withMaxDepth]
  rfl

section Apply

variable {enter enterBelow : Enter}

mutual

/-- The rules of types know nothing of the limit. -/
theorem Descriptor.apply_withMaxDepth : ∀ (d : Descriptor) (path : Path) (v : Value),
    d.apply (ctx.withMaxDepth limit) enter enterBelow path v = d.apply ctx enter enterBelow path v
  | .node id shape, path, v => by
    rw [Descriptor.apply, Descriptor.apply, Shape.apply_withMaxDepth shape path v]
    rfl

/-- Of the context, the rule of a shape reads the registry, the signatures and the names of the
    envelope. -/
theorem Shape.apply_withMaxDepth : ∀ (shape : Shape) (path : Path) (v : Value),
    shape.apply (ctx.withMaxDepth limit) enter enterBelow path v =
      shape.apply ctx enter enterBelow path v
  | .unionOf alternatives, path, v => applyFirst_withMaxDepth _ alternatives path v
  -- the types of the parameters are checked, which has nothing to do with this limit
  | .inspectedInvocation symbol, path, v => by
    simp only [Shape.apply, castInspectedInvocation, KeywordShape.ofCallable_withMaxDepth]
    rfl
  | .any, _, _ | .primitive _, _, _ | .float, _, _ | .complex, _, _ | .decimal, _, _
  | .literal _, _, _ | .record .., _, _ | .partialRecord .., _, _ | .listOf _, _, _
  | .setOf _, _, _ | .queueOf _, _, _ | .mapOf .., _, _ | .tupleOf _, _, _ | .symbolPath _, _, _
  | .invocation .., _, _ => rfl

/-- The alternatives of a union do not know the limit either. -/
theorem applyFirst_withMaxDepth (otherwise : Program Value) :
    ∀ (alternatives : List Descriptor) (path : Path) (v : Value),
    applyFirst (ctx.withMaxDepth limit) enter enterBelow otherwise alternatives path v =
      applyFirst ctx enter enterBelow otherwise alternatives path v
  | [], _, _ => rfl
  | d :: rest, path, v => by
    rw [applyFirst, applyFirst, Descriptor.apply_withMaxDepth d path v,
      applyFirst_withMaxDepth otherwise rest path v]

end

end Apply

/-! ## Marked casts -/

/-- `castWithin`, with a mark of each location at which the rule of a type is applied. The mark is
    the refusal that the rule could end with. -/
def markedWithin (ctx : Context) : Nat → Descriptor → Path → Value → Program Value
  | 0, d, path, v => castWithin ctx 0 d path v
  | 1, d, path, v =>
    .raise 0 (refused path v d.render .wrongKind)
      (d.apply ctx (fun d path v => markedWithin ctx 0 d path v)
        (fun d path v => markedWithin ctx 0 d path v) path v)
  | room + 2, d, path, v =>
    .raise 0 (refused path v d.render .wrongKind)
      (d.apply ctx (fun d path v => markedWithin ctx (room + 1) d path v)
        (fun d path v => markedWithin ctx room d path v) path v)

/-- Where there is room, the location is marked and the rule of the type applies. -/
theorem markedWithin_succ (ctx : Context) (room : Nat) (d : Descriptor) (path : Path) (v : Value) :
    markedWithin ctx (room + 1) d path v =
      .raise 0 (refused path v d.render .wrongKind)
        (d.apply ctx (markedWithin ctx room) (markedWithin ctx (room - 1)) path v) := by
  cases room <;> rfl

/-- `cast`, with a mark of each location at which the rule of a type is applied. -/
def castMarked (ctx : Context) (d : Descriptor) (v : Value) : Program Value :=
  match compile ctx d with
  | .ok c => markedWithin c.context (c.context.config.limits.maxDepth + 1) c.descriptor [] v
  | .error e => .throw (.config e)

/-- The failure of a cast at a location right behind the limit, and the mark of that location under
    a limit that is greater by `more`. -/
def CutAt (limit more : Nat) (e e' : CastError) : Prop :=
  0 < more ∧ ∃ (path : Path) (v : Value) (expected : String), path.length = limit + 1 ∧
    e = refused path v expected (.depthExceeded limit) ∧
    e' = refused path v expected .wrongKind

/-- Nothing is cut off under the same limit. -/
theorem not_cutAt_zero (e e' : CastError) : ¬ CutAt limit 0 e e' :=
  fun h => absurd h.1 (Nat.lt_irrefl 0)

section Compare

variable {replies : Replies} {types : Descriptor → Prop} {more : Nat}

/-- A cast does what the marked cast does under a limit that is greater by `more`. It is only cut
    off if the other limit is indeed greater. -/
theorem castWithin_follows (hclosed : Closed ctx replies types)
    (hunions : ∀ id alternatives, types (.node id (.unionOf alternatives)) → more = 0)
    (room : Nat) (d : Descriptor) (hd : types d) (path : Path) (v : Value)
    (hroom : room + path.length = limit + 1) :
    (castWithin (ctx.withMaxDepth limit) room d path v).Follows replies
      (fun w => path.length ≤ limit ∧ ∀ c, w = .callable c → d.CanGive ctx replies c)
      (CastError.WithinLimit limit) (CutAt limit more)
      (markedWithin (ctx.withMaxDepth (limit + more)) (room + more) d path v) := by
  -- an inspected invocation reaches its arguments two levels down
  induction room using Nat.strongRecOn generalizing d path v with
  | ind room ih =>
    cases room with
    | zero =>
      have hpath : path.length = limit + 1 := by omega
      cases more with
      | zero => exact .throw (.inr ⟨rfl, hpath⟩)
      | succ more =>
        -- the other cast marks this location and goes on
        rw [Nat.zero_add, markedWithin_succ]
        exact .cut ⟨Nat.succ_pos more, path, v, d.render, hpath, rfl, rfl⟩
    | succ room =>
      have hpath : path.length ≤ limit := by omega
      rw [Nat.add_right_comm, markedWithin_succ, castWithin_succ, Descriptor.apply_withMaxDepth,
        Descriptor.apply_withMaxDepth]
      refine .mark (.inl hpath) ?_
      have henter : EntersAlike ctx replies types limit (CutAt limit more)
          (castWithin (ctx.withMaxDepth limit) room)
          (markedWithin (ctx.withMaxDepth (limit + more)) (room + more)) path := by
        intro d hd segment v
        -- the induction hypothesis is about the location of the part, which is one level further
        -- down
        have hlength : (path ++ [segment]).length = path.length + 1 := List.length_append
        have hpart := ih room (by omega) d hd (path ++ [segment]) v (by omega)
        rwa [hlength] at hpart
      have hbelow : path.length + 1 ≤ limit → ∀ segment,
          EntersAlike ctx replies types limit (CutAt limit more)
            (castWithin (ctx.withMaxDepth limit) (room - 1))
            (markedWithin (ctx.withMaxDepth (limit + more)) (room + more - 1))
            (path ++ [segment]) := by
        intro hlocation segment d hd segment' v
        -- there is room for the level between, so that `room - 1` is one less than `room`
        have hlength : (path ++ [segment] ++ [segment']).length = path.length + 2 := by
          simp only [List.length_append, List.length_singleton]
        have hpart := ih (room - 1) (by omega) d hd (path ++ [segment] ++ [segment']) v (by omega)
        have hmore : room - 1 + more = room + more - 1 := by omega
        rw [hlength, hmore] at hpart
        rwa [List.length_append]
      have hcuts : ∀ id alternatives, types (.node id (.unionOf alternatives)) → ∀ e e',
          ¬ CutAt limit more e e' := by
        intro id alternatives h
        rw [hunions id alternatives h]
        exact not_cutAt_zero
      exact (Descriptor.apply_follows ⟨hclosed, hcuts, hpath, henter, hbelow⟩ d v hd).mono
        fun w hw => ⟨hpath, hw⟩

/-- A cast does what the marked cast does under a greater limit, until it is cut off. -/
theorem cast_follows (hclosed : Closed ctx replies types)
    (hunions : ∀ id alternatives, types (.node id (.unionOf alternatives)) → more = 0)
    (hd : d.check ctx 0 = .ok () → types d) (v : Value) :
    (cast (ctx.withMaxDepth limit) d v).Follows replies (fun _ => True)
      (CastError.WithinLimit limit) (CutAt limit more)
      (castMarked (ctx.withMaxDepth (limit + more)) d v) := by
  rw [cast, castMarked, compile, compile, Descriptor.check_withMaxDepth,
    Descriptor.check_withMaxDepth]
  cases hcheck : d.check ctx 0 with
  | error e => exact .throw trivial
  | ok _ =>
    have hwithin := castWithin_follows hclosed hunions (limit + 1) d (hd hcheck) [] v rfl
    -- the root has room for all locations within the limit and for itself
    rw [Nat.add_right_comm] at hwithin
    exact hwithin.mono fun _ _ => trivial

/-- Every type is among all types. -/
theorem closed_true : Closed ctx replies fun _ => True :=
  ⟨fun _ _ _ _ _ _ => trivial, fun _ _ _ _ _ _ _ _ _ _ => trivial⟩

end Compare

/-! ## Types without unions -/

/-- A type without unions. -/
def Descriptor.UnionFree (d : Descriptor) : Prop :=
  d.Everywhere fun _ shape => ∀ alternatives, shape ≠ .unionOf alternatives

/-- The parameters of a callable have types without unions. -/
def Context.ParametersUnionFree (ctx : Context) (c : Callable) : Prop :=
  ∀ signature, ctx.signatures.get? c = some signature →
    ∀ p ∈ signature.params, ∀ type, p.type? = some type → type.UnionFree

/-- The callables that a symbol may lead to, through the registry or by a converter, have parameters
    with types without unions. -/
structure CallsUnionFree {σ : Type} (answer : (request : Request) → StateM σ request.Reply)
    (ctx : Context) : Prop where
  registered : ∀ root members c, ctx.registry.Names root members (.callable c) →
    ctx.ParametersUnionFree c
  converted : ∀ id converter, ctx.converter? id = some converter → ∀ v s c,
    ((answer (.convert converter v)).run s).1 = .ok (.callable c) → ctx.ParametersUnionFree c

section Runs

variable {σ : Type} {answer : (request : Request) → StateM σ request.Reply}

/-- What the path of an invocation gives can be called with types without unions. -/
theorem CallsUnionFree.of_canGive (h : CallsUnionFree answer ctx) {symbol : Descriptor}
    (hsymbol : symbol.symbolPath?.isSome) {c : Callable}
    (hgives : symbol.CanGive ctx (.ofHost answer) c) : ctx.ParametersUnionFree c := by
  obtain ⟨id, shape⟩ := symbol
  -- the callable is given by the converter of the symbol or else by the registry
  simp only [Descriptor.CanGive] at hgives
  split at hgives
  next converter hconverter =>
    obtain ⟨v, s, hreply⟩ := hgives
    exact h.converted id converter hconverter v s c hreply
  next =>
    cases shape with
    | symbolPath spec =>
      obtain ⟨dotted, hresolve⟩ := hgives
      obtain ⟨root, members, hnames⟩ := SymbolPath.exists_names_of_resolve hresolve
      exact h.registered root members c hnames
    | _ => cases hsymbol

/-- A cast to a type without unions only comes to types without unions. Only types that can be used
    are considered, as the path of an invocation might else be any type, and give a callable that is
    part of the value. -/
theorem CallsUnionFree.closed (h : CallsUnionFree answer ctx) :
    Closed ctx (.ofHost answer) fun d => d.Usable ctx ∧ d.UnionFree where
  parts := by
    intro id shape hd hconverter d hmem
    obtain ⟨depth, hshape⟩ := hd.1.shape hconverter
    exact ⟨⟨depth, Shape.check_parts hshape d hmem⟩, hd.2.part hmem⟩
  parameters := by
    intro id symbol hd hconverter c shape hgives hshape f hf
    obtain ⟨depth, hcheck⟩ := hd.1.shape hconverter
    -- only a symbol may stand in front of a call in a type that can be used
    have hsymbol : symbol.symbolPath?.isSome := Shape.check_inspected hcheck
    obtain ⟨husable, signature, hsignature, p, hp, htype⟩ :=
      KeywordShape.type_of_ofCallable hshape hf
    exact ⟨⟨0, husable⟩, h.of_canGive hsymbol hgives signature hsignature p hp f.type htype⟩

/-! ## Runs under two limits -/

/-- What a cast comes to, the state in which it leaves the host, and the requests that it has put to
    the host. -/
def castRun (answer : (request : Request) → StateM σ request.Reply) (s : σ) (ctx : Context)
    (d : Descriptor) (v : Value) : Except CastError Value × σ × List Request :=
  ((cast ctx d v).run (logged answer)).run (s, [])

/-- A type that can be used is cast from the root of the value down. -/
theorem castRun_of_compile {answer : (request : Request) → StateM σ request.Reply} {d : Descriptor}
    {c : Coercion} (h : compile ctx d = .ok c) (v : Value) (s : σ) :
    castRun answer s ctx d v =
      ((castWithin ctx (ctx.config.limits.maxDepth + 1) d [] v).run (logged answer)).run
        (s, []) := by
  rw [castRun, cast, h]
  obtain rfl := compile_eq_ok h
  rfl

/-- The location of a refusal. -/
def CastError.path? : CastError → Option Path
  | .coercion e => some e.location.path
  | _ => none

/-- The locations that a run of a cast comes to: those at which the rule of a type is applied, and
    those of the values that are refused. -/
def castLocations (answer : (request : Request) → StateM σ request.Reply) (s : σ) (ctx : Context)
    (d : Descriptor) (v : Value) : List Path :=
  ((castMarked ctx d v).raised answer s).filterMap CastError.path?

/-- A run that is cut off right behind the limit, having put the first of the requests of another
    run. -/
structure CutShort (limit : Nat) (short long : Except CastError Value × σ × List Request) :
    Prop where
  exceeded : ∃ path v expected, path.length = limit + 1 ∧
    short.1 = .error (refused path v expected (.depthExceeded limit))
  requests : short.2.2 <+: long.2.2

/-- The marks do not change a run, and neither a mark nor a refusal lies beyond the limit. -/
theorem castMarked_within (s : σ) (ctx : Context) (d : Descriptor) (v : Value) :
    ((castMarked ctx d v).run (logged answer)).run (s, []) = castRun answer s ctx d v ∧
      ((cast ctx d v).raised answer s).Sublist ((castMarked ctx d v).raised answer s) ∧
      ∀ e ∈ (castMarked ctx d v).raised answer s,
        e.WithinLimit ctx.config.limits.maxDepth := by
  -- the same limit, so that nothing is cut off, whatever the type
  have hfollows : (cast ctx d v).Follows (.ofHost answer) _ _ (CutAt _ 0) (castMarked ctx d v) :=
    cast_follows closed_true (fun _ _ _ => rfl) (fun _ => trivial) v
  refine ⟨?_, hfollows.raised_sublist (Replies.ofHost_run answer) not_cutAt_zero s,
    hfollows.raised_fits (Replies.ofHost_run answer) not_cutAt_zero s⟩
  obtain heq | ⟨e, e', hcut, -⟩ := hfollows.run_logged (Replies.ofHost_run answer) s []
  · exact heq.symm
  · exact absurd hcut (not_cutAt_zero e e')

/-- Without unions a cast runs as it does under a greater limit, or it is cut off at a location to
    which the other run comes, too. -/
theorem castRun_withMaxDepth (hd : d.UnionFree) (hcalls : CallsUnionFree answer ctx) (v : Value)
    (s : σ) {m m' : Nat} (hm : m ≤ m') :
    castRun answer s (ctx.withMaxDepth m) d v = castRun answer s (ctx.withMaxDepth m') d v ∨
      CutShort m (castRun answer s (ctx.withMaxDepth m) d v)
          (castRun answer s (ctx.withMaxDepth m') d v) ∧
        ∃ path ∈ castLocations answer s (ctx.withMaxDepth m') d v, path.length = m + 1 := by
  obtain ⟨more, rfl⟩ := Nat.exists_eq_add_of_le hm
  have hunions : ∀ id alternatives, (Descriptor.node id (.unionOf alternatives)).Usable ctx ∧
      (Descriptor.node id (.unionOf alternatives)).UnionFree → more = 0 :=
    fun _ alternatives h => absurd rfl (h.2.root alternatives)
  -- the shorter cast follows the longer one until it is cut off, and there is no union to go on
  have hfollows : (cast (ctx.withMaxDepth m) d v).Follows (.ofHost answer) _ _ (CutAt m more)
      (castMarked (ctx.withMaxDepth (m + more)) d v) :=
    cast_follows hcalls.closed hunions (fun h => ⟨⟨0, h⟩, hd⟩) v
  have hmarked : ((castMarked (ctx.withMaxDepth (m + more)) d v).run (logged answer)).run (s, []) =
      castRun answer s (ctx.withMaxDepth (m + more)) d v :=
    (castMarked_within s (ctx.withMaxDepth (m + more)) d v).1
  obtain heq | ⟨e, e', ⟨-, path, w, expected, hpath, rfl, rfl⟩, hmem, herror, hprefix⟩ :=
    hfollows.run_logged (Replies.ofHost_run answer) s []
  · exact .inl (heq.trans hmarked)
  · -- the mark where the first is cut off is among those of the second
    rw [hmarked] at hprefix
    exact .inr ⟨⟨⟨path, w, expected, hpath, herror⟩, hprefix⟩, path,
      List.mem_filterMap.mpr ⟨_, hmem, rfl⟩, hpath⟩

/-- The depth limit only cuts runs short. No rule is applied at a location beyond the limit, and no
    value is refused there but for the limit itself, right behind it. Without unions, a run under a
    smaller limit is that under a greater one, or it is cut off right behind its limit after the
    first of the same requests; it is not cut off if the other run never comes beyond the smaller
    limit. -/
theorem depth_limit_cuts_short (answer : (request : Request) → StateM σ request.Reply) (s : σ)
    (ctx : Context) (d : Descriptor) (v : Value) :
    (((castMarked ctx d v).run (logged answer)).run (s, []) = castRun answer s ctx d v ∧
      ((cast ctx d v).raised answer s).Sublist ((castMarked ctx d v).raised answer s) ∧
      ∀ e ∈ (castMarked ctx d v).raised answer s, e.WithinLimit ctx.config.limits.maxDepth) ∧
    (d.UnionFree → CallsUnionFree answer ctx → ∀ m m', m ≤ m' →
      (castRun answer s (ctx.withMaxDepth m) d v = castRun answer s (ctx.withMaxDepth m') d v ∨
        CutShort m (castRun answer s (ctx.withMaxDepth m) d v)
          (castRun answer s (ctx.withMaxDepth m') d v)) ∧
      ((∀ path ∈ castLocations answer s (ctx.withMaxDepth m') d v, path.length ≤ m) →
        castRun answer s (ctx.withMaxDepth m) d v =
          castRun answer s (ctx.withMaxDepth m') d v)) := by
  -- a run that is cut off comes to a location beyond the smaller limit, which the other run then
  -- comes to as well
  refine ⟨castMarked_within s ctx d v, fun hd hcalls m m' hm => ?_⟩
  obtain heq | ⟨hcut, path, hmem, hpath⟩ := castRun_withMaxDepth hd hcalls v s hm
  · exact ⟨.inl heq, fun _ => heq⟩
  · refine ⟨.inr hcut, fun hshallow => ?_⟩
    have hlength : path.length ≤ m := hshallow path hmem
    omega

end Runs

/-! ## A call with rows of numbers -/

/-- Calls of whatever a symbol leads to. -/
def callType : Descriptor :=
  .node 1 (.inspectedInvocation (.node 0 (.symbolPath .unrestricted)))

/-- Lists of lists of decimal numbers. -/
def rowsType : Descriptor :=
  .node 5 (.listOf (.node 6 (.listOf (.node 7 .decimal))))

/-- A context in which the symbol `m.f` leads to a callable that takes rows. -/
def rowsContext : Context :=
  oneParameterContext rowsType .empty

/-- A call of `m.f` with one row of one number. -/
def callWithRow : Value :=
  .map [(.text "fn", .text "m.f"), (.text "kwargs", .map [(.text "x", .list [.list [.int 1]])])]

/-- Calls of symbols are types without unions. -/
theorem unionFree_callType : callType.UnionFree := by
  simp [Descriptor.UnionFree, callType, Descriptor.everywhere_node, Shape.parts]

/-- The one callable of the context takes rows, in which there are no unions. -/
theorem parametersUnionFree_rows (c : Callable) : rowsContext.ParametersUnionFree c := by
  intro signature hsignature p hp type htype
  rw [eq_of_mem_oneParameterContext hsignature hp htype]
  simp [Descriptor.UnionFree, rowsType, Descriptor.everywhere_node, Shape.parts]

/-- Nothing that may be called in `rowsContext` takes a union. -/
theorem callsUnionFree_rows : CallsUnionFree echoHost rowsContext :=
  ⟨fun _ _ c _ => parametersUnionFree_rows c, fun _ _ _ _ _ c _ => parametersUnionFree_rows c⟩

/-- Under a limit of two, the row lies too deep. Under a limit of four all is in reach, and a
    greater limit changes nothing. -/
theorem depth_limit_cuts_short_row :
    callType.UnionFree ∧ CallsUnionFree echoHost rowsContext ∧
      CutShort 2 (castRun echoHost () (rowsContext.withMaxDepth 2) callType callWithRow)
        (castRun echoHost () (rowsContext.withMaxDepth 4) callType callWithRow) ∧
      castRun echoHost () (rowsContext.withMaxDepth 4) callType callWithRow =
        castRun echoHost () (rowsContext.withMaxDepth 256) callType callWithRow := by
  have hruns := (depth_limit_cuts_short echoHost () rowsContext callType callWithRow).2
    unionFree_callType callsUnionFree_rows
  refine ⟨unionFree_callType, callsUnionFree_rows, ?_, (hruns 4 256 (by decide)).2 ?_⟩
  · refine (hruns 2 4 (by decide)).1.resolve_left fun h => ?_
    -- the one run fails and the other gives a value
    cases congrArg Prod.fst h
  · have hlocations :
        castLocations echoHost () (rowsContext.withMaxDepth 256) callType callWithRow =
        [[], [.field "fn"], [.field "kwargs", .field "x"],
          [.field "kwargs", .field "x", .index 0],
          [.field "kwargs", .field "x", .index 0, .index 0]] := rfl
    -- the deepest location has four segments, so that a limit of four reaches all of them
    rw [hlocations]
    decide

/-- A context without namespaces in which the host converts symbols. A callable takes rows or
    anything. -/
def convertedContext : Context :=
  { oneParameterContext (.node 8 (.unionOf [rowsType, .node 9 .any]))
      ⟨[(.node 0 (.symbolPath .unrestricted), ⟨0⟩)]⟩ with registry := .empty }

/-- A host that converts everything to one callable, which makes records. -/
def callableHost : (request : Request) → StateM Unit request.Reply
  | .convert .. => pure (.ok (.callable ⟨0, "f"⟩))
  | .call _ _ kwargs => pure (.ok (.record "Made" kwargs))
  | .produce _ => pure .none

/-- It is not enough that the registered callables take no unions. A converter may lead to a
    callable that is not registered, and a union in its signature catches the failure at the
    limit. -/
theorem not_depth_limit_cuts_short_of_registered :
    callType.UnionFree ∧
      (∀ root members c, convertedContext.registry.Names root members (.callable c) →
        convertedContext.ParametersUnionFree c) ∧
      2 ≤ 256 ∧
      ¬ (castRun callableHost () (convertedContext.withMaxDepth 2) callType callWithRow =
          castRun callableHost () (convertedContext.withMaxDepth 256) callType callWithRow ∨
        CutShort 2 (castRun callableHost () (convertedContext.withMaxDepth 2) callType callWithRow)
          (castRun callableHost () (convertedContext.withMaxDepth 256) callType callWithRow)) := by
  refine ⟨unionFree_callType, ?_, by decide, ?_⟩
  · -- nothing is registered
    rintro root members c ⟨n, hroot, -⟩
    cases hroot
  · rintro (h | h)
    · -- the row as it was given, against a row of decimal numbers
      cases congrArg Prod.fst h
    · obtain ⟨path, v, expected, -, herror⟩ := h.exceeded
      cases herror

end Conform
