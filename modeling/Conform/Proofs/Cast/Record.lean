import Conform.Proofs.Cast.Agree

/-!
# Casting to records

A record or a partial record that builder calls have made is cast in three stages: the value must be
a map, its keys must be the right ones, and then the declared fields are gone through in order. What
the calls ask for is a `RecordSpec`, `FieldsEnd` tells how the fields are gone through, step by step
with the state of the host, and `RecordSpec.Ends` how the cast ends. Main statement:
`cast_built_record`.
-/

namespace Conform

/-! ## What builder calls ask for -/

/-- What a sequence of builder calls asks for. -/
structure RecordSpec where
  name : String
  /-- The declarations of fields in the order of the calls, redeclarations included. -/
  declarations : List (Field Descriptor)
  /-- Whether the fields without a default must be present. -/
  total : Bool
  constructor? : Option Callable

namespace RecordSpec

/-- The declared names in the order of their first declarations, each with its last declaration. -/
def fields (spec : RecordSpec) : List (Field Descriptor) :=
  Field.lastDeclarations spec.declarations

/-- The name must be present. -/
def Requires (spec : RecordSpec) (name : String) : Prop :=
  spec.total = true ∧ ∃ f ∈ spec.fields, f.name = name ∧ f.default? = none

/-- The key is a declared name. -/
def declares (spec : RecordSpec) (k : Key) : Bool :=
  spec.fields.any fun f => k == Key.text f.name

/-- The keys of the map are declared names, and all that must be present are among them. -/
structure NamesFit (spec : RecordSpec) (entries : List (Key × Value)) : Prop where
  present : ∀ name, spec.Requires name → Entries.contains (Key.text name) entries = true
  declared : ∀ k ∈ Entries.keys entries, spec.declares k = true

/-- What becomes of the fields: a record, unless there is a constructor for it. -/
def finish (spec : RecordSpec) (ws : List (String × Value)) : Program Value :=
  match spec.constructor? with
  | some c => Program.call c [] ws
  | none => pure (.record spec.name ws)

/-- A shape that builder calls make, and what they ask for. A partial record is total unless the
    calls say otherwise, and the last constructor and the last word on totality count. -/
inductive Builds : RecordSpec → Shape → Prop
  | record (name : String) (calls : List RecordCall) :
    Builds ⟨name, calls.filterMap RecordCall.field?, true,
      (calls.filterMap RecordCall.constructor?).getLast?⟩ (RecordBuilder.buildAll name calls)
  | partialRecord (name : String) (calls : List PartialRecordCall) :
    Builds ⟨name, calls.filterMap PartialRecordCall.field?,
      (calls.filterMap PartialRecordCall.total?).getLast?.getD true, none⟩
      (PartialRecordBuilder.buildAll name calls)

end RecordSpec

/-! ## How the fields are gone through -/

variable {σ : Type} {answer : (request : Request) → StateM σ request.Reply}

/-- The end of the fields behind one that has been taken over. -/
def withField (name : String) (w : Value) (ended : Except CastError (List (String × Value)) × σ) :
    Except CastError (List (String × Value)) × σ :=
  (ended.1.map ((name, w) :: ·), ended.2)

/-- The fields are gone through in order, from one state of the host to another. A field that is
    present is coerced, a default stands in for an absent one, and a factory is asked once for it. A
    failure ends it. -/
inductive FieldsEnd (answer : (request : Request) → StateM σ request.Reply)
    (coerce : Field Descriptor → Value → Program Value) (entries : List (Key × Value)) :
    List (Field Descriptor) → σ → Except CastError (List (String × Value)) × σ → Prop
  | done (s : σ) : FieldsEnd answer coerce entries [] s (.ok [], s)
  | coerced {f : Field Descriptor} {rest : List (Field Descriptor)} {x w : Value} {s s₁ : σ}
      {ended : Except CastError (List (String × Value)) × σ}
      (present : Entries.find? (Key.text f.name) entries = some x)
      (run : ((coerce f x).run answer).run s = (.ok w, s₁))
      (next : FieldsEnd answer coerce entries rest s₁ ended) :
    FieldsEnd answer coerce entries (f :: rest) s (withField f.name w ended)
  | failed {f : Field Descriptor} {rest : List (Field Descriptor)} {x : Value} {e : CastError}
      {s s₁ : σ} (present : Entries.find? (Key.text f.name) entries = some x)
      (run : ((coerce f x).run answer).run s = (.error e, s₁)) :
    FieldsEnd answer coerce entries (f :: rest) s (.error e, s₁)
  | supplied {f : Field Descriptor} {rest : List (Field Descriptor)} {w : Value} {s : σ}
      {ended : Except CastError (List (String × Value)) × σ}
      (absent : Entries.find? (Key.text f.name) entries = none)
      (default : f.default? = some (.value w))
      (next : FieldsEnd answer coerce entries rest s ended) :
    FieldsEnd answer coerce entries (f :: rest) s (withField f.name w ended)
  | produced {f : Field Descriptor} {rest : List (Field Descriptor)} {factory : Factory} {w : Value}
      {s s₁ : σ} {ended : Except CastError (List (String × Value)) × σ}
      (absent : Entries.find? (Key.text f.name) entries = none)
      (default : f.default? = some (.factory factory))
      (reply : (answer (.produce factory)).run s = (w, s₁))
      (next : FieldsEnd answer coerce entries rest s₁ ended) :
    FieldsEnd answer coerce entries (f :: rest) s (withField f.name w ended)
  | leftOut {f : Field Descriptor} {rest : List (Field Descriptor)} {s : σ}
      {ended : Except CastError (List (String × Value)) × σ}
      (absent : Entries.find? (Key.text f.name) entries = none) (default : f.default? = none)
      (next : FieldsEnd answer coerce entries rest s ended) :
    FieldsEnd answer coerce entries (f :: rest) s ended

/-- A field is put before those that come after it, or their failure stands. -/
theorem run_withField (p : Program (List (String × Value))) (name : String) (w : Value) (s : σ) :
    ((p >>= fun ws => pure ((name, w) :: ws)).run answer).run s =
      withField name w ((p.run answer).run s) := by
  rw [Program.run_bind]
  generalize (p.run answer).run s = ended
  obtain ⟨result, s'⟩ := ended
  cases result <;> rfl

/-- A default that is a value costs no request. -/
theorem run_produce_value (w : Value) (s : σ) :
    ((Program.produce (.value w)).run answer).run s = (.ok w, s) := rfl

/-- A default that is made by a factory is what the host replies. -/
theorem run_produce_factory {factory : Factory} {w : Value} {s s₁ : σ}
    (h : (answer (.produce factory)).run s = (w, s₁)) :
    ((Program.produce (.factory factory)).run answer).run s = (.ok w, s₁) := by
  rw [Program.produce, Program.run, StateT.run_bind, h]
  rfl

/-- One step for each field. -/
theorem castFields_ends (enter : Enter) (path : Path) (entries : List (Key × Value))
    (fields : List (Field Descriptor)) (s : σ) :
    FieldsEnd answer (fun f x => enter f.type (path ++ [.field f.name]) x) entries fields s
      (((KeywordShape.castFields enter path entries fields).run answer).run s) := by
  -- on the fields, each of which starts in the state that the one before it has left
  induction fields generalizing s with
  | nil => exact .done s
  | cons f rest ih =>
    rw [KeywordShape.castFields]
    cases hfind : Entries.find? (Key.text f.name) entries with
    | some x =>
      simp only
      -- the entry is cast first, and its error ends the record
      rw [Program.run_bind]
      cases hrun : ((enter f.type (path ++ [.field f.name]) x).run answer).run s with
      | mk result s₁ =>
        cases result with
        | ok w =>
          simp only
          rw [run_withField]
          exact .coerced hfind hrun (ih s₁)
        | error e => exact .failed hfind hrun
    | none =>
      simp only
      -- the name is missing: the field is left out, supplied, or made by the host
      cases hdefault : f.default? with
      | none => exact .leftOut hfind hdefault (ih s)
      | some default =>
        rw [Program.run_bind]
        cases default with
        | value w =>
          rw [run_produce_value]
          simp only
          rw [run_withField]
          exact .supplied hfind hdefault (ih s)
        | factory factory =>
          cases hreply : (answer (.produce factory)).run s with
          | mk w s₁ =>
            rw [run_produce_factory hreply]
            simp only
            rw [run_withField]
            exact .produced hfind hdefault hreply (ih s₁)

/-! ## How a cast ends -/

namespace RecordSpec

variable {ctx : Context} {spec : RecordSpec} {v : Value} {s : σ}

/-- How the cast of a value to a record ends. -/
inductive Ends (answer : (request : Request) → StateM σ request.Reply) (ctx : Context)
    (spec : RecordSpec) (v : Value) (s : σ) : Except CastError Value × σ → Prop
  | wrongKind (kind : v.kind ≠ .map) :
    Ends answer ctx spec v s (.error (refused [] v spec.name .wrongKind), s)
  | keySet {entries : List (Key × Value)} {missing unknown : List String}
      (map : v = .map entries) (names : ¬ spec.NamesFit entries)
      (ascending : missing.Pairwise (· < ·))
      (missing_iff : ∀ name, name ∈ missing ↔
        spec.Requires name ∧ Entries.contains (Key.text name) entries = false)
      (unknown_eq : unknown =
        ((Entries.keys entries).filter fun k => !spec.declares k).map Key.render) :
    Ends answer ctx spec v s (.error (refused [] v spec.name (.keySet missing unknown)), s)
  | stopped {entries : List (Key × Value)} {e : CastError} {s' : σ} (map : v = .map entries)
      (names : spec.NamesFit entries)
      (fields : FieldsEnd answer (fun f x => castAt ctx f.type [.field f.name] x) entries
        spec.fields s (.error e, s')) :
    Ends answer ctx spec v s (.error e, s')
  | record {entries : List (Key × Value)} {ws : List (String × Value)} {s' : σ}
      (map : v = .map entries) (names : spec.NamesFit entries)
      (fields : FieldsEnd answer (fun f x => castAt ctx f.type [.field f.name] x) entries
        spec.fields s (.ok ws, s'))
      (plain : spec.constructor? = none) :
    Ends answer ctx spec v s (.ok (.record spec.name ws), s')
  | constructed {entries : List (Key × Value)} {ws : List (String × Value)} {c : Callable}
      {reply : Except HostFailure Value} {s' s'' : σ} (map : v = .map entries)
      (names : spec.NamesFit entries)
      (fields : FieldsEnd answer (fun f x => castAt ctx f.type [.field f.name] x) entries
        spec.fields s (.ok ws, s'))
      (constructor : spec.constructor? = some c)
      (call : (answer (.call c [] ws)).run s' = (reply, s'')) :
    Ends answer ctx spec v s (reply.mapError .ofHost, s'')

/-- Once the names fit, the fields are gone through and then finished. -/
private theorem ends_of_fields {entries : List (Key × Value)} {p : Program (List (String × Value))}
    (hmap : v = .map entries) (hnames : spec.NamesFit entries)
    (hfields : FieldsEnd answer (fun f x => castAt ctx f.type [.field f.name] x) entries
      spec.fields s ((p.run answer).run s)) :
    spec.Ends answer ctx v s (((p >>= spec.finish).run answer).run s) := by
  rw [Program.run_bind]
  -- the run of the fields is taken as it is, and only its end is looked at
  generalize (p.run answer).run s = ended at hfields
  obtain ⟨result, s'⟩ := ended
  cases result with
  | error e => exact .stopped hmap hnames hfields
  | ok ws =>
    simp only
    rw [finish]
    -- without a constructor the fields are the record; otherwise it is called with them
    cases hconstructor : spec.constructor? with
    | none => exact .record hmap hnames hfields hconstructor
    | some c =>
      cases hcall : (answer (.call c [] ws)).run s' with
      | mk reply s'' =>
        have hrun : ((Program.call c [] ws).run answer).run s' =
            (reply.mapError .ofHost, s'') := by
          rw [Program.call, Program.run, StateT.run_bind, hcall]
          rfl
        simp only
        rw [hrun]
        exact .constructed hmap hnames hfields hconstructor hcall

/-- A keyword shape of the declared fields, which requires the names that must be present, ends as
    the calls have asked for. -/
theorem cast_ends {shape : KeywordShape} (hlabel : shape.label = spec.name)
    (hfields : shape.fields = spec.fields) (hascending : shape.required.Pairwise (· < ·))
    (hrequired : ∀ name, name ∈ shape.required ↔ spec.Requires name) :
    spec.Ends answer ctx v s
      (((shape.cast (castWithin ctx ctx.config.limits.maxDepth) [] v >>= spec.finish).run
        answer).run s) := by
  have hdeclares : ∀ k, shape.declares k = spec.declares k := by
    intro k
    rw [declares, ← hfields]
    cases k with
    | text name => exact List.any_congr rfl fun f => BEq.comm
    | _ => exact (List.any_eq_false.mpr fun _ _ => Bool.false_ne_true).symm
  -- the fields are cast one level below the root
  have hcoerce : (fun (f : Field Descriptor) (x : Value) =>
      castWithin ctx ctx.config.limits.maxDepth f.type ([] ++ [.field f.name]) x) =
        fun f x => castAt ctx f.type [.field f.name] x := by
    funext f x
    exact castWithin_eq_castAt rfl
  by_cases hkind : v.kind = .map
  · obtain ⟨entries, rfl⟩ := Value.exists_entries hkind
    have hfit : (shape.missing entries = [] ∧ shape.unknown entries = []) ↔
        spec.NamesFit entries := by
      rw [KeywordShape.missing_eq_nil_iff, KeywordShape.unknown_eq_nil_iff]
      simp only [hrequired, hdeclares]
      exact ⟨fun h => ⟨h.1, h.2⟩, fun h => ⟨h.1, h.2⟩⟩
    rw [KeywordShape.cast_map]
    -- a map whose keys fit is cast field by field, in the order of the type
    by_cases hnames : shape.missing entries = [] ∧ shape.unknown entries = []
    · rw [if_pos hnames, hfields]
      refine ends_of_fields rfl (hfit.mp hnames) ?_
      rw [← hcoerce]
      exact castFields_ends _ [] entries spec.fields s
    · rw [if_neg hnames, hlabel]
      refine .keySet rfl (fun h => hnames (hfit.mpr h)) (hascending.filter _) (fun name => ?_) ?_
      · rw [KeywordShape.missing, List.mem_filter, hrequired, Bool.not_eq_true']
      · rw [KeywordShape.unknown, funext hdeclares]
  · rw [KeywordShape.cast_of_kind_ne hkind, hlabel]
    exact .wrongKind hkind

end RecordSpec

/-- Whatever calls of a builder have made a record or a partial record, with redeclarations, the
    cast of a value to it ends as they have asked for, if nothing converts it. Anything but a map is
    refused for its kind, and a map for its names, before the host is asked for anything. Otherwise
    the declared fields are gone through in order, and only if none of them fails is the record
    made, by one call of its constructor if it has one. -/
theorem cast_built_record {spec : RecordSpec} {shape : Shape} (hbuilds : spec.Builds shape)
    {ctx : Context} {id : Nat} (hid : ctx.converter? id = none) {c : Coercion}
    (hcompile : compile ctx (.node id shape) = .ok c) (v : Value) (s : σ) :
    spec.Ends answer ctx v s (((cast ctx (.node id shape) v).run answer).run s) := by
  -- a node that compiles and is not converted is cast by the rule of its shape
  have hcast : cast ctx (.node id shape) v =
      shape.apply ctx (castWithin ctx ctx.config.limits.maxDepth)
        (castWithin ctx (ctx.config.limits.maxDepth - 1)) [] v := by
    rw [cast_of_compile hcompile]
    exact castWithin_of_no_converter hid _ shape [] v
  rw [hcast]
  cases hbuilds with
  -- of the constructors that are set, the last one counts
  | record name calls =>
    let spec : RecordSpec := ⟨name, calls.filterMap RecordCall.field?, true,
      (calls.filterMap RecordCall.constructor?).getLast?⟩
    rw [RecordBuilder.buildAll_eq]
    show spec.Ends answer ctx v s ((((KeywordShape.ofRecord name spec.fields).cast _ [] v >>=
      spec.finish).run answer).run s)
    refine RecordSpec.cast_ends rfl rfl (sortNames_ascending _) fun name => ?_
    exact Field.mem_requiredNames_iff.trans (and_iff_right rfl).symm
  | partialRecord name calls =>
    -- of the settings of totality the last one counts, and without one the record is total
    obtain ⟨fields, hshape, hfields⟩ := PartialRecordBuilder.buildAll_eq name calls
    let spec : RecordSpec := ⟨name, calls.filterMap PartialRecordCall.field?,
      (calls.filterMap PartialRecordCall.total?).getLast?.getD true, none⟩
    rw [hshape]
    show spec.Ends answer ctx v s ((((KeywordShape.ofPartialRecord name fields spec.total).cast _ []
      v >>= spec.finish).run answer).run s)
    refine RecordSpec.cast_ends rfl hfields ?_ fun name => ?_
    · show (if spec.total then sortNames (Entries.keys fields) else []).Pairwise (· < ·)
      split
      · exact sortNames_ascending _
      · exact .nil
    · -- no field has a default, so that all are required or none
      have hnames : (∃ f ∈ spec.fields, f.name = name ∧ f.default? = none) ↔
          name ∈ Entries.keys fields := by
        rw [show spec.fields = fields.map Field.ofEntry from hfields.symm]
        simp [Entries.keys, Field.ofEntry]
      show name ∈ (if spec.total then sortNames (Entries.keys fields) else []) ↔ spec.Requires name
      rw [RecordSpec.Requires, hnames]
      cases spec.total with
      | false => simp
      | true => simp [mem_sortNames]

/-! ## Visits -/

/-- Calls that declare who comes twice, and give a second constructor. -/
def visitCalls : List RecordCall :=
  [.field ⟨"who", .node 1 (.primitive .text), none⟩, .constructor ⟨0, "visit"⟩,
    .field ⟨"party", .node 2 .float, some (.factory ⟨0⟩)⟩, .field ⟨"who", .node 3 .any, none⟩,
    .constructor ⟨1, "stay"⟩]

/-- What the calls ask for. -/
def visitSpec : RecordSpec where
  name := "Visit"
  declarations := [⟨"who", .node 1 (.primitive .text), none⟩,
    ⟨"party", .node 2 .float, some (.factory ⟨0⟩)⟩, ⟨"who", .node 3 .any, none⟩]
  total := true
  constructor? := some ⟨1, "stay"⟩

/-- The visitor comes first, though declared again last, and need not be a text any more. -/
theorem cast_built_record_visit :
    visitSpec.Builds (RecordBuilder.buildAll "Visit" visitCalls) ∧
      compile {} (.node 0 (RecordBuilder.buildAll "Visit" visitCalls)) =
        .ok ⟨.node 0 (RecordBuilder.buildAll "Visit" visitCalls), {}⟩ ∧
      visitSpec.Ends echoHost {} (.map [(.text "who", .int 5)]) ()
        (.ok (.map [(.text "args", .list []),
          (.text "kwargs", .map [(.text "who", .int 5), (.text "party", .none)])]), ()) := by
  have hbuilds : visitSpec.Builds (RecordBuilder.buildAll "Visit" visitCalls) :=
    .record "Visit" visitCalls
  have hcompile : compile {} (.node 0 (RecordBuilder.buildAll "Visit" visitCalls)) =
      .ok ⟨.node 0 (RecordBuilder.buildAll "Visit" visitCalls), {}⟩ := rfl
  have hrun : ((cast {} (.node 0 (RecordBuilder.buildAll "Visit" visitCalls))
      (.map [(.text "who", .int 5)])).run echoHost).run () =
        (.ok (.map [(.text "args", .list []),
          (.text "kwargs", .map [(.text "who", .int 5), (.text "party", .none)])]), ()) := rfl
  have hends : visitSpec.Ends echoHost {} (.map [(.text "who", .int 5)]) ()
      (((cast {} (.node 0 (RecordBuilder.buildAll "Visit" visitCalls))
        (.map [(.text "who", .int 5)])).run echoHost).run ()) :=
    cast_built_record hbuilds rfl hcompile _ ()
  rw [hrun] at hends
  exact ⟨hbuilds, hcompile, hends⟩

end Conform
