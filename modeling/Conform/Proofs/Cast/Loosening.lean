import Conform.Proofs.Cast.Identity
import Conform.Proofs.Program.Kept
import Conform.Proofs.Value.Equality

/-!
# Looser types

`d.Loosens d'` says that `d'` comes of the data type `d` by steps each of which takes more values: a
scalar type is widened, a required field is given a default, a partial record no longer requires its
fields or declares one more, the last alternative of a union is loosened and others are put behind
it, or all this is done to the parts of a type. A looser type keeps the results of the stricter one
(`castWithin_kept`). Main statement: `cast_loosened`.
-/

namespace Conform

/-! ## The relation -/

/-- A scalar type that passes through all that another does. -/
inductive Shape.Widens : Shape → Shape → Prop
  | bool : Widens (.primitive .bool) (.primitive .int)
  | int : Widens (.primitive .int) .float
  | float : Widens .float .complex
  | complex : Widens .complex .any
  | primitive (p : Primitive) : Widens (.primitive p) .any
  | literal (allowed : List Value) : Widens (.literal allowed) .any
  | literals {allowed others : List Value}
      (members : ∀ v ∈ allowed, v ∈ others ∨ v.isAmong others = true) :
    Widens (.literal allowed) (.literal others)

/-- A data type is loosened, by steps and at any number of positions. The identities of nodes do not
    matter. -/
inductive Descriptor.Loosens : Descriptor → Descriptor → Prop
  | alike {d d' : Descriptor} (data : d.IsData) (alike : d.Alike {} {} d') : Loosens d d'
  | trans {d d' d'' : Descriptor} (first : Loosens d d') (second : Loosens d' d'') : Loosens d d''
  | scalar (id id' : Nat) {shape shape' : Shape} (widens : shape.Widens shape') :
    Loosens (.node id shape) (.node id' shape')
  | parts (id id' : Nat) {shape : Shape} {parts : List Descriptor} (data : shape.IsData)
      (union : ∀ alternatives, shape ≠ .unionOf alternatives)
      (length : shape.parts.length = parts.length)
      (loosens : ∀ pair ∈ shape.parts.zip parts, Loosens pair.1 pair.2) :
    Loosens (.node id shape) (.node id' (shape.withParts parts))
  | withDefault (id id' : Nat) (name : String) (before after : List (Field Descriptor))
      (field : String) (type : Descriptor) (default : Default) :
    Loosens (.node id (.record name (before ++ ⟨field, type, none⟩ :: after) none))
      (.node id' (.record name (before ++ ⟨field, type, some default⟩ :: after) none))
  | nonTotal (id id' : Nat) (name : String) (fields : List (String × Descriptor)) :
    Loosens (.node id (.partialRecord name fields true))
      (.node id' (.partialRecord name fields false))
  | newField (id id' : Nat) (name : String) (before after : List (String × Descriptor))
      (field : String) (type : Descriptor) (fresh : field ∉ Entries.keys (before ++ after)) :
    Loosens (.node id (.partialRecord name (before ++ after) false))
      (.node id' (.partialRecord name (before ++ (field, type) :: after) false))
  | lastAlternative (id id' : Nat) (before after : List Descriptor) {d d' : Descriptor}
      (loosens : Loosens d d') :
    Loosens (.node id (.unionOf (before ++ [d]))) (.node id' (.unionOf (before ++ d' :: after)))

variable {σ : Type} {answer : (request : Request) → StateM σ request.Reply}

section Rules

variable {enter : Enter} {path : Path} {v : Value} {expected expected' : String}

/-- Whatever the one type gives at any location, the other gives as well. -/
def KeptTypes (answer : (request : Request) → StateM σ request.Reply) (enter : Enter)
    (d d' : Descriptor) : Prop :=
  ∀ path v, (enter d path v).KeptBy answer (enter d' path v)

/-- A refusal promises nothing of the looser type. -/
theorem mismatch_kept {α : Type} {reason : Mismatch} {p : Program α} :
    (mismatch path v expected reason : Program α).KeptBy answer p :=
  .throw _ p

/-! ## Scalars -/

/-- A value that is returned as it is stays allowed. -/
theorem castUnchanged_kept {holds holds' : Bool} {reason reason' : Mismatch}
    (h : holds = true → holds' = true) :
    (castUnchanged holds reason expected path v).KeptBy answer
      (castUnchanged holds' reason' expected' path v) := by
  cases holds with
  | true =>
    rw [h rfl]
    exact .refl _
  | false => exact mismatch_kept

/-- What a scalar type passes through, one that widens it passes through. -/
theorem Shape.Widens.apply_kept {ctx : Context} {enterBelow : Enter} {shape shape' : Shape}
    (h : shape.Widens shape') :
    (shape.apply ctx enter enterBelow path v).KeptBy answer
      (shape'.apply ctx enter enterBelow path v) := by
  -- `Any` passes everything through
  have hany : ∀ holds reason expected,
      (castUnchanged holds reason expected path v).KeptBy answer (pure v) := by
    intro holds reason expected
    have hpasses : (castUnchanged holds reason expected path v).KeptBy answer
        (castUnchanged true reason expected path v) := castUnchanged_kept fun _ => rfl
    exact hpasses
  cases h with
  | bool => exact castUnchanged_kept fun h => by cases v <;> first | rfl | cases h
  | int => exact castUnchanged_kept fun h => by cases v <;> first | rfl | cases h
  | float => exact castUnchanged_kept fun h => by cases v <;> first | rfl | cases h
  | complex | primitive | literal => exact hany _ _ _
  | literals hmembers =>
    refine castUnchanged_kept fun hamong => ?_
    obtain ⟨m, hm, hequal⟩ := List.any_eq_true.mp hamong
    obtain hmem | hother := hmembers m hm
    · exact List.any_eq_true.mpr ⟨m, hmem, hequal⟩
    · obtain ⟨m', hm', hequal'⟩ := List.any_eq_true.mp hother
      exact List.any_eq_true.mpr ⟨m', hm', Value.equal_trans m' m v hequal' hequal⟩

/-! ## Containers -/

/-- Item by item: each one is given by the looser type as it was by the stricter. -/
theorem castItems_kept {element element' : Descriptor} (h : KeptTypes answer enter element element')
    (i : Nat) (items : List Value) :
    (castItems enter element path i items).KeptBy answer
      (castItems enter element' path i items) := by
  -- the index moves on with the items
  induction items generalizing i with
  | nil => exact .refl _
  | cons x rest ih => exact (h _ _).bind fun w => (ih (i + 1)).bind fun ws => .refl _

/-- The elements of a collection are kept when the element type is loosened. -/
theorem castElements_kept {element element' : Descriptor}
    (h : KeptTypes answer enter element element') :
    (castElements enter element expected path v).KeptBy answer
      (castElements enter element' expected' path v) := by
  rw [castElements, castElements]
  cases v.elements? with
  | some items => exact castItems_kept h 0 items
  | none => exact mismatch_kept

/-- The type of the elements does not matter to which of them have keys. -/
theorem hashItems_kept (element element' : Descriptor) (i : Nat) (items : List Value) :
    (hashItems element path i items).KeptBy answer (hashItems element' path i items) := by
  induction items generalizing i with
  | nil => exact .refl _
  | cons x rest ih =>
    rw [hashItems, hashItems]
    cases x.toKey? with
    | some k => exact (ih (i + 1)).bind fun _ => .refl _
    | none => exact mismatch_kept

/-- The elements that are given are the same, and so are their keys. -/
theorem castSet_kept {element element' : Descriptor} (h : KeptTypes answer enter element element') :
    (castSet enter element expected path v).KeptBy answer
      (castSet enter element' expected' path v) :=
  (castElements_kept h).bind fun items =>
    (hashItems_kept element element' 0 items).bind fun _ => .refl _

/-- Entry by entry, the key before the value. -/
theorem castEntries_kept {key key' value value' : Descriptor}
    (hkey : KeptTypes answer enter key key') (hvalue : KeptTypes answer enter value value')
    (entries : List (Key × Value)) :
    (castEntries enter key value path entries).KeptBy answer
      (castEntries enter key' value' path entries) := by
  induction entries with
  | nil => exact .refl _
  | cons entry rest ih =>
    rw [castEntries, castEntries]
    refine (hkey _ _).bind fun castKey => ?_
    -- a key that is kept is a key under the looser type as well
    cases castKey.toKey? with
    | some newKey => exact (hvalue _ _).bind fun w => ih.bind fun ws => .refl _
    | none => exact mismatch_kept

/-- The entries of a map are kept when the types of keys and values are loosened. -/
theorem castMap_kept {key key' value value' : Descriptor} (hkey : KeptTypes answer enter key key')
    (hvalue : KeptTypes answer enter value value') :
    (castMap enter key value expected path v).KeptBy answer
      (castMap enter key' value' expected' path v) := by
  unfold castMap
  split
  · exact (castEntries_kept hkey hvalue _).bind fun entries => .refl _
  · exact mismatch_kept

/-- The elements of a tuple correspond one to one. -/
theorem castEach_kept {elements elements' : List Descriptor}
    (h : List.Forall₂ (KeptTypes answer enter) elements elements') (i : Nat) (items : List Value) :
    (castEach enter path i elements items).KeptBy answer
      (castEach enter path i elements' items) := by
  induction h generalizing i items with
  | nil => exact .refl _
  | cons hd _ ih =>
    cases items with
    | nil => exact .refl _
    | cons x rest => exact (hd _ _).bind fun w => (ih (i + 1) rest).bind fun ws => .refl _

/-- A tuple of the right length keeps its length. -/
theorem castTuple_kept {elements elements' : List Descriptor}
    (h : List.Forall₂ (KeptTypes answer enter) elements elements') :
    (castTuple enter elements expected path v).KeptBy answer
      (castTuple enter elements' expected' path v) := by
  -- both tuples ask for the same length, so that the same branch is taken
  rw [castTuple, castTuple, ← h.length_eq]
  cases v.sequence? with
  | some items =>
    simp only
    split
    · exact (castEach_kept h 0 items).bind fun ws => .refl _
    · exact mismatch_kept
  | none => exact mismatch_kept

/-! ## Named fields -/

/-- Names and defaults correspond, so that the same fields are cast, the same defaults made. -/
theorem castFields_kept {fields fields' : List (Field Descriptor)}
    (h : List.Forall₂ (Field.Corresponds (KeptTypes answer enter)) fields fields')
    (entries : List (Key × Value)) :
    (KeywordShape.castFields enter path entries fields).KeptBy answer
      (KeywordShape.castFields enter path entries fields') := by
  induction h with
  | nil => exact .refl _
  | @cons f f' rest rest' hf _ ih =>
    rw [KeywordShape.castFields, KeywordShape.castFields, hf.name, hf.default]
    cases Entries.find? (Key.text f.name) entries with
    | some x => exact (hf.type _ _).bind fun w => ih.bind fun ws => .refl _
    -- the default is that of the field, which the change of types does not touch
    | none =>
      simp only
      cases f.default? with
      | some d => exact (Program.KeptBy.refl _).bind fun w => ih.bind fun ws => .refl _
      | none => exact ih

/-- A map that has the right names for one shape has them for another that requires no other names
    and declares all that the one declares. -/
theorem KeywordShape.cast_kept {shape shape' : KeywordShape}
    (hrequired : ∀ name ∈ shape'.required, name ∈ shape.required)
    (hdeclares : ∀ k, shape.declares k = true → shape'.declares k = true)
    (hfields : ∀ entries, shape.missing entries = [] → shape.unknown entries = [] →
      (castFields enter path entries shape.fields).KeptBy answer
        (castFields enter path entries shape'.fields)) :
    (shape.cast enter path v).KeptBy answer (shape'.cast enter path v) := by
  unfold KeywordShape.cast
  split
  next entries =>
    simp only [Bool.and_eq_true, List.isEmpty_iff]
    split
    -- the looser shape requires fewer names and declares more
    next hnames =>
      have hmissing : shape'.missing entries = [] := missing_eq_nil_iff.mpr fun name hname =>
        missing_eq_nil_iff.mp hnames.1 name (hrequired name hname)
      have hunknown : shape'.unknown entries = [] := unknown_eq_nil_iff.mpr fun k hk =>
        hdeclares k (unknown_eq_nil_iff.mp hnames.2 k hk)
      rw [if_pos ⟨hmissing, hunknown⟩]
      exact hfields entries hnames.1 hnames.2
    next => exact mismatch_kept
  next => exact mismatch_kept

/-- Which names are declared depends on the names of the fields only. -/
theorem KeywordShape.declares_of_subset {shape shape' : KeywordShape}
    (h : ∀ name ∈ shape.fields.map Field.name, name ∈ shape'.fields.map Field.name) {k : Key}
    (hk : shape.declares k = true) : shape'.declares k = true := by
  cases k with
  | text name =>
    simp only [declares, List.any_eq_true, beq_iff_eq] at hk ⊢
    obtain ⟨f, hf, rfl⟩ := hk
    obtain ⟨f', hf', hname⟩ := List.mem_map.mp (h f.name (List.mem_map_of_mem hf))
    exact ⟨f', hf', hname⟩
  | _ => cases hk

/-- Without a constructor the record is what its fields are. -/
theorem castRecord_kept {name : String} {fields fields' : List (Field Descriptor)}
    (h : ((KeywordShape.ofRecord name fields).cast enter path v).KeptBy answer
      ((KeywordShape.ofRecord name fields').cast enter path v)) :
    (castRecord enter name fields none path v).KeptBy answer
      (castRecord enter name fields' none path v) :=
  h.bind fun _ => .refl _

/-- A partial record is what its present fields are. -/
theorem castPartialRecord_kept {name : String} {fields fields' : List (String × Descriptor)}
    {total total' : Bool}
    (h : ((KeywordShape.ofPartialRecord name fields total).cast enter path v).KeptBy answer
      ((KeywordShape.ofPartialRecord name fields' total').cast enter path v)) :
    (castPartialRecord enter name fields total path v).KeptBy answer
      (castPartialRecord enter name fields' total' path v) :=
  h.bind fun _ => .refl _

/-- Where a required field gets a default, nothing changes for maps that have the field. -/
theorem castRecord_withDefault_kept (name : String) (before after : List (Field Descriptor))
    (field : String) (type : Descriptor) (default : Default) :
    (castRecord enter name (before ++ ⟨field, type, none⟩ :: after) none path v).KeptBy answer
      (castRecord enter name (before ++ ⟨field, type, some default⟩ :: after) none path v) := by
  have hnames : ∀ default?, (before ++ ⟨field, type, default?⟩ :: after).map Field.name =
      before.map Field.name ++ field :: after.map Field.name :=
    fun default? => List.map_append
  -- the field is no longer required and still declared, and the maps that were accepted have it
  refine castRecord_kept (KeywordShape.cast_kept ?_ ?_ ?_)
  · intro name' hname'
    have hmem := mem_sortNames.mp hname'
    simp only [List.filter_append, List.filter_cons, Option.isNone_some] at hmem
    refine mem_sortNames.mpr ?_
    simp only [List.filter_append, List.filter_cons, Option.isNone_none, if_true, List.map_append,
      List.map_cons, List.mem_append, List.mem_cons] at hmem ⊢
    exact hmem.imp_right .inr
  · intro k hk
    refine KeywordShape.declares_of_subset (fun name' hname' => ?_) hk
    rw [KeywordShape.ofRecord, hnames] at hname' ⊢
    exact hname'
  · intro entries hmissing _
    have hrequired : field ∈ (KeywordShape.ofRecord name
        (before ++ ⟨field, type, none⟩ :: after)).required :=
      Field.mem_requiredNames (f := ⟨field, type, none⟩)
        (List.mem_append_right before List.mem_cons_self) rfl
    -- the field is there, so that neither of the two does anything for its absence
    obtain ⟨x, hx⟩ := Option.ne_none_iff_exists'.mp
      (KeywordShape.find?_of_missing_eq_nil hmissing hrequired)
    simp only [KeywordShape.ofRecord, KeywordShape.castFields_append, KeywordShape.castFields, hx]
    exact .refl _

/-- A partial record that requires nothing takes all that one takes that requires its fields. -/
theorem castPartialRecord_nonTotal_kept (name : String) (fields : List (String × Descriptor)) :
    (castPartialRecord enter name fields true path v).KeptBy answer
      (castPartialRecord enter name fields false path v) :=
  castPartialRecord_kept (KeywordShape.cast_kept (fun _ h => absurd h List.not_mem_nil)
    (fun _ h => h) fun _ _ _ => .refl _)

/-- A new field is absent from the maps that were taken without it. -/
theorem castPartialRecord_newField_kept (name : String) (before after : List (String × Descriptor))
    {field : String} (type : Descriptor) (hfresh : field ∉ Entries.keys (before ++ after)) :
    (castPartialRecord enter name (before ++ after) false path v).KeptBy answer
      (castPartialRecord enter name (before ++ (field, type) :: after) false path v) := by
  refine castPartialRecord_kept (KeywordShape.cast_kept (fun _ h => h) ?_ ?_)
  · intro k hk
    refine KeywordShape.declares_of_subset (fun name' hname' => ?_) hk
    simp only [KeywordShape.ofPartialRecord, List.map_append, List.map_cons, List.mem_append,
      List.mem_cons] at hname' ⊢
    exact hname'.imp_right .inr
  · intro entries _ hunknown
    -- a map that was accepted does not have the new name, which was unknown
    have habsent : Entries.find? (Key.text field) entries = none := by
      cases hfind : Entries.find? (Key.text field) entries with
      | none => rfl
      | some x =>
        -- a key of the map is declared, but the new field is not
        obtain ⟨k, hk, heq⟩ := Entries.mem_of_find? hfind
        obtain rfl := Key.beq_text_iff.mp heq
        have hdeclared := KeywordShape.unknown_eq_nil_iff.mp hunknown _
          (List.mem_map_of_mem hk)
        simp only [KeywordShape.declares, KeywordShape.ofPartialRecord, List.any_map,
          List.any_eq_true] at hdeclared
        obtain ⟨declared, hmem, hname⟩ := hdeclared
        obtain rfl := beq_iff_eq.mp hname
        exact absurd (List.mem_map_of_mem hmem) hfresh
    simp only [KeywordShape.ofPartialRecord, List.map_append, List.map_cons,
      KeywordShape.castFields_append, KeywordShape.castFields, habsent]
    exact .refl _

/-- The rule of a shape other than a union keeps what looser parts keep. -/
theorem Shape.apply_kept {ctx : Context} {enterBelow : Enter} {shape : Shape}
    {parts : List Descriptor} (hshape : shape.IsData)
    (hunion : ∀ alternatives, shape ≠ .unionOf alternatives)
    (hparts : List.Forall₂ (KeptTypes answer enter) shape.parts parts) :
    (shape.apply ctx enter enterBelow path v).KeptBy answer
      ((shape.withParts parts).apply ctx enter enterBelow path v) := by
  cases shape with
  | any | primitive | float | complex | decimal | literal => exact .refl _
  | record name fields constructor? =>
    obtain rfl : constructor? = none := hshape
    -- names and defaults stay, so that the same names are required and declared
    have hfields := Field.corresponds_withParts hparts
    refine castRecord_kept (KeywordShape.cast_kept ?_ ?_ fun entries _ _ =>
      castFields_kept hfields entries)
    · intro name' hname'
      rw [KeywordShape.ofRecord, Field.requiredNames_eq hfields] at hname'
      exact hname'
    · intro k hk
      refine KeywordShape.declares_of_subset (fun name' hname' => ?_) hk
      rw [KeywordShape.ofRecord, Field.map_name_eq hfields]
      exact hname'
  | partialRecord name fields total =>
    have hfields := Field.corresponds_withParts_of_entries hparts
    refine castPartialRecord_kept (KeywordShape.cast_kept ?_ ?_ fun entries _ _ =>
      castFields_kept hfields entries)
    · intro name' hname'
      rw [KeywordShape.ofPartialRecord, map_fst_withParts hparts.length_eq] at hname'
      exact hname'
    · intro k hk
      refine KeywordShape.declares_of_subset (fun name' hname' => ?_) hk
      rw [KeywordShape.ofPartialRecord, Field.map_name_eq hfields]
      exact hname'
  | listOf | queueOf =>
    cases hparts with
    | cons hpart hnil =>
      cases hnil
      exact (castElements_kept hpart).bind fun _ => .refl _
  | setOf =>
    cases hparts with
    | cons hpart hnil =>
      cases hnil
      exact castSet_kept hpart
  | mapOf =>
    cases hparts with
    | cons hkey hrest =>
      cases hrest with
      | cons hvalue hnil =>
        cases hnil
        exact castMap_kept hkey hvalue
  | tupleOf => exact castTuple_kept hparts
  | unionOf alternatives => exact absurd rfl (hunion alternatives)
  | symbolPath | invocation | inspectedInvocation => exact hshape.elim

end Rules

/-! ## Casts -/

section Casts

variable {ctx : Context}

/-- The identities of the nodes of a data type do not matter where nothing is converted. -/
theorem castWithin_alike_of_data (hctx : ctx.NoConversions) {d d' : Descriptor} (hd : d.IsData)
    (h : d.Alike {} {} d') (room : Nat) (path : Path) (v : Value) (s : σ) :
    Program.Agree answer Eq s (castWithin ctx room d path v) (castWithin ctx room d' path v) := by
  -- induction on how the types correspond, which goes down to their parts
  induction h generalizing room path v s with
  | @node id id' shape parts _ hlength halike ih =>
    have hchecks : ∀ pair ∈ shape.parts.zip parts,
        pair.1.ChecksAlike {} (Context.withConversions .empty {}) 0 pair.2 :=
      fun pair hpair => (halike pair hpair).checksAlike 0
    have hrender : (shape.withParts parts).render = shape.render := Shape.render_withParts
      (List.forall₂_iff_zip.mpr ⟨hlength, fun hpair => (hchecks _ hpair).render⟩)
    cases room with
    | zero =>
      show Program.Agree answer Eq s (mismatch _ _ shape.render _)
        (mismatch _ _ (shape.withParts parts).render _)
      -- without room both are refused, with the same text
      rw [hrender]
      exact .refl (fun _ => rfl) _
    | succ room =>
      show Program.Agree answer Comparison.exact.similar s _
        (castWithin (ctx.withConversions ctx.conversions) _ _ _ _)
      refine castWithin_node_agree ?_ (fun _ => ?_) v s
      · exact (hctx id').trans (hctx id).symm
      · refine ⟨hrender.symm, ?_, ?_⟩
        · refine List.forall₂_iff_zip.mpr ⟨hlength, fun {e e'} hpair => ?_⟩
          have he : e.IsData := hd.part (List.of_mem_zip hpair).1
          exact ⟨(hchecks _ hpair).render.symm, fun room' _ => ih _ hpair he room'⟩
        -- a data type has no symbols in it
        · rintro symbol rfl
          exact hd.root.elim
  | converted hconverter => cases hconverter

/-- Nodes keep what their rules keep, as there is no difference where there is no room. -/
theorem castWithin_node_kept (hctx : ctx.NoConversions) {id id' : Nat} {shape shape' : Shape}
    {path : Path} {v : Value}
    (h : ∀ room, (shape.apply ctx (castWithin ctx room) (castWithin ctx (room - 1)) path v).KeptBy
      answer (shape'.apply ctx (castWithin ctx room) (castWithin ctx (room - 1)) path v))
    (room : Nat) :
    (castWithin ctx room (.node id shape) path v).KeptBy answer
      (castWithin ctx room (.node id' shape') path v) := by
  cases room with
  -- without room the type refuses, and a refusal keeps nothing
  | zero => exact mismatch_kept
  | succ room =>
    rw [castWithin_of_no_converter (hctx id), castWithin_of_no_converter (hctx id')]
    exact h room

/-- A looser type keeps the results of the stricter one, whatever room there is. -/
theorem castWithin_kept (hctx : ctx.NoConversions) {d d' : Descriptor} (h : d.Loosens d')
    (room : Nat) (path : Path) (v : Value) :
    (castWithin ctx room d path v).KeptBy answer (castWithin ctx room d' path v) := by
  -- on the steps, at all locations at once
  induction h generalizing room path v with
  | alike hd halike => exact .of_agree (castWithin_alike_of_data hctx hd halike room path v)
  | trans _ _ ih ih' => exact (ih room path v).trans (ih' room path v)
  | scalar id id' hwidens => exact castWithin_node_kept hctx (fun _ => hwidens.apply_kept) room
  | parts id id' hdata hunion hlength _ ih =>
    refine castWithin_node_kept hctx (fun room => Shape.apply_kept hdata hunion ?_) room
    exact List.forall₂_iff_zip.mpr ⟨hlength, fun hpair => ih _ hpair room⟩
  | withDefault id id' name before after field type default =>
    exact castWithin_node_kept hctx
      (fun _ => castRecord_withDefault_kept name before after field type default) room
  | nonTotal id id' name fields =>
    exact castWithin_node_kept hctx (fun _ => castPartialRecord_nonTotal_kept name fields) room
  | newField id id' name before after field type hfresh =>
    exact castWithin_node_kept hctx
      (fun _ => castPartialRecord_newField_kept name before after type hfresh) room
  | lastAlternative id id' before after _ ih =>
    cases room with
    | zero => exact mismatch_kept
    | succ room =>
      -- what the alternatives before give is given still, and the new one is tried last
      rw [castWithin_unionOf (hctx id), castWithin_unionOf (hctx id'), List.map_append,
        List.map_append]
      exact (ih (room + 1) path v).firstOf _ _

/-- What a cast to a type gives, a cast to a looser type gives as well, from any host and with the
    same effect on it, if the looser type can be used. -/
theorem cast_loosened (hctx : ctx.NoConversions) {d d' : Descriptor} (h : d.Loosens d')
    {c' : Coercion} (hcompile : compile ctx d' = .ok c') {v w : Value} {s s' : σ}
    (hcast : ((cast ctx d v).run answer).run s = (.ok w, s')) :
    ((cast ctx d' v).run answer).run s = (.ok w, s') := by
  obtain ⟨e, hfails⟩ | hcasts := cast_cases ctx d
  · rw [hfails] at hcast
    cases hcast
  · rw [hcasts] at hcast
    rw [cast_of_compile hcompile]
    exact castWithin_kept hctx h _ [] v s w s' hcast

end Casts

/-! ## Orders -/

/-- A type loosens itself. -/
theorem Descriptor.Loosens.refl {d : Descriptor} (hd : d.IsData) : d.Loosens d := by
  refine .alike hd (Everywhere.alike ?_)
  exact hd.mono fun _ _ _ => rfl

/-- Orders of tea or of a number of something, with all extras. -/
def strictOrderType : Descriptor :=
  .node 0 (.record "Order"
    [⟨"item", .node 1 (.unionOf [.node 2 (.literal [.text "tea"]), .node 3 (.primitive .int)]),
        none⟩,
      ⟨"count", .node 4 (.primitive .int), none⟩,
      ⟨"extras", .node 5 (.partialRecord "Extras" [("gift", .node 6 (.primitive .bool))] true),
        none⟩] none)

/-- Orders of something else as well, by default a number of times that the host makes, with some of
    more extras. -/
def looseOrderType : Descriptor :=
  .node 10 (.record "Order"
    [⟨"item", .node 11 (.unionOf [.node 2 (.literal [.text "tea"]), .node 13 .float,
        .node 14 (.primitive .text)]), none⟩,
      ⟨"count", .node 4 (.primitive .int), some (.factory ⟨0⟩)⟩,
      ⟨"extras", .node 15 (.partialRecord "Extras"
        [("note", .node 16 (.primitive .text)), ("gift", .node 17 (.primitive .int))] false),
        none⟩] none)

/-- An order of the number two. -/
def order : Value :=
  .map [(.text "count", .int 3), (.text "item", .int 2),
    (.text "extras", .map [(.text "gift", .bool true)])]

/-- The types of the fields are loosened before the count gets its default. -/
theorem strictOrderType_loosens : strictOrderType.Loosens looseOrderType := by
  -- an alternative more at the end of a union, and integers become numbers
  have hitem : Descriptor.Loosens
      (.node 1 (.unionOf [.node 2 (.literal [.text "tea"]), .node 3 (.primitive .int)]))
      (.node 11 (.unionOf [.node 2 (.literal [.text "tea"]), .node 13 .float,
        .node 14 (.primitive .text)])) :=
    .lastAlternative 1 11 [.node 2 (.literal [.text "tea"])] [.node 14 (.primitive .text)]
      (.scalar 3 13 .int)
  -- the type of a field, the totality of the record and a new field, one after the other
  have hextras : Descriptor.Loosens
      (.node 5 (.partialRecord "Extras" [("gift", .node 6 (.primitive .bool))] true))
      (.node 15 (.partialRecord "Extras"
        [("note", .node 16 (.primitive .text)), ("gift", .node 17 (.primitive .int))] false)) := by
    have hgift : Descriptor.Loosens
        (.node 5 (.partialRecord "Extras" [("gift", .node 6 (.primitive .bool))] true))
        (.node 5 ((Shape.partialRecord "Extras" [("gift", .node 6 (.primitive .bool))]
          true).withParts [.node 17 (.primitive .int)])) :=
      .parts 5 5 trivial nofun rfl (List.forall_mem_singleton.mpr (.scalar 6 17 .bool))
    refine hgift.trans ((Descriptor.Loosens.nonTotal 5 5 _ _).trans ?_)
    exact .newField 5 15 "Extras" [] [("gift", .node 17 (.primitive .int))] "note"
      (.node 16 (.primitive .text)) (by decide)
  have hcount : Descriptor.Loosens (.node 4 (.primitive .int)) (.node 4 (.primitive .int)) :=
    .refl (.node trivial nofun)
  have hfields : Descriptor.Loosens strictOrderType
      (.node 0 (strictOrderType.shape.withParts
        [.node 11 (.unionOf [.node 2 (.literal [.text "tea"]), .node 13 .float,
            .node 14 (.primitive .text)]),
          .node 4 (.primitive .int),
          .node 15 (.partialRecord "Extras" [("note", .node 16 (.primitive .text)),
            ("gift", .node 17 (.primitive .int))] false)])) :=
    .parts 0 0 rfl nofun rfl (List.forall_mem_cons.mpr ⟨hitem, List.forall_mem_cons.mpr
      ⟨hcount, List.forall_mem_singleton.mpr hextras⟩⟩)
  exact hfields.trans (.withDefault 0 10 "Order" [_] [_] "count" (.node 4 (.primitive .int))
    (.factory ⟨0⟩))

/-- The two is of the last alternative, the gift is a truth value, and no count is made. -/
theorem cast_loosened_order :
    compile {} looseOrderType = .ok ⟨looseOrderType, {}⟩ ∧
      ((cast {} strictOrderType order).run numberingHost).run 7 =
        (.ok (.record "Order" [("item", .int 2), ("count", .int 3),
          ("extras", .record "Extras" [("gift", .bool true)])]), 7) ∧
      ((cast {} looseOrderType order).run numberingHost).run 7 =
        (.ok (.record "Order" [("item", .int 2), ("count", .int 3),
          ("extras", .record "Extras" [("gift", .bool true)])]), 7) := by
  have hcast : ((cast {} strictOrderType order).run numberingHost).run 7 =
      (.ok (.record "Order" [("item", .int 2), ("count", .int 3),
        ("extras", .record "Extras" [("gift", .bool true)])]), 7) := by
    -- the recursion of the equality with a literal is not structural
    with_unfolding_all rfl
  exact ⟨rfl, hcast, cast_loosened (fun _ => rfl) strictOrderType_loosens rfl hcast⟩

end Conform
