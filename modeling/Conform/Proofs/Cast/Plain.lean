import Conform.Proofs.Cast.Rules
import Conform.Proofs.Compilation
import Conform.Proofs.Decimal.Text
import Mathlib.Data.List.Nodup

/-!
# Plain data

A value of a type of plain data can be written down as nothing but lists, maps and scalars: records
as maps from their names, sets, queues and tuples as lists, decimal numbers as texts.
`HasFullShape` says which values a type of plain data has, and `PlainForm` how they are written.
Main statements: `exists_plainForm` (every value can be written) and `Descriptor.check_plain` (only
a type that nests too deep cannot be used).
-/

namespace Conform

/-! ## Types of plain data -/

/-- A type whose values are written as they are, decimal numbers apart. -/
def Shape.IsScalar : Shape → Prop
  | any | primitive _ | float | complex | decimal | literal _ => True
  | _ => False

/-- The values are data, maps have scalar keys, and a union only makes a type optional. -/
def Shape.IsPlain : Shape → Prop
  | record _ _ constructor? => constructor? = none
  | mapOf key _ => key.shape.IsScalar
  | unionOf alternatives => ∃ d id, alternatives = [d, .node id (.primitive .none)]
  | symbolPath _ => False
  | invocation .. => False
  | inspectedInvocation _ => False
  | _ => True

/-- A type of plain data. -/
def Descriptor.IsPlain (d : Descriptor) : Prop :=
  d.Everywhere fun _ shape => shape.IsPlain

/-- Plain types are data types. -/
theorem Descriptor.IsPlain.isData {d : Descriptor} (h : d.IsPlain) : d.IsData :=
  h.mono fun _ shape hshape => by
    cases shape with
    | record | symbolPath | invocation | inspectedInvocation => exact hshape
    | _ => trivial

/-- The values of a type of plain data. Unlike what a cast may give, a record has a value of the
    field's type for every field, also where there is a default.

    The elements of a set and the keys of a map are keys of values (`proper`): a key that repeats a
    field of a record can be built, but a value keeps one field of a name only, so that the key of
    its plain form is another one. -/
inductive HasFullShape : Descriptor → Value → Prop
  | any {id : Nat} (v : Value) : HasFullShape (.node id .any) v
  | primitive {id : Nat} {p : Primitive} {v : Value} (kind : v.kind ∈ p.kinds) :
      HasFullShape (.node id (.primitive p)) v
  | float {id : Nat} {v : Value} (kind : v.kind ∈ Kind.reals) : HasFullShape (.node id .float) v
  | complex {id : Nat} {v : Value} (kind : v.kind ∈ Kind.numbers) :
      HasFullShape (.node id .complex) v
  | decimal {id : Nat} {d : Decimal} (sign : ¬ d.IsNegativeZero) :
      HasFullShape (.node id .decimal) (.decimal d)
  | literal {id : Nat} {allowed : List Value} {m v : Value} (member : m ∈ allowed)
      (equal : m.equal v = true) : HasFullShape (.node id (.literal allowed)) v
  /-- All declared fields, in order. -/
  | record {id : Nat} {name : String} {fields : List (Field Descriptor)}
      {ws : List (String × Value)}
      (filled : Filled (fun f w => HasFullShape f.type w) (fun _ _ => False) (fun _ => False)
        fields ws) :
      HasFullShape (.node id (.record name fields none)) (.record name ws)
  /-- Declared fields, in order, and all of them if the type is total. -/
  | partialRecord {id : Nat} {name : String} {fields : List (String × Descriptor)} {total : Bool}
      {ws : List (String × Value)}
      (filled : Filled (fun f w => HasFullShape f.type w) (fun _ _ => False) (fun _ => True)
        (fields.map fun field => ⟨field.1, field.2, none⟩) ws)
      (complete : total = true → Entries.keys ws = Entries.keys fields) :
      HasFullShape (.node id (.partialRecord name fields total)) (.record name ws)
  | listOf {id : Nat} {element : Descriptor} {items : List Value}
      (each : ∀ w ∈ items, HasFullShape element w) :
      HasFullShape (.node id (.listOf element)) (.list items)
  | setOf {id : Nat} {element : Descriptor} {keys : List Key} (ascending : Key.Ascending keys)
      (proper : ∀ k ∈ keys, k.Proper) (each : ∀ k ∈ keys, HasFullShape element k.toValue) :
      HasFullShape (.node id (.setOf element)) (.set keys)
  | queueOf {id : Nat} {element : Descriptor} {items : List Value}
      (each : ∀ w ∈ items, HasFullShape element w) :
      HasFullShape (.node id (.queueOf element)) (.queue items)
  | mapOf {id : Nat} {key value : Descriptor} {entries : List (Key × Value)}
      (distinct : Entries.Distinct entries) (proper : ∀ entry ∈ entries, entry.1.Proper)
      (eachKey : ∀ entry ∈ entries, HasFullShape key entry.1.toValue)
      (eachValue : ∀ entry ∈ entries, HasFullShape value entry.2) :
      HasFullShape (.node id (.mapOf key value)) (.map entries)
  | tupleOf {id : Nat} {elements : List Descriptor} {items : List Value}
      (each : List.Forall₂ HasFullShape elements items) :
      HasFullShape (.node id (.tupleOf elements)) (.tuple items)
  | absent {id noneId : Nat} {d : Descriptor} :
      HasFullShape (.node id (.unionOf [d, .node noneId (.primitive .none)])) .none
  | present {id noneId : Nat} {d : Descriptor} {w : Value} (shape : HasFullShape d w) :
      HasFullShape (.node id (.unionOf [d, .node noneId (.primitive .none)])) w

/-- How the values of a type of plain data are written: `PlainForm d w u` if `u` is `w` written as
    the type says. The fields of a record and the elements of a set may be written in any order. -/
inductive PlainForm : Descriptor → Value → Value → Prop
  | any {id : Nat} (v : Value) : PlainForm (.node id .any) v v
  | primitive {id : Nat} (p : Primitive) (v : Value) : PlainForm (.node id (.primitive p)) v v
  | float {id : Nat} (v : Value) : PlainForm (.node id .float) v v
  | complex {id : Nat} (v : Value) : PlainForm (.node id .complex) v v
  | decimal {id : Nat} (d : Decimal) : PlainForm (.node id .decimal) (.decimal d) (.text d.text)
  | literal {id : Nat} (allowed : List Value) (v : Value) :
      PlainForm (.node id (.literal allowed)) v v
  /-- Every field is written under its name. -/
  | record {id : Nat} {name : String} {fields : List (Field Descriptor)}
      {ws : List (String × Value)} {us : List (Key × Value)}
      (names : ((Entries.keys ws).map Key.text).Perm (Entries.keys us))
      (each : ∀ f ∈ fields, ∀ w u, (f.name, w) ∈ ws → (Key.text f.name, u) ∈ us →
        PlainForm f.type w u) :
      PlainForm (.node id (.record name fields none)) (.record name ws) (.map us)
  | partialRecord {id : Nat} {name : String} {fields : List (String × Descriptor)} {total : Bool}
      {ws : List (String × Value)} {us : List (Key × Value)}
      (names : ((Entries.keys ws).map Key.text).Perm (Entries.keys us))
      (each : ∀ f ∈ fields, ∀ w u, (f.1, w) ∈ ws → (Key.text f.1, u) ∈ us → PlainForm f.2 w u) :
      PlainForm (.node id (.partialRecord name fields total)) (.record name ws) (.map us)
  | listOf {id : Nat} {element : Descriptor} {ws us : List Value} (length : ws.length = us.length)
      (each : ∀ w u, (w, u) ∈ ws.zip us → PlainForm element w u) :
      PlainForm (.node id (.listOf element)) (.list ws) (.list us)
  | setOf {id : Nat} {element : Descriptor} {keys : List Key} {us items : List Value}
      (length : keys.length = us.length)
      (each : ∀ k u, (k, u) ∈ keys.zip us → PlainForm element k.toValue u)
      (order : us.Perm items) : PlainForm (.node id (.setOf element)) (.set keys) (.list items)
  | queueOf {id : Nat} {element : Descriptor} {ws us : List Value} (length : ws.length = us.length)
      (each : ∀ w u, (w, u) ∈ ws.zip us → PlainForm element w u) :
      PlainForm (.node id (.queueOf element)) (.queue ws) (.list us)
  /-- The keys are written as keys, and the entries stay in their order. -/
  | mapOf {id : Nat} {key value : Descriptor} {ws us : List (Key × Value)}
      (length : ws.length = us.length) (distinct : Entries.Distinct us)
      (eachKey : ∀ w u, (w, u) ∈ ws.zip us → PlainForm key w.1.toValue u.1.toValue)
      (eachValue : ∀ w u, (w, u) ∈ ws.zip us → PlainForm value w.2 u.2) :
      PlainForm (.node id (.mapOf key value)) (.map ws) (.map us)
  | tupleOf {id : Nat} {elements : List Descriptor} {ws us : List Value}
      (length : ws.length = us.length)
      (each : ∀ d w u, ((d, w), u) ∈ (elements.zip ws).zip us → PlainForm d w u) :
      PlainForm (.node id (.tupleOf elements)) (.tuple ws) (.list us)
  | absent {id noneId : Nat} {d : Descriptor} :
      PlainForm (.node id (.unionOf [d, .node noneId (.primitive .none)])) .none .none
  | present {id noneId : Nat} {d : Descriptor} {w u : Value} (some : w ≠ .none)
      (plain : PlainForm d w u) :
      PlainForm (.node id (.unionOf [d, .node noneId (.primitive .none)])) w u

/-! ## Types that nest too deep -/

/-- A type with at most `levels` nodes on any way down. -/
inductive Descriptor.Within : Nat → Descriptor → Prop
  | node {levels id : Nat} {shape : Shape} (parts : ∀ d ∈ shape.parts, d.Within levels) :
      Within (levels + 1) (.node id shape)

section Check

variable {ctx : Context}

/-- A plain shape has no defect of its own. -/
theorem Shape.IsPlain.defect?_eq_none {shape : Shape} (hshape : shape.IsPlain) :
    shape.defect? = none := by
  cases shape with
  | unionOf alternatives =>
    obtain ⟨d, id, rfl⟩ := hshape
    rfl
  | symbolPath | invocation | inspectedInvocation => exact hshape.elim
  | _ => rfl

/-- A plain shape is checked by checking its parts. -/
theorem Shape.check_eq_checkAll {shape : Shape} (hshape : shape.IsPlain) (depth : Nat) :
    shape.check ctx depth = checkAll ctx depth shape.parts := by
  rw [Shape.check_eq, hshape.defect?_eq_none]
  rfl

/-- A type of plain data can be used unless it nests too deep. -/
theorem Descriptor.check_plain (hctx : ctx.NoConversions) {d : Descriptor} (hd : d.IsPlain)
    {depth levels : Nat} (hlimit : depth + levels = ctx.config.limits.maxDescriptorDepth) :
    (d.Within levels ∧ d.check ctx depth = .ok ()) ∨
      (¬ d.Within levels ∧ d.check ctx depth = tooDeep ctx) := by
  -- induction on the type: the levels that are left shrink as the depth grows
  induction hd generalizing depth levels with
  | @node id shape hroot _ ih =>
    rw [Descriptor.check, hctx id, Shape.check_eq_checkAll hroot]
    cases levels with
    | zero =>
      rw [if_pos (by omega)]
      exact .inr ⟨fun h => (by cases h), rfl⟩
    | succ levels =>
      have hconverter : ¬ (none : Option Converter).isSome = true := Bool.false_ne_true
      rw [if_neg (by omega), if_neg hconverter]
      have hlimit' : depth + 1 + levels = ctx.config.limits.maxDescriptorDepth := by omega
      -- all parts pass, or the first that does not is too deep
      obtain ⟨hall, hcheck⟩ | ⟨d, hd, e, he, hcheck⟩ :=
        checkAll_cases (depth + 1) shape.parts
      · refine .inl ⟨.node fun d hd => ?_, hcheck⟩
        obtain ⟨hwithin, -⟩ | ⟨-, hdeep⟩ := ih d hd hlimit'
        · exact hwithin
        · rw [hall d hd] at hdeep; cases hdeep
      · obtain ⟨-, hok⟩ | ⟨hwithin, hdeep⟩ := ih d hd hlimit'
        · rw [he] at hok; cases hok
        · refine .inr ⟨fun h => ?_, by rw [hcheck, ← he, hdeep]⟩
          cases h with
          | node parts => exact hwithin (parts d hd)

end Check

/-! ## What can be written -/

/-- What is related to something each makes a list that is related to a list. -/
theorem exists_forall₂ {α β : Type} {R : α → β → Prop} {as : List α}
    (h : ∀ a ∈ as, ∃ b, R a b) : ∃ bs, List.Forall₂ R as bs := by
  induction as with
  | nil => exact ⟨[], .nil⟩
  | cons a rest ih =>
    have ⟨⟨b, hb⟩, hrest⟩ := List.forall_mem_cons.mp h
    obtain ⟨bs, hbs⟩ := ih hrest
    exact ⟨b :: bs, .cons hb hbs⟩

/-- Entries that correspond key by key have corresponding keys. -/
private theorem map_keys_eq {κ : Type} {f : κ → Key} {ws : List (κ × Value)}
    {us : List (Key × Value)} (h : List.Forall₂ (fun w u => f w.1 = u.1) ws us) :
    (Entries.keys ws).map f = Entries.keys us := by
  induction h with
  | nil => rfl
  | cons hkey _ ih =>
    rw [Entries.keys, Entries.keys, List.map_cons, List.map_cons, List.map_cons, hkey]
    exact congrArg _ ih

/-- A field that is taken over is a declared one. -/
private theorem exists_field {present supplied : Field Descriptor → Value → Prop}
    {absent : Field Descriptor → Prop} {fields : List (Field Descriptor)}
    {ws : List (String × Value)} (h : Filled present supplied absent fields ws) :
    ∀ field ∈ ws, ∃ f ∈ fields, f.name = field.1 ∧ (present f field.2 ∨ supplied f field.2) := by
  induction h with
  | nil => exact fun _ h => absurd h List.not_mem_nil
  | @present f _ _ _ head _ ih =>
    refine List.forall_mem_cons.mpr
      ⟨⟨f, List.mem_cons_self, rfl, .inl head⟩, fun field hfield => ?_⟩
    obtain ⟨g, hg, h⟩ := ih field hfield
    exact ⟨g, List.mem_cons_of_mem f hg, h⟩
  | @supplied f _ _ _ head _ ih =>
    refine List.forall_mem_cons.mpr
      ⟨⟨f, List.mem_cons_self, rfl, .inr head⟩, fun field hfield => ?_⟩
    obtain ⟨g, hg, h⟩ := ih field hfield
    exact ⟨g, List.mem_cons_of_mem f hg, h⟩
  -- what is absent adds nothing
  | @absent f _ _ _ _ ih =>
    intro field hfield
    obtain ⟨g, hg, h⟩ := ih field hfield
    exact ⟨g, List.mem_cons_of_mem f hg, h⟩

/-- How a key of a scalar type is written. -/
private def plainKey (key : Descriptor) (k : Key) : Key :=
  match key.shape, k with
  | .decimal, .decimal d => .text d.text
  | _, k => k

/-- A key of a scalar type has a plain form, and it is the value of a key. -/
private theorem plainForm_plainKey {key : Descriptor} (hkey : key.shape.IsScalar) {k : Key}
    (hshape : HasFullShape key k.toValue) : PlainForm key k.toValue (plainKey key k).toValue := by
  obtain ⟨id, shape⟩ := key
  cases shape with
  | any => exact .any _
  | primitive p => exact .primitive p _
  | float => exact .float _
  | complex => exact .complex _
  | literal allowed => exact .literal allowed _
  -- only a decimal key has another form, its text
  | decimal =>
    cases k with
    | decimal d => exact .decimal d
    | _ => nomatch hshape
  | _ => exact hkey.elim

/-- Keys of a scalar type that differ are written differently. -/
private theorem plainKey_ne {key : Descriptor} (hkey : key.shape.IsScalar) {j k : Key}
    (hj : HasFullShape key j.toValue) (hk : HasFullShape key k.toValue) (h : (j == k) = false) :
    (plainKey key j == plainKey key k) = false := by
  obtain ⟨id, shape⟩ := key
  cases shape with
  | any | primitive | float | complex | literal => exact h
  | decimal =>
    cases j with
    | decimal d =>
      cases k with
      | decimal d' =>
        cases hj with
        | decimal _ =>
          cases hk with
          | decimal _ =>
            -- decimals with one text have one value, and keys are compared by value
            refine Bool.eq_false_iff.mpr fun heq => ?_
            obtain rfl := Decimal.eq_of_text_eq (eq_of_beq heq)
            have hsame : (Key.decimal d == Key.decimal d) = true :=
              beq_self_eq_true (d.signedMantissa * Int.pow 10 d.scale)
            exact Bool.false_ne_true (h.symm.trans hsame)
      | _ => nomatch hk
    | _ => nomatch hj
  | _ => exact hkey.elim

/-- Fields with different names are written under their names. -/
private theorem exists_plainForm_fields (fields : List (String × Descriptor))
    (ws : List (String × Value)) (hfields : (Entries.keys fields).Nodup)
    (hws : (Entries.keys ws).Nodup)
    (h : ∀ field ∈ ws, ∃ d, (field.1, d) ∈ fields ∧ ∃ u, PlainForm d field.2 u) :
    ∃ us : List (Key × Value), ((Entries.keys ws).map Key.text).Perm (Entries.keys us) ∧
      ∀ f ∈ fields, ∀ w u, (f.1, w) ∈ ws → (Key.text f.1, u) ∈ us → PlainForm f.2 w u := by
  -- one entry for each field of the value, under its name
  have hentry : ∀ field ∈ ws, ∃ entry : Key × Value, Key.text field.1 = entry.1 ∧
      ∃ d, (field.1, d) ∈ fields ∧ PlainForm d field.2 entry.2 := by
    intro field hfield
    obtain ⟨d, hd, u, hu⟩ := h field hfield
    exact ⟨(.text field.1, u), rfl, d, hd, hu⟩
  obtain ⟨us, hus⟩ := exists_forall₂ hentry
  refine ⟨us, ?_, ?_⟩
  · exact .of_eq (map_keys_eq (hus.imp fun _ _ h => h.1))
  · -- a name belongs to one field of the value and to one declared field
    rintro ⟨name, type⟩ hf w u hw hu
    obtain ⟨field, hfield, hname, d, hd, hplain⟩ := exists_left_of_mem hus hu
    obtain rfl : field = (name, w) :=
      List.inj_on_of_nodup_map hws hfield hw (Key.text.inj hname)
    cases List.inj_on_of_nodup_map hfields hd hf rfl
    exact hplain

/-- Every value of a type of plain data can be written. -/
theorem exists_plainForm {d : Descriptor} (hd : d.IsPlain) (hwell : d.WellFormed) {w : Value}
    (hshape : HasFullShape d w) : ∃ u, PlainForm d w u := by
  -- induction on the type; the plain forms of the parts are put together
  induction hd generalizing w with
  | @node id shape hroot _ ih =>
    have hpart := fun d hd w => ih d hd (hwell.part hd) (w := w)
    cases hshape with
    | any => exact ⟨_, .any _⟩
    | primitive => exact ⟨_, .primitive _ _⟩
    | float => exact ⟨_, .float _⟩
    | complex => exact ⟨_, .complex _⟩
    | decimal => exact ⟨_, .decimal _⟩
    | literal => exact ⟨_, .literal _ _⟩
    | @record _ _ fields ws filled =>
      have hnames : Entries.keys (fields.map fun f => (f.name, f.type)) = fields.map Field.name :=
        List.map_map
      obtain ⟨us, hus, heach⟩ := exists_plainForm_fields
        (fields.map fun f => (f.name, f.type)) ws (hnames ▸ hwell.root.1)
        (filled.keys_sublist.nodup hwell.root.1) fun field hfield => by
          obtain ⟨f, hf, hname, hfits⟩ := exists_field filled field hfield
          refine ⟨f.type, List.mem_map.mpr ⟨f, hf, by rw [hname]⟩, ?_⟩
          exact hpart f.type (List.mem_map_of_mem hf) field.2 (hfits.resolve_right fun h => h)
      exact ⟨_, .record hus fun f hf => heach (f.name, f.type) (List.mem_map_of_mem hf)⟩
    | @partialRecord _ _ fields _ ws filled complete =>
      have hnames : (fields.map fun f => (⟨f.1, f.2, none⟩ : Field Descriptor)).map Field.name =
          Entries.keys fields := List.map_map
      obtain ⟨us, hus, heach⟩ := exists_plainForm_fields fields ws hwell.root
        (filled.keys_sublist.nodup (hnames ▸ hwell.root)) fun field hfield => by
          obtain ⟨f, hf, hname, hfits⟩ := exists_field filled field hfield
          obtain ⟨declared, hdeclared, rfl⟩ := List.mem_map.mp hf
          refine ⟨declared.2, hname ▸ hdeclared, ?_⟩
          exact hpart declared.2 (List.mem_map_of_mem hdeclared) field.2
            (hfits.resolve_right fun h => h)
      exact ⟨_, .partialRecord hus heach⟩
    | listOf each =>
      obtain ⟨us, hus⟩ := exists_forall₂ fun w hw => hpart _ List.mem_cons_self w (each w hw)
      obtain ⟨hlength, hplain⟩ := List.forall₂_iff_zip.mp hus
      exact ⟨_, .listOf hlength fun _ _ h => hplain h⟩
    | setOf ascending proper each =>
      obtain ⟨us, hus⟩ := exists_forall₂ fun k hk => hpart _ List.mem_cons_self _ (each k hk)
      obtain ⟨hlength, hplain⟩ := List.forall₂_iff_zip.mp hus
      exact ⟨_, .setOf hlength (fun _ _ h => hplain h) .rfl⟩
    | queueOf each =>
      obtain ⟨us, hus⟩ := exists_forall₂ fun w hw => hpart _ List.mem_cons_self w (each w hw)
      obtain ⟨hlength, hplain⟩ := List.forall₂_iff_zip.mp hus
      exact ⟨_, .queueOf hlength fun _ _ h => hplain h⟩
    | @mapOf _ key value ws distinct proper eachKey eachValue =>
      have hentry : ∀ w ∈ ws, ∃ u : Key × Value,
          plainKey key w.1 = u.1 ∧ PlainForm value w.2 u.2 := by
        intro w hw
        obtain ⟨u, hu⟩ := hpart value (List.mem_cons_of_mem _ List.mem_cons_self) _ (eachValue w hw)
        exact ⟨(plainKey key w.1, u), rfl, hu⟩
      obtain ⟨us, hus⟩ := exists_forall₂ hentry
      obtain ⟨hlength, hplain⟩ := List.forall₂_iff_zip.mp hus
      have hkeys : (Entries.keys ws).map (plainKey key) = Entries.keys us :=
        map_keys_eq (hus.imp fun _ _ h => h.1)
      -- different keys have different plain forms, so that no entry of the plain map is lost
      have hshape (k : Key) (hk : k ∈ Entries.keys ws) : HasFullShape key k.toValue := by
        obtain ⟨w, hw, rfl⟩ := List.mem_map.mp hk
        exact eachKey w hw
      refine ⟨_, .mapOf hlength ?_ (fun w u h => ?_) fun _ _ h => (hplain h).2⟩
      · rw [Entries.Distinct, ← hkeys]
        exact List.pairwise_map.mpr (distinct.imp_of_mem fun hj hk hne =>
          plainKey_ne hroot (hshape _ hj) (hshape _ hk) hne)
      · rw [← (hplain h).1]
        exact plainForm_plainKey hroot (eachKey w (List.of_mem_zip h).1)
    | @tupleOf _ elements ws each =>
      obtain ⟨hlength, hshapes⟩ := List.forall₂_iff_zip.mp each
      obtain ⟨us, hus⟩ := exists_forall₂ fun item (hitem : item ∈ elements.zip ws) =>
        hpart item.1 (List.of_mem_zip hitem).1 item.2 (hshapes hitem)
      obtain ⟨hlength', hplain⟩ := List.forall₂_iff_zip.mp hus
      rw [List.length_zip, hlength, Nat.min_self] at hlength'
      exact ⟨_, .tupleOf hlength' fun _ _ _ h => hplain h⟩
    | absent => exact ⟨_, .absent⟩
    | @present _ _ d w shape =>
      -- the plain form of an absent value is that of the optional type itself
      by_cases hnone : w = .none
      · subst hnone; exact ⟨_, .absent⟩
      · obtain ⟨u, hu⟩ := hpart d List.mem_cons_self w shape
        exact ⟨u, .present hnone hu⟩

end Conform
