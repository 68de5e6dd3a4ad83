import Conform.Cast.Basic
import Conform.Compilation

/-!
# Casting by name

Records, partial records and the keyword arguments of a call are cast by one rule. A
`KeywordShape` names the fields that may be present and those that must be. A map fits if all its
keys are declared and no required one is missing; then the fields are cast in declared order, and
absent fields with a default get it.
-/

namespace Conform

/-- The fields of a record or the parameters of a callable. -/
structure KeywordShape where
  /-- The name in messages. -/
  label : String
  fields : List (Field Descriptor)
  /-- The names that must be present, in ascending order. -/
  required : List String

namespace KeywordShape

/-- A record requires the fields without a default. -/
def ofRecord (name : String) (fields : List (Field Descriptor)) : KeywordShape :=
  ⟨name, fields, Field.requiredNames fields⟩

/-- A partial record has no defaults. It requires all of its fields or none. -/
def ofPartialRecord (name : String) (fields : List (String × Descriptor)) (total : Bool) :
    KeywordShape :=
  ⟨name, fields.map fun field => ⟨field.1, field.2, none⟩,
    if total then sortNames (Entries.keys fields) else []⟩

/-- One field for each parameter of a signature, whose type is checked on the way. -/
def parameterFields (ctx : Context) (c : Callable) (signature : Signature) :
    List Param → Except ConfigError (List (Field Descriptor))
  | [] => .ok []
  | p :: rest =>
    match p.type? with
    | none => .error (.untypedParameter c.name p.name signature.render)
    | some type => do
      type.check ctx 0
      let fields ← parameterFields ctx c signature rest
      .ok (⟨p.name, type, p.default?.map .value⟩ :: fields)

/-- The parameters of a callable as fields. A name is required if one of its declarations has no
    default. -/
def ofCallable (ctx : Context) (c : Callable) : Except ConfigError KeywordShape :=
  match ctx.signatures.get? c with
  | none => .error (.missingSignature c.name)
  | some signature => do
    let fields ← parameterFields ctx c signature signature.params
    .ok ⟨c.name ++ signature.render, Field.declareAll fields, Field.requiredNames fields⟩

/-- Whether a key is the name of a field. -/
def declares (shape : KeywordShape) : Key → Bool
  | .text name => shape.fields.any fun f => f.name == name
  | _ => false

/-- The required names that a map lacks. -/
def missing (shape : KeywordShape) (entries : List (Key × Value)) : List String :=
  shape.required.filter fun name => !Entries.contains (Key.text name) entries

/-- The keys of a map that are not declared, in their written form. -/
def unknown (shape : KeywordShape) (entries : List (Key × Value)) : List String :=
  ((Entries.keys entries).filter fun k => !shape.declares k).map Key.render

/-- Casts the fields that are present and makes the defaults of the others. -/
def castFields (enter : Enter) (path : Path) (entries : List (Key × Value)) :
    List (Field Descriptor) → Program (List (String × Value))
  | [] => pure []
  | f :: rest =>
    match Entries.find? (Key.text f.name) entries with
    | some raw => do
      let v ← enter f.type (path ++ [.field f.name]) raw
      let fields ← castFields enter path entries rest
      pure ((f.name, v) :: fields)
    | none =>
      match f.default? with
      | some d => do
        let v ← Program.produce d
        let fields ← castFields enter path entries rest
        pure ((f.name, v) :: fields)
      | none => castFields enter path entries rest

/-- Casts a map to the fields of a shape. -/
def cast (shape : KeywordShape) (enter : Enter) (path : Path) (v : Value) :
    Program (List (String × Value)) :=
  match v with
  | .map entries =>
    let missing := shape.missing entries
    let unknown := shape.unknown entries
    -- no field is cast, and no default made, unless all names are right
    if missing.isEmpty && unknown.isEmpty then castFields enter path entries shape.fields
    else mismatch path v shape.label (.keySet missing unknown)
  | _ => mismatch path v shape.label .wrongKind

end KeywordShape

/-- Casts to a record, which its constructor makes if it has one. -/
def castRecord (enter : Enter) (name : String) (fields : List (Field Descriptor))
    (constructor? : Option Callable) (path : Path) (v : Value) : Program Value := do
  let arguments ← (KeywordShape.ofRecord name fields).cast enter path v
  match constructor? with
  | some c => Program.call c [] arguments
  | none => pure (.record name arguments)

/-- Casts to a record of the fields that are present. -/
def castPartialRecord (enter : Enter) (name : String) (fields : List (String × Descriptor))
    (total : Bool) (path : Path) (v : Value) : Program Value := do
  let present ← (KeywordShape.ofPartialRecord name fields total).cast enter path v
  pure (.record name present)

end Conform
