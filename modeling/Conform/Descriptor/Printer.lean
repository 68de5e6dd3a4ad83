import Conform.Descriptor
import Conform.Value.Printer

/-!
# Descriptors in messages

Types are written in type notation: `List[Int]`, `Map[Text, Union[Int, None]]`. A record is
written as its name alone.
-/

namespace Conform

/-- The name of a scalar type. -/
def Primitive.name : Primitive → String
  | none => "None"
  | bool => "Bool"
  | int => "Int"
  | text => "Text"
  | bytes => "Bytes"

/-- A type with arguments. -/
def typeApplication (head : String) (arguments : List String) : String :=
  head ++ "[" ++ Text.join ", " arguments ++ "]"

mutual

/-- A type in messages. -/
def Descriptor.render : Descriptor → String
  | .node _ shape => shape.render

/-- A shape in messages. -/
def Shape.render : Shape → String
  | .any => "Any"
  | .primitive p => p.name
  | .float => "Float"
  | .complex => "Complex"
  | .decimal => "Decimal"
  | .literal allowed => typeApplication "Literal" (allowed.map Value.render)
  | .record name _ _ => name
  | .partialRecord name _ _ => name
  | .listOf element => typeApplication "List" [element.render]
  | .setOf element => typeApplication "Set" [element.render]
  | .queueOf element => typeApplication "Queue" [element.render]
  | .mapOf key value => typeApplication "Map" [key.render, value.render]
  | .tupleOf elements => typeApplication "Tuple" (renderTypes elements)
  | .unionOf alternatives => typeApplication "Union" (renderTypes alternatives)
  | .symbolPath spec => spec.render
  | .invocation path args kwargs =>
    typeApplication "Call" [path.render, args.render, kwargs.render]
  | .inspectedInvocation path => typeApplication "Call" [path.render]

/-- A list of types in messages. -/
def renderTypes : List Descriptor → List String
  | [] => []
  | d :: rest => d.render :: renderTypes rest

end

/-- A parameter with its type and its default. -/
def Param.render (p : Param) : String :=
  let typed := match p.type? with
    | some type => p.name ++ ": " ++ type.render
    | none => p.name
  match p.default? with
  | some v => typed ++ " = " ++ v.render
  | none => typed

/-- The parameters in parentheses. -/
def Signature.render (s : Signature) : String :=
  "(" ++ Text.join ", " (s.params.map Param.render) ++ ")"

end Conform
