import Conform.Cast.Containers
import Conform.Cast.Invocation
import Conform.Cast.Scalars

/-!
# Casting values to types

`Descriptor.apply` is the rule of a type at one location. It recurses only into the alternatives
of a union, which share the location; parts of the value are reached through `Enter` functions.
`castWithin` closes the recursion: it is bounded by the number of locations that may still lie on
the way down, and fails with `depthExceeded` when there is none left.
-/

namespace Conform

mutual

/-- Applies the rule of a type, or its converter if the host has one. Parts one level below the
    location are cast by `enter`, parts two levels below by `enterBelow`. -/
def Descriptor.apply (ctx : Context) (enter enterBelow : Enter) :
    Descriptor → Path → Value → Program Value
  | .node id shape, path, v =>
    match ctx.converter? id with
    | some c => Program.convert c v
    | none => shape.apply ctx enter enterBelow path v

/-- Applies the rule of a shape. -/
def Shape.apply (ctx : Context) (enter enterBelow : Enter) : Shape → Path → Value → Program Value
  | .any, _, v => pure v
  | .primitive p, path, v => castUnchanged (p.admits v) .wrongKind p.name path v
  | .float, path, v => castUnchanged v.isReal .wrongKind Shape.float.render path v
  | .complex, path, v => castUnchanged v.isNumber .wrongKind Shape.complex.render path v
  | .decimal, path, v => castDecimal Shape.decimal.render path v
  | .literal allowed, path, v =>
    castUnchanged (v.isAmong allowed) .notInLiteral (Shape.literal allowed).render path v
  | .record name fields constructor?, path, v => castRecord enter name fields constructor? path v
  | .partialRecord name fields total, path, v => castPartialRecord enter name fields total path v
  | .listOf element, path, v => do
    let items ← castElements enter element (Shape.listOf element).render path v
    pure (.list items)
  | .setOf element, path, v => castSet enter element (Shape.setOf element).render path v
  | .queueOf element, path, v => do
    let items ← castElements enter element (Shape.queueOf element).render path v
    pure (.queue items)
  | .mapOf key value, path, v => castMap enter key value (Shape.mapOf key value).render path v
  | .tupleOf elements, path, v => castTuple enter elements (Shape.tupleOf elements).render path v
  | .unionOf alternatives, path, v =>
    applyFirst ctx enter enterBelow
      (mismatch path v (Shape.unionOf alternatives).render (.unionExhausted alternatives.length))
      alternatives path v
  | .symbolPath spec, path, v => castSymbol ctx spec spec.render path v
  | .invocation symbol args kwargs, path, v =>
    castInvocation ctx enter symbol args kwargs (Shape.invocation symbol args kwargs).render path v
  | .inspectedInvocation symbol, path, v =>
    castInspectedInvocation ctx enter enterBelow symbol (Shape.inspectedInvocation symbol).render
      path v

/-- Applies the first type that the value fits, or goes on with `otherwise` if there is none. This
    is the only place where a union is opened and where a refusal is caught. -/
def applyFirst (ctx : Context) (enter enterBelow : Enter) (otherwise : Program Value) :
    List Descriptor → Path → Value → Program Value
  | [], _, _ => otherwise
  | d :: rest, path, v =>
    (d.apply ctx enter enterBelow path v).inUnion.orElse fun _ =>
      applyFirst ctx enter enterBelow otherwise rest path v

end

/-- Casts a value at a location with at most `room` locations from there on down, itself
    included. -/
def castWithin (ctx : Context) : Nat → Descriptor → Path → Value → Program Value
  | 0, d, path, v => mismatch path v d.render (.depthExceeded ctx.config.limits.maxDepth)
  | 1, d, path, v =>
    d.apply ctx (fun d path v => castWithin ctx 0 d path v)
      (fun d path v => castWithin ctx 0 d path v) path v
  | room + 2, d, path, v =>
    d.apply ctx (fun d path v => castWithin ctx (room + 1) d path v)
      (fun d path v => castWithin ctx room d path v) path v

/-- Casts a value to a type that has been prepared for use. -/
def Coercion.apply (c : Coercion) (v : Value) : Program Value :=
  castWithin c.context (c.context.config.limits.maxDepth + 1) c.descriptor [] v

/-- Casts a value to a type. -/
def cast (ctx : Context) (d : Descriptor) (v : Value) : Program Value :=
  match compile ctx d with
  | .ok c => c.apply v
  | .error e => .throw (.config e)

end Conform
