import Conform.Cast.Keywords

/-!
# Casting by calling

A symbol is cast to the value that it names. An invocation is read from a map that names a
callable and may hold positional and keyword arguments. The arguments are cast to given types, or
the keyword arguments to the types of the parameters of the callable.
-/

namespace Conform

/-- Casts a dotted path to the value that it names. -/
def castSymbol (ctx : Context) (spec : SymbolPath) (expected : String) (path : Path) (v : Value) :
    Program Value :=
  match v.text? with
  | none => mismatch path v expected .wrongKind
  | some dotted =>
    match spec.resolve ctx.registry dotted with
    | .ok resolved => pure resolved
    | .error .malformed => mismatch path v expected .malformedSymbolPath
    | .error .notAllowed => mismatch path v expected .symbolNotAllowed
    | .error (.lookup e) => .throw (.lookup e)

/-- The entries of the map that describes a call, and the callable that it names. -/
def callTarget (enter : Enter) (keys : EnvelopeKeys) (symbol : Descriptor) (expected : String)
    (path : Path) (v : Value) : Program (List (Key × Value) × Callable) :=
  match v with
  | .map envelope =>
    match Entries.find? (Key.text keys.callable) envelope with
    | none => mismatch path v expected (.missingCallableKey keys.callable)
    | some reference => do
      let here := path ++ [.field keys.callable]
      let target ← enter symbol here reference
      match target with
      | .callable c => pure (envelope, c)
      -- blames the reference as it was given, not what it led to
      | _ => mismatch here reference expected .notCallable
  | _ => mismatch path v expected .wrongKind

/-- The positional arguments that a cast gave. -/
def positionalArguments (args : Descriptor) (v : Value) : Program (List Value) :=
  match v.sequence? with
  | some items => pure items
  | none => .throw (.config (.argsNotSequence args.render v.kind.name))

/-- The entries of a map all of whose keys are texts. -/
def textEntries? : List (Key × Value) → Option (List (String × Value))
  | [] => some []
  | (.text name, v) :: rest => (textEntries? rest).map ((name, v) :: ·)
  | _ => none

/-- The keyword arguments that a cast gave. -/
def keywordArguments (kwargs : Descriptor) (v : Value) : Program (List (String × Value)) :=
  let found := match v with
    | .map entries => textEntries? entries
    | .record _ fields => some fields
    | _ => none
  match found with
  | some arguments => pure arguments
  | none => .throw (.config (.kwargsNotMapping kwargs.render v.kind.name))

/-- Appends the defaults of those parameters that neither a position nor a name covers. -/
def fillDefaults (signature? : Option Signature) (positional : Nat)
    (keyword : List (String × Value)) : List (String × Value) :=
  match signature? with
  | none => keyword
  | some signature =>
    -- the positions cover the first parameters, whatever their names
    (signature.params.drop positional).foldl (fun keyword p =>
      match p.default? with
      | some v => if Entries.contains p.name keyword then keyword else keyword ++ [(p.name, v)]
      | none => keyword) keyword

/-- Casts the arguments to their types and calls. -/
def castInvocation (ctx : Context) (enter : Enter) (symbol args kwargs : Descriptor)
    (expected : String) (path : Path) (v : Value) : Program Value := do
  let keys := ctx.config.envelope
  let (envelope, c) ← callTarget enter keys symbol expected path v
  -- absent arguments are cast like an empty list and an empty map
  let rawArgs := (Entries.find? (Key.text keys.args) envelope).getD (.list [])
  let castArgs ← enter args (path ++ [.field keys.args]) rawArgs
  let positional ← positionalArguments args castArgs
  let rawKwargs := (Entries.find? (Key.text keys.kwargs) envelope).getD (.map [])
  let castKwargs ← enter kwargs (path ++ [.field keys.kwargs]) rawKwargs
  let keyword ← keywordArguments kwargs castKwargs
  Program.call c positional (fillDefaults (ctx.signatures.get? c) positional.length keyword)

/-- Casts the keyword arguments to the types of the parameters and calls. The arguments lie two
    levels below the invocation, hence `enterBelow`. -/
def castInspectedInvocation (ctx : Context) (enter enterBelow : Enter) (symbol : Descriptor)
    (expected : String) (path : Path) (v : Value) : Program Value := do
  let keys := ctx.config.envelope
  let (envelope, c) ← callTarget enter keys symbol expected path v
  -- only now is the callable known, and with it the types of the arguments
  let shape ← Program.ofExcept ((KeywordShape.ofCallable ctx c).mapError .config)
  let rawKwargs := (Entries.find? (Key.text keys.kwargs) envelope).getD (.map [])
  let keyword ← shape.cast enterBelow (path ++ [.field keys.kwargs]) rawKwargs
  Program.call c [] keyword

end Conform
