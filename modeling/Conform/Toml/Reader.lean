import Conform.Toml.Scalar

/-!
# Reading TOML documents

`Toml.read` reads a document of the TOML grammar (version 1.0). Arrays and inline tables nest at
most `maxNesting` levels deep, and the reader of values recurses on the levels that are left. A
dotted key has at most as many parts.
-/

namespace Conform.Toml

/-- The most arrays and inline tables that may stand inside each other, and the most parts of a
    key. -/
def maxNesting : Nat := 79

/-- The blanks within a line. -/
def isBlank (c : Char) : Bool :=
  c == ' ' || c == '\t'

/-- Skips the blanks in front of a text. -/
def skipBlanks (s : List Char) : List Char :=
  s.dropWhile isBlank

/-- Skips a comment, up to but not including the line end. -/
def skipComment : List Char → Option (List Char)
  | '#' :: rest =>
    match rest.dropWhile isPlain with
    | [] => some []
    | '\n' :: rest => some ('\n' :: rest)
    | '\r' :: '\n' :: rest => some ('\n' :: rest)
    | _ => none
  | s => some s

/-- Skips blanks, line ends and comments. -/
def skipFiller : Nat → List Char → Option (List Char)
  | 0, _ => none
  | fuel + 1, s =>
    match skipBlanks s with
    | '\n' :: rest => skipFiller fuel rest
    | '\r' :: '\n' :: rest => skipFiller fuel rest
    | '#' :: rest => (skipComment ('#' :: rest)).bind (skipFiller fuel)
    | s => some s

/-- Skips what may follow a statement: blanks, a comment and the line end. -/
def skipLineEnd (s : List Char) : Option (List Char) :=
  (skipComment (skipBlanks s)).bind fun s =>
    match s with
    | [] => some []
    | '\n' :: rest => some rest
    | '\r' :: '\n' :: rest => some rest
    | _ => none

/-- The characters of keys that are not quoted. -/
def isBareKeyChar (c : Char) : Bool :=
  c.isAlphanum || c == '_' || c == '-'

/-- Reads one part of a key. -/
def readKeyPart (s : List Char) : Option (String × List Char) :=
  match s with
  | '"' :: rest => (readBasic (s.length + 1) rest).map fun (cs, rest) => (String.ofList cs, rest)
  | '\x27' :: rest => (readLiteral rest).map fun (cs, rest) => (String.ofList cs, rest)
  | _ =>
    let name := s.takeWhile isBareKeyChar
    if name.isEmpty then none else some (String.ofList name, s.drop name.length)

/-- Reads a dotted key of at most `room` parts, blanks around it included. -/
def readParts : Nat → List Char → Option (List String × List Char)
  | 0, _ => none
  | room + 1, s => do
    let (part, rest) ← readKeyPart (skipBlanks s)
    match skipBlanks rest with
    | '.' :: rest => (readParts room rest).map fun (parts, rest) => (part :: parts, rest)
    | rest => some ([part], rest)

/-- Reads a dotted key. Its parts nest tables, so there are at most `maxNesting` of them. -/
def readKey (s : List Char) : Option (List String × List Char) :=
  readParts maxNesting s

/-- A reader of values. -/
abbrev Reader := List Char → Option (Value × List Char)

/-- Reads the items of an array behind its opening bracket or a comma. -/
def readItems (read : Reader) : Nat → List Char → Option (List Value × List Char)
  | 0, _ => none
  | fuel + 1, s => do
    let s ← skipFiller (s.length + 1) s
    match s with
    | ']' :: rest => some ([], rest)
    | _ => do
      let (v, rest) ← read s
      let rest ← skipFiller (rest.length + 1) rest
      match rest with
      | ']' :: rest => some ([v], rest)
      -- a comma may stand behind the last item too
      | ',' :: rest => (readItems read fuel rest).map fun (vs, rest) => (v :: vs, rest)
      | _ => none

/-- Reads a key and its value. -/
def readAssignment (read : Reader) (s : List Char) :
    Option ((List String × Value) × List Char) := do
  let (key, rest) ← readKey s
  match rest with
  | '=' :: rest => (read (skipBlanks rest)).map fun (v, rest) => ((key, v), rest)
  | _ => none

/-- Reads the assignments of an inline table from the first one on. -/
def readInline (read : Reader) : Nat → Table → List Char → Option (Table × List Char)
  | 0, _, _ => none
  | fuel + 1, t, s => do
    let ((key, v), rest) ← readAssignment read s
    let t ← Table.assign (key.getLastD "") v key.dropLast t
    match skipBlanks rest with
    | '\x7d' :: rest => some (t, rest)
    | ',' :: rest => readInline read fuel t rest
    | _ => none

/-- Reads a value with at most `room` levels of arrays and inline tables. -/
def readValue : Nat → Reader
  | room, s =>
    match s with
    | '"' :: _ => (readString s).map fun (cs, rest) => (.string (String.ofList cs), rest)
    | '\x27' :: _ => (readString s).map fun (cs, rest) => (.string (String.ofList cs), rest)
    | '[' :: rest =>
      match room with
      | 0 => none
      | room + 1 =>
        (readItems (readValue room) (rest.length + 1) rest).map fun (vs, rest) => (.array vs, rest)
    | '\x7b' :: rest =>
      match room with
      | 0 => none
      | room + 1 =>
        match skipBlanks rest with
        | '\x7d' :: rest => some (.table [], rest)
        -- no comma may stand behind the last assignment, and no line may end
        | rest =>
          (readInline (readValue room) (rest.length + 1) [] rest).map fun (t, rest) =>
            (.table (toEntries t), rest)
    | _ => readWord s

/-- A statement of a document. -/
inductive Statement
  | assignment (key : List String) (v : Value)
  | header (path : List String)
  | elementHeader (path : List String)

/-- Reads a statement behind the blanks in front of it. -/
def readStatement (s : List Char) : Option (Statement × List Char) :=
  match s with
  | '[' :: '[' :: rest => do
    let (path, rest) ← readKey rest
    match rest with
    | ']' :: ']' :: rest => some (.elementHeader path, rest)
    | _ => none
  | '[' :: rest => do
    let (path, rest) ← readKey rest
    match rest with
    | ']' :: rest => some (.header path, rest)
    | _ => none
  | _ =>
    (readAssignment (readValue maxNesting) s).map fun ((key, v), rest) => (.assignment key v, rest)

/-- Reads statements, each on a line of its own. -/
def readStatements : Nat → List Char → Option (List Statement)
  | 0, _ => none
  | fuel + 1, s => do
    let s ← skipFiller (s.length + 1) s
    if s.isEmpty then some []
    else do
      let (statement, rest) ← readStatement s
      let rest ← skipLineEnd rest
      (readStatements fuel rest).map (statement :: ·)

/-- Carries out statements on a document in which a path of headers is open. -/
def build (document : Table) (opened : List String) : List Statement → Option Table
  | [] => some document
  | .assignment key v :: rest => do
    let document ← document.change (Table.assign (key.getLastD "") v key.dropLast) opened
    build document opened rest
  | .header path :: rest => do
    -- the path of a header starts at the document, whatever table was open
    let document ← document.change (Table.openTable (path.getLastD "")) path.dropLast
    build document path rest
  | .elementHeader path :: rest => do
    let document ← document.change (Table.openElement (path.getLastD "")) path.dropLast
    build document path rest

/-- Reads a document. A byte order mark in front of it is ignored. -/
def read (document : String) : Option (List (String × Value)) := do
  let s := match document.toList with
    | '\ufeff' :: rest => rest
    | s => s
  let statements ← readStatements (s.length + 1) s
  (build [] [] statements).map toEntries

end Conform.Toml
