import Conform.Json
import Conform.Text.Blank
import Conform.Text.Segments

/-!
# Overrides

An override `a.b.c=literal` assigns a value inside of nested maps before they are cast. The right
side is a JSON document or one of the bare words `True`, `False` and `None`; any decoder of
documents will do (`Override.parseWith`). Maps that are missing on the way are made.
-/

namespace Conform

/-- Why an override is refused. -/
inductive OverrideError
  | missingAssignment (text : String)
  | emptyKey (text : String)
  | literal (text : String) (failure : Json.Failure)
  /-- The path of the value that is not a map. -/
  | notAMap (path : String)
deriving DecidableEq

/-- What is wrong with an override. The reader of documents has no text of its own. -/
def OverrideError.message : OverrideError → String
  | missingAssignment text => "override `" ++ text ++ "` has no `=`"
  | emptyKey text => "override `" ++ text ++ "` has an empty key segment"
  | literal text _ => "override `" ++ text ++ "` does not hold a literal: "
  | notAMap path => "cannot assign through `" ++ path ++ "`, it is not a map"

/-- An assignment of a value to a path of keys. -/
structure Override where
  keys : List String
  value : Value

namespace Override

/-- A decoder of documents. -/
abbrev Decoder := String → Except Json.Failure Value

/-- The value of a right side. -/
def readLiteral (decode : Decoder) (s : String) : Except Json.Failure Value :=
  if s = "True" then .ok (.bool true)
  else if s = "False" then .ok (.bool false)
  else if s = "None" then .ok .none
  else decode s

/-- Reads an override with a decoder of documents. The text is cut at its first `=`, and both sides
    are trimmed. -/
def parseWith (decode : Decoder) (text : String) : Except OverrideError Override :=
  match Text.cutChars? '=' text.toList with
  | none => .error (.missingAssignment text)
  | some (left, right) =>
    let keys := Text.splitOn '.' (Text.trim (String.ofList left))
    if keys.any String.isEmpty then .error (.emptyKey text)
    else
      match readLiteral decode (Text.trim (String.ofList right)) with
      | .ok v => .ok ⟨keys, v⟩
      | .error failure => .error (.literal text failure)

/-- Reads an override. -/
def parse (text : String) : Except OverrideError Override :=
  parseWith Json.read text

/-- Assigns below a value that was reached by a path. A map that has no entry for the first of
    several keys gets an empty map there. Gives back the value as it is then, also after a
    failure. -/
def assign (walked : String) (target : Value) (keys : List String) (v : Value) :
    Value × Except OverrideError Unit :=
  match target with
  | .map entries =>
    match keys with
    | [] => (.map entries, .ok ())
    | [last] => (.map (Entries.insert (Key.text last) v entries), .ok ())
    | first :: next :: rest =>
      let child := (Entries.find? (Key.text first) entries).getD (.map [])
      let (newChild, outcome) := assign (walked ++ "." ++ first) child (next :: rest) v
      -- whatever has become of the child, it is in the map from here on
      (.map (Entries.insert (Key.text first) newChild entries), outcome)
  | other => (other, .error (.notAMap walked))
termination_by structural keys

/-- Carries out an override on a value. -/
def apply (o : Override) (target : Value) : Value × Except OverrideError Unit :=
  assign "$" target o.keys o.value

/-- Carries out overrides one after the other up to the first that fails. Gives back the value as it
    is then and the failure. -/
def applyEach (target : Value) : List Override → Value × Except OverrideError Unit
  | [] => (target, .ok ())
  | o :: rest =>
    match o.apply target with
    | (next, .ok ()) => applyEach next rest
    | (next, .error e) => (next, .error e)

/-- Reads all overrides and then carries them out. Nothing is assigned if one cannot be read. -/
def applyTexts (target : Value) (texts : List String) : Value × Except OverrideError Unit :=
  match texts.mapM parse with
  | .ok overrides => applyEach target overrides
  | .error e => (target, .error e)

end Override

end Conform
