import Conform.Descriptor

/-!
# Building records

A record or a partial record is put together by a sequence of calls. A field that is declared again
is replaced in its place; a constructor, and whether a partial record requires its fields, may be
given any number of times, and the last time counts.
-/

namespace Conform

/-- A call that adds to a record. The field may be one with a default. -/
inductive RecordCall
  | field (f : Field Descriptor)
  | constructor (c : Callable)

/-- A record that is being built. -/
structure RecordBuilder where
  name : String
  fields : List (Field Descriptor)
  constructor? : Option Callable

namespace RecordBuilder

/-- A record without fields. -/
def start (name : String) : RecordBuilder := ⟨name, [], none⟩

/-- What a call makes of a record. -/
def perform (b : RecordBuilder) : RecordCall → RecordBuilder
  | .field f => { b with fields := f.declare b.fields }
  | .constructor c => { b with constructor? := some c }

/-- The record as it is. -/
def build (b : RecordBuilder) : Shape :=
  .record b.name b.fields b.constructor?

/-- The record that a sequence of calls makes. -/
def buildAll (name : String) (calls : List RecordCall) : Shape :=
  (calls.foldl perform (start name)).build

end RecordBuilder

/-- A call that adds to a partial record. -/
inductive PartialRecordCall
  | field (name : String) (type : Descriptor)
  | total (total : Bool)

/-- A partial record that is being built. -/
structure PartialRecordBuilder where
  name : String
  fields : List (String × Descriptor)
  total : Bool

namespace PartialRecordBuilder

/-- A partial record without fields. It requires all fields that it will have. -/
def start (name : String) : PartialRecordBuilder := ⟨name, [], true⟩

/-- What a call makes of a partial record. -/
def perform (b : PartialRecordBuilder) : PartialRecordCall → PartialRecordBuilder
  | .field name type => { b with fields := Entries.insert name type b.fields }
  | .total total => { b with total }

/-- The partial record as it is. -/
def build (b : PartialRecordBuilder) : Shape :=
  .partialRecord b.name b.fields b.total

/-- The partial record that a sequence of calls makes. -/
def buildAll (name : String) (calls : List PartialRecordCall) : Shape :=
  (calls.foldl perform (start name)).build

end PartialRecordBuilder

end Conform
