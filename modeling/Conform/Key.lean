import Conform.Binary64
import Conform.Decimal

/-!
# Keys

A `Key` is what can stand in a set or in front of a value in a map: scalars, and tuples and
records of keys. Floating-point keys are told apart by their bits, decimal keys by the number they
stand for. `Key.compare` orders the keys: first by kind, then within the kind. `Key.same` is
equality of keys, defined without the order.
-/

namespace Conform

/-- A scalar, or a tuple or record of keys. -/
inductive Key
  | none
  | bool (b : Bool)
  | int (i : Int64)
  | float (x : Binary64)
  | complex (re im : Binary64)
  | decimal (d : Decimal)
  | text (s : String)
  | bytes (b : List UInt8)
  | tuple (items : List Key)
  | record (name : String) (fields : List (String × Key))
deriving Inhabited

namespace Key

/-- The position of the kind of a key among the kinds. -/
def rank : Key → Nat
  | none => 0
  | bool _ => 1
  | int _ => 2
  | float _ => 3
  | complex .. => 4
  | decimal _ => 5
  | text _ => 6
  | bytes _ => 7
  | tuple _ => 8
  | record .. => 9

mutual

/-- The order of keys: by kind, then by value, tuples and fields lexicographically. -/
def compare : Key → Key → Ordering
  | bool a, bool b => Ord.compare a b
  | int a, int b => Ord.compare a b
  | float a, float b => Ord.compare a.bits b.bits
  | complex a b, complex c d => (Ord.compare a.bits c.bits).then (Ord.compare b.bits d.bits)
  | decimal a, decimal b => a.compare b
  | text a, text b => Ord.compare a b
  | bytes a, bytes b => Ord.compare a b
  | tuple a, tuple b => compareItems a b
  | record m a, record n b => (Ord.compare m n).then (compareFields a b)
  | a, b => Ord.compare a.rank b.rank

/-- Lexicographic order of the items of tuples. -/
def compareItems : List Key → List Key → Ordering
  | [], [] => .eq
  | [], _ :: _ => .lt
  | _ :: _, [] => .gt
  | a :: as, b :: bs => (compare a b).then (compareItems as bs)

/-- Lexicographic order of the fields of records, a field being its name and then its key. -/
def compareFields : List (String × Key) → List (String × Key) → Ordering
  | [], [] => .eq
  | [], _ :: _ => .lt
  | _ :: _, [] => .gt
  | (m, a) :: as, (n, b) :: bs => ((Ord.compare m n).then (compare a b)).then (compareFields as bs)

end

mutual

/-- Equality of keys: decimals by number, all else by data. -/
def same : Key → Key → Bool
  | none, none => true
  | bool a, bool b => a == b
  | int a, int b => a == b
  | float a, float b => a == b
  | complex a b, complex c d => a == c && b == d
  | decimal a, decimal b => a.equal b
  | text a, text b => a == b
  | bytes a, bytes b => a == b
  | tuple a, tuple b => sameItems a b
  | record m a, record n b => m == n && sameFields a b
  | _, _ => false

/-- Equality of the items of tuples. -/
def sameItems : List Key → List Key → Bool
  | [], [] => true
  | a :: as, b :: bs => same a b && sameItems as bs
  | _, _ => false

/-- Equality of the fields of records, names and order included. -/
def sameFields : List (String × Key) → List (String × Key) → Bool
  | [], [] => true
  | (m, a) :: as, (n, b) :: bs => m == n && same a b && sameFields as bs
  | _, _ => false

end

instance : BEq Key := ⟨same⟩

/-- Puts a key into an ascending list, unless one equal to it is there. -/
def insertNew (k : Key) : List Key → List Key
  | [] => [k]
  | j :: rest =>
    match compare k j with
    | .lt => k :: j :: rest
    | .eq => j :: rest
    | .gt => j :: insertNew k rest

/-- The ascending list of the keys; of equal keys the first. -/
def ascending (keys : List Key) : List Key :=
  keys.foldl (fun acc k => insertNew k acc) []

/-- Puts a key into an ascending list, in the place of one equal to it. -/
def insertOver (k : Key) : List Key → List Key
  | [] => [k]
  | j :: rest =>
    match compare k j with
    | .lt => k :: j :: rest
    | .eq => k :: rest
    | .gt => j :: insertOver k rest

/-- The ascending list of the keys; of equal keys the last. -/
def ascendingLast (keys : List Key) : List Key :=
  keys.foldl (fun acc k => insertOver k acc) []

end Key

end Conform
