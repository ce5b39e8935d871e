import SqliteReader.Binary64.Text
import SqliteReader.Text.Utf8

/-! Values of columns and registers, their storage classes, and their order: null, then
numbers, then text, then blobs. Integers and reals share one order in which an integer
beside a real stands for the real nearest to it. Text and blobs go by their bytes. -/

namespace SqliteReader

inductive StorageClass
  | null
  | integer
  | real
  | text
  | blob
  deriving DecidableEq, Repr

namespace StorageClass

def name : StorageClass → String
  | .null => "null"
  | .integer => "integer"
  | .real => "real"
  | .text => "text"
  | .blob => "blob"

/-- Position among the classes; numbers of both kinds share one. -/
def rank : StorageClass → Nat
  | .null => 0
  | .integer => 1
  | .real => 1
  | .text => 2
  | .blob => 3

end StorageClass

inductive Value
  | null
  | integer (number : Int64)
  | real (number : Binary64)
  | text (words : String)
  | blob (bytes : List UInt8)
  deriving DecidableEq

namespace Value

instance : Inhabited Value := ⟨.null⟩

def storage : Value → StorageClass
  | .null => .null
  | .integer _ => .integer
  | .real _ => .real
  | .text _ => .text
  | .blob _ => .blob

def isNull (value : Value) : Bool := value.storage == .null

def integer? : Value → Option Int64
  | .integer number => some number
  | _ => none

def text? : Value → Option String
  | .text words => some words
  | _ => none

def blob? : Value → Option (List UInt8)
  | .blob bytes => some bytes
  | _ => none

def compare : Value → Value → Ordering
  | .integer a, .integer b => Ord.compare a.toInt b.toInt
  | .integer a, .real b => (Binary64.ofInt64 a).compare b
  | .real a, .integer b => a.compare (Binary64.ofInt64 b)
  | .real a, .real b => a.compare b
  | .text a, .text b => Ord.compare (Utf8.encode a) (Utf8.encode b)
  | .blob a, .blob b => Ord.compare a b
  | a, b => Ord.compare a.storage.rank b.storage.rank

/-- What a person reads; a blob is shown as the text its bytes may be. -/
def shown : Value → String
  | .null => "NULL"
  | .integer number => number.toInt.repr
  | .real number => number.text
  | .text words => words
  | .blob bytes => Utf8.lossy bytes

end Value
end SqliteReader
