import SqliteReader.Header
import SqliteReader.Varint

/-! One page of the file. Reads that are not wholly inside the page give nothing. -/

namespace SqliteReader

structure Page where
  number : UInt32
  data : ByteArray

namespace Page

/-- A page past the end of the database. -/
def zeroed (number : UInt32) (size : Nat) : Page := ⟨number, ⟨Array.replicate size 0⟩⟩

def size (page : Page) : Nat := page.data.size

/-- The file header stands in front of the b-tree header on the first page. -/
def headerOffset (page : Page) : Nat := if page.number = 1 then Header.size else 0

def slice? (page : Page) (start stop : Nat) : Option (List UInt8) :=
  if start ≤ stop ∧ stop ≤ page.size then some (page.data.extract start stop).data.toList else none

def number? (page : Page) (offset width : Nat) : Option Nat :=
  (page.slice? offset (offset + width)).map BigEndian.read

def varint? (page : Page) (offset : Nat) : Option (UInt64 × Nat) :=
  Varint.decode (page.data.extract offset (offset + Varint.maxLength)).data.toList

end Page
end SqliteReader
