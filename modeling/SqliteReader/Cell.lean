import SqliteReader.Page

/-! Cells, the entries of a b-tree page. Interior cells start with a child page, all but
those of interior table pages carry a payload, and table cells carry a rowid. Payloads
that would continue on other pages are refused. -/

namespace SqliteReader

inductive Cell
  | tableLeaf (rowid : Int64) (payload : List UInt8)
  | tableInterior (child : UInt32) (key : Int64)
  | indexLeaf (payload : List UInt8)
  | indexInterior (child : UInt32) (payload : List UInt8)
  deriving DecidableEq, Repr

namespace Cell

/-- Longest payload that a page of `usable` bytes keeps to itself. -/
def maxLocal (kind : PageKind) (usable : Nat) : Nat :=
  if kind.isTable then usable - 35 else (usable - 12) * 64 / 255 - 23

def readChild (page : Page) (cell offset : Nat) : Except CorruptError UInt32 :=
  match page.number? offset 4 with
  | none => .error (.cellOutOfBounds page.number cell)
  | some child => .ok (UInt32.ofNat child)

def readVarint (page : Page) (cell offset : Nat) : Except CorruptError (UInt64 × Nat) :=
  match page.varint? offset with
  | none => .error (.cellOutOfBounds page.number cell)
  | some (value, taken) => .ok (value, offset + taken)

def readPayload (page : Page) (kind : PageKind) (offset : Nat) (size : UInt64) : Except CorruptError (List UInt8) :=
  if maxLocal kind page.size < size.toNat then .error (.payloadOverflow page.number offset size)
  else match page.slice? offset (offset + size.toNat) with
    | none => .error (.payloadOverflow page.number offset size)
    | some payload => .ok payload

def parse (page : Page) (kind : PageKind) (offset : Nat) : Except CorruptError Cell :=
  match kind with
  | .tableLeaf => do
    let (size, behind) ← readVarint page offset offset
    let (rowid, behind) ← readVarint page offset behind
    let payload ← readPayload page kind behind size
    return .tableLeaf rowid.toInt64 payload
  | .tableInterior => do
    let child ← readChild page offset offset
    let (key, _) ← readVarint page offset (offset + 4)
    return .tableInterior child key.toInt64
  | .indexLeaf => do
    let (size, behind) ← readVarint page offset offset
    return .indexLeaf (← readPayload page kind behind size)
  | .indexInterior => do
    let child ← readChild page offset offset
    let (size, behind) ← readVarint page offset (offset + 4)
    return .indexInterior child (← readPayload page kind behind size)

end Cell
end SqliteReader
