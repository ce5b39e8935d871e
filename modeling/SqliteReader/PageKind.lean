/-! The four kinds of b-tree pages and the byte that marks each. -/

namespace SqliteReader

inductive PageKind
  | indexInterior
  | tableInterior
  | indexLeaf
  | tableLeaf
  deriving DecidableEq, Repr

namespace PageKind

def tag : PageKind → UInt8
  | .indexInterior => 0x02
  | .tableInterior => 0x05
  | .indexLeaf => 0x0A
  | .tableLeaf => 0x0D

def ofTag? : UInt8 → Option PageKind
  | 0x02 => some .indexInterior
  | 0x05 => some .tableInterior
  | 0x0A => some .indexLeaf
  | 0x0D => some .tableLeaf
  | _ => none

def isLeaf : PageKind → Bool
  | .indexLeaf | .tableLeaf => true
  | .indexInterior | .tableInterior => false

def isTable : PageKind → Bool
  | .tableInterior | .tableLeaf => true
  | .indexInterior | .indexLeaf => false

/-- Interior pages end their header with the right-most child. -/
def headerSize (kind : PageKind) : Nat := if kind.isLeaf then 8 else 12

/-- The only kind of page that may point to this kind. -/
def parent (kind : PageKind) : PageKind := if kind.isTable then .tableInterior else .indexInterior

def name : PageKind → String
  | .indexInterior => "IndexInterior"
  | .tableInterior => "TableInterior"
  | .indexLeaf => "IndexLeaf"
  | .tableLeaf => "TableLeaf"

theorem ofTag?_eq_some {tag : UInt8} {kind : PageKind} : ofTag? tag = some kind ↔ tag = kind.tag := by
  constructor
  · unfold ofTag?
    split <;> (intro found; cases found) <;> rfl
  · rintro rfl
    cases kind <;> rfl

end PageKind
end SqliteReader
