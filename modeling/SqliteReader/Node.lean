import SqliteReader.Cell
import SqliteReader.Record

/-! Decoded b-tree pages. Leaves carry records, interior table pages carry children, and
interior index pages carry both, a child before each record and one behind the last. -/

namespace SqliteReader

/-- The upper bound that an interior page states for a child. -/
inductive ChildKey
  | rowid (rowid : Int64)
  | index (payload : List UInt8)
  deriving DecidableEq, Repr

structure Child where
  page : UInt32
  /-- The right-most child has none. -/
  key : Option ChildKey
  /-- Where the tree keeps the child's node once it has been decoded. -/
  node : Option Nat := none
  deriving DecidableEq, Repr

structure Node where
  page : UInt32
  kind : PageKind
  firstFreeblock : UInt16
  cellCount : UInt16
  contentStart : UInt16
  fragmentedBytes : UInt8
  records : Array Record
  children : Array Child
  /-- Where the tree keeps the parent; the root has none. -/
  parent : Option Nat
  deriving DecidableEq, Repr

structure Entry where
  record : Option Record := none
  child : Option Child := none
  deriving DecidableEq, Repr

def Cell.entry : Cell → Except CorruptError Entry
  | .tableLeaf rowid payload => do return { record := some ⟨rowid, ← Record.readColumns payload⟩ }
  | .tableInterior child key => return { child := some { page := child, key := some (.rowid key) } }
  | .indexLeaf payload => do return { record := some (← Record.readIndexEntry payload) }
  | .indexInterior child payload => do
    let record ← Record.readIndexEntry payload
    return { record := some record, child := some { page := child, key := some (.index payload) } }

structure Front where
  kind : PageKind
  firstFreeblock : UInt16
  cellCount : UInt16
  contentStart : UInt16
  fragmentedBytes : UInt8
  /-- Zero if there is no right-most child. -/
  rightMost : UInt32
  deriving DecidableEq, Repr

def Front.read (page : Page) (parent : Option PageKind) : Except CorruptError Front := do
  let base := page.headerOffset
  let outside := CorruptError.cellOutOfBounds page.number base
  let number (offset width : Nat) : Except CorruptError Nat :=
    match page.number? (base + offset) width with
    | none => .error outside
    | some number => .ok number
  let tag ← number 0 1
  let some kind := PageKind.ofTag? (UInt8.ofNat tag)
    | throw (.unknownPageType page.number (UInt8.ofNat tag))
  if let some parentKind := parent then
    if parentKind ≠ kind.parent then throw (.parentChildMismatch page.number parentKind kind)
  if page.size < base + kind.headerSize then throw outside
  let firstFreeblock ← number 1 2
  let cellCount ← number 3 2
  let contentStart ← number 5 2
  let fragmentedBytes ← number 7 1
  let rightMost ← if kind.isLeaf then pure 0 else number 8 4
  return {
    kind
    firstFreeblock := UInt16.ofNat firstFreeblock
    cellCount := UInt16.ofNat cellCount
    contentStart := UInt16.ofNat contentStart
    fragmentedBytes := UInt8.ofNat fragmentedBytes
    rightMost := UInt32.ofNat rightMost }

inductive Slot
  | record (record : Record)
  | child (index : Nat) (page : UInt32)
  deriving DecidableEq, Repr

namespace Node

/-- Reads `count` cells through the pointers from `pointer` on. -/
def readEntries (page : Page) (kind : PageKind) (found : List Entry) (pointer : Nat) :
    Nat → Except CorruptError (List Entry)
  | 0 => .ok found.reverse
  | count + 1 =>
    match page.number? pointer 2 with
    | none => .error (.cellOutOfBounds page.number pointer)
    | some offset =>
      match (Cell.parse page kind offset).bind Cell.entry with
      | .error reason => .error reason
      | .ok entry => readEntries page kind (entry :: found) (pointer + 2) count

/-- The right-most child comes behind those of the cells. -/
def lastChild (front : Front) : List Child :=
  if front.rightMost = 0 then [] else [{ page := front.rightMost, key := none }]

/-- Of the parent its place and its kind are given; only the kind has to fit. -/
def ofPage (page : Page) (parent : Option (Nat × PageKind)) : Except CorruptError Node := do
  let front ← Front.read page (parent.map Prod.snd)
  let entries ← readEntries page front.kind [] (page.headerOffset + front.kind.headerSize) front.cellCount.toNat
  return {
    page := page.number
    kind := front.kind
    firstFreeblock := front.firstFreeblock
    cellCount := front.cellCount
    contentStart := front.contentStart
    fragmentedBytes := front.fragmentedBytes
    records := (entries.filterMap Entry.record).toArray
    children := (entries.filterMap Entry.child ++ lastChild front).toArray
    parent := parent.map Prod.fst }

/-- One of the first list, one of the second, and so on; what is left over comes last. -/
def alternate {α : Type} : List α → List α → List α
  | [], second => second
  | first, [] => first
  | one :: first, other :: second => one :: other :: alternate first second

def recordSlots (node : Node) : List Slot := node.records.toList.map .record

def childSlots (node : Node) : List Slot := node.children.toList.mapIdx fun index child => .child index child.page

def slots (node : Node) : List Slot :=
  match node.kind with
  | .tableLeaf | .indexLeaf => node.recordSlots
  | .tableInterior => node.childSlots
  | .indexInterior => alternate node.childSlots node.recordSlots

def link (node : Node) (index place : Nat) : Node :=
  { node with children := node.children.modify index fun child => { child with node := some place } }

theorem mem_alternate {α : Type} {one : α} {first second : List α} (member : one ∈ alternate first second) :
    one ∈ first ∨ one ∈ second := by
  induction first generalizing second with
  | nil => exact .inr (by simpa [alternate] using member)
  | cons head first ih =>
    cases second with
    | nil => exact .inl member
    | cons other second =>
      rcases List.mem_cons.mp member with rfl | member
      · exact .inl List.mem_cons_self
      rcases List.mem_cons.mp member with rfl | member
      · exact .inr List.mem_cons_self
      exact (ih member).imp (List.mem_cons_of_mem _) (List.mem_cons_of_mem _)

theorem child_of_mem_slots {node : Node} {index : Nat} {page : UInt32} (member : .child index page ∈ node.slots) :
    ∃ child, node.children[index]? = some child ∧ child.page = page := by
  have listed : Slot.child index page ∈ node.childSlots := by
    have strange : Slot.child index page ∉ node.recordSlots := by simp [recordSlots]
    unfold slots at member
    split at member
    · exact absurd member strange
    · exact absurd member strange
    · exact member
    · exact (mem_alternate member).resolve_right strange
  obtain ⟨_, inside, same⟩ := List.mem_mapIdx.mp listed
  cases same
  exact ⟨node.children.toList[index], by rw [← Array.getElem?_toList, List.getElem?_eq_getElem inside], rfl⟩

@[simp] theorem kind_link (node : Node) (index place : Nat) : (node.link index place).kind = node.kind := rfl

@[simp] theorem slots_link (node : Node) (index place : Nat) : (node.link index place).slots = node.slots := by
  have same : (node.link index place).childSlots = node.childSlots := by
    apply List.ext_getElem?
    intro other
    simp only [childSlots, link, Array.toList_modify, List.getElem?_mapIdx, List.getElem?_modify]
    split <;> cases node.children.toList[other]? <;> rfl
  simp only [slots, same]
  rfl

theorem children_link (node : Node) (index place other : Nat) :
    (node.link index place).children[other]? =
      node.children[other]?.map fun child => if index = other then { child with node := some place } else child := by
  rw [link, Array.getElem?_modify]
  split
  next same => rfl
  next => simp

/-- Nothing is known yet of the node of a child. -/
def Fresh (node : Node) : Prop := ∀ child ∈ node.children, child.node = none

theorem entry_fresh {cell : Cell} {entry : Entry} (read : cell.entry = .ok entry) :
    ∀ child ∈ entry.child, child.node = none := by
  cases cell with
  | tableLeaf rowid payload =>
    obtain ⟨columns, _, same⟩ := bind_ok_iff.mp read
    cases same
    simp
  | tableInterior child key =>
    cases read
    simp
  | indexLeaf payload =>
    obtain ⟨record, _, same⟩ := bind_ok_iff.mp read
    cases same
    simp
  | indexInterior child payload =>
    obtain ⟨record, _, same⟩ := bind_ok_iff.mp read
    cases same
    simp

theorem readEntries_fresh {page : Page} {kind : PageKind} {found entries : List Entry} {pointer count : Nat}
    (read : readEntries page kind found pointer count = .ok entries)
    (fresh : ∀ entry ∈ found, ∀ child ∈ entry.child, child.node = none) :
    ∀ entry ∈ entries, ∀ child ∈ entry.child, child.node = none := by
  induction count generalizing found pointer with
  | zero =>
    cases read
    simpa using fresh
  | succ count ih =>
    unfold readEntries at read
    split at read
    · cases read
    split at read
    · cases read
    next entry parsed =>
      obtain ⟨cell, _, gave⟩ := bind_ok_iff.mp parsed
      apply ih read
      intro other member
      rcases List.mem_cons.mp member with rfl | member
      · exact entry_fresh gave
      · exact fresh other member

theorem ofPage_fresh {page : Page} {parent : Option (Nat × PageKind)} {node : Node}
    (decoded : ofPage page parent = .ok node) : node.Fresh := by
  obtain ⟨front, _, decoded⟩ := bind_ok_iff.mp decoded
  obtain ⟨entries, read, same⟩ := bind_ok_iff.mp decoded
  cases same
  intro child member
  rcases List.mem_append.mp (List.mem_toArray.mp member) with inner | last
  · obtain ⟨entry, within, given⟩ := List.mem_filterMap.mp inner
    exact readEntries_fresh read (List.forall_mem_nil _) entry within child given
  · unfold lastChild at last
    split at last
    · cases last
    · cases List.mem_singleton.mp last
      rfl

/-- What a page gives that is asked for by its number and decoded below a parent. -/
structure Given (node : Node) (page : UInt32) (parent : Option (Nat × PageKind)) : Prop where
  page : node.page = page
  parent : node.parent = parent.map Prod.fst
  fresh : node.Fresh

theorem ofPage_given {page : Page} {parent : Option (Nat × PageKind)} {node : Node}
    (decoded : ofPage page parent = .ok node) : node.Given page.number parent := by
  have fresh := ofPage_fresh decoded
  obtain ⟨front, _, decoded⟩ := bind_ok_iff.mp decoded
  obtain ⟨entries, _, same⟩ := bind_ok_iff.mp decoded
  cases same
  exact ⟨rfl, rfl, fresh⟩

end Node
end SqliteReader
