import SqliteReader.Proofs.CellForms
import SqliteReader.Proofs.PageLayout
import SqliteReader.Proofs.RecordForms

/-! B-tree pages, told without a reader: a header, one pointer a cell, and the cells
anywhere. Decoding takes just the pages of this form, and gives back what their cells mean
in the order of the pointers. -/

namespace SqliteReader

namespace Front

def fields (front : Front) : List UInt8 :=
  BigEndian.write 2 front.firstFreeblock.toNat ++ (BigEndian.write 2 front.cellCount.toNat ++
    (BigEndian.write 2 front.contentStart.toNat ++ (BigEndian.write 1 front.fragmentedBytes.toNat ++
      if front.kind.isLeaf then [] else BigEndian.write 4 front.rightMost.toNat)))

/-- The header stands on the page; a leaf has no right-most child. -/
structure Stands (front : Front) (page : Page) : Prop where
  childless : front.kind.isLeaf = true → front.rightMost = 0
  placed : page.Holds page.headerOffset (front.kind.tag :: front.fields)

def field (page : Page) (offset width : Nat) : Except CorruptError Nat :=
  match page.number? (page.headerOffset + offset) width with
  | none => .error (.cellOutOfBounds page.number page.headerOffset)
  | some number => .ok number

def rightMostField (page : Page) (kind : PageKind) : Except CorruptError Nat :=
  if kind.isLeaf then .ok 0 else field page 8 4

def readFields (page : Page) (kind : PageKind) : Except CorruptError Front :=
  if page.size < page.headerOffset + kind.headerSize then .error (.cellOutOfBounds page.number page.headerOffset)
  else do
    let firstFreeblock ← field page 1 2
    let cellCount ← field page 3 2
    let contentStart ← field page 5 2
    let fragmentedBytes ← field page 7 1
    let rightMost ← rightMostField page kind
    return {
      kind
      firstFreeblock := UInt16.ofNat firstFreeblock
      cellCount := UInt16.ofNat cellCount
      contentStart := UInt16.ofNat contentStart
      fragmentedBytes := UInt8.ofNat fragmentedBytes
      rightMost := UInt32.ofNat rightMost }

/-- The tag decides whether the page fits its parent before anything else is read. -/
theorem read_eq (page : Page) (parent : Option PageKind) :
    Front.read page parent =
      (field page 0 1 >>= fun tag =>
        match PageKind.ofTag? (UInt8.ofNat tag) with
        | none => .error (.unknownPageType page.number (UInt8.ofNat tag))
        | some kind =>
          match parent with
          | none => readFields page kind
          | some parentKind =>
            if parentKind = kind.parent then readFields page kind
            else .error (.parentChildMismatch page.number parentKind kind)) := by
  unfold Front.read
  refine bind_congr fun tag => ?_
  cases PageKind.ofTag? (UInt8.ofNat tag) with
  | none => rfl
  | some kind =>
    cases parent with
    | none => cases kind <;> rfl
    | some parentKind =>
      by_cases fits : parentKind = kind.parent
      · refine (if_neg fun differs => differs fits).trans (Eq.trans ?_ (if_pos fits).symm)
        cases kind <;> rfl
      · exact (if_pos fits).trans (if_neg fits).symm

variable {page : Page} {kind : PageKind} {front : Front} {offset width number : Nat}

theorem field_ok_iff :
    field page offset width = .ok number ↔
      number < BigEndian.span width ∧ page.Holds (page.headerOffset + offset) (BigEndian.write width number) := by
  rw [← Page.number?_eq_some_iff, field]
  cases page.number? (page.headerOffset + offset) width with
  | none => simp
  | some other => simp

theorem length_fields (front : Front) : 1 + front.fields.length = front.kind.headerSize := by
  simp only [fields, List.length_append, BigEndian.length_write, PageKind.headerSize]
  split <;> simp

theorem holds_fields_iff :
    page.Holds (page.headerOffset + 1) front.fields ↔
      field page 1 2 = .ok front.firstFreeblock.toNat ∧ field page 3 2 = .ok front.cellCount.toNat ∧
        field page 5 2 = .ok front.contentStart.toNat ∧ field page 7 1 = .ok front.fragmentedBytes.toNat ∧
        (front.kind.isLeaf = true ∨ field page 8 4 = .ok front.rightMost.toNat) := by
  have two (word : UInt16) : word.toNat < BigEndian.span 2 := word.toNat_lt
  have one (word : UInt8) : word.toNat < BigEndian.span 1 := word.toNat_lt
  have four (word : UInt32) : word.toNat < BigEndian.span 4 := word.toNat_lt
  simp only [field_ok_iff, two, one, four, true_and]
  cases leaf : front.kind.isLeaf <;> simp [fields, leaf, Page.holds_append, Nat.add_assoc]

theorem readFields_ok_iff :
    readFields page kind = .ok front ↔
      front.kind = kind ∧ (kind.isLeaf = true → front.rightMost = 0) ∧
        page.Holds (page.headerOffset + 1) front.fields := by
  rw [holds_fields_iff]
  constructor
  · intro result
    unfold readFields at result
    split at result
    next => cases result
    next room =>
      obtain ⟨firstFreeblock, first, result⟩ := bind_ok_iff.mp result
      obtain ⟨cellCount, second, result⟩ := bind_ok_iff.mp result
      obtain ⟨contentStart, third, result⟩ := bind_ok_iff.mp result
      obtain ⟨fragmentedBytes, fourth, result⟩ := bind_ok_iff.mp result
      obtain ⟨rightMost, last, result⟩ := bind_ok_iff.mp result
      cases Except.ok.inj result
      have two {number : Nat} (small : number < BigEndian.span 2) : (UInt16.ofNat number).toNat = number :=
        UInt16.toNat_ofNat_of_lt small
      have one {number : Nat} (small : number < BigEndian.span 1) : (UInt8.ofNat number).toNat = number :=
        UInt8.toNat_ofNat_of_lt small
      have four {number : Nat} (small : number < BigEndian.span 4) : (UInt32.ofNat number).toNat = number :=
        UInt32.toNat_ofNat_of_lt small
      refine ⟨rfl, ?_, ?_⟩
      · intro leaf
        rw [rightMostField, if_pos leaf] at last
        cases last
        rfl
      · dsimp only
        rw [two (field_ok_iff.mp first).1, two (field_ok_iff.mp second).1, two (field_ok_iff.mp third).1,
          one (field_ok_iff.mp fourth).1]
        refine ⟨first, second, third, fourth, ?_⟩
        rw [rightMostField] at last
        split at last
        next leaf => exact .inl leaf
        next => exact .inr (by rwa [four (field_ok_iff.mp last).1])
  · rintro ⟨rfl, childless, first, second, third, fourth, last⟩
    have room : ¬ page.size < page.headerOffset + front.kind.headerSize := by
      have inside := (holds_fields_iff.mpr ⟨first, second, third, fourth, last⟩).inside
      rw [← length_fields]
      omega
    have final : rightMostField page front.kind = .ok front.rightMost.toNat := by
      rw [rightMostField]
      split
      next leaf =>
        rw [childless leaf]
        rfl
      next inner => exact last.resolve_left inner
    rw [readFields, if_neg room]
    refine bind_ok_iff.mpr ⟨_, first, bind_ok_iff.mpr ⟨_, second, bind_ok_iff.mpr ⟨_, third, ?_⟩⟩⟩
    refine bind_ok_iff.mpr ⟨_, fourth, bind_ok_iff.mpr ⟨_, final, ?_⟩⟩
    simp only [UInt16.ofNat_toNat, UInt8.ofNat_toNat, UInt32.ofNat_toNat]
    rfl

theorem stands_iff :
    front.Stands page ↔
      field page 0 1 = .ok front.kind.tag.toNat ∧ readFields page front.kind = .ok front := by
  have parts := @Page.holds_append page page.headerOffset [front.kind.tag] front.fields
  have tag : BigEndian.write 1 front.kind.tag.toNat = [front.kind.tag] := by simp [BigEndian.write]
  have byte : front.kind.tag.toNat < BigEndian.span 1 := front.kind.tag.toNat_lt
  rw [readFields_ok_iff, field_ok_iff, tag]
  constructor
  · rintro ⟨childless, placed⟩
    obtain ⟨first, behind⟩ := parts.mp placed
    exact ⟨⟨byte, first⟩, rfl, childless, behind⟩
  · rintro ⟨⟨-, first⟩, -, childless, behind⟩
    exact ⟨childless, parts.mpr ⟨first, behind⟩⟩

theorem read_ok_iff {parent : Option PageKind} :
    Front.read page parent = .ok front ↔ front.Stands page ∧ ∀ kind ∈ parent, kind = front.kind.parent := by
  rw [read_eq, stands_iff]
  constructor
  · intro result
    obtain ⟨tag, tagRead, result⟩ := bind_ok_iff.mp result
    have byte := (field_ok_iff.mp tagRead).1
    split at result
    next => cases result
    next kind known =>
      have same : tag = kind.tag.toNat := by
        rw [← PageKind.ofTag?_eq_some.mp known]
        exact (UInt8.toNat_ofNat_of_lt byte).symm
      subst same
      split at result
      next =>
        cases (readFields_ok_iff.mp result).1
        exact ⟨⟨tagRead, result⟩, by simp⟩
      next parentKind =>
        split at result
        next fits =>
          cases (readFields_ok_iff.mp result).1
          exact ⟨⟨tagRead, result⟩, by simp [fits]⟩
        next => cases result
  · rintro ⟨⟨tagged, fields⟩, fits⟩
    refine bind_ok_iff.mpr ⟨_, tagged, ?_⟩
    rw [UInt8.ofNat_toNat, PageKind.ofTag?_eq_some.mpr rfl]
    cases parent with
    | none => exact fields
    | some kind => exact (if_pos (fits kind rfl)).trans fields

end Front

namespace Column

/-- The column is an integer, stored or constant, and so can end an index entry. -/
structure Refers (column : Column) (rowid : Int64) : Prop where
  integral : column.serialType.toNat ∈ [1, 2, 3, 4, 5, 6, 8, 9]
  valued : column.value = .integer rowid

theorem refers_iff {column : Column} {rowid : Int64} : column.value.integer? = some rowid ↔ column.Refers rowid := by
  constructor
  · intro found
    have valued : column.value = .integer rowid := by
      cases shown : column.value <;> rw [shown] at found <;> cases found
      rfl
    refine ⟨?_, valued⟩
    unfold Column.value at valued
    split at valued
    next => cases valued
    next same => simp [same]
    next same => simp [same]
    next same => simp [same]
    next same => simp [same]
    next same => simp [same]
    next same => simp [same]
    next => cases valued
    next same => simp [same]
    next same => simp [same]
    next => split at valued <;> cases valued
  · rintro ⟨-, valued⟩
    rw [valued]
    rfl

end Column

theorem Record.readIndexEntry_ok_iff {payload : List UInt8} {record : Record} :
    readIndexEntry payload = .ok record ↔
      ∃ last, Form payload (record.columns ++ [last]) ∧ last.Refers record.rowid := by
  rw [readIndexEntry]
  constructor
  · intro result
    split at result
    next => cases result
    next columns read =>
      split at result
      next => cases result
      next rowid found =>
        cases result
        obtain ⟨last, ends, refers⟩ := Option.bind_eq_some_iff.mp found
        obtain ⟨columns, rfl⟩ := List.getLast?_eq_some_iff.mp ends
        rw [List.dropLast_concat]
        exact ⟨last, readColumns_ok_iff.mp read, Column.refers_iff.mp refers⟩
  · rintro ⟨last, form, refers⟩
    rw [readColumns_ok_iff.mpr form]
    dsimp only
    rw [List.getLast?_concat, Option.bind_some, Column.refers_iff.mpr refers, List.dropLast_concat]

namespace Cell

/-- What a cell gives its page: a record, a child, or both. An index entry ends with the
rowid it points to. -/
inductive Means : Cell → Entry → Prop
  | tableLeaf {rowid : Int64} {payload : List UInt8} {columns : List Column} (form : Record.Form payload columns) :
      Means (.tableLeaf rowid payload) { record := some ⟨rowid, columns⟩ }
  | tableInterior {child : UInt32} {key : Int64} :
      Means (.tableInterior child key) { child := some { page := child, key := some (.rowid key) } }
  | indexLeaf {payload : List UInt8} {columns : List Column} {last : Column} {rowid : Int64}
      (form : Record.Form payload (columns ++ [last])) (refers : last.Refers rowid) :
      Means (.indexLeaf payload) { record := some ⟨rowid, columns⟩ }
  | indexInterior {child : UInt32} {payload : List UInt8} {columns : List Column} {last : Column} {rowid : Int64}
      (form : Record.Form payload (columns ++ [last])) (refers : last.Refers rowid) :
      Means (.indexInterior child payload)
        { record := some ⟨rowid, columns⟩, child := some { page := child, key := some (.index payload) } }

theorem entry_ok_iff {cell : Cell} {entry : Entry} : cell.entry = .ok entry ↔ cell.Means entry := by
  constructor
  · intro result
    cases cell with
    | tableLeaf rowid payload =>
      obtain ⟨columns, read, same⟩ := bind_ok_iff.mp result
      cases same
      exact .tableLeaf (Record.readColumns_ok_iff.mp read)
    | tableInterior child key =>
      cases result
      exact .tableInterior
    | indexLeaf payload =>
      obtain ⟨record, read, same⟩ := bind_ok_iff.mp result
      cases same
      obtain ⟨last, form, refers⟩ := Record.readIndexEntry_ok_iff.mp read
      exact .indexLeaf form refers
    | indexInterior child payload =>
      obtain ⟨record, read, same⟩ := bind_ok_iff.mp result
      cases same
      obtain ⟨last, form, refers⟩ := Record.readIndexEntry_ok_iff.mp read
      exact .indexInterior form refers
  · intro means
    cases means with
    | tableLeaf form => exact bind_ok_iff.mpr ⟨_, Record.readColumns_ok_iff.mpr form, rfl⟩
    | tableInterior => rfl
    | indexLeaf form refers => exact bind_ok_iff.mpr ⟨_, Record.readIndexEntry_ok_iff.mpr ⟨_, form, refers⟩, rfl⟩
    | indexInterior form refers =>
      exact bind_ok_iff.mpr ⟨_, Record.readIndexEntry_ok_iff.mpr ⟨_, form, refers⟩, rfl⟩

end Cell

namespace Page

/-- The pointers from `pointer` on lead to the cells, all of one kind. -/
def Lists (page : Page) (kind : PageKind) (pointer : Nat) (cells : List Cell) : Prop :=
  ∀ index cell, cells[index]? = some cell → cell.kind = kind ∧
    ∃ offset : UInt16, page.Holds (pointer + 2 * index) (BigEndian.write 2 offset.toNat) ∧ cell.Stands page offset.toNat

/-- The page is laid out with the header and the cells, wherever the cells are and whatever
forms they have. -/
structure Laid (page : Page) (front : Front) (cells : List Cell) : Prop where
  headed : front.Stands page
  counted : front.cellCount.toNat = cells.length
  pointed : page.Lists front.kind (page.headerOffset + front.kind.headerSize) cells

variable {page : Page} {kind : PageKind} {pointer : Nat} {cell : Cell} {cells : List Cell}

theorem lists_cons :
    page.Lists kind pointer (cell :: cells) ↔
      (cell.kind = kind ∧ ∃ offset : UInt16, page.Holds pointer (BigEndian.write 2 offset.toNat) ∧
        cell.Stands page offset.toNat) ∧ page.Lists kind (pointer + 2) cells := by
  have behind (index : Nat) : pointer + 2 + 2 * index = pointer + 2 * (index + 1) := by omega
  constructor
  · intro lists
    refine ⟨lists 0 cell rfl, fun index other found => ?_⟩
    rw [behind]
    exact lists (index + 1) other found
  · rintro ⟨here, lists⟩ index other found
    cases index with
    | zero =>
      cases found
      exact here
    | succ index =>
      rw [← behind]
      exact lists index other found

end Page

namespace Node

variable {page : Page} {kind : PageKind} {found entries : List Entry} {pointer count : Nat}

theorem readEntries_ok_iff :
    readEntries page kind found pointer count = .ok entries ↔
      ∃ cells more, entries = found.reverse ++ more ∧ cells.length = count ∧ page.Lists kind pointer cells ∧
        List.Forall₂ Cell.Means cells more := by
  induction count generalizing found pointer with
  | zero =>
    rw [readEntries]
    constructor
    · intro result
      cases result
      exact ⟨[], [], by simp, rfl, fun _ _ none => absurd none (by simp), .nil⟩
    · rintro ⟨cells, more, rfl, empty, -, means⟩
      cases List.eq_nil_of_length_eq_zero empty
      cases means
      simp
  | succ count ih =>
    rw [readEntries]
    constructor
    · intro result
      split at result
      next => cases result
      next offset pointed =>
        split at result
        next => cases result
        next entry read =>
          obtain ⟨small, holds⟩ := Page.number?_eq_some_iff.mp pointed
          obtain ⟨cell, parsed, given⟩ := bind_ok_iff.mp read
          obtain ⟨kinds, stands⟩ := Cell.parse_ok_iff.mp parsed
          obtain ⟨cells, more, rfl, rfl, lists, means⟩ := ih.mp result
          have word : (UInt16.ofNat offset).toNat = offset := UInt16.toNat_ofNat_of_lt small
          refine ⟨cell :: cells, entry :: more, by simp, rfl, ?_, .cons (Cell.entry_ok_iff.mp given) means⟩
          exact Page.lists_cons.mpr ⟨⟨kinds, .ofNat offset, by rwa [word], by rwa [word]⟩, lists⟩
    · rintro ⟨cells, more, rfl, counted, lists, means⟩
      cases means with
      | nil => cases counted
      | @cons cell entry cells more meant means =>
        obtain ⟨⟨kinds, offset, holds, stands⟩, lists⟩ := Page.lists_cons.mp lists
        have read : (Cell.parse page kind offset.toNat).bind Cell.entry = .ok entry :=
          bind_ok_iff.mpr ⟨cell, Cell.parse_ok_iff.mpr ⟨kinds, stands⟩, Cell.entry_ok_iff.mpr meant⟩
        rw [Page.number?_eq_some_iff.mpr ⟨offset.toNat_lt, holds⟩]
        dsimp only
        rw [read]
        exact ih.mpr ⟨cells, more, by simp, Nat.succ.inj counted, lists, means⟩

/-- The node of a page with these entries: records and children in their order, and behind
them the right-most child, unless its number is zero. -/
def ofEntries (page : Page) (place : Option Nat) (front : Front) (entries : List Entry) : Node where
  page := page.number
  kind := front.kind
  firstFreeblock := front.firstFreeblock
  cellCount := front.cellCount
  contentStart := front.contentStart
  fragmentedBytes := front.fragmentedBytes
  records := (entries.filterMap Entry.record).toArray
  children :=
    (entries.filterMap Entry.child ++
      if front.rightMost = 0 then [] else [{ page := front.rightMost, key := none : Child }]).toArray
  parent := place

theorem ofPage_ok_iff {parent : Option (Nat × PageKind)} {node : Node} :
    ofPage page parent = .ok node ↔
      ∃ front cells entries, page.Laid front cells ∧ List.Forall₂ Cell.Means cells entries ∧
        (∀ place kind, parent = some (place, kind) → kind = front.kind.parent) ∧
        node = ofEntries page (parent.map Prod.fst) front entries := by
  constructor
  · intro result
    obtain ⟨front, headed, result⟩ := bind_ok_iff.mp result
    obtain ⟨entries, read, same⟩ := bind_ok_iff.mp result
    cases same
    obtain ⟨headed, fits⟩ := Front.read_ok_iff.mp headed
    obtain ⟨cells, _, rfl, counted, pointed, means⟩ := readEntries_ok_iff.mp read
    refine ⟨front, cells, _, ⟨headed, counted.symm, pointed⟩, means, ?_, rfl⟩
    rintro place kind rfl
    exact fits kind rfl
  · rintro ⟨front, cells, entries, laid, means, fits, rfl⟩
    have parents : ∀ kind ∈ parent.map Prod.snd, kind = front.kind.parent := by
      intro kind given
      obtain ⟨⟨place, _⟩, known, rfl⟩ := Option.map_eq_some_iff.mp given
      exact fits place _ known
    refine bind_ok_iff.mpr ⟨front, Front.read_ok_iff.mpr ⟨laid.headed, parents⟩, ?_⟩
    refine bind_ok_iff.mpr ⟨entries, readEntries_ok_iff.mpr ⟨cells, entries, rfl, laid.counted.symm, ?_, means⟩, rfl⟩
    exact laid.pointed

end Node
end SqliteReader
