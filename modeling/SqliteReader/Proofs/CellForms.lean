import SqliteReader.Cell
import SqliteReader.Proofs.VarintForms

/-! Cells as bytes of their page, told without a reader. A cell stands where the bytes of
one of its forms stand, whatever is before and behind them, and these are the fields that it
starts with and its payload; the reader finds just the cells that stand there and that the
page keeps to itself. -/

namespace SqliteReader

namespace Page

/-- The bytes stand on the page from `offset` on. -/
def Holds (page : Page) (offset : Nat) (bytes : List UInt8) : Prop :=
  ∃ before behind, page.data.data.toList = before ++ bytes ++ behind ∧ before.length = offset

variable {page : Page} {offset width number taken : Nat} {bytes first second : List UInt8} {value : UInt64}

theorem size_eq (page : Page) : page.size = page.data.data.toList.length := Array.length_toList.symm

theorem Holds.inside (holds : page.Holds offset bytes) : offset + bytes.length ≤ page.size := by
  obtain ⟨before, behind, parts, rfl⟩ := holds
  have length := congrArg List.length parts
  simp only [List.length_append] at length
  rw [size_eq, length]
  exact Nat.le_add_right _ _

theorem holds_append :
    page.Holds offset (first ++ second) ↔ page.Holds offset first ∧ page.Holds (offset + first.length) second := by
  constructor
  · rintro ⟨before, behind, parts, rfl⟩
    refine ⟨⟨before, second ++ behind, ?_, rfl⟩, ⟨before ++ first, behind, ?_, List.length_append⟩⟩
    · simpa only [List.append_assoc] using parts
    · simpa only [List.append_assoc] using parts
  · rintro ⟨⟨before, rest, parts, rfl⟩, others, behind, again, there⟩
    rw [parts, List.append_assoc others] at again
    obtain ⟨rfl, rfl⟩ := List.append_inj again (by rw [List.length_append, there])
    exact ⟨before, behind, by simpa only [List.append_assoc] using parts, rfl⟩

theorem toList_extract (page : Page) (start stop : Nat) :
    (page.data.extract start stop).data.toList = (page.data.data.toList.drop start).take (stop - start) := by
  simp [ByteArray.data_extract, List.extract_eq_take_drop]

theorem slice?_eq_some_iff :
    page.slice? offset (offset + width) = some bytes ↔ page.Holds offset bytes ∧ bytes.length = width := by
  rw [slice?, toList_extract, Nat.add_sub_cancel_left]
  constructor
  · intro found
    split at found
    next inside =>
      obtain ⟨-, inside⟩ := inside
      rw [size_eq] at inside
      have taken := Option.some.inj found
      have counted : bytes.length = width := by
        rw [← taken, List.length_take, List.length_drop]
        omega
      refine ⟨⟨page.data.data.toList.take offset, page.data.data.toList.drop (offset + width), ?_, ?_⟩, counted⟩
      · rw [← taken, List.append_assoc, ← List.drop_drop, List.take_append_drop, List.take_append_drop]
      · rw [List.length_take]
        omega
    next => cases found
  · rintro ⟨holds, rfl⟩
    rw [if_pos ⟨Nat.le_add_right _ _, holds.inside⟩]
    obtain ⟨before, behind, parts, rfl⟩ := holds
    rw [parts, List.append_assoc, List.drop_left, List.take_left]

theorem number?_eq_some_iff :
    page.number? offset width = some number ↔
      number < BigEndian.span width ∧ page.Holds offset (BigEndian.write width number) := by
  rw [number?, Option.map_eq_some_iff]
  constructor
  · rintro ⟨bytes, found, rfl⟩
    obtain ⟨holds, rfl⟩ := slice?_eq_some_iff.mp found
    rw [BigEndian.write_read]
    exact ⟨BigEndian.read_lt bytes, holds⟩
  · rintro ⟨small, holds⟩
    refine ⟨_, slice?_eq_some_iff.mpr ⟨holds, BigEndian.length_write _ _⟩, ?_⟩
    rw [BigEndian.read_write, Nat.mod_eq_of_lt small]

theorem varint?_eq_some_iff :
    page.varint? offset = some (value, taken) ↔
      ∃ form, page.Holds offset form ∧ form.length = taken ∧ Varint.Form form value := by
  rw [varint?, toList_extract, Nat.add_sub_cancel_left]
  constructor
  · intro found
    obtain ⟨form, rest, parts, counted, stands⟩ := Varint.exists_form_of_decode found
    have positive := stands.length_pos
    have length := congrArg List.length parts
    rw [List.length_take, List.length_drop, List.length_append] at length
    refine ⟨form, ⟨page.data.data.toList.take offset,
      rest ++ (page.data.data.toList.drop offset).drop Varint.maxLength, ?_, ?_⟩, counted, stands⟩
    · rw [List.append_assoc, ← List.append_assoc form, ← parts, List.take_append_drop, List.take_append_drop]
    · rw [List.length_take]
      omega
  · rintro ⟨form, ⟨before, behind, parts, rfl⟩, rfl, stands⟩
    rw [parts, List.append_assoc, List.drop_left, List.take_append, List.take_of_length_le stands.length_le]
    exact stands.decode _

end Page

namespace Cell

def kind : Cell → PageKind
  | .tableLeaf _ _ => .tableLeaf
  | .tableInterior _ _ => .tableInterior
  | .indexLeaf _ => .indexLeaf
  | .indexInterior _ _ => .indexInterior

def payload : Cell → List UInt8
  | .tableLeaf _ payload => payload
  | .tableInterior _ _ => []
  | .indexLeaf payload => payload
  | .indexInterior _ payload => payload

/-- The bytes are a form of the cell, with any forms of its numbers. -/
inductive Form : Cell → List UInt8 → Prop
  | tableLeaf {rowid : Int64} {payload size key : List UInt8} {count : UInt64} (counts : count.toNat = payload.length)
      (sized : Varint.Form size count) (keyed : Varint.Form key rowid.toUInt64) :
      Form (.tableLeaf rowid payload) (size ++ key ++ payload)
  | tableInterior {child : UInt32} {key : Int64} {number : List UInt8} (keyed : Varint.Form number key.toUInt64) :
      Form (.tableInterior child key) (BigEndian.write 4 child.toNat ++ number)
  | indexLeaf {payload size : List UInt8} {count : UInt64} (counts : count.toNat = payload.length)
      (sized : Varint.Form size count) : Form (.indexLeaf payload) (size ++ payload)
  | indexInterior {child : UInt32} {payload size : List UInt8} {count : UInt64} (counts : count.toNat = payload.length)
      (sized : Varint.Form size count) :
      Form (.indexInterior child payload) (BigEndian.write 4 child.toNat ++ size ++ payload)

/-- The cell stands at the offset, and the page keeps its payload to itself. -/
structure Stands (cell : Cell) (page : Page) (offset : Nat) : Prop where
  whole : cell.payload.length ≤ maxLocal cell.kind page.size
  placed : ∃ form, cell.Form form ∧ page.Holds offset form

inductive Lead
  | tableLeaf (size : UInt64) (rowid : Int64)
  | tableInterior (child : UInt32) (key : Int64)
  | indexLeaf (size : UInt64)
  | indexInterior (child : UInt32) (size : UInt64)
  deriving DecidableEq, Repr

namespace Lead

def kind : Lead → PageKind
  | .tableLeaf _ _ => .tableLeaf
  | .tableInterior _ _ => .tableInterior
  | .indexLeaf _ => .indexLeaf
  | .indexInterior _ _ => .indexInterior

/-- The declared length of the payload, nought where there is none. -/
def size : Lead → UInt64
  | .tableLeaf size _ => size
  | .tableInterior _ _ => 0
  | .indexLeaf size => size
  | .indexInterior _ size => size

def cell (payload : List UInt8) : Lead → Cell
  | .tableLeaf _ rowid => .tableLeaf rowid payload
  | .tableInterior child key => .tableInterior child key
  | .indexLeaf _ => .indexLeaf payload
  | .indexInterior child _ => .indexInterior child payload

/-- The bytes are a form of the fields, with any forms of the numbers. -/
inductive Form : Lead → List UInt8 → Prop
  | tableLeaf {count : UInt64} {rowid : Int64} {size key : List UInt8} (sized : Varint.Form size count)
      (keyed : Varint.Form key rowid.toUInt64) : Form (.tableLeaf count rowid) (size ++ key)
  | tableInterior {child : UInt32} {key : Int64} {number : List UInt8} (keyed : Varint.Form number key.toUInt64) :
      Form (.tableInterior child key) (BigEndian.write 4 child.toNat ++ number)
  | indexLeaf {count : UInt64} {size : List UInt8} (sized : Varint.Form size count) : Form (.indexLeaf count) size
  | indexInterior {child : UInt32} {count : UInt64} {size : List UInt8} (sized : Varint.Form size count) :
      Form (.indexInterior child count) (BigEndian.write 4 child.toNat ++ size)

/-- All fields that a cell of this kind starts with stand on the page, from the offset to
where the payload starts. -/
def Stands (lead : Lead) (page : Page) (kind : PageKind) (offset start : Nat) : Prop :=
  lead.kind = kind ∧ ∃ form, lead.Form form ∧ page.Holds offset form ∧ offset + form.length = start

/-- The page keeps the whole payload to itself. -/
def Fits (lead : Lead) (page : Page) (start : Nat) : Prop :=
  lead.size.toNat ≤ maxLocal lead.kind page.size ∧ start + lead.size.toNat ≤ page.size

theorem kind_cell (lead : Lead) {payload : List UInt8} : (lead.cell payload).kind = lead.kind := by
  cases lead <;> rfl

theorem payload_cell (lead : Lead) {payload : List UInt8} (counted : payload.length = lead.size.toNat) :
    (lead.cell payload).payload = payload := by
  cases lead with
  | tableInterior => exact (List.eq_nil_of_length_eq_zero counted).symm
  | tableLeaf | indexLeaf | indexInterior => rfl

end Lead

/-- Reads all that stands in front of the payload, and tells where that starts. -/
def readLead (page : Page) (kind : PageKind) (offset : Nat) : Except CorruptError (Lead × Nat) :=
  match kind with
  | .tableLeaf => do
    let (size, behind) ← readVarint page offset offset
    let (rowid, behind) ← readVarint page offset behind
    return (.tableLeaf size rowid.toInt64, behind)
  | .tableInterior => do
    let child ← readChild page offset offset
    let (key, behind) ← readVarint page offset (offset + 4)
    return (.tableInterior child key.toInt64, behind)
  | .indexLeaf => do
    let (size, behind) ← readVarint page offset offset
    return (.indexLeaf size, behind)
  | .indexInterior => do
    let child ← readChild page offset offset
    let (size, behind) ← readVarint page offset (offset + 4)
    return (.indexInterior child size, behind)

section reading

variable {page : Page} {kind : PageKind} {start offset behind : Nat} {child : UInt32} {value size : UInt64}
  {payload : List UInt8} {lead : Lead} {cell : Cell}

theorem readChild_ok_iff :
    readChild page start offset = .ok child ↔ page.Holds offset (BigEndian.write 4 child.toNat) := by
  have room : BigEndian.span 4 = 0x100000000 := rfl
  rw [readChild]
  constructor
  · intro result
    split at result
    next => cases result
    next number found =>
      cases result
      obtain ⟨small, holds⟩ := Page.number?_eq_some_iff.mp found
      rwa [UInt32.toNat_ofNat', Nat.mod_eq_of_lt (by omega)]
  · intro holds
    have small : child.toNat < BigEndian.span 4 := child.toNat_lt
    rw [Page.number?_eq_some_iff.mpr ⟨small, holds⟩]
    dsimp only
    rw [UInt32.ofNat_toNat]

theorem readVarint_ok_iff :
    readVarint page start offset = .ok (value, behind) ↔
      ∃ form, page.Holds offset form ∧ Varint.Form form value ∧ offset + form.length = behind := by
  rw [readVarint]
  constructor
  · intro result
    split at result
    next => cases result
    next number taken found =>
      cases result
      obtain ⟨form, holds, rfl, stands⟩ := Page.varint?_eq_some_iff.mp found
      exact ⟨form, holds, stands, rfl⟩
  · rintro ⟨form, holds, stands, rfl⟩
    rw [Page.varint?_eq_some_iff.mpr ⟨form, holds, rfl, stands⟩]

theorem readPayload_ok_iff :
    readPayload page kind offset size = .ok payload ↔
      size.toNat = payload.length ∧ payload.length ≤ maxLocal kind page.size ∧ page.Holds offset payload := by
  rw [readPayload]
  constructor
  · intro result
    split at result
    next => cases result
    next fits =>
      split at result
      next => cases result
      next found =>
        cases result
        obtain ⟨holds, counted⟩ := Page.slice?_eq_some_iff.mp found
        exact ⟨counted.symm, by omega, holds⟩
  · rintro ⟨counted, fits, holds⟩
    rw [if_neg (by omega), Page.slice?_eq_some_iff.mpr ⟨holds, counted.symm⟩]

theorem readLead_ok_iff : readLead page kind offset = .ok (lead, start) ↔ lead.Stands page kind offset start := by
  constructor
  · intro result
    cases kind with
    | tableLeaf =>
      obtain ⟨⟨count, _⟩, sizeRead, result⟩ := bind_ok_iff.mp result
      obtain ⟨⟨rowid, _⟩, keyRead, same⟩ := bind_ok_iff.mp result
      cases same
      obtain ⟨size, first, sized, rfl⟩ := readVarint_ok_iff.mp sizeRead
      obtain ⟨key, second, keyed, rfl⟩ := readVarint_ok_iff.mp keyRead
      refine ⟨rfl, _, .tableLeaf sized keyed, Page.holds_append.mpr ⟨first, second⟩, ?_⟩
      rw [List.length_append, Nat.add_assoc]
    | tableInterior =>
      obtain ⟨child, pointed, result⟩ := bind_ok_iff.mp result
      obtain ⟨⟨key, _⟩, keyRead, same⟩ := bind_ok_iff.mp result
      cases same
      have first := readChild_ok_iff.mp pointed
      obtain ⟨number, second, keyed, rfl⟩ := readVarint_ok_iff.mp keyRead
      refine ⟨rfl, _, .tableInterior keyed, Page.holds_append.mpr ⟨first, ?_⟩, ?_⟩
      · rwa [BigEndian.length_write]
      · rw [List.length_append, BigEndian.length_write, Nat.add_assoc]
    | indexLeaf =>
      obtain ⟨⟨count, _⟩, sizeRead, same⟩ := bind_ok_iff.mp result
      cases same
      obtain ⟨size, first, sized, rfl⟩ := readVarint_ok_iff.mp sizeRead
      exact ⟨rfl, _, .indexLeaf sized, first, rfl⟩
    | indexInterior =>
      obtain ⟨child, pointed, result⟩ := bind_ok_iff.mp result
      obtain ⟨⟨count, _⟩, sizeRead, same⟩ := bind_ok_iff.mp result
      cases same
      have first := readChild_ok_iff.mp pointed
      obtain ⟨size, second, sized, rfl⟩ := readVarint_ok_iff.mp sizeRead
      refine ⟨rfl, _, .indexInterior sized, Page.holds_append.mpr ⟨first, ?_⟩, ?_⟩
      · rwa [BigEndian.length_write]
      · rw [List.length_append, BigEndian.length_write, Nat.add_assoc]
  · rintro ⟨rfl, form, stands, holds, rfl⟩
    cases stands with
    | tableLeaf sized keyed =>
      obtain ⟨first, second⟩ := Page.holds_append.mp holds
      refine bind_ok_iff.mpr ⟨_, readVarint_ok_iff.mpr ⟨_, first, sized, rfl⟩, ?_⟩
      refine bind_ok_iff.mpr ⟨_, readVarint_ok_iff.mpr ⟨_, second, keyed, rfl⟩, ?_⟩
      rw [List.length_append, ← Nat.add_assoc]
      rfl
    | tableInterior keyed =>
      rw [Page.holds_append, BigEndian.length_write] at holds
      refine bind_ok_iff.mpr ⟨_, readChild_ok_iff.mpr holds.1, ?_⟩
      refine bind_ok_iff.mpr ⟨_, readVarint_ok_iff.mpr ⟨_, holds.2, keyed, rfl⟩, ?_⟩
      rw [List.length_append, BigEndian.length_write, ← Nat.add_assoc]
      rfl
    | indexLeaf sized => exact bind_ok_iff.mpr ⟨_, readVarint_ok_iff.mpr ⟨_, holds, sized, rfl⟩, rfl⟩
    | indexInterior sized =>
      rw [Page.holds_append, BigEndian.length_write] at holds
      refine bind_ok_iff.mpr ⟨_, readChild_ok_iff.mpr holds.1, ?_⟩
      refine bind_ok_iff.mpr ⟨_, readVarint_ok_iff.mpr ⟨_, holds.2, sized, rfl⟩, ?_⟩
      rw [List.length_append, BigEndian.length_write, ← Nat.add_assoc]
      rfl

theorem readPayload_zero (inside : start ≤ page.size) : readPayload page kind start 0 = .ok [] := by
  rw [Page.size_eq] at inside
  have parts : page.data.data.toList = page.data.data.toList.take start ++ [] ++ page.data.data.toList.drop start := by
    rw [List.append_nil, List.take_append_drop]
  exact readPayload_ok_iff.mpr ⟨rfl, Nat.zero_le _, _, _, parts, List.length_take_of_le inside⟩

/-- The payload is loaded last, as its declared length says. -/
theorem parse_eq (page : Page) (kind : PageKind) (offset : Nat) :
    parse page kind offset = readLead page kind offset >>= fun found =>
      found.1.cell <$> readPayload page kind found.2 found.1.size := by
  cases kind with
  | tableLeaf =>
    simp only [parse, readLead, bind_assoc, pure_bind]
    rfl
  | tableInterior =>
    simp only [parse, readLead, bind_assoc, pure_bind]
    cases readChild page offset offset with
    | error reason => rfl
    | ok child =>
      cases found : readVarint page offset (offset + 4) with
      | error reason => rfl
      | ok key =>
        obtain ⟨number, holds, -, behind⟩ := readVarint_ok_iff.mp found
        have inside : key.2 ≤ page.size := behind ▸ holds.inside
        change _ = _ <$> readPayload page .tableInterior key.2 0
        rw [readPayload_zero inside]
        rfl
  | indexLeaf =>
    simp only [parse, readLead, bind_assoc, pure_bind]
    rfl
  | indexInterior =>
    simp only [parse, readLead, bind_assoc, pure_bind]
    rfl

theorem parse_ok_iff_lead :
    parse page kind offset = .ok cell ↔
      ∃ (lead : Lead) (start : Nat) (payload : List UInt8), lead.Stands page kind offset start ∧
        lead.Fits page start ∧ page.Holds start payload ∧ payload.length = lead.size.toNat ∧
        cell = lead.cell payload := by
  rw [parse_eq, bind_ok_iff]
  constructor
  · rintro ⟨⟨lead, start⟩, found, rest⟩
    have stands := readLead_ok_iff.mp found
    obtain rfl : lead.kind = kind := stands.1
    rw [map_eq_pure_bind] at rest
    obtain ⟨payload, loaded, same⟩ := bind_ok_iff.mp rest
    cases same
    obtain ⟨counted, whole, holds⟩ := readPayload_ok_iff.mp loaded
    have fits : lead.Fits page start := ⟨counted ▸ whole, counted ▸ holds.inside⟩
    exact ⟨lead, start, payload, stands, fits, holds, counted.symm, rfl⟩
  · rintro ⟨lead, start, payload, stands, fits, holds, counted, rfl⟩
    obtain rfl : lead.kind = kind := stands.1
    refine ⟨(lead, start), readLead_ok_iff.mpr stands, ?_⟩
    rw [readPayload_ok_iff.mpr ⟨counted.symm, counted ▸ fits.1, holds⟩]
    rfl

theorem form_iff {bytes : List UInt8} :
    cell.Form bytes ↔
      ∃ (lead : Lead) (form payload : List UInt8), lead.Form form ∧ payload.length = lead.size.toNat ∧
        cell = lead.cell payload ∧ bytes = form ++ payload := by
  constructor
  · intro stands
    cases stands with
    | tableLeaf counts sized keyed => exact ⟨_, _, _, .tableLeaf sized keyed, counts.symm, rfl, rfl⟩
    | tableInterior keyed => exact ⟨_, _, [], .tableInterior keyed, rfl, rfl, (List.append_nil _).symm⟩
    | indexLeaf counts sized => exact ⟨_, _, _, .indexLeaf sized, counts.symm, rfl, rfl⟩
    | indexInterior counts sized => exact ⟨_, _, _, .indexInterior sized, counts.symm, rfl, rfl⟩
  · rintro ⟨lead, form, payload, stands, counted, rfl, rfl⟩
    cases stands with
    | tableLeaf sized keyed => exact .tableLeaf counted.symm sized keyed
    | tableInterior keyed =>
      obtain rfl : payload = [] := List.eq_nil_of_length_eq_zero counted
      rw [List.append_nil]
      exact .tableInterior keyed
    | indexLeaf sized => exact .indexLeaf counted.symm sized
    | indexInterior sized => exact .indexInterior counted.symm sized

/-- The reader finds just the cells of the page's kind that stand there. -/
theorem parse_ok_iff : parse page kind offset = .ok cell ↔ cell.kind = kind ∧ cell.Stands page offset := by
  rw [parse_ok_iff_lead]
  constructor
  · rintro ⟨lead, start, payload, ⟨rfl, form, stands, first, rfl⟩, fits, second, counted, rfl⟩
    have formed := form_iff.mpr ⟨lead, form, payload, stands, counted, rfl, rfl⟩
    refine ⟨lead.kind_cell, ?_, _, formed, Page.holds_append.mpr ⟨first, second⟩⟩
    rw [lead.kind_cell, lead.payload_cell counted, counted]
    exact fits.1
  · rintro ⟨rfl, whole, _, formed, holds⟩
    obtain ⟨lead, form, payload, stands, counted, rfl, rfl⟩ := form_iff.mp formed
    obtain ⟨first, second⟩ := Page.holds_append.mp holds
    rw [lead.kind_cell, lead.payload_cell counted, counted] at whole
    have fits : lead.Fits page (offset + form.length) := ⟨whole, counted ▸ second.inside⟩
    exact ⟨lead, _, payload, ⟨lead.kind_cell.symm, form, stands, first, rfl⟩, fits, second, counted, rfl⟩

end reading
end Cell
end SqliteReader
