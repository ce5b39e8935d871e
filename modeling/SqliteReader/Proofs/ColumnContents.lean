import SqliteReader.Proofs.ArenaShape
import SqliteReader.Proofs.CountedRows

/-! What columns hold. A column that was read has the bytes that its serial type asks for,
and its value shows all of them: no integer wraps, no text is replaced, and no real is cut.
Every record that comes out of a page, or out of a tree, is made of such columns. -/

namespace SqliteReader

theorem BigEndian.readSigned_bounds (bytes : List UInt8) :
    -(span bytes.length : Int) ≤ 2 * readSigned bytes ∧ 2 * readSigned bytes < span bytes.length := by
  cases bytes with
  | nil => decide
  | cons first rest =>
    have inside := read_lt rest
    have whole : read (first :: rest) = first.toNat * span rest.length + read rest := read_cons first rest
    have bound := read_lt (first :: rest)
    rw [readSigned, List.length_cons, span_succ] at *
    split
    next low =>
      have below : first.toNat * span rest.length ≤ 127 * span rest.length :=
        Nat.mul_le_mul_right _ (Nat.le_of_lt_succ (UInt8.lt_iff_toNat_lt.mp low))
      omega
    next high =>
      have above : 128 * span rest.length ≤ first.toNat * span rest.length :=
        Nat.mul_le_mul_right _ (UInt8.le_iff_toNat_le.mp (UInt8.not_lt.mp high))
      omega

theorem Utf8.lossy_encode (text : String) : lossy (encode text) = text := by
  have read := piecesOn_encoded text.toList []
  rw [List.append_nil, ← encode_eq] at read
  change String.ofList ((piecesOn none (encode text)).map Piece.shown) = text
  rw [read]
  simp [piecesOn, piecesFrom, Function.comp_def, Piece.shown]

namespace Column

/-- A column whose content is that of its serial type and whose value shows all of it. -/
structure Sound (column : Column) : Prop where
  sized : contentSize column.serialType = .ok column.content.length
  real : column.serialType.toNat = 7 →
    column.content.length = 8 ∧ column.value = .real ⟨UInt64.ofNat (BigEndian.read column.content)⟩
  text : ∀ words, column.value = .text words → Utf8.encode words = column.content
  blob : ∀ bytes, column.value = .blob bytes → bytes = column.content
  stored : 1 ≤ column.serialType.toNat → column.serialType.toNat ≤ 6 →
    ∃ number, column.value = .integer number ∧ number.toInt = BigEndian.readSigned column.content ∧
      -(BigEndian.span column.content.length : Int) ≤ 2 * number.toInt ∧
      2 * number.toInt < BigEndian.span column.content.length
  null : column.value = .null ↔ column.isNull = true
  integral : ∀ number, column.integer? = some number → column.value = .integer number

variable {column : Column}

theorem contentSize_le {serialType : UInt64} {length : Nat} (sized : contentSize serialType = .ok length)
    (most : serialType.toNat ≤ 7) : length ≤ 8 := by
  unfold contentSize at sized
  split at sized <;> cases sized <;> omega

/-- What a column shows, by its serial type. -/
inductive Shows (column : Column) : Value → Prop
  | null (type : column.serialType.toNat = 0) : Shows column .null
  | stored (least : 1 ≤ column.serialType.toNat) (most : column.serialType.toNat ≤ 6) :
      Shows column (.integer column.storedInteger)
  | real (type : column.serialType.toNat = 7) :
      Shows column (.real ⟨UInt64.ofNat (BigEndian.read (column.content.take 8))⟩)
  | zero (type : column.serialType.toNat = 8) : Shows column (.integer 0)
  | one (type : column.serialType.toNat = 9) : Shows column (.integer 1)
  | blob (large : 10 ≤ column.serialType.toNat) (even : column.serialType.toNat % 2 = 0) :
      Shows column (.blob column.content)
  | text (large : 10 ≤ column.serialType.toNat) (odd : column.serialType.toNat % 2 = 1) :
      Shows column (.text (Utf8.lossy column.content))

theorem shows (column : Column) : column.Shows column.value := by
  unfold value
  split
  next type => exact .null type
  next type => exact .stored (by omega) (by omega)
  next type => exact .stored (by omega) (by omega)
  next type => exact .stored (by omega) (by omega)
  next type => exact .stored (by omega) (by omega)
  next type => exact .stored (by omega) (by omega)
  next type => exact .stored (by omega) (by omega)
  next type => exact .real type
  next type => exact .zero type
  next type => exact .one type
  next =>
    have large : 10 ≤ column.serialType.toNat := by grind
    split
    next even => exact .blob large even
    next odd => exact .text large (by omega)

theorem value_of_stored (least : 1 ≤ column.serialType.toNat) (most : column.serialType.toNat ≤ 6) :
    column.value = .integer column.storedInteger := by
  have shows := column.shows
  generalize column.value = value at shows
  cases shows with
  | stored => rfl
  | null | real | zero | one | blob | text => omega

theorem toInt_storedInteger (short : column.content.length ≤ 8) :
    column.storedInteger.toInt = BigEndian.readSigned column.content := by
  have bounds := BigEndian.readSigned_bounds column.content
  have widest : BigEndian.span column.content.length ≤ BigEndian.span 8 := Nat.pow_le_pow_right (by decide) short
  have room : BigEndian.span 8 = 0x10000000000000000 := rfl
  exact Int64.toInt_ofInt_of_le (by omega) (by omega)

theorem Fits.sound (fits : column.Fits) : column.Sound where
  sized := fits.sized
  real isReal := by
    have sized := fits.sized
    rw [contentSize, isReal] at sized
    have eight : column.content.length = 8 := (Except.ok.inj sized).symm
    refine ⟨eight, ?_⟩
    have shows := column.shows
    generalize column.value = value at shows
    cases shows with
    | real => rw [List.take_of_length_le (Nat.le_of_eq eight)]
    | null | stored | zero | one | blob | text => omega
  text words shown := by
    have shows := column.shows
    rw [shown] at shows
    cases shows with
    | text large odd =>
      obtain ⟨text, written⟩ := fits.text (by have := fits.unreserved; omega) odd
      rw [← written, Utf8.lossy_encode]
  blob bytes shown := by
    have shows := column.shows
    rw [shown] at shows
    cases shows with
    | blob => rfl
  stored least most := by
    have short : column.content.length ≤ 8 := contentSize_le fits.sized (by omega)
    have bounds := BigEndian.readSigned_bounds column.content
    refine ⟨_, value_of_stored least most, toInt_storedInteger short, ?_⟩
    rwa [toInt_storedInteger short]
  null := by
    have shows := column.shows
    generalize column.value = value at shows
    have numbered : column.isNull = true ↔ column.serialType.toNat = 0 := by
      rw [isNull, beq_iff_eq, ← UInt64.toNat_inj]
      rfl
    rw [numbered]
    cases shows with
    | null type => exact ⟨fun _ => type, fun _ => rfl⟩
    | stored | real | zero | one | blob | text =>
      constructor
      · intro impossible
        cases impossible
      · intro type
        omega
  integral number found := by
    rw [integer?] at found
    split at found
    next stored =>
      cases found
      exact value_of_stored stored.1 stored.2
    next => cases found

end Column

def Record.Sound (record : Record) : Prop := ∀ column ∈ record.columns, column.Sound

theorem Record.Form.sound {payload : List UInt8} {columns : List Column} (form : Form payload columns) :
    ∀ column ∈ columns, column.Sound := by
  obtain ⟨_, _, _, _, _, _, _, fits⟩ := form
  exact fun column member => (fits column member).sound

theorem Cell.Means.sound {cell : Cell} {entry : Entry} (means : cell.Means entry) {record : Record}
    (given : entry.record = some record) : record.Sound := by
  cases means with
  | tableLeaf form =>
    cases given
    exact form.sound
  | tableInterior => cases given
  | indexLeaf form | indexInterior form =>
    cases given
    exact fun column member => form.sound column (List.mem_append_left _ member)

theorem Cell.sound_of_means {cells : List Cell} {entries : List Entry}
    (means : List.Forall₂ Cell.Means cells entries) :
    ∀ entry ∈ entries, ∀ record, entry.record = some record → record.Sound := by
  induction means with
  | nil => exact fun entry impossible => absurd impossible List.not_mem_nil
  | cons meant _ ih => exact List.forall_mem_cons.mpr ⟨fun record given => meant.sound given, ih⟩

namespace Node

def Sound (node : Node) : Prop := ∀ record ∈ node.records, record.Sound

theorem ofPage_sound {page : Page} {parent : Option (Nat × PageKind)} {node : Node}
    (decoded : ofPage page parent = .ok node) : node.Sound := by
  obtain ⟨front, cells, entries, _, means, _, rfl⟩ := ofPage_ok_iff.mp decoded
  intro record member
  obtain ⟨entry, within, given⟩ := List.mem_filterMap.mp (List.mem_toArray.mp member)
  exact Cell.sound_of_means means entry within record given

end Node

/-- A source whose nodes are those of pages of the number asked for. -/
class Source.Paged (σ : Type) [Source σ] : Prop where
  paged {number : UInt32} {parent : Option (Nat × PageKind)} {source last : σ} {node : Node} :
    Source.node number parent source = (.ok node, last) →
      ∃ page : Page, page.number = number ∧ Node.ofPage page parent = .ok node

instance : Source.Paged Pager := ⟨Pager.readNode_page⟩

instance : Source.Paged Disturbed where
  paged := by
    intro number parent source last node ran
    obtain ⟨decoded, _⟩ := Prod.mk.inj ran
    exact Pager.readNode_page (Prod.ext decoded rfl)

theorem Source.supplies_sound (σ : Type) [Source σ] [Source.Paged σ] : Source.Supplies σ Node.Sound where
  decoded _ _ _ _ _ ran := by
    obtain ⟨_, _, decoded⟩ := Source.Paged.paged ran
    exact Node.ofPage_sound decoded
  linked _ _ _ sound := sound

section

variable {σ : Type} [Source σ] [Source.Paged σ] {root : UInt32}

namespace Tree

variable {tree after : Tree} {source last : σ}

theorem Arises.sound_nodes (arises : tree.Arises σ root) : AllNodes Node.Sound tree.nodes :=
  arises.all (Source.supplies_sound σ)

theorem Arises.record_sound {record : Record} (arises : tree.Arises σ root) (here : tree.record? = some record) :
    record.Sound := by
  obtain ⟨frame, _, node, _, found, member⟩ := record_of_frames here
  exact arises.sound_nodes frame.node node found record member

theorem Seeks.sound {asked : Record → Bool} {passed : List Record} {found : Bool}
    (seeks : Seeks asked tree source passed found after last) (arises : tree.Arises σ root) :
    ∀ record ∈ passed, record.Sound := by
  induction seeks with
  | ended | found => exact fun record impossible => absurd impossible List.not_mem_nil
  | passed moved here _ _ ih =>
    have later : Arises σ root _ := .moved .next arises moved
    exact List.forall_mem_cons.mpr ⟨later.record_sound here, ih later⟩

end Tree

end

end SqliteReader
