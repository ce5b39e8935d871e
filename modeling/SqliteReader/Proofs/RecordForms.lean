import Mathlib.Data.List.Forall2
import SqliteReader.Record
import SqliteReader.Proofs.Utf8Forms
import SqliteReader.Proofs.VarintForms

/-! The record format, told without a reader: a number that counts the header, the numbers
of the serial types, then the contents. Reading takes just the records of this form, gives
back their columns, and forms no sum that a word cannot hold. -/

namespace SqliteReader

structure Column.Fits (column : Column) : Prop where
  unreserved : column.serialType.toNat ≠ 10 ∧ column.serialType.toNat ≠ 11
  sized : contentSize column.serialType = .ok column.content.length
  text : 13 ≤ column.serialType.toNat → column.serialType.toNat % 2 = 1 → ∃ text, Utf8.encode text = column.content

namespace Record

/-- The columns in the record format, with any forms of the numbers. -/
def Form (payload : List UInt8) (columns : List Column) : Prop :=
  ∃ (header : List UInt8) (declared : UInt64) (forms : List (List UInt8)),
    payload = header ++ forms.flatten ++ (columns.map Column.content).flatten ∧
    Varint.Form header declared ∧ declared.toNat = header.length + forms.flatten.length ∧
    List.Forall₂ Varint.Form forms (columns.map Column.serialType) ∧
    ∀ column ∈ columns, column.Fits

end Record

namespace Column

variable {column : Column}

theorem contentSize_unreserved {serialType : UInt64} {length : Nat} (sized : contentSize serialType = .ok length) :
    serialType.toNat ≠ 10 ∧ serialType.toNat ≠ 11 := by
  constructor <;>
  · intro reserved
    rw [contentSize, reserved] at sized
    cases sized

theorem contentSize_lt {serialType : UInt64} {length : Nat} (sized : contentSize serialType = .ok length) :
    length < 0x8000000000000000 := by
  have word := serialType.toNat_lt
  unfold contentSize at sized
  split at sized <;> cases sized <;> omega

theorem isText_iff {serialType : UInt64} :
    isText serialType = true ↔ 13 ≤ serialType.toNat ∧ serialType.toNat % 2 = 1 := by
  simp [isText]

theorem fits_iff :
    column.Fits ↔ contentSize column.serialType = .ok column.content.length ∧
      ¬ (isText column.serialType && !Utf8.isValid column.content) = true := by
  constructor
  · intro fits
    refine ⟨fits.sized, ?_⟩
    simp only [Bool.and_eq_true, Bool.not_eq_true', not_and, Bool.not_eq_false]
    intro text
    obtain ⟨large, odd⟩ := isText_iff.mp text
    exact Utf8.isValid_iff.mpr (fits.text large odd)
  · rintro ⟨sized, valid⟩
    refine ⟨contentSize_unreserved sized, sized, ?_⟩
    intro large odd
    simp only [isText_iff.mpr ⟨large, odd⟩, Bool.true_and, Bool.not_eq_true', Bool.not_eq_false] at valid
    exact Utf8.isValid_iff.mp valid

end Column

namespace Record

variable {declared offset size : Nat} {found types : List UInt64} {rest contents : List UInt8}

theorem readTypes_forms {forms : List (List UInt8)} (stands : List.Forall₂ Varint.Form forms types)
    (counted : offset + forms.flatten.length = declared) :
    readTypes declared found offset (forms.flatten ++ contents) = .ok (found.reverse ++ types, contents) := by
  induction stands generalizing found offset with
  | nil =>
    rw [readTypes, if_neg (by simp at counted; omega), if_pos (by simpa using counted)]
    simp
  | @cons form serialType forms types form_stands stands ih =>
    have positive := form_stands.length_pos
    rw [List.flatten_cons, List.length_append] at counted
    have here := form_stands.decode (forms.flatten ++ contents)
    rw [readTypes, if_pos (by omega), List.flatten_cons, List.append_assoc]
    split
    next ended => cases ended.symm.trans here
    next serial taken read =>
      cases read.symm.trans here
      rw [List.drop_left, ih (by omega)]
      simp

theorem exists_forms_of_readTypes (read : readTypes declared found offset rest = .ok (types, contents)) :
    ∃ forms more, types = found.reverse ++ more ∧ rest = forms.flatten ++ contents ∧
      List.Forall₂ Varint.Form forms more ∧ offset + forms.flatten.length = declared := by
  fun_induction readTypes declared found offset rest with
  | case1 => cases read
  | case2 found offset rest below serialType taken decoded ih =>
    obtain ⟨forms, more, same, behind, stands, counted⟩ := ih read
    obtain ⟨form, _, rfl, rfl, stand⟩ := Varint.exists_form_of_decode decoded
    rw [List.drop_left] at behind
    subst behind
    refine ⟨form :: forms, serialType :: more, by simp [same], by simp, .cons stand stands, ?_⟩
    rw [List.flatten_cons, List.length_append]
    omega
  | case3 found rest done =>
    cases read
    exact ⟨[], [], by simp, by simp, .nil, by simp⟩
  | case4 => cases read

theorem readTypes_ok_iff :
    readTypes declared found offset rest = .ok (types, contents) ↔
      ∃ forms more, types = found.reverse ++ more ∧ rest = forms.flatten ++ contents ∧
        List.Forall₂ Varint.Form forms more ∧ offset + forms.flatten.length = declared := by
  constructor
  · exact exists_forms_of_readTypes
  · rintro ⟨forms, more, rfl, rfl, stands, counted⟩
    exact readTypes_forms stands counted

/-- The bytes that are left make up the columns that are left, one behind the other. -/
theorem readContents_ok_iff {read columns : List Column} (left : offset + rest.length = size) :
    readContents size read offset rest types = .ok columns ↔
      ∃ more : List Column, columns = read.reverse ++ more ∧ more.map Column.serialType = types ∧
        rest = (more.map Column.content).flatten ∧ ∀ column ∈ more, column.Fits := by
  induction types generalizing read offset rest with
  | nil =>
    rw [readContents]
    constructor
    · intro result
      split at result
      next done =>
        cases result
        have spent : rest = [] := List.eq_nil_of_length_eq_zero (by omega)
        exact ⟨[], by simp, rfl, spent, List.forall_mem_nil _⟩
      next => cases result
    · rintro ⟨more, rfl, types, rfl, -⟩
      cases List.map_eq_nil_iff.mp types
      rw [if_pos (by simpa using left), List.append_nil]
  | cons serialType types ih =>
    rw [readContents]
    constructor
    · intro result
      split at result
      next => cases result
      next length sized =>
        split at result
        next => cases result
        next room =>
          dsimp only at result
          split at result
          next => cases result
          next valid =>
            have taken : (rest.take length).length = length := List.length_take_of_le (by omega)
            have dropped : offset + length + (rest.drop length).length = size := by
              rw [List.length_drop]
              omega
            obtain ⟨more, rfl, rfl, behind, fits⟩ := (ih dropped).mp result
            refine ⟨⟨serialType, rest.take length⟩ :: more, by simp, rfl, ?_, ?_⟩
            · rw [List.map_cons, List.flatten_cons, ← behind, List.take_append_drop]
            · exact List.forall_mem_cons.mpr ⟨Column.fits_iff.mpr ⟨by rw [taken, sized], valid⟩, fits⟩
    · rintro ⟨more, rfl, same, rfl, fits⟩
      obtain ⟨column, more, rfl, rfl, rfl⟩ := List.map_eq_cons_iff.mp same
      obtain ⟨here, fits⟩ := List.forall_mem_cons.mp fits
      obtain ⟨sized, valid⟩ := Column.fits_iff.mp here
      simp only [List.map_cons, List.flatten_cons, List.length_append] at left ⊢
      rw [sized]
      dsimp only
      rw [if_neg (by omega), List.take_left, if_neg valid, List.drop_left]
      exact (ih (by omega)).mpr ⟨more, by simp, rfl, rfl, fits⟩

/-- Reading takes just the records, and gives back the columns they were made of. -/
theorem readColumns_ok_iff {payload : List UInt8} {columns : List Column} :
    readColumns payload = .ok columns ↔ Form payload columns := by
  constructor
  · intro result
    rw [readColumns] at result
    split at result
    next => cases result
    next declared taken decoded =>
      split at result
      next => cases result
      next types contents read =>
        obtain ⟨header, _, rfl, rfl, stands⟩ := Varint.exists_form_of_decode decoded
        obtain ⟨forms, types, rfl, behind, numbers, counted⟩ := readTypes_ok_iff.mp read
        rw [List.drop_left] at behind
        subst behind
        have left : declared.toNat + contents.length = (header ++ (forms.flatten ++ contents)).length := by
          simp only [List.length_append]
          omega
        obtain ⟨columns, rfl, rfl, rfl, fits⟩ := (readContents_ok_iff left).mp result
        exact ⟨header, declared, forms, (List.append_assoc _ _ _).symm, stands, counted.symm, numbers, fits⟩
  · rintro ⟨header, declared, forms, rfl, stands, counted, numbers, fits⟩
    rw [readColumns, List.append_assoc, stands.decode]
    dsimp only
    rw [List.drop_left, readTypes_forms numbers counted.symm]
    refine (readContents_ok_iff ?_).mpr ⟨columns, rfl, rfl, rfl, fits⟩
    simp only [List.length_append]
    omega

/-! Each sum of an offset and a size fits a machine word. -/

/-- The sum, unless a 64-bit word is too small for it. -/
def wordSum? (left right : Nat) : Option Nat :=
  if left + right < 0x10000000000000000 then some (left + right) else none

theorem wordSum?_eq {left right : Nat} (fits : left + right < 0x10000000000000000) :
    wordSum? left right = some (left + right) := if_pos fits

def readTypesInWords (declared : Nat) (found : List UInt64) (offset : Nat) (rest : List UInt8) :
    Option (Except CorruptError (List UInt64 × List UInt8)) :=
  if offset < declared then
    match _read : Varint.decode rest with
    | none => some (.error (.recordHeaderLength offset declared))
    | some (serialType, taken) =>
      match wordSum? offset taken with
      | none => none
      | some behind => readTypesInWords declared (serialType :: found) behind (rest.drop taken)
  else if offset = declared then some (.ok (found.reverse, rest))
  else some (.error (.recordHeaderLength offset declared))
termination_by rest.length
decreasing_by
  have used := Varint.decode_taken _read
  rw [List.length_drop]
  omega

def readContentsInWords (size : Nat) (read : List Column) (offset : Nat) (rest : List UInt8) :
    List UInt64 → Option (Except CorruptError (List Column))
  | [] => some (if offset = size then .ok read.reverse else .error (.recordPayloadLength offset size))
  | serialType :: more =>
    match Column.contentSize serialType with
    | .error reason => some (.error reason)
    | .ok length =>
      match wordSum? offset length with
      | none => none
      | some behind =>
        if size < behind then some (.error (.recordPayloadLength behind size))
        else
          let content := rest.take length
          if Column.isText serialType && !Utf8.isValid content then some (.error (.invalidText offset))
          else readContentsInWords size (⟨serialType, content⟩ :: read) behind (rest.drop length) more

/-- Like `readColumns`, but gives up at a sum that no word holds. -/
def readColumnsInWords (payload : List UInt8) : Option (Except CorruptError (List Column)) :=
  match Varint.decode payload with
  | none => some (.error (.recordHeaderLength payload.length 0))
  | some (declared, taken) =>
    match readTypesInWords declared.toNat [] taken (payload.drop taken) with
    | none => none
    | some (.error reason) => some (.error reason)
    | some (.ok (types, contents)) => readContentsInWords payload.length [] declared.toNat contents types

theorem readTypesInWords_eq (small : offset + rest.length < 0x10000000000000000) :
    readTypesInWords declared found offset rest = some (readTypes declared found offset rest) := by
  fun_induction readTypes declared found offset rest with
  | case1 found offset rest below decoded =>
    rw [readTypesInWords, if_pos below]
    split
    next => rfl
    next read => cases read.symm.trans decoded
  | case2 found offset rest below serialType taken decoded ih =>
    have used := Varint.decode_taken decoded
    rw [readTypesInWords, if_pos below]
    split
    next read => cases read.symm.trans decoded
    next read =>
      cases read.symm.trans decoded
      rw [wordSum?_eq (by omega)]
      refine ih ?_
      rw [List.length_drop]
      omega
  | case3 found rest below => rw [readTypesInWords, if_neg below, if_pos rfl]
  | case4 found offset rest below beyond => rw [readTypesInWords, if_neg below, if_neg beyond]

theorem readContentsInWords_eq {read : List Column} (inside : offset ≤ size) (small : size < 0x8000000000000000) :
    readContentsInWords size read offset rest types = some (readContents size read offset rest types) := by
  induction types generalizing read offset rest with
  | nil => rfl
  | cons serialType types ih =>
    rw [readContentsInWords, readContents]
    cases sized : Column.contentSize serialType with
    | error reason => rfl
    | ok length =>
      have bounded := Column.contentSize_lt sized
      dsimp only
      rw [wordSum?_eq (by omega)]
      dsimp only
      split
      · rfl
      · split
        · rfl
        · exact ih (by omega)

theorem readColumnsInWords_eq {payload : List UInt8} (small : payload.length < 0x8000000000000000) :
    readColumnsInWords payload = some (readColumns payload) := by
  rw [readColumnsInWords, readColumns]
  cases decoded : Varint.decode payload with
  | none => rfl
  | some header =>
    obtain ⟨declared, taken⟩ := header
    have used := Varint.decode_taken decoded
    have behind : taken + (payload.drop taken).length = payload.length := by
      rw [List.length_drop]
      omega
    dsimp only
    rw [readTypesInWords_eq (by omega)]
    cases read : readTypes declared.toNat [] taken (payload.drop taken) with
    | error reason => rfl
    | ok result =>
      obtain ⟨types, contents⟩ := result
      obtain ⟨forms, _, -, parts, -, counted⟩ := readTypes_ok_iff.mp read
      have inside : declared.toNat ≤ payload.length := by
        rw [parts, List.length_append] at behind
        omega
      exact readContentsInWords_eq inside small

/-! Records that count themselves. -/

/-- How many bytes the count of the header takes, when the types take `bytes`. -/
def countLength (bytes : Nat) : Nat :=
  Varint.encodedLength (UInt64.ofNat (bytes + Varint.encodedLength (UInt64.ofNat bytes)))

/-- The columns as a record, with the shortest form of each number. -/
def encode (columns : List Column) : List UInt8 :=
  let types := (columns.map fun column => Varint.encode column.serialType).flatten
  Varint.encode (UInt64.ofNat (types.length + countLength types.length)) ++ types ++
    (columns.map Column.content).flatten

theorem countLength_le (bytes : Nat) : countLength bytes ≤ 9 := Varint.encodedLength_le _

theorem encodedLength_count {bytes : Nat} (small : bytes < 0x8000000000000000) :
    Varint.encodedLength (UInt64.ofNat (bytes + countLength bytes)) = countLength bytes := by
  have kept {extra : Nat} (few : extra ≤ 9) : (UInt64.ofNat (bytes + extra)).toNat = bytes + extra := by
    rw [UInt64.toNat_ofNat']
    omega
  have itself : (UInt64.ofNat bytes).toNat = bytes := kept (Nat.zero_le 9)
  have alone : Varint.encodedLength (UInt64.ofNat bytes) ≤ 9 := Varint.encodedLength_le _
  have counted := countLength_le bytes
  have grows : Varint.encodedLength (UInt64.ofNat bytes) ≤ countLength bytes := by
    refine Varint.encodedLength_mono ?_
    rw [kept alone, itself]
    exact Nat.le_add_right _ _
  refine Nat.le_antisymm ?_ ?_
  · by_cases few : countLength bytes ≤ 8
    · have positive : 0 < countLength bytes := Varint.encodedLength_pos _
      have before := (Varint.encodedLength_le_iff positive few).mp (Nat.le_refl (countLength bytes))
      rw [kept alone] at before
      refine (Varint.encodedLength_le_iff positive few).mpr ?_
      rw [kept counted]
      -- A longer count reaches at least 127 times further than the types alone need.
      rcases Nat.eq_or_lt_of_le grows with same | more
      · rwa [same] at before
      · have short := (Varint.encodedLength_le_iff (Varint.encodedLength_pos _) (by omega)).mp
          (Nat.le_refl (Varint.encodedLength (UInt64.ofNat bytes)))
        have further := Varint.reach_mono (Nat.succ_le_of_lt more)
        rw [Varint.reach_succ] at further
        omega
    · exact Nat.le_trans (Varint.encodedLength_le _) (Nat.lt_of_not_le few)
  · refine Varint.encodedLength_mono ?_
    rw [kept alone, kept counted]
    exact Nat.add_le_add_left grows _

theorem form_encode {columns : List Column} (fits : ∀ column ∈ columns, column.Fits)
    (small : (encode columns).length < 0x8000000000000000) : Form (encode columns) columns := by
  simp only [encode] at small ⊢
  generalize types : (columns.map fun column => Varint.encode column.serialType) = forms at small ⊢
  have numbers : List.Forall₂ Varint.Form forms (columns.map Column.serialType) := by
    rw [← types, List.forall₂_map_left_iff, List.forall₂_map_right_iff, List.forall₂_same]
    exact fun column _ => Varint.form_encode column.serialType
  have shorter : forms.flatten.length < 0x8000000000000000 := by
    simp only [List.length_append] at small
    omega
  have counted := countLength_le forms.flatten.length
  refine ⟨_, _, forms, rfl, Varint.form_encode _, ?_, numbers, fits⟩
  rw [Varint.length_encode, encodedLength_count shorter, Nat.add_comm, UInt64.toNat_ofNat']
  exact Nat.mod_eq_of_lt (by omega)

/-- Reading inverts the record format, on records written in any way as well as on those
written the shortest way, and no sum on the way leaves a word. -/
theorem readColumns_inverts {payload : List UInt8} (small : payload.length < 0x8000000000000000) :
    (∀ columns, readColumns payload = .ok columns ↔ Form payload columns) ∧
      (∀ columns : List Column, (∀ column ∈ columns, column.Fits) → payload = encode columns →
        readColumns payload = .ok columns) ∧
      readColumnsInWords payload = some (readColumns payload) := by
  refine ⟨fun columns => readColumns_ok_iff, ?_, readColumnsInWords_eq small⟩
  rintro columns fits rfl
  exact readColumns_ok_iff.mpr (form_encode fits small)

/-- An integer and a text, once with a serial type in two bytes and once the shortest way. -/
theorem readColumns_inverts_pair :
    (Form [4, 0x80, 1, 15, 42, 65] [⟨1, [42]⟩, ⟨15, [65]⟩] ∧
      readColumnsInWords [4, 0x80, 1, 15, 42, 65] = some (.ok [⟨1, [42]⟩, ⟨15, [65]⟩])) ∧
    [3, 1, 15, 42, 65] = encode [⟨1, [42]⟩, ⟨15, [65]⟩] ∧
      readColumns [3, 1, 15, 42, 65] = .ok [⟨1, [42]⟩, ⟨15, [65]⟩] := by
  have long : readColumns [4, 0x80, 1, 15, 42, 65] = .ok [⟨1, [42]⟩, ⟨15, [65]⟩] := by decide +kernel
  have short : [3, 1, 15, 42, 65] = encode [⟨1, [42]⟩, ⟨15, [65]⟩] := by decide
  have fits : ∀ column ∈ ([⟨1, [42]⟩, ⟨15, [65]⟩] : List Column), column.Fits := by
    refine List.forall_mem_cons.mpr ⟨⟨by decide, rfl, fun large => absurd large (by decide)⟩, ?_⟩
    exact List.forall_mem_singleton.mpr ⟨by decide, rfl, fun _ _ => ⟨"A", by decide⟩⟩
  obtain ⟨accepts, -, sums⟩ :=
    readColumns_inverts (show ([4, 0x80, 1, 15, 42, 65] : List UInt8).length < 0x8000000000000000 by decide)
  obtain ⟨-, returns, -⟩ :=
    readColumns_inverts (show ([3, 1, 15, 42, 65] : List UInt8).length < 0x8000000000000000 by decide)
  exact ⟨⟨(accepts _).mp long, sums.trans (congrArg some long)⟩, short, returns _ fits short⟩

end Record
end SqliteReader
