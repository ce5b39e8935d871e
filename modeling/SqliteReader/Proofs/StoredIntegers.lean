import Mathlib.Tactic.Ring
import SqliteReader.Proofs.ColumnContents

/-! Integers in columns. Writing a number in two's complement and reading it agree at every
width, both ways. A word into which the bytes are shifted one after another ends with the
number that they are, as far as the word holds it. -/

namespace SqliteReader

namespace BigEndian

variable {width : Nat}

def shift (word : Int64) (byte : UInt8) : Int64 := word <<< 8 ||| byte.toUInt64.toInt64

/-- The bytes shifted into a word one after another, behind copies of the first bit. -/
def shifted (bytes : List UInt8) : Int64 :=
  bytes.foldl shift (if bytes.head?.any (0x80 ≤ ·) then -1 else 0)

theorem shift_eq (word : Int64) (byte : UInt8) : shift word byte = word * 256 + byte.toUInt64.toInt64 := by
  have eight : (8 : Int64).toBitVec.smod 64 = 8#64 := by decide
  have apart : word.toBitVec <<< 8#64 &&& byte.toBitVec.setWidth 64 = 0#64 := by
    ext place inside
    simp only [BitVec.getElem_and, BitVec.getElem_setWidth, BitVec.getElem_zero, Bool.and_eq_false_imp]
    intro left
    apply BitVec.getLsbD_of_ge
    by_contra low
    simp [Nat.lt_of_not_le low] at left
  apply Int64.toBitVec_inj.mp
  rw [shift, Int64.toBitVec_or, Int64.toBitVec_shiftLeft, Int64.toBitVec_add, Int64.toBitVec_mul, eight,
    UInt64.toBitVec_toInt64, UInt8.toBitVec_toUInt64, ← BitVec.add_eq_or_of_and_eq_zero _ _ apart]
  exact congrArg (· + _) (BitVec.shiftLeft_eq_mul_twoPow word.toBitVec 8)

theorem toInt64_eq_ofInt (byte : UInt8) : byte.toUInt64.toInt64 = .ofInt byte.toNat := by
  apply Int64.toBitVec_inj.mp
  apply BitVec.eq_of_toNat_eq
  simp

theorem foldl_shift (start : Int) (bytes : List UInt8) :
    bytes.foldl shift (.ofInt start) = .ofInt (start * span bytes.length + read bytes) := by
  induction bytes generalizing start with
  | nil => simp
  | cons byte bytes ih =>
    have next : shift (.ofInt start) byte = .ofInt (start * 256 + byte.toNat) := by
      rw [shift_eq, toInt64_eq_ofInt, Int64.ofInt_add, Int64.ofInt_mul]
      rfl
    rw [List.foldl_cons, next, ih]
    congr 1
    rw [read_cons, List.length_cons, span_succ]
    push_cast
    ring

theorem shifted_eq (bytes : List UInt8) : shifted bytes = .ofInt (readSigned bytes) := by
  cases bytes with
  | nil => rfl
  | cons first rest =>
    have seed : (if (first :: rest).head?.any (0x80 ≤ ·) then -1 else 0 : Int64) =
        .ofInt (if first < 0x80 then 0 else -1) := by
      by_cases low : first < 0x80
      · have positive : ¬ 0x80 ≤ first := UInt8.not_le.mpr low
        simp [low, positive]
      · have negative : 0x80 ≤ first := UInt8.not_lt.mp low
        simp [low, negative]
    rw [shifted, seed, foldl_shift, readSigned]
    split
    next => simp
    next => congr 1; omega

theorem span_pos (width : Nat) : 0 < span width := Nat.pow_pos (by decide)

theorem readSigned_emod (bytes : List UInt8) : readSigned bytes % (span bytes.length : Int) = read bytes := by
  have inside := read_lt bytes
  have small : (read bytes : Int) % span bytes.length = read bytes :=
    Int.emod_eq_of_lt (Int.natCast_nonneg _) (Int.ofNat_lt.mpr inside)
  cases bytes with
  | nil => rfl
  | cons first rest =>
    rw [readSigned]
    split
    next => exact small
    next => rw [Int.sub_emod_right, small]

/-- In each range as long as the modulus a remainder occurs once. -/
theorem eq_of_emod_eq {modulus number other : Int} (same : number % modulus = other % modulus)
    (least : -modulus ≤ 2 * number) (most : 2 * number < modulus) (low : -modulus ≤ 2 * other)
    (high : 2 * other < modulus) : number = other := by
  have remainder {value : Int} (low : -modulus ≤ 2 * value) (high : 2 * value < modulus) :
      value % modulus = if 0 ≤ value then value else value + modulus := by
    split
    next positive => exact Int.emod_eq_of_lt positive (by omega)
    next negative =>
      rw [← Int.add_emod_right]
      exact Int.emod_eq_of_lt (by omega) (by omega)
  rw [remainder least most, remainder low high] at same
  split at same <;> split at same <;> omega

theorem readSigned_writeSigned {number : Int} (least : -(span width : Int) ≤ 2 * number)
    (most : 2 * number < span width) : readSigned (writeSigned width number) = number := by
  have bounds := readSigned_bounds (writeSigned width number)
  have remains := readSigned_emod (writeSigned width number)
  have positive : (0 : Int) < span width := Int.ofNat_lt.mpr (span_pos width)
  have inside := Int.emod_nonneg number (Int.ne_of_gt positive)
  have below := Int.emod_lt_of_pos number positive
  simp only [writeSigned, length_write, read_write] at bounds remains ⊢
  refine eq_of_emod_eq ?_ bounds.1 bounds.2 least most
  rw [remains, Nat.mod_eq_of_lt (by omega), Int.toNat_of_nonneg inside]

theorem writeSigned_readSigned (bytes : List UInt8) : writeSigned bytes.length (readSigned bytes) = bytes := by
  rw [writeSigned, readSigned_emod, Int.toNat_natCast, write_read]

/-- The bytes are the number in two's complement, and they are enough for it. -/
structure Complement (bytes : List UInt8) (number : Int) : Prop where
  least : -(span bytes.length : Int) ≤ 2 * number
  most : 2 * number < span bytes.length
  written : writeSigned bytes.length number = bytes

theorem complement_readSigned (bytes : List UInt8) : Complement bytes (readSigned bytes) :=
  ⟨(readSigned_bounds bytes).1, (readSigned_bounds bytes).2, writeSigned_readSigned bytes⟩

end BigEndian

namespace Column

/-- The serial types of stored integers and how many bytes each of them has. -/
def storedWidths : List (Nat × Nat) := [(1, 1), (2, 2), (3, 3), (4, 4), (5, 6), (6, 8)]

variable {serialType : UInt64} {width : Nat}

theorem storedWidths_bounds (stored : (serialType.toNat, width) ∈ storedWidths) :
    1 ≤ serialType.toNat ∧ serialType.toNat ≤ 6 ∧ width ≤ 8 := by
  simp only [storedWidths, List.mem_cons, Prod.mk.injEq, List.not_mem_nil, or_false] at stored
  omega

theorem contentSize_of_stored (stored : (serialType.toNat, width) ∈ storedWidths) :
    contentSize serialType = .ok width := by
  simp only [storedWidths, List.mem_cons, Prod.mk.injEq, List.not_mem_nil, or_false] at stored
  unfold contentSize
  rcases stored with ⟨type, rfl⟩ | ⟨type, rfl⟩ | ⟨type, rfl⟩ | ⟨type, rfl⟩ | ⟨type, rfl⟩ | ⟨type, rfl⟩
  all_goals
    rw [type]
    rfl

/-- What a column of stored integers holds, both ways it can be asked for. -/
def Holds (column : Column) (number : Int64) : Prop := column.value = .integer number ∧ column.integer? = some number

theorem holds_stored (column : Column) (least : 1 ≤ column.serialType.toNat) (most : column.serialType.toNat ≤ 6) :
    column.Holds column.storedInteger :=
  ⟨value_of_stored least most, if_pos ⟨least, most⟩⟩

theorem holds_written {number : Int64} (stored : (serialType.toNat, width) ∈ storedWidths)
    (least : -(BigEndian.span width : Int) ≤ 2 * number.toInt) (most : 2 * number.toInt < BigEndian.span width) :
    Holds ⟨serialType, BigEndian.writeSigned width number.toInt⟩ number := by
  obtain ⟨first, last, short⟩ := storedWidths_bounds stored
  have holds := holds_stored ⟨serialType, BigEndian.writeSigned width number.toInt⟩ first last
  have few : (BigEndian.writeSigned width number.toInt).length ≤ 8 := by rwa [BigEndian.writeSigned, BigEndian.length_write]
  have same : storedInteger ⟨serialType, BigEndian.writeSigned width number.toInt⟩ = number := by
    apply Int64.toInt_inj.mp
    rw [toInt_storedInteger few]
    exact BigEndian.readSigned_writeSigned least most
  rwa [same] at holds

/-- Stored integers come back from their bytes, and the bytes from them, at each of the widths
that columns have. Any other number of bytes is read as the number that they are in two's
complement, which wraps where it does not fit; no bytes are zero. Shifting the bytes into a
word gives the same. -/
theorem stored_integers_round_trip (stored : (serialType.toNat, width) ∈ storedWidths) :
    contentSize serialType = .ok width ∧
      (∀ number : Int64, -(BigEndian.span width : Int) ≤ 2 * number.toInt → 2 * number.toInt < BigEndian.span width →
        Holds ⟨serialType, BigEndian.writeSigned width number.toInt⟩ number) ∧
      (∀ content : List UInt8, content.length = width → ∃ number, Holds ⟨serialType, content⟩ number ∧
        BigEndian.writeSigned width number.toInt = content) ∧
      Holds ⟨serialType, []⟩ 0 ∧
      ∀ content : List UInt8, ∃ number, Holds ⟨serialType, content⟩ number ∧ number = BigEndian.shifted content ∧
        BigEndian.Complement content (BigEndian.readSigned content) ∧
        number.toInt = (BigEndian.readSigned content).bmod UInt64.size := by
  obtain ⟨first, last, short⟩ := storedWidths_bounds stored
  refine ⟨contentSize_of_stored stored, fun _ => holds_written stored, ?_, ?_, ?_⟩
  · rintro content rfl
    refine ⟨_, holds_stored ⟨serialType, content⟩ first last, ?_⟩
    rw [toInt_storedInteger short]
    exact BigEndian.writeSigned_readSigned content
  · exact holds_stored ⟨serialType, []⟩ first last
  · intro content
    refine ⟨_, holds_stored ⟨serialType, content⟩ first last, ?_, BigEndian.complement_readSigned content, ?_⟩
    · exact (BigEndian.shifted_eq content).symm
    · exact Int64.toInt_ofInt

/-- The three bytes of -2, and nine bytes of which a word holds the last eight. -/
theorem stored_integers_round_trip_three :
    (3, 3) ∈ storedWidths ∧ Holds ⟨3, [255, 255, 254]⟩ (-2) ∧
      ∃ number, Holds ⟨3, [1, 0, 0, 0, 0, 0, 0, 0, 5]⟩ number ∧ number.toInt = 5 := by
  have stored : ((3 : UInt64).toNat, 3) ∈ storedWidths := by decide
  obtain ⟨_, written, _, _, read⟩ := stored_integers_round_trip stored
  have bytes : BigEndian.writeSigned 3 (-2 : Int64).toInt = [255, 255, 254] := by decide
  refine ⟨stored, bytes ▸ written (-2) (by decide) (by decide), ?_⟩
  obtain ⟨number, holds, _, _, wrapped⟩ := read [1, 0, 0, 0, 0, 0, 0, 0, 5]
  exact ⟨number, holds, wrapped.trans (by decide)⟩

end Column
end SqliteReader
