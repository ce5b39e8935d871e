import Mathlib.Data.List.Induction
import SqliteReader.Proofs.VarintForms

/-! Writing and reading of variable-length numbers side by side. A form is read whatever
stands behind it, and not before its last byte; a number has one form of each length at
most, and the form that is written is its shortest. -/

namespace SqliteReader.Varint

variable {bytes other marked : List UInt8} {value : UInt64} {number taken : Nat}

/-- Nothing is read as long as every byte says that more follows, up to the ninth. -/
theorem decodeFrom_eq_none_iff (begun : taken < maxLength) :
    decodeFrom number taken bytes = none ↔ taken + bytes.length < maxLength ∧ ∀ byte ∈ bytes, 0x80 ≤ byte := by
  induction bytes generalizing number taken with
  | nil => simpa [decodeFrom] using begun
  | cons byte bytes ih =>
    rw [decodeFrom, List.length_cons, List.forall_mem_cons]
    split
    next last =>
      have full : ¬ taken + (bytes.length + 1) < maxLength := by omega
      simp [full]
    next more =>
      split
      next unmarked => simp [UInt8.not_le.mpr unmarked]
      next mark =>
        rw [ih (by omega), Nat.add_right_comm taken 1, Nat.add_assoc taken]
        simp [UInt8.not_lt.mp mark]

theorem decode_eq_none_iff : decode bytes = none ↔ bytes.length < maxLength ∧ ∀ byte ∈ bytes, 0x80 ≤ byte := by
  rw [decode, Option.map_eq_none_iff, decodeFrom_eq_none_iff (by decide), Nat.zero_add]

theorem sevens_concat (bytes : List UInt8) (last : UInt8) :
    sevens (bytes ++ [last]) = sevens bytes * 128 + last.toNat % 128 := by
  simp [sevens, sevensFrom]

theorem groups_sevens (marks : ∀ byte ∈ marked, 0x80 ≤ byte) : groups marked.length (sevens marked) = marked := by
  induction marked using List.reverseRecOn with
  | nil => rfl
  | append_singleton marked last ih =>
    rw [List.forall_mem_append, List.forall_mem_singleton, UInt8.le_iff_toNat_le] at marks
    have room := last.toNat_lt
    have low : 128 ≤ last.toNat := marks.2
    have upper : (sevens marked * 128 + last.toNat % 128) / 128 = sevens marked := by omega
    have lower : (sevens marked * 128 + last.toNat % 128) % 128 + 128 = last.toNat := by omega
    rw [List.length_append, List.length_singleton, groups, sevens_concat, upper, lower, ih marks.1, UInt8.ofNat_toNat]

theorem eq_of_sevens_eq {others : List UInt8} (marks : ∀ byte ∈ marked, 0x80 ≤ byte)
    (also : ∀ byte ∈ others, 0x80 ≤ byte) (length : marked.length = others.length)
    (same : sevens marked = sevens others) : marked = others := by
  rw [← groups_sevens marks, ← groups_sevens also, length, same]

theorem Form.unique (form : Form bytes value) (also : Form other value) (length : bytes.length = other.length) :
    bytes = other := by
  cases form with
  | @short marked last _ few marks unmarked same =>
    cases also with
    | @short others final _ _ marked' low again =>
      rw [List.length_append, List.length_append, List.length_singleton, List.length_singleton] at length
      rw [UInt8.lt_iff_toNat_lt] at unmarked low
      have groups : sevens marked = sevens others := by
        have bound : last.toNat < 128 := unmarked
        have limit : final.toNat < 128 := low
        omega
      have ends : last = final := by
        rw [← UInt8.toNat_inj]
        omega
      rw [eq_of_sevens_eq marks marked' (by omega) groups, ends]
    | full eight =>
      rw [List.length_append, List.length_append, List.length_singleton, List.length_singleton] at length
      omega
  | @full marked last _ eight marks same =>
    cases also with
    | short few =>
      rw [List.length_append, List.length_append, List.length_singleton, List.length_singleton] at length
      omega
    | @full others final _ nine marked' again =>
      have bound := last.toNat_lt
      have limit := final.toNat_lt
      have groups : sevens marked = sevens others := by omega
      have ends : last = final := by
        rw [← UInt8.toNat_inj]
        omega
      rw [eq_of_sevens_eq marks marked' (eight.trans nine.symm) groups, ends]

theorem Form.encodedLength_le (form : Form bytes value) : encodedLength value ≤ bytes.length := by
  cases form with
  | @short marked last _ few marks unmarked same =>
    rw [List.length_append, List.length_singleton, encodedLength_le_iff (Nat.succ_pos _) few, same, reach_succ]
    have bits := sevens_lt marked
    have low : last.toNat < 128 := UInt8.lt_iff_toNat_lt.mp unmarked
    omega
  | @full marked last _ eight =>
    have most := Varint.encodedLength_le value
    rw [List.length_append, List.length_singleton, eight]
    exact most

/-- As long as its last byte is missing, a form cannot be read. -/
theorem Form.decode_take (form : Form bytes value) {fewer : Nat} (short : fewer < bytes.length) :
    Varint.decode (bytes.take fewer) = none := by
  obtain ⟨marked, last, rfl, few, marks⟩ :
      ∃ marked last, bytes = marked ++ [last] ∧ marked.length ≤ 8 ∧ ∀ byte ∈ marked, 0x80 ≤ byte := by
    cases form with
    | short few marks => exact ⟨_, _, rfl, Nat.le_of_lt few, marks⟩
    | full eight marks => exact ⟨_, _, rfl, Nat.le_of_eq eight, marks⟩
  rw [List.length_append, List.length_singleton] at short
  rw [List.take_append_of_le_length (by omega), decode_eq_none_iff]
  constructor
  · rw [List.length_take, maxLength]
    omega
  · intro byte member
    exact marks byte (List.mem_of_mem_take member)

/-- What is written is read again, whatever follows, and is as long as was said. What is read
has one to nine bytes and is settled by them, by no fewer; what is written has no more, and
is the same if it has as many. Nothing is read just from fewer than nine bytes that all say
that more follows. -/
theorem writes_shortest_reads_all :
    (∀ value rest, (encode value).length = encodedLength value ∧
      decode (encode value ++ rest) = some (value, encodedLength value)) ∧
    (∀ bytes value taken, decode bytes = some (value, taken) →
      1 ≤ taken ∧ taken ≤ 9 ∧ taken ≤ bytes.length ∧
      (∀ other, other.take taken = bytes.take taken → decode other = some (value, taken)) ∧
      (∀ fewer, fewer < taken → decode (bytes.take fewer) = none) ∧
      encodedLength value ≤ taken ∧ (taken = encodedLength value → encode value = bytes.take taken)) ∧
    ∀ bytes, decode bytes = none ↔ bytes.length < 9 ∧ ∀ byte ∈ bytes, 0x80 ≤ byte := by
  refine ⟨?_, ?_, fun bytes => decode_eq_none_iff⟩
  · intro value rest
    have read := (form_encode value).decode rest
    rw [length_encode] at read
    exact ⟨length_encode value, read⟩
  · intro bytes value taken read
    obtain ⟨positive, inside, most⟩ := decode_taken read
    obtain ⟨form, rest, rfl, rfl, stands⟩ := exists_form_of_decode read
    rw [List.take_left]
    refine ⟨positive, most, inside, ?_, ?_, stands.encodedLength_le, ?_⟩
    · intro other same
      have whole : form ++ other.drop form.length = other :=
        (congrArg (· ++ other.drop form.length) same.symm).trans (List.take_append_drop _ _)
      rw [← whole]
      exact stands.decode _
    · intro fewer short
      rw [List.take_append_of_le_length (Nat.le_of_lt short)]
      exact stands.decode_take short
    · intro shortest
      exact (form_encode value).unique stands ((length_encode value).trans shortest.symm)

/-- The number five in two bytes, of which one would do, and the greatest number in nine. -/
theorem writes_shortest_reads_all_loose :
    decode [0x80, 0x05, 0xff] = some (5, 2) ∧ decode [0x80] = none ∧ encodedLength 5 ≤ 2 ∧
      decode (encode 0xffffffffffffffff) = some (0xffffffffffffffff, 9) := by
  have read : decode [0x80, 0x05, 0xff] = some (5, 2) := by decide
  have greatest : encodedLength 0xffffffffffffffff = 9 := by decide
  obtain ⟨_, _, _, _, unfinished, shortest, _⟩ := writes_shortest_reads_all.2.1 _ _ _ read
  have again := (writes_shortest_reads_all.1 0xffffffffffffffff []).2
  rw [List.append_nil, greatest] at again
  exact ⟨read, unfinished 1 (by decide), shortest, again⟩

end SqliteReader.Varint
