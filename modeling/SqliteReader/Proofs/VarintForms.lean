import SqliteReader.Varint

/-! The forms of a variable-length number, told without a reader: up to eight marked bytes
of seven bits each and a last byte. Reading takes any of them, and takes nothing else;
writing gives the shortest. -/

namespace SqliteReader.Varint

/-- The low seven bits of each byte, behind those of `start`. -/
def sevensFrom (start : Nat) (bytes : List UInt8) : Nat :=
  bytes.foldl (fun value byte => value * 128 + byte.toNat % 128) start

def sevens (bytes : List UInt8) : Nat := sevensFrom 0 bytes

/-- How many numbers there are of `count` groups of seven bits. -/
def reach (count : Nat) : Nat := Nat.pow 128 count

/-- The bytes are a form of the number. The last byte has seven bits and no mark, unless
eight bytes stand before it; then all its bits count. -/
inductive Form : List UInt8 → UInt64 → Prop
  | short {marked : List UInt8} {last : UInt8} {value : UInt64} (few : marked.length < 8)
      (marks : ∀ byte ∈ marked, 0x80 ≤ byte) (unmarked : last < 0x80)
      (same : value.toNat = sevens marked * 128 + last.toNat) : Form (marked ++ [last]) value
  | full {marked : List UInt8} {last : UInt8} {value : UInt64} (eight : marked.length = 8)
      (marks : ∀ byte ∈ marked, 0x80 ≤ byte)
      (same : value.toNat = sevens marked * 256 + last.toNat) : Form (marked ++ [last]) value

@[simp] theorem reach_zero : reach 0 = 1 := rfl

theorem reach_succ (count : Nat) : reach (count + 1) = reach count * 128 := rfl

theorem reach_mono {few many : Nat} (fewer : few ≤ many) : reach few ≤ reach many :=
  Nat.pow_le_pow_right (by decide) fewer

theorem sevensFrom_lt (start : Nat) (bytes : List UInt8) :
    sevensFrom start bytes < (start + 1) * reach bytes.length := by
  induction bytes generalizing start with
  | nil => simp [sevensFrom]
  | cons byte bytes ih =>
    have inner := ih (start * 128 + byte.toNat % 128)
    have bound : (start * 128 + byte.toNat % 128 + 1) * reach bytes.length ≤ (start + 1) * 128 * reach bytes.length :=
      Nat.mul_le_mul_right _ (by omega)
    rw [List.length_cons, reach_succ, Nat.mul_comm (reach _), ← Nat.mul_assoc]
    exact Nat.lt_of_lt_of_le inner bound

theorem sevens_lt (bytes : List UInt8) : sevens bytes < reach bytes.length := by
  simpa [sevens] using sevensFrom_lt 0 bytes

section reading

variable {marked rest bytes : List UInt8} {last : UInt8} {value taken : Nat}

theorem decodeFrom_short (few : taken + marked.length < 8) (marks : ∀ byte ∈ marked, 0x80 ≤ byte)
    (unmarked : last < 0x80) :
    decodeFrom value taken (marked ++ last :: rest) =
      some (sevensFrom value marked * 128 + last.toNat, taken + marked.length + 1) := by
  induction marked generalizing value taken with
  | nil =>
    have room : ¬ taken + 1 = maxLength := by
      simp only [maxLength, List.length_nil] at few ⊢
      omega
    simp [decodeFrom, room, unmarked, sevensFrom]
  | cons byte marked ih =>
    rw [List.length_cons] at few
    have room : ¬ taken + 1 = maxLength := by
      simp only [maxLength]
      omega
    have mark : ¬ byte < 0x80 := UInt8.not_lt.mpr (marks byte List.mem_cons_self)
    rw [List.cons_append, decodeFrom, if_neg room, if_neg mark,
      ih (by omega) fun other member => marks other (List.mem_cons_of_mem _ member)]
    simp only [sevensFrom, List.foldl_cons, List.length_cons]
    rw [Nat.add_right_comm taken 1, Nat.add_assoc taken]

theorem decodeFrom_full (eight : taken + marked.length = 8) (marks : ∀ byte ∈ marked, 0x80 ≤ byte) :
    decodeFrom value taken (marked ++ last :: rest) = some (sevensFrom value marked * 256 + last.toNat, 9) := by
  induction marked generalizing value taken with
  | nil =>
    have room : taken + 1 = maxLength := by
      simp only [maxLength, List.length_nil] at eight ⊢
      omega
    simp [decodeFrom, room, sevensFrom, maxLength]
  | cons byte marked ih =>
    rw [List.length_cons] at eight
    have room : ¬ taken + 1 = maxLength := by
      simp only [maxLength]
      omega
    have mark : ¬ byte < 0x80 := UInt8.not_lt.mpr (marks byte List.mem_cons_self)
    rw [List.cons_append, decodeFrom, if_neg room, if_neg mark,
      ih (by omega) fun other member => marks other (List.mem_cons_of_mem _ member)]
    simp only [sevensFrom, List.foldl_cons]

theorem of_decodeFrom {result total : Nat} (read : decodeFrom value taken bytes = some (result, total))
    (begun : taken ≤ 8) :
    ∃ marked last rest, bytes = marked ++ last :: rest ∧ (∀ byte ∈ marked, 0x80 ≤ byte) ∧
      total = taken + marked.length + 1 ∧
      ((taken + marked.length < 8 ∧ last < 0x80 ∧ result = sevensFrom value marked * 128 + last.toNat) ∨
        (taken + marked.length = 8 ∧ result = sevensFrom value marked * 256 + last.toNat)) := by
  induction bytes generalizing value taken with
  | nil => cases read
  | cons byte bytes ih =>
    rw [decodeFrom] at read
    split at read
    next last =>
      cases read
      refine ⟨[], byte, bytes, rfl, List.forall_mem_nil _, ?_, .inr ⟨?_, rfl⟩⟩ <;>
        simp only [maxLength, List.length_nil] at last ⊢ <;> omega
    next more =>
      have room : taken + 1 ≤ 8 := by
        simp only [maxLength] at more
        omega
      split at read
      next unmarked =>
        cases read
        exact ⟨[], byte, bytes, rfl, List.forall_mem_nil _, rfl, .inl ⟨Nat.lt_of_succ_le room, unmarked, rfl⟩⟩
      next mark =>
        obtain ⟨marked, last, rest, rfl, marks, counted, ending⟩ := ih read room
        refine ⟨byte :: marked, last, rest, rfl, List.forall_mem_cons.mpr ⟨UInt8.not_lt.mp mark, marks⟩, ?_, ?_⟩
        · rw [counted, List.length_cons]
          omega
        · rw [List.length_cons, Nat.add_comm marked.length, ← Nat.add_assoc]
          exact ending

end reading

variable {bytes rest : List UInt8} {value : UInt64} {taken : Nat}

theorem Form.length_pos (form : Form bytes value) : 0 < bytes.length := by
  cases form <;> simp

theorem Form.length_le (form : Form bytes value) : bytes.length ≤ maxLength := by
  cases form with
  | short few =>
    rw [List.length_append, List.length_singleton, maxLength]
    omega
  | full eight => simp [eight, maxLength]

theorem Form.decode (form : Form bytes value) (rest : List UInt8) :
    Varint.decode (bytes ++ rest) = some (value, bytes.length) := by
  cases form with
  | @short marked last _ few marks unmarked same =>
    have number : sevensFrom 0 marked * 128 + last.toNat = value.toNat := same.symm
    rw [List.append_assoc, List.singleton_append, Varint.decode, decodeFrom_short (by simpa using few) marks unmarked,
      number]
    simp
  | @full marked last _ eight marks same =>
    have number : sevensFrom 0 marked * 256 + last.toNat = value.toNat := same.symm
    rw [List.append_assoc, List.singleton_append, Varint.decode, decodeFrom_full (by simpa using eight) marks,
      number]
    simp [eight]

/-- Eight groups of seven bits and eight more are just the bits of a word. -/
theorem toNat_ofNat_sevens {marked : List UInt8} {last : UInt8} {scale : Nat}
    (fits : marked.length < 8 ∧ scale = 128 ∨ marked.length = 8 ∧ scale = 256) :
    (UInt64.ofNat (sevens marked * scale + last.toNat)).toNat = sevens marked * scale + last.toNat := by
  have bits := sevens_lt marked
  have rest := last.toNat_lt
  rw [UInt64.toNat_ofNat']
  rcases fits with ⟨few, rfl⟩ | ⟨eight, rfl⟩
  · have bound : reach marked.length ≤ reach 7 := reach_mono (by omega)
    have seven : reach 7 = 0x2000000000000 := rfl
    omega
  · rw [eight] at bits
    have all : reach 8 = 0x100000000000000 := rfl
    omega

/-- Whatever is read stands at the front in one of the forms of the number read. -/
theorem exists_form_of_decode (read : Varint.decode bytes = some (value, taken)) :
    ∃ form rest, bytes = form ++ rest ∧ form.length = taken ∧ Form form value := by
  obtain ⟨⟨result, total⟩, found, same⟩ := Option.map_eq_some_iff.mp read
  cases same
  obtain ⟨marked, last, rest, rfl, marks, counted, ending⟩ := of_decodeFrom found (Nat.zero_le 8)
  rw [Nat.zero_add] at counted ending
  refine ⟨marked ++ [last], rest, by simp, by simp [counted], ?_⟩
  rcases ending with ⟨few, unmarked, rfl⟩ | ⟨eight, rfl⟩
  · exact .short few marks unmarked (toNat_ofNat_sevens (.inl ⟨few, rfl⟩))
  · exact .full eight marks (toNat_ofNat_sevens (.inr ⟨eight, rfl⟩))

/-! The shortest form. -/

theorem length_groups (count number : Nat) : (groups count number).length = count := by
  induction count generalizing number with
  | zero => rfl
  | succ count ih => rw [groups, List.length_append, ih, List.length_singleton]

theorem marks_groups (count number : Nat) : ∀ byte ∈ groups count number, 0x80 ≤ byte := by
  induction count generalizing number with
  | zero => exact List.forall_mem_nil _
  | succ count ih =>
    intro byte member
    rw [groups, List.mem_append, List.mem_singleton] at member
    rcases member with inner | rfl
    · exact ih _ byte inner
    · rw [UInt8.le_iff_toNat_le, UInt8.toNat_ofNat']
      have low := Nat.mod_lt number (show 0 < 128 by decide)
      simp
      omega

theorem sevens_groups (count number : Nat) : sevens (groups count number) = number % reach count := by
  induction count generalizing number with
  | zero => simp [groups, sevens, sevensFrom, Nat.mod_one]
  | succ count ih =>
    have low := Nat.mod_lt number (show 0 < 128 by decide)
    have last : (UInt8.ofNat (number % 128 + 128)).toNat % 128 = number % 128 := by
      rw [UInt8.toNat_ofNat']
      omega
    have inner : sevensFrom 0 (groups count (number / 128)) = number / 128 % reach count := ih _
    rw [groups, sevens, sevensFrom, List.foldl_append, List.foldl_cons, List.foldl_nil, last, ← sevensFrom, inner,
      reach_succ, Nat.mul_comm (reach count), Nat.mod_mul]
    omega

theorem encodedLength_le_iff {count : Nat} (positive : 0 < count) (few : count ≤ 8) :
    encodedLength value ≤ count ↔ value.toNat < reach count := by
  have bits : Nat.pow 2 (7 * count) = reach count := Nat.pow_mul 2 7 count
  have bound : reach count ≤ reach 8 := reach_mono few
  have all : reach 8 = 0x100000000000000 := rfl
  rw [encodedLength]
  split
  next small =>
    rw [Nat.succ_le_iff, Nat.div_lt_iff_lt_mul (by decide), Nat.mul_comm count]
    by_cases zero : value.toNat = 0
    · have reached : 0 < reach count := Nat.pow_pos (by decide)
      simp only [zero, Nat.log2_zero]
      omega
    · rw [← bits]
      exact Nat.log2_lt zero
  next large =>
    simp only [maxLength]
    omega

theorem encodedLength_pos (value : UInt64) : 0 < encodedLength value := by
  rw [encodedLength]
  split
  · exact Nat.succ_pos _
  · decide

theorem encodedLength_le (value : UInt64) : encodedLength value ≤ maxLength := by
  by_cases small : value.toNat < 0x100000000000000
  · have eight : encodedLength value ≤ 8 := (encodedLength_le_iff (by decide) (Nat.le_refl 8)).mpr small
    exact Nat.le_succ_of_le eight
  · exact Nat.le_of_eq (if_neg small)

theorem encodedLength_mono {less more : UInt64} (below : less.toNat ≤ more.toNat) :
    encodedLength less ≤ encodedLength more := by
  by_cases few : encodedLength more ≤ 8
  · have fits := (encodedLength_le_iff (encodedLength_pos more) few).mp (Nat.le_refl _)
    exact (encodedLength_le_iff (encodedLength_pos more) few).mpr (Nat.lt_of_le_of_lt below fits)
  · have most := encodedLength_le less
    simp only [maxLength] at most
    omega

theorem form_encode (value : UInt64) : Form (encode value) value := by
  have parts := Nat.div_add_mod value.toNat 128
  rw [encode]
  split
  next long =>
    refine .full (length_groups _ _) (marks_groups _ _) ?_
    have room : value.toNat / 256 < reach 8 := by
      have all : reach 8 = 0x100000000000000 := rfl
      have word := value.toNat_lt
      omega
    rw [sevens_groups, Nat.mod_eq_of_lt room, UInt8.toNat_ofNat']
    omega
  next short =>
    have positive := encodedLength_pos value
    have few : encodedLength value - 1 < 8 := by
      have most := encodedLength_le value
      simp only [maxLength] at short most
      omega
    have fits := (encodedLength_le_iff positive (by omega)).mp (Nat.le_refl _)
    have room : value.toNat / 128 < reach (encodedLength value - 1) := by
      rw [← Nat.sub_add_cancel positive, reach_succ] at fits
      exact Nat.div_lt_of_lt_mul (by rwa [Nat.mul_comm] at fits)
    have low : (UInt8.ofNat (value.toNat % 128)).toNat = value.toNat % 128 := by
      rw [UInt8.toNat_ofNat']
      omega
    refine .short (by rwa [length_groups]) (marks_groups _ _) ?_ ?_
    · rw [UInt8.lt_iff_toNat_lt, low]
      exact Nat.mod_lt _ (by decide)
    · rw [sevens_groups, Nat.mod_eq_of_lt room, low]
      omega

theorem length_encode (value : UInt64) : (encode value).length = encodedLength value := by
  rw [encode]
  split
  next long => simp [length_groups, long, maxLength]
  next short =>
    have positive := encodedLength_pos value
    simp only [List.length_append, length_groups, List.length_singleton]
    omega

end SqliteReader.Varint
