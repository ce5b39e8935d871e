import SqliteReader.Binary64

/-! Where integers stand among the reals. A greater integer never stands for a lesser real,
and of the integers whose magnitude has 53 bits no two stand for the same one. -/

namespace SqliteReader.Binary64

section rounding

variable {number other divisor : Nat}

theorem divideToEven_mono (below : number ≤ other) : divideToEven number divisor ≤ divideToEven other divisor := by
  have quotients := Nat.div_le_div_right (c := divisor) below
  have first := Nat.div_add_mod number divisor
  have second := Nat.div_add_mod other divisor
  simp only [divideToEven]
  by_cases same : number / divisor = other / divisor
  · rw [same] at first ⊢
    split <;> split <;> omega
  · split <;> split <;> omega

theorem divideToEven_mul (quotient : Nat) (positive : 0 < divisor) :
    divideToEven (quotient * divisor) divisor = quotient := by
  simp [divideToEven, Nat.mul_div_cancel _ positive, positive]

/-- With its leading bit, and with all of them where it is rounded up to the next power of two. -/
def nearestSignificand (magnitude : Nat) : Nat :=
  if magnitude.log2 ≤ 52 then magnitude <<< (52 - magnitude.log2)
  else divideToEven magnitude (1 <<< (magnitude.log2 - 52))

theorem magnitudeBits_eq (nonzero : number ≠ 0) :
    magnitudeBits number = (number.log2 + 1022) * impliedBit + nearestSignificand number := by
  simp [magnitudeBits, nearestSignificand, nonzero]

theorem one_shiftLeft_add (few more : Nat) : 1 <<< (few + more) = (1 <<< few) * (1 <<< more) := by
  rw [Nat.one_shiftLeft, Nat.one_shiftLeft, Nat.one_shiftLeft, Nat.pow_add]

theorem shiftLeft_eq_mul (count : Nat) : number <<< count = number * (1 <<< count) := by
  rw [Nat.shiftLeft_eq, Nat.one_shiftLeft]

theorem one_shiftLeft_pos (count : Nat) : 0 < 1 <<< count := by
  rw [Nat.one_shiftLeft]
  exact Nat.two_pow_pos count

theorem log2_le_self (nonzero : number ≠ 0) : 1 <<< number.log2 ≤ number := by
  rw [Nat.one_shiftLeft]
  exact Nat.log2_self_le nonzero

theorem lt_log2_self (number : Nat) : number < 2 * (1 <<< number.log2) := by
  have below := @Nat.lt_log2_self number
  rwa [Nat.pow_succ, Nat.mul_comm, ← Nat.one_shiftLeft] at below

theorem log2_mono (nonzero : number ≠ 0) (below : number ≤ other) : number.log2 ≤ other.log2 := by
  rw [Nat.le_log2 (by omega)]
  exact Nat.le_trans (Nat.log2_self_le nonzero) below

theorem nearestSignificand_short (short : number.log2 ≤ 52) :
    nearestSignificand number = number * (1 <<< (52 - number.log2)) := by
  rw [nearestSignificand, if_pos short, shiftLeft_eq_mul]

theorem nearestSignificand_long (long : ¬ number.log2 ≤ 52) :
    nearestSignificand number = divideToEven number (1 <<< (number.log2 - 52)) := if_neg long

/-- The leading bit of a number comes to stand where that of a significand belongs. -/
theorem top_aligned (short : number.log2 ≤ 52) : (1 <<< number.log2) * (1 <<< (52 - number.log2)) = impliedBit := by
  rw [← one_shiftLeft_add, Nat.add_sub_cancel' short]
  rfl

theorem le_nearestSignificand (nonzero : number ≠ 0) : impliedBit ≤ nearestSignificand number := by
  have low := log2_le_self nonzero
  by_cases short : number.log2 ≤ 52
  · rw [nearestSignificand_short short, ← top_aligned short]
    exact Nat.mul_le_mul_right _ low
  · have aligned : impliedBit * (1 <<< (number.log2 - 52)) = 1 <<< number.log2 := by
      have split := one_shiftLeft_add 52 (number.log2 - 52)
      rwa [Nat.add_sub_cancel' (by omega), eq_comm] at split
    rw [nearestSignificand_long short, ← divideToEven_mul impliedBit (one_shiftLeft_pos _), aligned]
    exact divideToEven_mono low

theorem nearestSignificand_lt (short : number.log2 ≤ 52) : nearestSignificand number < 2 * impliedBit := by
  rw [nearestSignificand_short short, ← top_aligned short, ← Nat.mul_assoc]
  exact Nat.mul_lt_mul_of_pos_right (lt_log2_self number) (one_shiftLeft_pos _)

theorem nearestSignificand_le (number : Nat) : nearestSignificand number ≤ 2 * impliedBit := by
  by_cases short : number.log2 ≤ 52
  · exact Nat.le_of_lt (nearestSignificand_lt short)
  · have aligned : 2 * impliedBit * (1 <<< (number.log2 - 52)) = 2 * (1 <<< number.log2) := by
      have split := one_shiftLeft_add 52 (number.log2 - 52)
      rw [Nat.add_sub_cancel' (by omega)] at split
      rw [Nat.mul_assoc, split]
      rfl
    rw [nearestSignificand_long short, ← divideToEven_mul (2 * impliedBit) (one_shiftLeft_pos _), aligned]
    exact divideToEven_mono (Nat.le_of_lt (lt_log2_self number))

theorem nearestSignificand_mono (same : number.log2 = other.log2) (below : number ≤ other) :
    nearestSignificand number ≤ nearestSignificand other := by
  by_cases short : number.log2 ≤ 52
  · rw [nearestSignificand_short short, nearestSignificand_short (same ▸ short), same]
    exact Nat.mul_le_mul_right _ below
  · rw [nearestSignificand_long short, nearestSignificand_long (same ▸ short), same]
    exact divideToEven_mono below

theorem magnitudeBits_mono (below : number ≤ other) : magnitudeBits number ≤ magnitudeBits other := by
  by_cases zero : number = 0
  · simp [zero, magnitudeBits]
  · have nonzero : other ≠ 0 := by omega
    rw [magnitudeBits_eq zero, magnitudeBits_eq nonzero]
    rcases Nat.eq_or_lt_of_le (log2_mono zero below) with same | less
    · rw [same]
      exact Nat.add_le_add_left (nearestSignificand_mono same below) _
    · have most := nearestSignificand_le number
      have least := le_nearestSignificand nonzero
      have gap := Nat.mul_le_mul_right impliedBit (Nat.add_le_add_right less 1022)
      simp only [Nat.succ_eq_add_one, Nat.add_mul] at gap ⊢
      omega

/-- Up to 53 bits nothing is lost. -/
theorem magnitudeBits_lt (below : number < other) (exact : number < 2 * impliedBit) :
    magnitudeBits number < magnitudeBits other := by
  have nonzero : other ≠ 0 := by omega
  have least := le_nearestSignificand nonzero
  rw [magnitudeBits_eq nonzero]
  by_cases zero : number = 0
  · have positive : 0 < impliedBit := by decide
    rw [zero]
    exact Nat.lt_of_lt_of_le positive (Nat.le_trans least (Nat.le_add_left _ _))
  · have limit : number < Nat.pow 2 53 := exact
    have short : number.log2 ≤ 52 := Nat.le_of_lt_succ ((Nat.log2_lt zero).mpr limit)
    rw [magnitudeBits_eq zero]
    rcases Nat.eq_or_lt_of_le (log2_mono zero (Nat.le_of_lt below)) with same | less
    · rw [nearestSignificand_short short, nearestSignificand_short (same ▸ short), same]
      exact Nat.add_lt_add_left (Nat.mul_lt_mul_of_pos_right below (one_shiftLeft_pos _)) _
    · have most := nearestSignificand_lt short
      have gap := Nat.mul_le_mul_right impliedBit (Nat.add_le_add_right less 1022)
      simp only [Nat.succ_eq_add_one, Nat.add_mul] at gap ⊢
      omega

end rounding

theorem isNegative_iff {x : Binary64} : x.isNegative = true ↔ signBit ≤ x.bits.toNat := decide_eq_true_iff

theorem ext_bits {x y : Binary64} (same : x.bits.toNat = y.bits.toNat) : x = y := by
  obtain ⟨word⟩ := x
  obtain ⟨other⟩ := y
  exact congrArg Binary64.mk (UInt64.toNat_inj.mp same)

theorem rank_inj {x y : Binary64} (same : x.rank = y.rank) : x = y := by
  apply ext_bits
  simp only [rank, isNegative_iff, signBit] at same
  split at same <;> split at same <;> omega

/-- The greatest magnitude of an integer leaves the bit of the sign alone. -/
theorem magnitudeBits_lt_signBit (number : Int64) : magnitudeBits number.toInt.natAbs < signBit := by
  have room : magnitudeBits number.toInt.natAbs ≤ magnitudeBits 0x8000000000000000 := by
    apply magnitudeBits_mono
    have least := number.le_toInt
    have most := number.toInt_lt
    omega
  exact Nat.lt_of_le_of_lt room (by decide)

theorem bits_ofInt64 (number : Int64) : (ofInt64 number).bits.toNat =
    (if number.toInt < 0 then signBit else 0) + magnitudeBits number.toInt.natAbs := by
  have room := magnitudeBits_lt_signBit number
  simp only [ofInt64, UInt64.toNat_ofNat', signBit] at room ⊢
  split <;> omega

/-- On either side of zero integers stand in the order of their magnitudes. -/
theorem rank_ofInt64 (number : Int64) :
    (ofInt64 number).rank =
      if number.toInt < 0 then -(magnitudeBits number.toInt.natAbs : Int) - 1 else magnitudeBits number.toInt.natAbs := by
  have room := magnitudeBits_lt_signBit number
  have bits := bits_ofInt64 number
  simp only [rank, isNegative_iff, signBit] at room bits ⊢
  split at bits
  next negative =>
    rw [if_pos negative, if_pos (by omega)]
    omega
  next positive =>
    rw [if_neg positive, if_neg (by omega)]
    omega

theorem rank_ofInt64_mono {less more : Int64} (below : less.toInt ≤ more.toInt) :
    (ofInt64 less).rank ≤ (ofInt64 more).rank := by
  rw [rank_ofInt64, rank_ofInt64]
  split
  next negative =>
    split
    next also =>
      have magnitudes := @magnitudeBits_mono more.toInt.natAbs less.toInt.natAbs (by omega)
      omega
    next => omega
  next positive =>
    have also : ¬ more.toInt < 0 := by omega
    have magnitudes := @magnitudeBits_mono less.toInt.natAbs more.toInt.natAbs (by omega)
    rw [if_neg also]
    omega

/-- Two integers that stand for the same real are both beyond 53 bits, on the same side of
zero. -/
theorem beyond_of_ofInt64_eq {less more : Int64} (below : less.toInt < more.toInt) (same : ofInt64 less = ofInt64 more) :
    0x20000000000000 ≤ less.toInt ∨ more.toInt ≤ -0x20000000000000 := by
  have ranks := congrArg rank same
  have exact : 2 * impliedBit = 0x20000000000000 := rfl
  rw [rank_ofInt64, rank_ofInt64] at ranks
  apply Classical.byContradiction
  intro near
  by_cases negative : more.toInt < 0
  · have apart := @magnitudeBits_lt more.toInt.natAbs less.toInt.natAbs (by omega) (by omega)
    rw [if_pos negative, if_pos (Int.lt_trans below negative)] at ranks
    omega
  · rw [if_neg negative] at ranks
    split at ranks
    next => omega
    next positive =>
      have apart := @magnitudeBits_lt less.toInt.natAbs more.toInt.natAbs (by omega) (by omega)
      omega

end SqliteReader.Binary64
