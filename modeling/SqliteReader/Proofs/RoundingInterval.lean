import SqliteReader.Proofs.ShortestDecimal

/-! Which integers stand for a real. Those are the ones in its interval, whether the reals around
it are closer together than integers or further apart, and also just below a power of two. -/

namespace SqliteReader.Binary64

variable {x : Binary64} {number : Nat}

/-- At most half a step away, and to an even number also from just there. -/
theorem divideToEven_eq {quotient divisor : Nat} (positive : 0 < divisor)
    (above : 2 * (quotient * divisor) ≤ 2 * number + divisor) (below : 2 * number ≤ 2 * (quotient * divisor) + divisor)
    (even : quotient % 2 = 0 ∨
      2 * (quotient * divisor) < 2 * number + divisor ∧ 2 * number < 2 * (quotient * divisor) + divisor) :
    divideToEven number divisor = quotient := by
  rcases Nat.lt_or_ge number (quotient * divisor) with less | more
  · obtain ⟨before, rfl⟩ : ∃ before, quotient = before + 1 := by
      cases quotient with
      | zero => omega
      | succ before => exact ⟨before, rfl⟩
    rw [Nat.add_mul, Nat.one_mul] at above below even less
    obtain ⟨whole, rest⟩ : number / divisor = before ∧ number % divisor = number - before * divisor := by
      rw [Nat.div_mod_unique positive, Nat.mul_comm divisor]
      omega
    simp only [divideToEven, whole, rest]
    rw [if_neg (by omega)]
  · obtain ⟨whole, rest⟩ : number / divisor = quotient ∧ number % divisor = number - quotient * divisor := by
      rw [Nat.div_mod_unique positive, Nat.mul_comm divisor]
      omega
    simp only [divideToEven, whole, rest]
    rw [if_pos (by omega)]

theorem lt_of_one_shiftLeft_lt {few more : Nat} (less : 1 <<< few < 1 <<< more) : few < more := by
  rw [Nat.one_shiftLeft, Nat.one_shiftLeft] at less
  exact (Nat.pow_lt_pow_iff_right (by decide)).mp less

theorem log2_eq {power : Nat} (low : 1 <<< power ≤ number) (high : number < 2 * (1 <<< power)) : number.log2 = power := by
  have positive := one_shiftLeft_pos power
  rw [Nat.log2_eq_iff (by omega), Nat.pow_succ, Nat.mul_comm _ 2, ← Nat.one_shiftLeft]
  exact ⟨low, high⟩

/-- Where the significand is an integer with zeros behind it, nothing of the integer is lost. -/
theorem magnitudeBits_of_aligned {places : Nat} (least : impliedBit ≤ number * (1 <<< places))
    (most : number * (1 <<< places) < 2 * impliedBit) :
    magnitudeBits number = (1074 - places) * impliedBit + number * (1 <<< places) := by
  have nonzero : number ≠ 0 := by
    rintro rfl
    rw [Nat.zero_mul] at least
    exact absurd least (by decide)
  have shifted := one_shiftLeft_add number.log2 places
  have low := Nat.mul_le_mul_right (1 <<< places) (log2_le_self nonzero)
  have high := Nat.mul_lt_mul_of_pos_right (lt_log2_self number) (one_shiftLeft_pos places)
  rw [← shifted] at low
  rw [Nat.mul_assoc, ← shifted, show 2 = 1 <<< 1 from rfl, ← one_shiftLeft_add] at high
  have below : number.log2 + places < 53 := lt_of_one_shiftLeft_lt (Nat.lt_of_le_of_lt low most)
  have above : 52 < 1 + (number.log2 + places) := lt_of_one_shiftLeft_lt (Nat.lt_of_le_of_lt least high)
  have up : number.log2 + 1022 = 1074 - places := by omega
  have down : 52 - number.log2 = places := by omega
  rw [magnitudeBits_eq nonzero, nearestSignificand_short (by omega), up, down]

theorem magnitudeBits_of_rounded {power : Nat} (long : 52 < power) (low : 1 <<< power ≤ number)
    (high : number < 2 * (1 <<< power)) :
    magnitudeBits number = (power + 1022) * impliedBit + divideToEven number (1 <<< (power - 52)) := by
  have top := log2_eq low high
  have positive := one_shiftLeft_pos power
  rw [magnitudeBits_eq (by omega), nearestSignificand_long (by omega), top]

theorem bounds_of_large (large : 0 ≤ x.scale) (inside : x.interval.contains number = true) :
    ∃ below, (4 * x.significand - below) * (1 <<< x.scale.toNat) ≤ 4 * number ∧
      4 * number ≤ (4 * x.significand + 2) * (1 <<< x.scale.toNat) ∧
      (x.significand % 2 = 0 ∨ (4 * x.significand - below) * (1 <<< x.scale.toNat) < 4 * number ∧
        4 * number < (4 * x.significand + 2) * (1 <<< x.scale.toNat)) ∧
      (below = 1 ∧ x.fraction = 0 ∧ 1 < x.exponent ∨ below = 2 ∧ ¬ (x.fraction = 0 ∧ 1 < x.exponent)) := by
  obtain ⟨below, low, step⟩ := x.interval_low
  have measured : 0 < x.interval.unit := one_shiftLeft_pos _
  have steps := interval_of_large large
  have high : x.interval.high = (4 * x.significand + 2) * (1 <<< (x.scale - 2).toNat) := rfl
  have scaled (quarters : Nat) : quarters * (1 <<< x.scale.toNat) * x.interval.unit =
      4 * (quarters * (1 <<< (x.scale - 2).toNat)) := by
    rw [Nat.mul_assoc, ← steps, Nat.mul_left_comm]
  have closed : x.interval.closed = true ↔ x.significand % 2 = 0 := beq_iff_eq
  refine ⟨below, ?_, ?_, ?_, step⟩
  · apply Nat.le_of_mul_le_mul_right _ measured
    rw [scaled, ← low, Nat.mul_assoc]
    exact Nat.mul_le_mul_left 4 (Interval.low_le_of_contains inside)
  · apply Nat.le_of_mul_le_mul_right _ measured
    rw [scaled, ← high, Nat.mul_assoc]
    exact Nat.mul_le_mul_left 4 (Interval.le_high_of_contains inside)
  · rw [← closed]
    by_cases ends : x.interval.closed = true
    · exact .inl ends
    · right
      rw [Interval.contains, if_neg ends, Bool.and_eq_true, decide_eq_true_eq, decide_eq_true_eq] at inside
      constructor
      · apply Nat.lt_of_mul_lt_mul_right (a := x.interval.unit)
        rw [scaled, ← low, Nat.mul_assoc]
        exact Nat.mul_lt_mul_of_pos_left inside.1 (by decide)
      · apply Nat.lt_of_mul_lt_mul_right (a := x.interval.unit)
        rw [scaled, ← high, Nat.mul_assoc]
        exact Nat.mul_lt_mul_of_pos_left inside.2 (by decide)

theorem magnitudeBits_of_above {power : Nat} (some : power ≠ 0)
    (low : impliedBit * (1 <<< power) ≤ number)
    (above : (4 * x.significand - 2) * (1 <<< power) ≤ 4 * number)
    (under : 4 * number ≤ (4 * x.significand + 2) * (1 <<< power))
    (even : x.significand % 2 = 0 ∨ (4 * x.significand - 2) * (1 <<< power) < 4 * number ∧
      4 * number < (4 * x.significand + 2) * (1 <<< power)) :
    magnitudeBits number = (power + 1074) * impliedBit + x.significand := by
  have aligned : 1 <<< (52 + power) = impliedBit * (1 <<< power) := one_shiftLeft_add 52 power
  have room := Nat.mul_le_mul_right (1 <<< power) (Nat.succ_le_of_lt x.significand_lt)
  rw [Nat.succ_mul, Nat.mul_assoc] at room
  rw [Nat.add_mul, Nat.mul_assoc] at under even
  rw [Nat.sub_mul, Nat.mul_assoc] at above even
  have positive := one_shiftLeft_pos power
  have near : divideToEven number (1 <<< (52 + power - 52)) = x.significand := by
    rw [Nat.add_sub_cancel_left]
    apply divideToEven_eq positive <;> omega
  have long : 52 < 52 + power := by omega
  rw [magnitudeBits_of_rounded long (by omega) (by omega), near]
  simp only [Nat.add_mul]
  omega

/-- Just below a power of two steps are half as long, and what is nearer to it is rounded up. -/
theorem magnitudeBits_of_below {power : Nat} (some : power ≠ 0) (low : (4 * impliedBit - 1) * (1 <<< power) ≤ 4 * number)
    (high : number < impliedBit * (1 <<< power)) :
    magnitudeBits number = (power + 1075) * impliedBit := by
  obtain ⟨half, rfl⟩ : ∃ half, power = half + 1 := ⟨power - 1, by omega⟩
  have aligned : 1 <<< (52 + half) = impliedBit * (1 <<< half) := one_shiftLeft_add 52 half
  have twice : 1 <<< (half + 1) = 2 * (1 <<< half) := by
    rw [Nat.add_comm, one_shiftLeft_add]
    rfl
  have positive := one_shiftLeft_pos half
  have least := Nat.mul_le_mul_right (1 <<< half) (show 1 ≤ impliedBit by decide)
  rw [twice, Nat.mul_left_comm] at low high
  rw [Nat.sub_mul, Nat.one_mul, Nat.mul_assoc] at low
  have some : half ≠ 0 := by
    rintro rfl
    rw [Nat.shiftLeft_zero, Nat.mul_one] at low high
    omega
  have near : divideToEven number (1 <<< (52 + half - 52)) = 2 * impliedBit := by
    rw [Nat.add_sub_cancel_left]
    apply divideToEven_eq positive
    · rw [Nat.mul_assoc]
      omega
    · rw [Nat.mul_assoc]
      omega
    · exact .inl (by decide)
  have long : 52 < 52 + half := by omega
  rw [magnitudeBits_of_rounded long (by omega) (by omega), near]
  simp only [Nat.add_mul]
  omega

theorem magnitudeBits_of_large (large : 0 < x.scale) (inside : x.interval.contains number = true) :
    magnitudeBits number = x.exponent * impliedBit + x.fraction := by
  obtain ⟨below, above, under, even, step⟩ := bounds_of_large (Int.le_of_lt large) inside
  have exponent : x.exponent = x.scale.toNat + 1075 := by
    simp only [scale] at large ⊢
    omega
  have leading : x.significand = impliedBit + x.fraction := by
    rcases x.significand_cases with ⟨least, _⟩ | ⟨_, same⟩
    · omega
    · exact same
  have some : x.scale.toNat ≠ 0 := by omega
  rcases Nat.lt_or_ge number (impliedBit * (1 <<< x.scale.toNat)) with short | long
  · have quarters : 4 * number < 4 * impliedBit * (1 <<< x.scale.toNat) := by
      rw [Nat.mul_assoc]
      omega
    have less := Nat.lt_of_mul_lt_mul_right (Nat.lt_of_le_of_lt above quarters)
    have power : below = 1 ∧ x.fraction = 0 := by omega
    rw [leading, power.1, power.2, Nat.add_zero] at above
    rw [magnitudeBits_of_below some above short, exponent, power.2]
    exact (Nat.add_zero _).symm
  · have wider : (4 * x.significand - 2) * (1 <<< x.scale.toNat) ≤ (4 * x.significand - below) * (1 <<< x.scale.toNat) :=
      Nat.mul_le_mul_right _ (by omega)
    rw [magnitudeBits_of_above some long (by omega) under (by omega), exponent, leading]
    simp only [Nat.add_mul]
    omega

/-- An integer in the interval of a real is rounded to it, whatever the sign. -/
theorem magnitudeBits_of_contains (nonzero : x.significand ≠ 0) (inside : x.interval.contains number = true) :
    magnitudeBits number = x.exponent * impliedBit + x.fraction := by
  have fraction := x.fraction_lt
  rcases Int.lt_or_le 0 x.scale with large | small
  · exact magnitudeBits_of_large large inside
  · have exact := significand_of_contains small inside
    rcases x.significand_cases with ⟨least, same⟩ | ⟨leading, same⟩
    · have far : (-x.scale).toNat = 1074 := by
        simp [scale, least]
      have counted : number ≠ 0 := by
        rintro rfl
        exact nonzero (by rw [← exact, Nat.zero_mul])
      have step := Nat.le_mul_of_pos_left (1 <<< 1074) (Nat.pos_of_ne_zero counted)
      rw [far] at exact
      have less : 1 <<< 1074 < 1 <<< 52 := Nat.lt_of_le_of_lt step (by rw [exact, same]; exact fraction)
      exact absurd (lt_of_one_shiftLeft_lt less) (by decide)
    · have places : 1074 - (-x.scale).toNat = x.exponent - 1 := by
        simp only [scale] at small ⊢
        omega
      have least : impliedBit ≤ number * (1 <<< (-x.scale).toNat) := by omega
      have most : number * (1 <<< (-x.scale).toNat) < 2 * impliedBit := by omega
      have first := Nat.mul_le_mul_right impliedBit (Nat.one_le_iff_ne_zero.mpr leading)
      rw [magnitudeBits_of_aligned least most, exact, same, places, Nat.sub_mul]
      omega

theorem bits_toNat (x : Binary64) :
    x.bits.toNat = (if x.isNegative then signBit else 0) + (x.exponent * impliedBit + x.fraction) := by
  have room := x.bits.toNat_lt
  simp only [isNegative_iff, exponent, fraction, signBit, impliedBit]
  split <;> omega

theorem ofInt64_of_contains {integer : Int64} (nonzero : x.significand ≠ 0)
    (sign : x.isNegative = true ↔ integer.toInt < 0) (inside : x.interval.contains integer.toInt.natAbs = true) :
    ofInt64 integer = x := by
  apply ext_bits
  rw [bits_ofInt64, bits_toNat, magnitudeBits_of_contains nonzero inside]
  simp only [sign]

end SqliteReader.Binary64
