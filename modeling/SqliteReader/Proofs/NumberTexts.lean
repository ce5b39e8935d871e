import Mathlib.Data.List.TakeWhile
import SqliteReader.Proofs.RoundingInterval
import SqliteReader.Proofs.TextCasts

/-! Numbers as texts. The text of an integer has no point, and that of a real has one, with a
fraction behind it that may be zero, as long as it is below ten to the fifteenth. A whole real
from there on is written like an integer, which is one that has this real nearest to it. -/

namespace SqliteReader

theorem toList_repr (number : Nat) : number.repr.toList = Nat.toDigits 10 number := by
  rw [Nat.repr_eq_ofList_toDigits, String.toList_ofList]

/-- All that is written is digits. -/
theorem not_mem_repr {letter : Char} (other : letter.isDigit = false) (number : Nat) : letter ∉ number.repr.toList := by
  rw [toList_repr]
  intro listed
  exact Bool.false_ne_true (other.symm.trans (Nat.isDigit_of_mem_toDigits (by decide) (by decide) listed))

theorem point_not_mem_repr (number : Int) : '.' ∉ number.repr.toList := by
  rw [Int.repr_eq_if]
  split
  · exact not_mem_repr rfl _
  · rw [String.toList_append, List.mem_append, not_or]
    exact ⟨by decide, not_mem_repr rfl _⟩

theorem repr_injective : Function.Injective Nat.repr := by
  intro first second same
  have digits : Nat.toDigits 10 first = Nat.toDigits 10 second := by rw [← toList_repr, same, toList_repr]
  rw [← @Nat.ofDigitChars_ten_toDigits first, digits, Nat.ofDigitChars_ten_toDigits]

theorem signed_repr_injective : Function.Injective Int.repr := by
  have apart (first second : Nat) : first.repr ≠ "-" ++ second.repr := by
    intro same
    have sign : '-' ∈ first.repr.toList := by simp [same]
    exact not_mem_repr rfl _ sign
  intro first second same
  rw [Int.repr_eq_if, Int.repr_eq_if] at same
  split at same <;> split at same
  · have magnitudes := repr_injective same
    omega
  · exact absurd same (apart _ _)
  · exact absurd same.symm (apart _ _)
  · have magnitudes := repr_injective ((String.append_right_inj _).mp same)
    omega

namespace Decimal

theorem exists_digit {number : Nat} (nonzero : number ≠ 0) : ∃ digit ∈ Nat.toDigits 10 number, digit ≠ '0' := by
  apply Classical.byContradiction
  intro zeros
  have all : ∀ digit ∈ Nat.toDigits 10 number, digit = '0' := by
    intro digit listed
    apply Classical.byContradiction
    exact fun other => zeros ⟨digit, listed, other⟩
  have value := @Nat.ofDigitChars_ten_toDigits number
  rw [List.eq_replicate_iff.mpr ⟨rfl, all⟩, Nat.ofDigitChars_replicate_zero] at value
  exact nonzero value.symm

theorem text_of_whole {number : Decimal} (whole : 0 ≤ number.exponent) :
    number.text = (number.digits * Nat.pow 10 number.exponent.toNat).repr := if_pos whole

theorem point_mem_text {number : Decimal} (small : number.exponent < 0)
    (rest : number.digits % Nat.pow 10 (-number.exponent).toNat ≠ 0) : '.' ∈ number.text.toList := by
  obtain ⟨digit, listed, other⟩ := exists_digit rest
  rw [text, if_neg (Int.not_le.mpr small)]
  dsimp only
  rw [if_neg]
  · simp
  · simp only [List.isEmpty_iff, List.reverse_eq_nil_iff, List.dropWhile_eq_nil_iff]
    intro zeros
    have zero := zeros digit (List.mem_reverse.mpr (List.mem_append_right _ listed))
    exact other (beq_iff_eq.mp zero)

end Decimal

namespace Binary64

variable {x : Binary64}

/-- The integer that a whole real is shown as. -/
def shownWhole (x : Binary64) : Int :=
  let magnitude := x.shortest.digits * Nat.pow 10 x.shortest.exponent.toNat
  if x.isNegative then -magnitude else magnitude

theorem not_nan_of_finite (finite : x.isFinite = true) : x.isNaN = false := by
  have small : x.exponent < 2047 := of_decide_eq_true finite
  have other : (x.exponent == 2047) = false := beq_eq_false_iff_ne.mpr (Nat.ne_of_lt small)
  rw [isNaN, other, Bool.false_and]

theorem text_of_finite (finite : x.isFinite = true) (nonzero : x.significand ≠ 0) :
    x.text = (if x.isNegative then "-" else "") ++ x.shortest.text := by
  simp [text, not_nan_of_finite finite, finite, nonzero]

theorem shownWhole_inside (whole : x.isWhole = true) (nonzero : x.significand ≠ 0) :
    x.interval.contains x.shownWhole.natAbs = true ∧ (x.isNegative = true ↔ x.shownWhole < 0) := by
  obtain ⟨_, inside⟩ := shortest_of_whole whole nonzero
  have counted := (interval_sound nonzero).pos_of_contains inside
  unfold shownWhole
  dsimp only
  split
  next negative =>
    rw [Int.natAbs_neg, Int.natAbs_natCast, iff_true_left negative]
    exact ⟨inside, by omega⟩
  next positive =>
    rw [Int.natAbs_natCast, iff_false_left positive]
    exact ⟨inside, by omega⟩

theorem text_of_whole (whole : x.isWhole = true) (nonzero : x.significand ≠ 0) : x.text = x.shownWhole.repr := by
  have finite : x.isFinite = true := (Bool.and_eq_true_iff.mp whole).1
  obtain ⟨large, inside⟩ := shortest_of_whole whole nonzero
  have counted := (interval_sound nonzero).pos_of_contains inside
  rw [text_of_finite finite nonzero, Decimal.text_of_whole large, shownWhole, Int.repr_eq_if]
  split
  next negative => rw [if_neg (by omega), Int.neg_neg, Int.toNat_natCast]
  next positive => rw [if_pos (by omega), Int.toNat_natCast, String.empty_append]

/-- Whole and so large that no place is kept behind the point. -/
def Unpointed (x : Binary64) : Prop := x.isWhole = true ∧ 1000000000000000 ≤ x.wholePart

theorem wholePart_of_zero (zero : x.significand = 0) : x.wholePart = 0 := by
  rw [wholePart, zero, Nat.zero_shiftLeft, Nat.zero_shiftRight, ite_self]

theorem Unpointed.nonzero (unpointed : x.Unpointed) : x.significand ≠ 0 := by
  intro zero
  have large := unpointed.2
  rw [wholePart_of_zero zero] at large
  exact absurd large (by decide)

theorem Unpointed.castText (unpointed : x.Unpointed) : x.castText = x.shownWhole.repr := by
  have large : ¬ x.wholePart < 1000000000000000 := Nat.not_lt.mpr unpointed.2
  rw [Binary64.castText, unpointed.1, decide_eq_false large, ← text_of_whole unpointed.1 unpointed.nonzero]
  rfl

theorem point_mem_castText_iff (finite : x.isFinite = true) : '.' ∈ x.castText.toList ↔ ¬ x.Unpointed := by
  constructor
  · intro point unpointed
    rw [unpointed.castText] at point
    exact point_not_mem_repr _ point
  · intro pointed
    by_cases whole : x.isWhole = true
    · have small : x.wholePart < 1000000000000000 := Nat.not_le.mp fun large => pointed ⟨whole, large⟩
      simp [Binary64.castText, whole, small]
    · have nonzero : x.significand ≠ 0 := by
        intro zero
        exact whole (by simp [isWhole, finite, zero])
      obtain ⟨small, rest⟩ := shortest_of_fraction finite whole nonzero
      have point := Decimal.point_mem_text small rest
      simp [Binary64.castText, whole, text_of_finite finite nonzero, point]

theorem ofInt64_shownWhole {number : Int64} (whole : x.isWhole = true) (nonzero : x.significand ≠ 0)
    (shown : number.toInt = x.shownWhole) : ofInt64 number = x := by
  obtain ⟨inside, sign⟩ := shownWhole_inside whole nonzero
  rw [← shown] at inside sign
  exact ofInt64_of_contains nonzero sign inside

/-- An integer of up to 53 bits is the significand of its real but for zeros at the end. -/
theorem ofInt64_exact {number : Int64} (nonzero : number.toInt ≠ 0) (short : number.toInt.natAbs < 2 * impliedBit) :
    (ofInt64 number).isFinite = true ∧ (ofInt64 number).scale ≤ 0 ∧
      number.toInt.natAbs * (1 <<< (-(ofInt64 number).scale).toNat) = (ofInt64 number).significand ∧
      ((ofInt64 number).isNegative = true ↔ number.toInt < 0) := by
  have counted : number.toInt.natAbs ≠ 0 := by omega
  have few : number.toInt.natAbs.log2 ≤ 52 := Nat.le_of_lt_succ ((Nat.log2_lt counted).mpr short)
  have least := le_nearestSignificand counted
  have most := nearestSignificand_lt few
  have bits := bits_ofInt64 number
  have room := magnitudeBits_lt_signBit number
  have aligned := nearestSignificand_short few
  rw [magnitudeBits_eq counted] at bits room
  have fields : (ofInt64 number).exponent = number.toInt.natAbs.log2 + 1023 ∧
      (ofInt64 number).fraction = nearestSignificand number.toInt.natAbs - impliedBit ∧
      ((ofInt64 number).isNegative = true ↔ number.toInt < 0) := by
    simp only [isNegative_iff, exponent, fraction, impliedBit, signBit] at least most bits room ⊢
    split at bits <;> omega
  obtain ⟨exponent, fraction, sign⟩ := fields
  refine ⟨?_, ?_, ?_, sign⟩
  · rw [isFinite, exponent]
    exact decide_eq_true (by omega)
  · simp only [scale, exponent]
    omega
  · have places : (-(ofInt64 number).scale).toNat = 52 - number.toInt.natAbs.log2 := by
      simp only [scale, exponent]
      omega
    rw [places, ← aligned, significand, exponent, fraction, if_neg (by omega)]
    omega

/-- From ten to the fifteenth up to 53 bits the real of an integer is shown as that integer. -/
theorem ofInt64_unpointed {number : Int64} (large : 1000000000000000 ≤ number.toInt.natAbs)
    (short : number.toInt.natAbs < 0x20000000000000) :
    (ofInt64 number).Unpointed ∧ (ofInt64 number).shownWhole = number.toInt := by
  obtain ⟨finite, small, exact, sign⟩ := ofInt64_exact (by omega) short
  have nonzero : (ofInt64 number).significand ≠ 0 := by
    rw [← exact]
    exact Nat.mul_ne_zero (by omega) (Nat.ne_of_gt (one_shiftLeft_pos _))
  have whole := (isWhole_iff_of_small finite small).mpr ⟨_, exact⟩
  have part := wholePart_of_small small exact
  obtain ⟨inside, side⟩ := shownWhole_inside whole nonzero
  have shown := wholePart_of_small small (significand_of_contains small inside)
  refine ⟨⟨whole, part ▸ large⟩, ?_⟩
  rw [side] at sign
  omega

end Binary64

namespace Registers

/-- An integer and a finite real are cast to the same text just if the real is whole, at least
ten to the fifteenth on either side of zero, and shown as this integer, which then has this real
nearest to it. Up to 53 bits that is every integer so far from zero with its own real. The text
of the integer has no point, and that of the real has one in all other cases. -/
theorem number_texts_agree {registers others : Registers} {index place : Nat} {number : Int64} {real : Binary64}
    (integer : registers.get index = .integer number) (other : others.get place = .real real)
    (finite : real.isFinite = true) :
    ∃ written shown words letters,
      registers.cast index .text = .ok written ∧ written.get index = .text words ∧
      others.cast place .text = .ok shown ∧ shown.get place = .text letters ∧
      '.' ∉ words.toList ∧ ('.' ∈ letters.toList ↔ ¬ real.Unpointed) ∧
      (words = letters ↔ real.Unpointed ∧ number.toInt = real.shownWhole) ∧
      (words = letters → Binary64.ofInt64 number = real) ∧
      (1000000000000000 ≤ number.toInt.natAbs → number.toInt.natAbs < 0x20000000000000 →
        Binary64.ofInt64 number = real → words = letters) := by
  have same : number.toInt.repr = real.castText ↔ real.Unpointed ∧ number.toInt = real.shownWhole := by
    constructor
    · intro same
      have unpointed : real.Unpointed := by
        apply Classical.byContradiction
        intro pointed
        have point := (Binary64.point_mem_castText_iff finite).mpr pointed
        rw [← same] at point
        exact point_not_mem_repr _ point
      rw [unpointed.castText] at same
      exact ⟨unpointed, signed_repr_injective same⟩
    · rintro ⟨unpointed, shown⟩
      rw [unpointed.castText, shown]
  refine ⟨_, _, _, _, cast_of_get integer (by simp) rfl, get_set_same _ _ _, cast_of_get other (by simp) rfl,
    get_set_same _ _ _, point_not_mem_repr _, Binary64.point_mem_castText_iff finite, same, ?_, ?_⟩
  · intro agree
    obtain ⟨unpointed, shown⟩ := same.mp agree
    exact Binary64.ofInt64_shownWhole unpointed.1 unpointed.nonzero shown
  · rintro large short rfl
    obtain ⟨unpointed, shown⟩ := Binary64.ofInt64_unpointed large short
    exact same.mpr ⟨unpointed, shown.symm⟩

/-- Two to the sixtieth is shown with zeros at the end, and so is the integer of these digits. -/
theorem number_texts_agree_rounded :
    ∃ written shown words, (({} : Registers).set 0 (.integer 1152921504606847000)).cast 0 .text = .ok written ∧
      written.get 0 = .text words ∧ (({} : Registers).set 1 (.real ⟨0x43B0000000000000⟩)).cast 1 .text = .ok shown ∧
      shown.get 1 = .text words ∧ Binary64.ofInt64 1152921504606847000 = ⟨0x43B0000000000000⟩ := by
  obtain ⟨written, shown, words, letters, cast, held, castReal, shows, _, _, same, near, _⟩ :=
    number_texts_agree (get_set_same ({} : Registers) 0 (.integer 1152921504606847000))
      (get_set_same ({} : Registers) 1 (.real ⟨0x43B0000000000000⟩)) (by decide)
  have agree : words = letters := same.mpr ⟨⟨by decide +kernel, by decide +kernel⟩, by decide +kernel⟩
  exact ⟨written, shown, words, cast, held, castReal, agree ▸ shows, near agree⟩

/-- Ten to the fifteenth is one text, whether it was an integer or a real. -/
theorem number_texts_not_apart :
    ¬ ∀ (registers : Registers) (index place : Nat) (number : Int64) (real : Binary64),
      registers.get index = .integer number → registers.get place = .real real → real.isFinite = true →
      ∀ written shown, registers.cast index .text = .ok written → registers.cast place .text = .ok shown →
        written.get index ≠ shown.get place := by
  intro apart
  have integer : ((({} : Registers).set 0 (.integer 1000000000000000)).set 1 (.real ⟨0x430C6BF526340000⟩)).get 0 =
      .integer 1000000000000000 := by decide
  have real : ((({} : Registers).set 0 (.integer 1000000000000000)).set 1 (.real ⟨0x430C6BF526340000⟩)).get 1 =
      .real ⟨0x430C6BF526340000⟩ := by decide
  refine apart _ 0 1 _ _ integer real (by decide) _ _ (cast_of_get integer (by simp) rfl)
    (cast_of_get real (by simp) rfl) ?_
  rw [get_set_same, get_set_same]
  decide +kernel

end Registers
end SqliteReader
