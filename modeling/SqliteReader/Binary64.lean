/-! Real numbers as their 64 bits: a sign, eleven bits of exponent, 52 bits of fraction.
Every bit pattern is a value of its own, so that not-a-number payloads and the sign of
zero are kept, and every operation is exact arithmetic on whole numbers. -/

namespace SqliteReader

structure Binary64 where
  bits : UInt64
  deriving DecidableEq, Repr

namespace Binary64

def signBit : Nat := 0x8000000000000000

/-- One more than the greatest fraction: the leading bit of a significand, which is not
written. -/
def impliedBit : Nat := 0x10000000000000

def isNegative (x : Binary64) : Bool := signBit ≤ x.bits.toNat

def exponent (x : Binary64) : Nat := x.bits.toNat / impliedBit % 2048

def fraction (x : Binary64) : Nat := x.bits.toNat % impliedBit

def isFinite (x : Binary64) : Bool := x.exponent < 2047

def isNaN (x : Binary64) : Bool := x.exponent == 2047 && x.fraction != 0

/-- The magnitude of a finite number is `significand * 2 ^ scale`. -/
def significand (x : Binary64) : Nat := if x.exponent = 0 then x.fraction else impliedBit + x.fraction

def scale (x : Binary64) : Int := (max x.exponent 1 : Nat) - 1075

def wholePart (x : Binary64) : Nat :=
  if 0 ≤ x.scale then x.significand <<< x.scale.toNat else x.significand >>> (-x.scale).toNat

def isWhole (x : Binary64) : Bool :=
  x.isFinite && (0 ≤ x.scale || x.significand % (1 <<< (-x.scale).toNat) == 0)

/-- Position in the order of all bit patterns: negative before positive, by magnitude,
zero below its positive twin, and not-a-number outermost on the side of its sign. -/
def rank (x : Binary64) : Int :=
  if x.isNegative then -(x.bits.toNat - signBit : Int) - 1 else x.bits.toNat

def compare (x y : Binary64) : Ordering := Ord.compare x.rank y.rank

/-- Nearest whole quotient; a half goes to the even neighbour. -/
def divideToEven (number divisor : Nat) : Nat :=
  let quotient := number / divisor
  let twice := 2 * (number % divisor)
  if twice < divisor ∨ (twice = divisor ∧ quotient % 2 = 0) then quotient else quotient + 1

/-- The bits of the number nearest to a magnitude below `2 ^ 1023`. A significand
rounded up to `2 ^ 53` carries into the exponent, which is its right value. -/
def magnitudeBits (magnitude : Nat) : Nat :=
  if magnitude = 0 then 0
  else
    let top := magnitude.log2
    let significand :=
      if top ≤ 52 then magnitude <<< (52 - top) else divideToEven magnitude (1 <<< (top - 52))
    (top + 1022) * impliedBit + significand

def ofInt64 (number : Int64) : Binary64 :=
  let sign := if number.toInt < 0 then signBit else 0
  ⟨UInt64.ofNat (sign + magnitudeBits number.toInt.natAbs)⟩

/-- The fraction is dropped, what is out of range goes to the nearer end, and
not-a-number becomes zero. -/
def toInt64 (x : Binary64) : Int64 :=
  if x.isNaN then 0
  else if x.isFinite then
    let whole : Int := if x.isNegative then -(x.wholePart : Int) else x.wholePart
    Int64.ofInt (max (-signBit) (min whole (signBit - 1)))
  else if x.isNegative then Int64.minValue else Int64.maxValue

end Binary64
end SqliteReader
