import SqliteReader.Binary64

/-! The shortest decimal that reads back as a given number. The reals that round to it
form an interval around it, with its ends exactly if the significand is even. On the
grid of decimals with one digit, then two, and so on, the two neighbours of the number
are tried; the first grid with a neighbour inside gives the digits. Of two neighbours
inside, the nearer is taken, and of two equally near the larger. -/

namespace SqliteReader

/-- `digits * 10 ^ exponent`. -/
structure Decimal where
  digits : Nat
  exponent : Int
  deriving DecidableEq, Repr

namespace Binary64

/-- The interval from `low` to `high` around `value`, all over `unit`. -/
structure Interval where
  low : Nat
  value : Nat
  high : Nat
  unit : Nat
  closed : Bool

/-- Half a step of the significand to either side, in quarters of one. Below a power of
two the steps are half as long, except at the smallest exponent. -/
def interval (x : Binary64) : Interval :=
  let quarters := 4 * x.significand
  let below := if x.fraction = 0 ∧ 1 < x.exponent then 1 else 2
  let grown := 1 <<< (x.scale - 2).toNat
  { low := (quarters - below) * grown
    value := quarters * grown
    high := (quarters + 2) * grown
    unit := 1 <<< (2 - x.scale).toNat
    closed := x.significand % 2 == 0 }

namespace Interval

def countedIn (within : Interval) (exponent : Int) : Interval :=
  let grown := Nat.pow 10 (-exponent).toNat
  { low := within.low * grown
    value := within.value * grown
    high := within.high * grown
    unit := within.unit * Nat.pow 10 exponent.toNat
    closed := within.closed }

def contains (within : Interval) (number : Nat) : Bool :=
  let scaled := number * within.unit
  if within.closed then within.low ≤ scaled && scaled ≤ within.high
  else within.low < scaled && scaled < within.high

/-- The whole number inside that is nearest to the value, among its two neighbours. -/
def nearest? (within : Interval) : Option Nat :=
  let below := within.value / within.unit
  let above := below + 1
  let nearerAbove := within.unit ≤ 2 * (within.value % within.unit)
  if within.contains above && (nearerAbove || !within.contains below) then some above
  else if within.contains below then some below
  else none

/-- The exponent of the first digit: `10 ^ leading ≤ value < 10 ^ (leading + 1)`. -/
def leading (within : Interval) : Int :=
  if within.unit ≤ within.value then
    ((Nat.toDigits 10 (within.value / within.unit)).length : Int) - 1
  else
    -((Nat.toDigits 10 ((within.unit - 1) / within.value)).length : Int)

end Interval

/-- For finite numbers other than zero; seventeen digits always suffice. -/
def shortest (x : Binary64) : Decimal :=
  let within := x.interval
  let leading := within.leading
  let found := (List.range 17).findSome? fun (place : Nat) =>
    let exponent := leading - place
    (within.countedIn exponent).nearest?.map fun digits => { digits, exponent : Decimal }
  found.getD ⟨0, 0⟩

end Binary64
end SqliteReader
