import SqliteReader.Binary64.Shortest

/-! Real numbers as text, always positional: no exponent however large or small, a point
only before a fraction, and the sign of zero shown. -/

namespace SqliteReader

def Decimal.text (number : Decimal) : String :=
  if 0 ≤ number.exponent then (number.digits * Nat.pow 10 number.exponent.toNat).repr
  else
    let places := (-number.exponent).toNat
    let whole := (number.digits / Nat.pow 10 places).repr
    let digits := Nat.toDigits 10 (number.digits % Nat.pow 10 places)
    let padded := List.replicate (places - digits.length) '0' ++ digits
    let fraction := (padded.reverse.dropWhile (· == '0')).reverse
    if fraction.isEmpty then whole else whole ++ "." ++ String.ofList fraction

namespace Binary64

def text (x : Binary64) : String :=
  if x.isNaN then "NaN"
  else
    let sign := if x.isNegative then "-" else ""
    if !x.isFinite then sign ++ "inf"
    else if x.significand = 0 then sign ++ "0"
    else sign ++ x.shortest.text

/-- The text of a real number as a text value. Whole numbers below `10 ^ 15` keep a
place after the point, which tells them from integers. -/
def castText (x : Binary64) : String :=
  if x.isWhole && x.wholePart < 1000000000000000 then x.text ++ ".0" else x.text

end Binary64
end SqliteReader
