/-! Fixed widths in tables and messages, counted in characters. A text that is wider
than its column is never cut. -/

namespace SqliteReader.Text

def padRight (width : Nat) (text : String) : String :=
  text ++ String.ofList (List.replicate (width - text.length) ' ')

/-- Zeros go between the sign and the digits, and the sign counts. -/
def zeroPadded (width : Nat) (number : Int) : String :=
  let sign := if number < 0 then "-" else ""
  let digits := number.natAbs.repr
  sign ++ String.ofList (List.replicate (width - sign.length - digits.length) '0') ++ digits

def hexByte (byte : UInt8) : String :=
  String.ofList [(byte.toNat / 16).digitChar, (byte.toNat % 16).digitChar]

end SqliteReader.Text
