/-! Bytes as text. A stretch of bytes that cannot be the beginning of any character is
cut as late as possible: bytes that begin a character stay together until a byte comes
that cannot continue them. Lenient reading puts one replacement character for each
such stretch, strict reading refuses them. -/

namespace SqliteReader.Utf8

inductive Piece
  | char (character : Char)
  | invalid
  deriving DecidableEq, Repr

/-- A character whose first bytes gave `value`. The next byte has to lie from `low` to
`high`, and `owed` bytes, that one included, are missing. -/
structure Unfinished where
  value : Nat
  owed : Nat
  low : UInt8 := 0x80
  high : UInt8 := 0xBF
  deriving DecidableEq, Repr

/-- What a byte outside ASCII begins. The narrower ranges keep out longer forms than
needed, surrogates, and values past the last character. -/
def lead? (byte : UInt8) : Option Unfinished :=
  if byte < 0xC2 then none
  else if byte < 0xE0 then some { value := byte.toNat - 0xC0, owed := 1 }
  else if byte = 0xE0 then some { value := 0, owed := 2, low := 0xA0 }
  else if byte = 0xED then some { value := 0xD, owed := 2, high := 0x9F }
  else if byte < 0xF0 then some { value := byte.toNat - 0xE0, owed := 2 }
  else if byte = 0xF0 then some { value := 0, owed := 3, low := 0x90 }
  else if byte < 0xF4 then some { value := byte.toNat - 0xF0, owed := 3 }
  else if byte = 0xF4 then some { value := 4, owed := 3, high := 0x8F }
  else none

/-- The pieces that end at a byte between characters, and what it leaves unfinished. -/
def start (byte : UInt8) : List Piece × Option Unfinished :=
  if byte < 0x80 then ([.char (Char.ofNat byte.toNat)], none)
  else match lead? byte with
    | none => ([.invalid], none)
    | some unfinished => ([], some unfinished)

/-- A byte that cannot continue a character ends a stretch and is read afresh. -/
def step : Option Unfinished → UInt8 → List Piece × Option Unfinished
  | none, byte => start byte
  | some unfinished, byte =>
    if unfinished.low ≤ byte ∧ byte ≤ unfinished.high then
      let value := unfinished.value * 64 + byte.toNat % 64
      if unfinished.owed ≤ 1 then ([.char (Char.ofNat value)], none)
      else ([], some { value, owed := unfinished.owed - 1 })
    else
      let (pieces, next) := start byte
      (.invalid :: pieces, next)

/-- Continues a reading whose pieces so far are given last first. -/
def piecesFrom (found : List Piece) (state : Option Unfinished) : List UInt8 → List Piece
  | [] => match state with
    | none => found.reverse
    | some _ => (.invalid :: found).reverse
  | byte :: rest =>
    let (pieces, next) := step state byte
    piecesFrom (pieces.reverse ++ found) next rest

def pieces (bytes : List UInt8) : List Piece := piecesFrom [] none bytes

def Piece.shown : Piece → Char
  | .char character => character
  | .invalid => '\uFFFD'

def lossy (bytes : List UInt8) : String := String.ofList ((pieces bytes).map Piece.shown)

def isValid (bytes : List UInt8) : Bool := (pieces bytes).all (· != .invalid)

def encode (text : String) : List UInt8 := text.toUTF8.data.toList

end SqliteReader.Utf8
