import SqliteReader.Error

/-! Programs of the machine and their listing. -/

namespace SqliteReader

inductive Operand
  | integer (number : Int64)
  | text (words : String)
  deriving DecidableEq, Repr

def Operand.shown : Operand → String
  | .integer number => number.toInt.repr
  | .text words => words

/-- Only the fourth operand may be a text. -/
structure Instruction where
  opcode : Opcode
  p1 : Int64 := 0
  p2 : Int64 := 0
  p3 : Int64 := 0
  p4 : Operand := .integer 0
  p5 : Int64 := 0
  deriving DecidableEq, Repr

def Instruction.listing (instruction : Instruction) : String :=
  " ".intercalate
    [Text.padRight 13 instruction.opcode.name, Text.padRight 4 instruction.p1.toInt.repr,
     Text.padRight 4 instruction.p2.toInt.repr, Text.padRight 6 instruction.p3.toInt.repr,
     Text.padRight 14 instruction.p4.shown, Text.zeroPadded 2 instruction.p5.toInt]

structure Program where
  instructions : Array Instruction := #[]
  placeholders : Nat := 0
  columns : List String := []
  deriving DecidableEq, Repr

/-- One line an instruction under two lines of heading. -/
def Program.listing (program : Program) : String :=
  "addr  opcode        p1   p2   p3     p4             p5\n" ++
  "----  ------------- ---- ---- ------ -------------- --\n" ++
  String.join (program.instructions.toList.mapIdx fun address instruction =>
    Text.padRight 5 address.repr ++ " " ++ instruction.listing ++ "\n")

end SqliteReader
