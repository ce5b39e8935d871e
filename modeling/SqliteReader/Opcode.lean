/-! The operations of the machine by name. A program may name others; they are kept and
refused only when one comes to be executed. -/

namespace SqliteReader

inductive Opcode
  | init
  | openRead
  | string8
  | cast
  | isNull
  | seekGE
  | idxGT
  | deferredSeek
  | column
  | resultRow
  | halt
  | transaction
  | goto
  | next
  | rewind
  | unknown (name : String)
  deriving DecidableEq, Repr

namespace Opcode

def ofName : String → Opcode
  | "Init" => .init
  | "OpenRead" => .openRead
  | "String8" => .string8
  | "Cast" => .cast
  | "IsNull" => .isNull
  | "SeekGE" => .seekGE
  | "IdxGT" => .idxGT
  | "DeferredSeek" => .deferredSeek
  | "Column" => .column
  | "ResultRow" => .resultRow
  | "Halt" => .halt
  | "Transaction" => .transaction
  | "Goto" => .goto
  | "Next" => .next
  | "Rewind" => .rewind
  | other => .unknown other

def name : Opcode → String
  | .init => "Init"
  | .openRead => "OpenRead"
  | .string8 => "String8"
  | .cast => "Cast"
  | .isNull => "IsNull"
  | .seekGE => "SeekGE"
  | .idxGT => "IdxGT"
  | .deferredSeek => "DeferredSeek"
  | .column => "Column"
  | .resultRow => "ResultRow"
  | .halt => "Halt"
  | .transaction => "Transaction"
  | .goto => "Goto"
  | .next => "Next"
  | .rewind => "Rewind"
  | .unknown name => name

def isKnown : Opcode → Bool
  | .unknown _ => false
  | _ => true

end Opcode

inductive Place
  | p1
  | p2
  | p3
  | p4
  | p5
  deriving DecidableEq, Repr

def Place.name : Place → String
  | .p1 => "p1"
  | .p2 => "p2"
  | .p3 => "p3"
  | .p4 => "p4"
  | .p5 => "p5"

/-- What an operation makes of an operand. -/
inductive Role
  | cursor
  | register
  | columnIndex
  | rootPage
  | string
  | registerCount
  deriving DecidableEq, Repr

def Role.wording : Role → String
  | .cursor => "a cursor slot below 256"
  | .register => "a register below 65536"
  | .columnIndex => "a column index"
  | .rootPage => "a root page number"
  | .string => "a string"
  | .registerCount => "a register count"

end SqliteReader
