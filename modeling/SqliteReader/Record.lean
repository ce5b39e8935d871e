import SqliteReader.BigEndian
import SqliteReader.Error
import SqliteReader.Varint

/-! Records: a header that counts itself, one serial type a column, then the contents in
the same order. A serial type fixes how many bytes a column has and what they mean.
Reading accounts for every byte of the payload once. -/

namespace SqliteReader

structure Column where
  serialType : UInt64
  content : List UInt8
  deriving DecidableEq, Repr

namespace Column

def null : Column := ⟨0, []⟩

instance : Inhabited Column := ⟨null⟩

/-- Content bytes of a serial type; two types are reserved. -/
def contentSize (serialType : UInt64) : Except CorruptError Nat :=
  match serialType.toNat with
  | 0 | 8 | 9 => .ok 0
  | 1 => .ok 1
  | 2 => .ok 2
  | 3 => .ok 3
  | 4 => .ok 4
  | 5 => .ok 6
  | 6 | 7 => .ok 8
  | 10 | 11 => .error (.reservedSerialType serialType)
  | number => .ok ((number - 12) / 2)

def isText (serialType : UInt64) : Bool := 13 ≤ serialType.toNat && serialType.toNat % 2 == 1

def isNull (column : Column) : Bool := column.serialType == 0

/-- Stored integers wrap to 64 bits when a column is given more bytes than its type has. -/
def storedInteger (column : Column) : Int64 := Int64.ofInt (BigEndian.readSigned column.content)

def value (column : Column) : Value :=
  match column.serialType.toNat with
  | 0 => .null
  | 1 | 2 | 3 | 4 | 5 | 6 => .integer column.storedInteger
  | 7 => .real ⟨UInt64.ofNat (BigEndian.read (column.content.take 8))⟩
  | 8 => .integer 0
  | 9 => .integer 1
  | number => if number % 2 = 0 then .blob column.content else .text (Utf8.lossy column.content)

def integer? (column : Column) : Option Int64 :=
  if 1 ≤ column.serialType.toNat ∧ column.serialType.toNat ≤ 6 then some column.storedInteger else none

end Column

structure Record where
  /-- The key of a table row; in an index the row that the entry points to. -/
  rowid : Int64
  columns : List Column
  deriving DecidableEq, Repr

namespace Record

instance : Inhabited Record := ⟨⟨0, []⟩⟩

def column (record : Record) (index : Nat) : Column := record.columns.getD index .null

def values (record : Record) : List Value := record.columns.map Column.value

/-- Continues at `offset`, with `rest` from there on, until the declared header is used up. -/
def readTypes (declared : Nat) (found : List UInt64) (offset : Nat) (rest : List UInt8) :
    Except CorruptError (List UInt64 × List UInt8) :=
  if offset < declared then
    match _read : Varint.decode rest with
    | none => .error (.recordHeaderLength offset declared)
    | some (serialType, taken) =>
      readTypes declared (serialType :: found) (offset + taken) (rest.drop taken)
  else if offset = declared then .ok (found.reverse, rest)
  else .error (.recordHeaderLength offset declared)
termination_by rest.length
decreasing_by
  have used := Varint.decode_taken _read
  rw [List.length_drop]
  omega

/-- Continues at `offset` of a payload of `size` bytes with the columns still to read. -/
def readContents (size : Nat) (found : List Column) (offset : Nat) (rest : List UInt8) :
    List UInt64 → Except CorruptError (List Column)
  | [] => if offset = size then .ok found.reverse else .error (.recordPayloadLength offset size)
  | serialType :: more =>
    match Column.contentSize serialType with
    | .error reason => .error reason
    | .ok length =>
      if size < offset + length then .error (.recordPayloadLength (offset + length) size)
      else
        let content := rest.take length
        if Column.isText serialType && !Utf8.isValid content then .error (.invalidText offset)
        else readContents size (⟨serialType, content⟩ :: found) (offset + length) (rest.drop length) more

def readColumns (payload : List UInt8) : Except CorruptError (List Column) :=
  match Varint.decode payload with
  | none => .error (.recordHeaderLength payload.length 0)
  | some (declared, taken) =>
    match readTypes declared.toNat [] taken (payload.drop taken) with
    | .error reason => .error reason
    | .ok (types, contents) =>
      readContents payload.length [] (declared.toNat) contents types

/-- An index entry ends with the rowid it points to. -/
def readIndexEntry (payload : List UInt8) : Except CorruptError Record :=
  match readColumns payload with
  | .error reason => .error reason
  | .ok columns =>
    match columns.getLast?.bind (·.value.integer?) with
    | none => .error .malformedIndexRecord
    | some rowid => .ok ⟨rowid, columns.dropLast⟩

/-- Compares columns with a key, one by one until they differ. Columns that are missing
count as null, columns that the key does not reach do not count. -/
def compareColumns : List Column → List Value → Ordering
  | _, [] => .eq
  | [], wanted :: more => (Value.null.compare wanted).then (compareColumns [] more)
  | column :: columns, wanted :: more => (column.value.compare wanted).then (compareColumns columns more)

def comparePrefix (record : Record) (key : List Value) : Ordering := compareColumns record.columns key

def shown (record : Record) : String :=
  "rowid=" ++ record.rowid.toInt.repr ++ " row=[ " ++ " | ".intercalate (record.values.map Value.shown) ++ " ]"

end Record
end SqliteReader
