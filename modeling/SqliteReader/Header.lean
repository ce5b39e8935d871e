import SqliteReader.BigEndian
import SqliteReader.Error

/-! The 100 bytes at the front of a database file. Every field is a big-endian number at
a fixed offset; twenty bytes in between are unused. Only files in write-ahead mode, in
UTF-8, of schema format 4, without reserved space are accepted, and the first condition
that fails, in the order of the checks, is the one reported. -/

namespace SqliteReader

structure Header where
  /-- In bytes; 65536 is stored as 1, since two bytes cannot hold it. -/
  pageSize : Nat
  writeVersion : UInt8
  readVersion : UInt8
  reservedSpace : UInt8
  maxEmbeddedPayload : UInt8
  minEmbeddedPayload : UInt8
  leafPayload : UInt8
  changeCounter : UInt32
  /-- In pages. -/
  databaseSize : UInt32
  firstFreelistPage : UInt32
  freelistSize : UInt32
  schemaCookie : UInt32
  schemaFormat : UInt32
  defaultCacheSize : UInt32
  largestRootPage : UInt32
  textEncoding : UInt32
  userVersion : UInt32
  incrementalVacuum : UInt32
  applicationId : UInt32
  versionValidFor : UInt32
  writerVersion : UInt32
  deriving DecidableEq, Repr

namespace Header

def size : Nat := 100

def magicText : String := "SQLite format 3"

def magic : List UInt8 := Utf8.encode magicText ++ [0]

def pageSizes : List Nat := [512, 1024, 2048, 4096, 8192, 16384, 32768, 65536]

def numberAt (bytes : List UInt8) (offset width : Nat) : Nat :=
  BigEndian.read ((bytes.drop offset).take width)

def storedPageSize (bytes : List UInt8) : Nat := numberAt bytes 16 2

def expandPageSize (stored : Nat) : Nat := if stored = 1 then 65536 else stored

/-- The fields, whatever they hold. -/
def decode (bytes : List UInt8) : Header :=
  let byte offset := UInt8.ofNat (numberAt bytes offset 1)
  let word offset := UInt32.ofNat (numberAt bytes offset 4)
  { pageSize := expandPageSize (storedPageSize bytes)
    writeVersion := byte 18
    readVersion := byte 19
    reservedSpace := byte 20
    maxEmbeddedPayload := byte 21
    minEmbeddedPayload := byte 22
    leafPayload := byte 23
    changeCounter := word 24
    databaseSize := word 28
    firstFreelistPage := word 32
    freelistSize := word 36
    schemaCookie := word 40
    schemaFormat := word 44
    defaultCacheSize := word 48
    largestRootPage := word 52
    textEncoding := word 56
    userVersion := word 60
    incrementalVacuum := word 64
    applicationId := word 68
    versionValidFor := word 92
    writerVersion := word 96 }

/-- The used bytes before the gap. -/
def front (header : Header) : List UInt8 :=
  let byte (number : UInt8) := BigEndian.write 1 number.toNat
  let word (number : UInt32) := BigEndian.write 4 number.toNat
  magic ++ BigEndian.write 2 (if header.pageSize = 65536 then 1 else header.pageSize) ++
    byte header.writeVersion ++ byte header.readVersion ++ byte header.reservedSpace ++
    byte header.maxEmbeddedPayload ++ byte header.minEmbeddedPayload ++ byte header.leafPayload ++
    word header.changeCounter ++ word header.databaseSize ++ word header.firstFreelistPage ++
    word header.freelistSize ++ word header.schemaCookie ++ word header.schemaFormat ++
    word header.defaultCacheSize ++ word header.largestRootPage ++ word header.textEncoding ++
    word header.userVersion ++ word header.incrementalVacuum ++ word header.applicationId

/-- The used bytes behind the gap. -/
def back (header : Header) : List UInt8 :=
  BigEndian.write 4 header.versionValidFor.toNat ++ BigEndian.write 4 header.writerVersion.toNat

/-- The first condition on the fields that does not hold. -/
def objection? (header : Header) : Option HeaderError :=
  if header.writeVersion ≠ 2 ∨ header.readVersion ≠ 2 then
    some (.notWal header.writeVersion header.readVersion)
  else if header.textEncoding ≠ 1 then some (.unsupportedEncoding header.textEncoding)
  else if header.changeCounter ≠ header.versionValidFor then
    some (.stalePageCount header.changeCounter header.versionValidFor)
  else if header.schemaFormat ≠ 4 then some (.unsupportedSchemaFormat header.schemaFormat)
  else if header.reservedSpace ≠ 0 then some (.reservedBytes header.reservedSpace)
  else none

def parse (bytes : List UInt8) : Except HeaderError Header :=
  if bytes.length < size then .error (.truncated bytes.length)
  else if bytes.take 16 ≠ magic then .error (.badMagic (bytes.take 16))
  else if expandPageSize (storedPageSize bytes) ∉ pageSizes then
    .error (.invalidPageSize (storedPageSize bytes))
  else
    match (decode bytes).objection? with
    | some objection => .error objection
    | none => .ok (decode bytes)

end Header
end SqliteReader
