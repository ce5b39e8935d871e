import SqliteReader.Lock
import SqliteReader.Opcode
import SqliteReader.PageKind
import SqliteReader.Text.Layout
import SqliteReader.Value

/-! Everything that can go wrong, by cause, and the one wording of each. -/

namespace SqliteReader

inductive IoError
  | unexpectedEnd
  | noSuchFile
  deriving DecidableEq, Repr

def IoError.message : IoError → String
  | .unexpectedEnd => "failed to fill whole buffer"
  | .noSuchFile => "No such file or directory (os error 2)"

/-- Why a file is not one that this library reads. -/
inductive HeaderError
  | truncated (size : Nat)
  | badMagic (found : List UInt8)
  | invalidPageSize (stored : Nat)
  | notWal (write read : UInt8)
  | unsupportedEncoding (encoding : UInt32)
  | stalePageCount (changeCounter versionValidFor : UInt32)
  | unsupportedSchemaFormat (format : UInt32)
  | reservedBytes (count : UInt8)
  deriving DecidableEq, Repr

def HeaderError.message : HeaderError → String
  | .truncated size => s!"header is truncated: expected 100 bytes, found {size.repr}"
  | .badMagic found =>
    "invalid magic string: [" ++ ", ".intercalate (found.map fun byte => byte.toNat.repr) ++ "]"
  | .invalidPageSize stored => s!"invalid page size: {stored.repr}"
  | .notWal write read =>
    s!"legacy (rollback) journaling is unsupported (write={write.toNat.repr}, read={read.toNat.repr})" ++
      ": enable WAL instead"
  | .unsupportedEncoding encoding =>
    s!"non-UTF-8 text encoding is unsupported (encoding={encoding.toNat.repr})"
  | .stalePageCount changeCounter versionValidFor =>
    s!"database size is untrustworthy: file change counter {changeCounter.toNat.repr}" ++
      s!" != version-valid-for {versionValidFor.toNat.repr}"
  | .unsupportedSchemaFormat format => s!"unsupported schema format ({format.toNat.repr})"
  | .reservedBytes count => s!"end-of-page reservations are unsupported ({count.toNat.repr} bytes reserved)"

inductive LockError
  | alreadyHeld (held requested : LockLevel)
  | notHeld (held requested : LockLevel)
  | unsupported (level : LockLevel)
  | busy
  deriving DecidableEq, Repr

def LockError.message : LockError → String
  | .alreadyHeld held requested =>
    s!"attempting to acquire {requested.name} lock while holding {held.name}"
  | .notHeld held requested => s!"attempting to release to {requested.name} while holding {held.name}"
  | .unsupported level => s!"unsupported lock transition to {level.name}"
  | .busy => "database is locked by another process"

/-- Damage found on a page or in a record. -/
inductive CorruptError
  | unknownPageType (page : UInt32) (tag : UInt8)
  | parentChildMismatch (page : UInt32) (parent child : PageKind)
  | recordHeaderLength (consumed declared : Nat)
  | recordPayloadLength (consumed declared : Nat)
  | invalidText (offset : Nat)
  | payloadOverflow (page : UInt32) (offset : Nat) (size : UInt64)
  | cellOutOfBounds (page : UInt32) (offset : Nat)
  | reservedSerialType (serialType : UInt64)
  | treeCycle (page : UInt32)
  | malformedIndexRecord
  deriving DecidableEq, Repr

def CorruptError.message : CorruptError → String
  | .unknownPageType page tag =>
    s!"unknown b-tree page type 0x{Text.hexByte tag} on page {page.toNat.repr}"
  | .parentChildMismatch page parent child =>
    s!"invalid node type on page {page.toNat.repr}: parent={parent.name} child={child.name}"
  | .recordHeaderLength consumed declared =>
    s!"record header consumed {consumed.repr} bytes, declared {declared.repr}"
  | .recordPayloadLength consumed declared =>
    s!"record consumed {consumed.repr} bytes, payload declared {declared.repr}"
  | .invalidText offset => s!"text column at record offset {offset.repr} is not valid UTF-8"
  | .payloadOverflow page offset size =>
    s!"payload of {size.toNat.repr} bytes at offset {offset.repr} overflows page {page.toNat.repr}"
  | .cellOutOfBounds page offset => s!"cell offset {offset.repr} is outside page {page.toNat.repr}"
  | .reservedSerialType serialType => s!"unsupported serial type {serialType.toNat.repr}"
  | .treeCycle page => s!"b-tree page {page.toNat.repr} is its own ancestor"
  | .malformedIndexRecord => "malformed index record: trailing column is not a rowid"

inductive MachineError
  | unknownOpcode (counter : Nat) (name : String)
  | schemaMismatch (expected : Int64) (actual : UInt32)
  | cursorNotOpen (slot : Nat)
  | cursorNotPositioned (slot : Nat)
  | unsupportedDatabase (index : Int64)
  | writeTransaction
  | unknownRegister (register : Nat)
  | unsupportedCast (register : Nat) (source target : StorageClass)
  | unknownAffinity (code : Int64)
  | jumpOutOfRange (target : Int64) (length : Nat)
  | badOperand (opcode : Opcode) (place : Place) (role : Role)
  | unsupportedQuery (query : String)
  deriving DecidableEq, Repr

def MachineError.message : MachineError → String
  | .unknownOpcode counter name => s!"unknown opcode at {counter.repr}: {name}"
  | .schemaMismatch expected actual =>
    s!"schema has changed (program cookie {expected.toInt.repr}, database cookie {actual.toNat.repr})" ++
      ": recompile and retry"
  | .cursorNotOpen slot => s!"cursor {slot.repr} is not open"
  | .cursorNotPositioned slot => s!"cursor {slot.repr} is not positioned on a record"
  | .unsupportedDatabase index =>
    s!"only the main database is supported (requested database {index.toInt.repr})"
  | .writeTransaction => "write transactions are unsupported"
  | .unknownRegister register => s!"unknown register {register.repr}"
  | .unsupportedCast register source target =>
    s!"unsupported cast of register {register.repr} from {source.name} to {target.name}"
  | .unknownAffinity code => s!"unknown cast affinity {code.toInt.repr}"
  | .jumpOutOfRange target length =>
    s!"jump target {target.toInt.repr} is outside the program ({length.repr} instructions)"
  | .badOperand opcode place role => s!"operand {place.name} of {opcode.name} must be {role.wording}"
  | .unsupportedQuery query => "unsupported query: '" ++ query ++ "'"

inductive Error
  | io (cause : IoError)
  | header (cause : HeaderError)
  | lock (cause : LockError)
  | corrupt (cause : CorruptError)
  | machine (cause : MachineError)
  | invalidPageNumber (number : UInt32)
  | noPagesHeld
  | pagesOutstanding (count : Nat)
  | lockStillHeld (level : LockLevel)
  | closed
  deriving DecidableEq, Repr

def Error.message : Error → String
  | .io cause => "I/O error: " ++ cause.message
  | .header cause => cause.message
  | .lock cause => cause.message
  | .corrupt cause => cause.message
  | .machine cause => cause.message
  | .invalidPageNumber number => s!"invalid page number: {number.toNat.repr} (pages are 1-indexed)"
  | .noPagesHeld => "release_page called with no pages held"
  | .pagesOutstanding count => s!"cannot close pager: {count.repr} page(s) still held"
  | .lockStillHeld level => s!"cannot close pager: {level.name} lock still held"
  | .closed => "pager is closed"

instance : Coe HeaderError Error := ⟨.header⟩
instance : Coe LockError Error := ⟨.lock⟩
instance : Coe CorruptError Error := ⟨.corrupt⟩
instance : Coe MachineError Error := ⟨.machine⟩

/-- Two steps in a row succeed when each of them does. -/
theorem bind_ok_iff {ε α β : Type} {first : Except ε α} {next : α → Except ε β} {result : β} :
    (first >>= next) = .ok result ↔ ∃ middle, first = .ok middle ∧ next middle = .ok result := by
  cases first with
  | error reason =>
    constructor
    · intro ran
      cases ran
    · rintro ⟨_, failed, _⟩
      cases failed
  | ok middle =>
    constructor
    · exact fun ran => ⟨middle, rfl, ran⟩
    · rintro ⟨_, same, ran⟩
      cases same
      exact ran

end SqliteReader
