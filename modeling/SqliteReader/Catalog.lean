import SqliteReader.Program
import SqliteReader.Text.Blank

/-! Programs for the statements that can be run. There is no compiler: a statement is
known by its exact text, and its program holds the pages and the schema cookie of the
database that the statement belongs to. -/

namespace SqliteReader.Catalog

def instruction (opcode : Opcode) (p1 p2 p3 p4 p5 : Int64) : Instruction :=
  { opcode, p1, p2, p3, p4 := .integer p4, p5 }

/-- Every row of a table, as the columns named. The transaction is checked first: the
program starts by jumping to its end and comes back from there. -/
def scan (root cookie : Int64) (columns : List String) : Program :=
  let count := Int64.ofNat columns.length
  let opening :=
    [instruction .init 0 (count + 6) 0 0 0, instruction .openRead 0 root 0 count 0,
     instruction .rewind 0 (count + 5) 0 0 0]
  let reading := (List.range columns.length).map fun index =>
    instruction .column 0 (Int64.ofNat index) (Int64.ofNat index + 1) 0 0
  let closing :=
    [instruction .resultRow 1 count 0 0 0, instruction .next 0 3 0 0 1, instruction .halt 0 0 0 0 0,
     instruction .transaction 0 0 cookie 0 1, instruction .goto 0 1 0 0 0]
  { instructions := (opening ++ reading ++ closing).toArray, columns }

/-- The row of a table whose key, a blob, is the text given, by way of an index on the key. -/
def lookup (table index cookie : Int64) (key : String) : Program where
  instructions :=
    #[instruction .init 0 13 0 0 0,
      instruction .openRead 0 table 0 2 0,
      instruction .openRead 1 index 0 2 2,
      { opcode := .string8, p2 := 1, p4 := .text key },
      instruction .cast 1 65 0 0 0,
      instruction .isNull 1 12 0 0 0,
      instruction .seekGE 1 12 1 1 0,
      instruction .idxGT 1 12 1 1 0,
      instruction .deferredSeek 1 0 0 0 0,
      instruction .column 1 0 2 0 0,
      instruction .column 0 1 3 0 0,
      instruction .resultRow 2 2 0 0 0,
      instruction .halt 0 0 0 0 0,
      instruction .transaction 0 0 cookie 0 1,
      instruction .goto 0 1 0 0 0]
  columns := ["write_key", "source_id"]

def mappingTable : Int64 := 81

def mappingIndex : Int64 := 82

def mappingCookie : Int64 := 167193

def mappingKey : String := "eE7e8Kpd7Xv6WJ8gzCofFh"

def statements : List (String × Program) :=
  [("select * from table1;", scan 2 1 ["column1"]),
   ("select * from core___source_id_write_key_mapping;",
     scan mappingTable mappingCookie ["write_key", "source_id"]),
   ("select * from core___source_id_write_key_mapping where write_key=CAST('" ++ mappingKey ++ "' AS BLOB);",
     lookup mappingTable mappingIndex mappingCookie mappingKey)]

/-- Blanks around a statement do not count; every character inside does. -/
def prepare (query : String) : Except MachineError Program :=
  match statements.lookup (Text.trim query) with
  | some program => .ok program
  | none => .error (.unsupportedQuery query)

end SqliteReader.Catalog
