import SqliteReader.Tree

/-! The schema: a table on the first page with one row for each table, index, view and
trigger. -/

namespace SqliteReader

variable {σ : Type} [Source σ]

structure SchemaEntry where
  kind : String
  name : String
  tableName : String
  /-- Zero for what has no pages of its own. -/
  rootPage : UInt32
  sql : Option String
  deriving DecidableEq, Repr

namespace SchemaEntry

/-- Columns that are missing or of another class count as empty. -/
def ofRecord (record : Record) : SchemaEntry :=
  let text? index := (record.column index).value.text?
  let page := match (record.column 3).value.integer? with
    | none => 0
    | some number => if 0 ≤ number.toInt ∧ number.toInt < UInt32.size then UInt32.ofNat number.toInt.toNat else 0
  { kind := (text? 0).getD ""
    name := (text? 1).getD ""
    tableName := (text? 2).getD ""
    rootPage := page
    sql := text? 4 }

def isTable (entry : SchemaEntry) : Bool := entry.kind == "table"

/-- Tables of the file format itself have reserved names. -/
def isUserTable (entry : SchemaEntry) : Bool := entry.isTable && !entry.name.startsWith "sqlite_"

end SchemaEntry

namespace Schema

def rootPage : UInt32 := 1

def entries : Using σ (List SchemaEntry) := do
  let records ← readTree rootPage
  return records.toList.map SchemaEntry.ofRecord

def tableNames : Using σ (List String) := do
  return ((← entries).filter SchemaEntry.isUserTable).map SchemaEntry.name

def countRows (table : String) : Using σ (Option Nat) := do
  match (← entries).find? fun entry => entry.isTable && entry.name == table with
  | none => return none
  | some entry =>
    let records ← readTree entry.rootPage
    return some records.size

end Schema
end SqliteReader
