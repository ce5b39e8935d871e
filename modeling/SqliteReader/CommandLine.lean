import SqliteReader.Database
import SqliteReader.Header.Table

/-! The command line: a file, a command, and for some commands a query. What was printed
before a failure stays. A failure is reported with the chain of its causes. -/

namespace SqliteReader.CommandLine

/-- The outermost message and what is behind it. -/
structure Failure where
  message : String
  causes : List String := []
  deriving DecidableEq, Repr

namespace Failure

/-- Only failures of the operating system have a cause of their own. -/
def causesOf : Error → List String
  | .io cause => [cause.message]
  | _ => []

def ofError (error : Error) : Failure := { message := error.message, causes := causesOf error }

def during (activity : String) (error : Error) : Failure :=
  { message := activity, causes := error.message :: causesOf error }

/-- Causes are numbered if there are several. -/
def report (failure : Failure) : String :=
  let chain := match failure.causes with
    | [] => ""
    | [cause] => "\nCaused by:\n    " ++ cause ++ "\n"
    | causes => "\nCaused by:\n" ++
      String.join (causes.mapIdx fun index cause => "    " ++ index.repr ++ ": " ++ cause ++ "\n")
  "Error: " ++ failure.message ++ "\n" ++ chain

end Failure

structure Outcome where
  printed : String := ""
  failure : Option Failure := none
  deriving DecidableEq, Repr

namespace Outcome

def code (outcome : Outcome) : Nat := if outcome.failure.isSome then 1 else 0

def reported (outcome : Outcome) : String := (outcome.failure.map Failure.report).getD ""

def failed (message : String) : Outcome := { failure := some { message } }

end Outcome

/-- More steps than any machine takes. -/
def stepLimit : Nat := 0x4000000000000000

def print (text : Access String) (pager : Pager) : Outcome × Pager :=
  match text pager with
  | (.ok text, pager) => ({ printed := text }, pager)
  | (.error reason, pager) => ({ failure := some (.ofError reason) }, pager)

def information : Access String := do
  let header ← Pager.header
  let tables ← Schema.tableNames
  return "database page size: " ++ header.pageSize.repr ++ "\nnumber of tables: " ++ tables.length.repr ++ "\n"

def tables : Access String := do return " ".intercalate (← Schema.tableNames) ++ "\n"

def headerTable : Access String := do return (← Pager.header).table

def locks : Access String := fun pager =>
  match Pager.lock .shared pager with
  | (.error reason, pager) => (.error reason, pager)
  | (.ok (), locked) =>
    match Pager.unlock .none locked with
    | (.error reason, pager) => (.error reason, pager)
    | (.ok (), free) =>
      (.ok ("acquired " ++ locked.level.name ++ " lock\nreleased to " ++ free.level.name ++ "\n"), free)

def explain (query : String) : Access String := do return (← Catalog.prepare query).listing

def rowLine (values : List String) : String := "|".intercalate values ++ "\n"

/-- Prints rows as they come; `requests` bounds how many. -/
def printRows (printed : String) : Nat → Execution → Pager → Outcome × Pager
  | 0, _, pager => ({ printed }, pager)
  | requests + 1, execution, pager =>
    match execution.nextRow stepLimit pager with
    | (.row row, execution, pager) =>
      printRows (printed ++ rowLine (row.toList.map Value.shown)) requests execution pager
    | (.failed reason, _, pager) => ({ printed, failure := some (.during "executing query" reason) }, pager)
    | (.finished, _, pager) | (.waiting, _, pager) => ({ printed }, pager)

def query (text : String) (pager : Pager) : Outcome × Pager :=
  match Catalog.prepare text with
  | .error reason => ({ failure := some (.ofError (.machine reason)) }, pager)
  | .ok program =>
    let (execution, pager) := Database.execute stepLimit Database.defaultCapacity program pager
    printRows (rowLine execution.columns) stepLimit execution pager

/-- Letters of either case are accepted. None of these letters is the lower case of one
outside ASCII. -/
def isCount (command : String) : Bool :=
  "select count(*) from".toList.isPrefixOf (command.toList.map Char.toLower)

/-- The last word of the command names the table. -/
def count (command : String) (pager : Pager) : Outcome × Pager :=
  match (Text.words command).getLast? with
  | none => (.failed "Invalid query: no table name found", pager)
  | some table =>
    match Schema.countRows table pager with
    | (.error reason, pager) => ({ failure := some (.ofError reason) }, pager)
    | (.ok none, pager) => (.failed ("Table not found: " ++ table), pager)
    | (.ok (some rows), pager) => ({ printed := rows.repr ++ "\n" }, pager)

def command (name : String) (arguments : List String) (pager : Pager) : Outcome × Pager :=
  let withQuery (act : String → Pager → Outcome × Pager) :=
    match arguments with
    | [] => (Outcome.failed "Missing [query]", pager)
    | text :: _ => act text pager
  if name = ".dbinfo" then print information pager
  else if name = ".tables" then print tables pager
  else if name = "header" then print headerTable pager
  else if name = "locks" then print locks pager
  else if name = "explain" then withQuery (fun text => print (explain text))
  else if name = "query" then withQuery query
  else if isCount name then count name pager
  else (.failed ("Missing or invalid command passed: " ++ name), pager)

def run (files : Database.Directory) (arguments : List String) : Outcome :=
  match arguments with
  | [] => .failed "Missing <database path> and <command>"
  | [_] => .failed "Missing <command>"
  | path :: name :: more =>
    match Database.connect files path with
    | .error reason => { failure := some (.during ("opening " ++ path) reason) }
    | .ok pager =>
      let (outcome, pager) := command name more pager
      if outcome.failure.isSome then outcome
      else match Pager.close pager with
        | (.ok (), _) => outcome
        | (.error reason, _) => { outcome with failure := some (.ofError reason) }

end SqliteReader.CommandLine
