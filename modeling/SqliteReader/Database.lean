import SqliteReader.Catalog
import SqliteReader.Delivery
import SqliteReader.Schema

/-! A database opened for reading: a pager over its file, and programs run against it. -/

namespace SqliteReader.Database

abbrev Directory := String → Option Disk

/-- Opens a file and makes sure that its header is one that can be read. -/
def connect (files : Directory) (path : String) : Except Error Pager :=
  match files path with
  | none => .error (.io .noSuchFile)
  | some disk =>
    match Pager.header { disk } with
    | (.error reason, _) => .error reason
    | (.ok _, pager) => .ok pager

/-- Rows that a worker may be ahead of the one who asks, unless told otherwise. -/
def defaultCapacity : Nat := 100

/-- Starts a program. The worker gets at most `steps` steps before the first request. -/
def execute (steps capacity : Nat) (program : Program) (pager : Pager) : Execution × Pager :=
  (Execution.start program capacity).settle steps pager

end SqliteReader.Database
