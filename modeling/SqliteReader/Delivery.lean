import SqliteReader.Machine
import SqliteReader.Pager

/-! Delivery of rows from a program that runs on its own to the one who asks for them.
The worker puts rows into a buffer of fixed capacity and waits while it is full; with no
capacity at all every row is handed over directly. Rows come first, in order; then the
result of the run, once. A worker with nobody to listen ends at its next row. -/

namespace SqliteReader

inductive Worker
  | running (machine : Machine)
  /-- Has a row for which there may be no room yet. -/
  | offering (row : Row) (machine : Machine)
  | ended (result : Except Error Unit)

structure Execution where
  columns : List String
  capacity : Nat
  worker : Worker
  buffer : List Row := []
  listening : Bool := true
  /-- Whether the result has been handed over. -/
  reported : Bool := false

inductive Reply
  | row (row : Row)
  | finished
  | failed (reason : Error)
  | waiting

namespace Execution

def start (program : Program) (capacity : Nat) : Execution :=
  { columns := program.columns, capacity, worker := .running { program } }

def work (execution : Execution) (pager : Pager) : Option (Execution × Pager) :=
  match execution.worker with
  | .running machine =>
    match machine.step pager with
    | (.ok (.silent, machine), pager) => some ({ execution with worker := .running machine }, pager)
    | (.ok (.row row, machine), pager) => some ({ execution with worker := .offering row machine }, pager)
    | (.ok (.ended, _), pager) => some ({ execution with worker := .ended (.ok ()) }, pager)
    | (.error reason, pager) => some ({ execution with worker := .ended (.error reason) }, pager)
  | .offering row machine =>
    if !execution.listening then some ({ execution with worker := .ended (.ok ()) }, pager)
    else if execution.buffer.length < execution.capacity then
      some ({ execution with worker := .running machine, buffer := execution.buffer ++ [row] }, pager)
    else none
  | .ended _ => none

def receive (execution : Execution) : Reply × Execution :=
  match execution.listening, execution.buffer, execution.worker with
  | true, row :: rest, _ => (.row row, { execution with buffer := rest })
  | true, [], .offering row machine => (.row row, { execution with worker := .running machine })
  | _, _, .ended result =>
    let told := { execution with listening := false, reported := true }
    if execution.reported then (.finished, told)
    else match result with
      | .ok () => (.finished, told)
      | .error reason => (.failed reason, told)
  | _, _, _ => (.waiting, execution)

/-- Stops listening; rows not asked for are lost. -/
def hangUp (execution : Execution) : Execution :=
  { execution with listening := false, reported := true, buffer := [] }

/-- Lets the worker go on until it has to wait or has ended. -/
def settle : Nat → Execution → Pager → Execution × Pager
  | 0, execution, pager => (execution, pager)
  | steps + 1, execution, pager =>
    match execution.work pager with
    | none => (execution, pager)
    | some (execution, pager) => settle steps execution pager

/-- The next row, or how the run ended. The worker gets at most `steps` steps. -/
def nextRow (steps : Nat) (execution : Execution) (pager : Pager) : Reply × Execution × Pager :=
  let (execution, pager) := execution.settle steps pager
  let (reply, execution) := execution.receive
  (reply, execution.settle steps pager)

def close (steps : Nat) (execution : Execution) (pager : Pager) : Execution × Pager :=
  execution.hangUp.settle steps pager

end Execution
end SqliteReader
