import SqliteReader.Program
import SqliteReader.Registers
import SqliteReader.Tree

/-! The machine that runs programs. Operands are checked when an instruction is executed,
in the order in which it uses them. A failure to read the file ends the run where it
happens, whatever the instruction would have done with the end of the data. -/

namespace SqliteReader

variable {σ : Type} [Source σ]

abbrev Row := Array Value

structure Machine where
  program : Program
  counter : Nat := 0
  cursors : Array (Option Tree) := #[]
  registers : Registers := {}
  /-- Columns read since the last row. -/
  row : Row := #[]

inductive Effect
  | proceed
  | jump (target : Nat)
  | emit (row : Row)
  | halt

inductive Event
  | silent
  | row (row : Row)
  | ended

namespace Instruction

/-- An operand as a number that is not negative and below a limit. -/
def operand (instruction : Instruction) (place : Place) (number : Int64) (limit : Nat) (role : Role) :
    Except MachineError Nat :=
  if 0 ≤ number.toInt ∧ number.toInt < limit then .ok number.toInt.toNat
  else .error (.badOperand instruction.opcode place role)

def cursor (instruction : Instruction) : Except MachineError Nat :=
  instruction.operand .p1 instruction.p1 256 .cursor

def register (instruction : Instruction) (place : Place) (number : Int64) : Except MachineError Nat :=
  instruction.operand place number 65536 .register

def registerCount (instruction : Instruction) (start : Nat) : Except MachineError Nat :=
  match instruction.p4 with
  | .integer count => instruction.operand .p4 count (65536 - start + 1) .registerCount
  | .text _ => .error (.badOperand instruction.opcode .p4 .registerCount)

end Instruction

namespace Machine

def jump (machine : Machine) (target : Int64) : Except MachineError Effect :=
  if 0 ≤ target.toInt ∧ target.toInt < machine.program.instructions.size then .ok (.jump target.toInt.toNat)
  else .error (.jumpOutOfRange target machine.program.instructions.size)

def cursorAt (machine : Machine) (slot : Nat) : Except MachineError Tree :=
  match machine.cursors[slot]? with
  | some (some tree) => .ok tree
  | _ => .error (.cursorNotOpen slot)

def setCursor (machine : Machine) (slot : Nat) (tree : Tree) : Machine :=
  let missing := Array.replicate (slot + 1 - machine.cursors.size) none
  { machine with cursors := (machine.cursors ++ missing).setIfInBounds slot (some tree) }

def record (machine : Machine) (instruction : Instruction) : Except MachineError Record := do
  let slot ← instruction.cursor
  match (← machine.cursorAt slot).record? with
  | some record => .ok record
  | none => .error (.cursorNotPositioned slot)

/-- A search key: the registers from the third operand on, at least one. -/
def key (machine : Machine) (instruction : Instruction) : Except MachineError (List Value) := do
  let start ← instruction.register .p3 instruction.p3
  let count ← instruction.registerCount start
  return (List.range (max count 1)).map fun offset => machine.registers.get (start + offset)

/-- Moves a cursor. A failure that stopped it is not mistaken for the end of the tree. -/
def move {σ : Type} (act : σ → Bool × Tree × σ) : Using σ (Bool × Tree) := fun source =>
  match act source with
  | (true, tree, source) => (.ok (true, tree), source)
  | (false, tree, source) =>
    match tree.failure with
    | some reason => (.error reason, source)
    | none => (.ok (false, tree), source)

section

variable {σ : Type} {act : σ → Bool × Tree × σ} {source after : σ} {tree : Tree}

theorem move_found (ran : act source = (true, tree, after)) : move act source = (.ok (true, tree), after) := by
  rw [move, ran]

theorem move_ended (ran : act source = (false, tree, after)) (clear : tree.failure = none) :
    move act source = (.ok (false, tree), after) := by
  rw [move, ran]
  simp only [clear]

theorem move_failed {reason : Error} (ran : act source = (false, tree, after)) (latched : tree.failure = some reason) :
    move act source = (.error reason, after) := by
  rw [move, ran]
  simp only [latched]

theorem of_move_found (ran : move act source = (.ok (true, tree), after)) : act source = (true, tree, after) := by
  rcases moved : act source with ⟨found, reached, last⟩
  cases found with
  | true =>
    cases (move_found moved).symm.trans ran
    rfl
  | false =>
    cases latched : reached.failure with
    | none => cases (move_ended moved latched).symm.trans ran
    | some reason => cases (move_failed moved latched).symm.trans ran

end

def execute (machine : Machine) (instruction : Instruction) : Using σ (Effect × Machine) :=
  match instruction.opcode with
  | .init => do
    if instruction.p2 = 0 then return (.proceed, machine)
    return (← machine.jump instruction.p2, machine)
  | .halt => return (.halt, machine)
  | .goto => return (← machine.jump instruction.p2, machine)
  | .transaction => do
    if instruction.p1 ≠ 0 then throw (.machine (.unsupportedDatabase instruction.p1))
    if instruction.p2 ≠ 0 then throw (.machine .writeTransaction)
    let header ← Source.header
    if instruction.p5 ≠ 0 ∧ instruction.p3.toInt ≠ header.schemaCookie.toNat then
      throw (.machine (.schemaMismatch instruction.p3 header.schemaCookie))
    return (.proceed, machine)
  | .openRead => do
    if instruction.p3 ≠ 0 then throw (.machine (.unsupportedDatabase instruction.p3))
    let slot ← instruction.cursor
    let root ← instruction.operand .p2 instruction.p2 UInt32.size .rootPage
    if root = 0 then throw (.machine (.badOperand instruction.opcode .p2 .rootPage))
    let tree ← Tree.openAt (UInt32.ofNat root)
    return (.proceed, machine.setCursor slot tree)
  | .rewind => do
    let slot ← instruction.cursor
    let tree ← machine.cursorAt slot
    let (moved, tree) ← move tree.reset.next
    let machine := machine.setCursor slot tree
    if moved then return (.proceed, machine)
    return (← machine.jump instruction.p2, machine)
  | .next => do
    let slot ← instruction.cursor
    let tree ← machine.cursorAt slot
    let (moved, tree) ← move tree.next
    let machine := machine.setCursor slot tree
    if moved then return (← machine.jump instruction.p2, machine)
    return (.proceed, machine)
  | .column => do
    let register ← instruction.register .p3 instruction.p3
    let index ← instruction.operand .p2 instruction.p2 (UInt64.size - 1) .columnIndex
    let value := ((← machine.record instruction).column index).value
    return (.proceed,
      { machine with registers := machine.registers.set register value, row := machine.row.push value })
  | .resultRow => return (.emit machine.row, { machine with row := #[] })
  | .string8 => do
    let register ← instruction.register .p2 instruction.p2
    match instruction.p4 with
    | .integer _ => throw (.machine (.badOperand instruction.opcode .p4 .string))
    | .text words =>
      return (.proceed, { machine with registers := machine.registers.set register (.text words) })
  | .cast => do
    let register ← instruction.register .p1 instruction.p1
    let affinity ← Affinity.ofCode instruction.p2
    return (.proceed, { machine with registers := (← machine.registers.cast register affinity) })
  | .isNull => do
    let register ← instruction.register .p1 instruction.p1
    if (machine.registers.get register).isNull then return (← machine.jump instruction.p2, machine)
    return (.proceed, machine)
  | .seekGE => do
    let key ← machine.key instruction
    let slot ← instruction.cursor
    let tree ← machine.cursorAt slot
    let (found, tree) ← move (tree.seekKey key)
    let machine := machine.setCursor slot tree
    if found then return (.proceed, machine)
    return (← machine.jump instruction.p2, machine)
  | .idxGT => do
    let key ← machine.key instruction
    let record ← machine.record instruction
    if record.comparePrefix key = .gt then return (← machine.jump instruction.p2, machine)
    return (.proceed, machine)
  | .deferredSeek => do
    let rowid := (← machine.record instruction).rowid
    let slot ← instruction.operand .p3 instruction.p3 256 .cursor
    let tree ← machine.cursorAt slot
    let (found, tree) ← move (tree.seekRowid rowid)
    if found then return (.proceed, machine.setCursor slot tree)
    throw (.machine (.cursorNotPositioned slot))
  | .unknown name => throw (.machine (.unknownOpcode machine.counter name))

/-- One instruction; past the last one the run has ended. -/
def step (machine : Machine) : Using σ (Event × Machine) :=
  match machine.program.instructions[machine.counter]? with
  | none => return (.ended, machine)
  | some instruction => do
    let (effect, machine) ← machine.execute instruction
    match effect with
    | .proceed => return (.silent, { machine with counter := machine.counter + 1 })
    | .jump target => return (.silent, { machine with counter := target })
    | .emit row => return (.row row, { machine with counter := machine.counter + 1 })
    | .halt => return (.ended, machine)

end Machine
end SqliteReader
