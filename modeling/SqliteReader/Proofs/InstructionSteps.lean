import SqliteReader.Proofs.MachineRun

/-! What instructions do when their operands are in order: the answer of the source decides
how they go on, and nothing else of the machine changes. -/

namespace SqliteReader.Machine

variable {σ : Type} [Source σ] (machine : Machine) (source : σ) {slot register index target : Nat} {tree : Tree}
  {record : Record} {other : Int64} {last : Operand} {flags : Int64}

section

variable (small : target < 0x8000000000000000) (inside : target < machine.program.instructions.size)
include small inside

theorem execute_goto :
    machine.execute ⟨.goto, 0, .ofNat target, 0, last, flags⟩ source = (.ok (.jump target, machine), source) := by
  simp only [execute, jump_ofNat small inside]
  rfl

theorem execute_init (onward : 0 < target) :
    machine.execute ⟨.init, 0, .ofNat target, 0, last, flags⟩ source = (.ok (.jump target, machine), source) := by
  have jumps : Int64.ofNat target ≠ 0 := by
    intro zero
    have value := Int64.toInt_ofNat_of_lt small
    rw [zero] at value
    simp at value
    omega
  simp only [execute, if_neg jumps, jump_ofNat small inside]
  rfl

theorem execute_rewind (named : slot < 256) (isOpen : machine.cursorAt slot = .ok tree) :
    machine.execute ⟨.rewind, .ofNat slot, .ofNat target, 0, last, flags⟩ source =
      match move tree.reset.next source with
      | (.error reason, after) => (.error reason, after)
      | (.ok (true, tree), after) => (.ok (.proceed, machine.setCursor slot tree), after)
      | (.ok (false, tree), after) => (.ok (.jump target, machine.setCursor slot tree), after) := by
  have jumps tree : (machine.setCursor slot tree).jump (.ofNat target) = .ok (.jump target) := jump_ofNat small inside
  simp only [execute, Instruction.cursor_ofNat named, isOpen,
    Using.ok_bind, jumps]
  rw [Using.bind_apply]
  rcases move tree.reset.next source with ⟨_ | ⟨_ | _, _⟩, _⟩ <;> rfl

theorem execute_next (named : slot < 256) (isOpen : machine.cursorAt slot = .ok tree) :
    machine.execute ⟨.next, .ofNat slot, .ofNat target, 0, last, flags⟩ source =
      match move tree.next source with
      | (.error reason, after) => (.error reason, after)
      | (.ok (true, tree), after) => (.ok (.jump target, machine.setCursor slot tree), after)
      | (.ok (false, tree), after) => (.ok (.proceed, machine.setCursor slot tree), after) := by
  have jumps tree : (machine.setCursor slot tree).jump (.ofNat target) = .ok (.jump target) := jump_ofNat small inside
  simp only [execute, Instruction.cursor_ofNat named, isOpen,
    Using.ok_bind, jumps]
  rw [Using.bind_apply]
  rcases move tree.next source with ⟨_ | ⟨_ | _, _⟩, _⟩ <;> rfl

theorem execute_seekGE {start : Int64} {key : List Value} (named : slot < 256)
    (isOpen : machine.cursorAt slot = .ok tree)
    (keyed : machine.key ⟨.seekGE, .ofNat slot, .ofNat target, start, last, flags⟩ = .ok key) :
    machine.execute ⟨.seekGE, .ofNat slot, .ofNat target, start, last, flags⟩ source =
      match move (tree.seekKey key) source with
      | (.error reason, after) => (.error reason, after)
      | (.ok (true, tree), after) => (.ok (.proceed, machine.setCursor slot tree), after)
      | (.ok (false, tree), after) => (.ok (.jump target, machine.setCursor slot tree), after) := by
  have jumps tree : (machine.setCursor slot tree).jump (.ofNat target) = .ok (.jump target) := jump_ofNat small inside
  simp only [execute, keyed, Instruction.cursor_ofNat named,
    isOpen, Using.ok_bind, jumps]
  rw [Using.bind_apply]
  rcases move (tree.seekKey key) source with ⟨_ | ⟨_ | _, _⟩, _⟩ <;> rfl

theorem execute_idxGT {start : Int64} {key : List Value}
    (keyed : machine.key ⟨.idxGT, other, .ofNat target, start, last, flags⟩ = .ok key)
    (here : machine.record ⟨.idxGT, other, .ofNat target, start, last, flags⟩ = .ok record) :
    machine.execute ⟨.idxGT, other, .ofNat target, start, last, flags⟩ source =
      (.ok (if record.comparePrefix key = .gt then .jump target else .proceed, machine), source) := by
  simp only [execute, keyed, here, jump_ofNat small inside, Using.ok_bind]
  split <;> rfl

end

theorem execute_transaction (checks : flags ≠ 0) :
    machine.execute ⟨.transaction, 0, 0, other, last, flags⟩ source =
      match (Source.header source : Except Error Header × σ) with
      | (.error reason, after) => (.error reason, after)
      | (.ok header, after) =>
        if other.toInt = header.schemaCookie.toNat then (.ok (.proceed, machine), after)
        else (.error (.machine (.schemaMismatch other header.schemaCookie)), after) := by
  simp only [execute, ne_eq, not_true_eq_false, if_false, checks, not_false_eq_true, true_and]
  rw [Using.bind_apply]
  rcases (Source.header source : Except Error Header × σ) with ⟨_ | header, after⟩
  · rfl
  · by_cases current : other.toInt = header.schemaCookie.toNat
    · simp [current]
    · simp [current]

theorem execute_transaction_current {header : Header} {after : σ} (checks : flags ≠ 0)
    (asked : Source.header source = (.ok header, after)) (current : other.toInt = header.schemaCookie.toNat) :
    machine.execute ⟨.transaction, 0, 0, other, last, flags⟩ source = (.ok (.proceed, machine), after) := by
  rw [execute_transaction machine source checks, asked]
  exact if_pos current

theorem execute_openRead {root : UInt32} (counted : root ≠ 0) (named : slot < 256) :
    machine.execute ⟨.openRead, .ofNat slot, .ofNat root.toNat, 0, last, flags⟩ source =
      match Tree.openAt root source with
      | (.error reason, after) => (.error reason, after)
      | (.ok tree, after) => (.ok (.proceed, machine.setCursor slot tree), after) := by
  have some : root.toNat ≠ 0 := fun zero => counted (UInt32.toNat_inj.mp zero)
  have below := root.toNat_lt
  have small : root.toNat < 0x8000000000000000 := by omega
  simp only [execute, ne_eq, not_true_eq_false, if_false, Instruction.cursor_ofNat named,
    Instruction.operand_ofNat small _ _ _ below, Using.ok_bind, some, UInt32.ofNat_toNat,
    Using.bind_apply]
  rcases Tree.openAt root source with ⟨_ | _, _⟩ <;> rfl

theorem execute_openRead_ok {root : UInt32} {after : σ} (named : slot < 256) (counted : root ≠ 0)
    (opened : Tree.openAt root source = (.ok tree, after)) :
    machine.execute ⟨.openRead, .ofNat slot, .ofNat root.toNat, 0, last, flags⟩ source =
      (.ok (.proceed, machine.setCursor slot tree), after) := by
  rw [execute_openRead machine source counted named, opened]

theorem record_ok {instruction : Instruction} (named : instruction.cursor = .ok slot)
    (isOpen : machine.cursorAt slot = .ok tree) (here : tree.record? = some record) :
    machine.record instruction = .ok record := by
  simp only [Machine.record, named, bind, Except.bind, isOpen, here]

theorem execute_column (named : slot < 256) (isOpen : machine.cursorAt slot = .ok tree) (here : tree.record? = some record)
    (stored : register < 65536) (small : index < 0x8000000000000000) :
    machine.execute ⟨.column, .ofNat slot, .ofNat index, .ofNat register, last, flags⟩ source =
      (.ok (.proceed, { machine with
        registers := machine.registers.set register (record.column index).value
        row := machine.row.push (record.column index).value }), source) := by
  have below : index < UInt64.size - 1 := by
    rw [UInt64.size]
    omega
  simp only [execute, Instruction.register_ofNat stored, Instruction.operand_ofNat small _ _ _ below, Using.ok_bind,
    record_ok machine (Instruction.cursor_ofNat named _ _ _ _ _) isOpen here]
  rfl

theorem execute_string8 (stored : register < 65536) (words : String) :
    machine.execute ⟨.string8, 0, .ofNat register, 0, .text words, flags⟩ source =
      (.ok (.proceed, { machine with registers := machine.registers.set register (.text words) }), source) := by
  simp only [execute, Instruction.register_ofNat stored]
  rfl

theorem execute_cast {affinity : Affinity} {registers : Registers} (stored : register < 65536)
    (named : Affinity.ofCode other = .ok affinity) (cast : machine.registers.cast register affinity = .ok registers) :
    machine.execute ⟨.cast, .ofNat register, other, 0, last, flags⟩ source =
      (.ok (.proceed, { machine with registers }), source) := by
  simp only [execute, Instruction.register_ofNat stored, named, Using.ok_bind, cast]
  rfl

theorem execute_isNull (stored : register < 65536) (filled : (machine.registers.get register).isNull = false) :
    machine.execute ⟨.isNull, .ofNat register, other, 0, last, flags⟩ source = (.ok (.proceed, machine), source) := by
  simp only [execute, Instruction.register_ofNat stored, Using.ok_bind, filled]
  rfl

/-- One register is a key when the fourth operand asks for one. -/
theorem key_single (stored : register < 65536) {opcode : Opcode} {first second : Int64} :
    machine.key ⟨opcode, first, second, .ofNat register, .integer 1, flags⟩ = .ok [machine.registers.get register] := by
  have room : 1 < 65536 - register + 1 := by omega
  have counted : Instruction.operand ⟨opcode, first, second, .ofNat register, .integer 1, flags⟩ .p4 (.ofNat 1) _
      .registerCount = .ok 1 := Instruction.operand_ofNat (by omega) _ _ _ room
  simp only [key, Instruction.register_ofNat stored]
  change (Instruction.operand _ .p4 (.ofNat 1) (65536 - register + 1) .registerCount >>= _) = _
  rw [counted]
  rfl

theorem execute_deferredSeek {first second : Int64} (named : slot < 256) (isOpen : machine.cursorAt slot = .ok tree)
    (here : machine.record ⟨.deferredSeek, first, second, .ofNat slot, last, flags⟩ = .ok record) :
    machine.execute ⟨.deferredSeek, first, second, .ofNat slot, last, flags⟩ source =
      match move (tree.seekRowid record.rowid) source with
      | (.error reason, after) => (.error reason, after)
      | (.ok (true, tree), after) => (.ok (.proceed, machine.setCursor slot tree), after)
      | (.ok (false, _), after) => (.error (.machine (.cursorNotPositioned slot)), after) := by
  have small : slot < 0x8000000000000000 := by omega
  simp only [execute, here, Instruction.operand_ofNat small _ _ _ named, isOpen, Using.ok_bind]
  rw [Using.bind_apply]
  rcases move (tree.seekRowid record.rowid) source with ⟨_ | ⟨_ | _, _⟩, _⟩ <;> rfl

end SqliteReader.Machine
