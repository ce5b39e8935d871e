import SqliteReader.Proofs.InstructionUse

/-! Where a program goes. That after an instruction comes the next one or the one that it
names, and that only few instructions touch a cursor, is read off what it can do. -/

namespace SqliteReader
namespace Machine

/-- A target that is accepted is the place of an instruction. -/
theorem jump_ok_iff {machine : Machine} {target : Int64} {effect : Effect} :
    machine.jump target = .ok effect ↔
      ∃ address : Nat, target.toInt = address ∧ address < machine.program.instructions.size ∧ effect = .jump address := by
  unfold jump
  split
  next inside =>
    obtain ⟨address, same⟩ := Int.eq_ofNat_of_zero_le inside.1
    simp only [same, Int.toNat_natCast, Except.ok.injEq] at inside ⊢
    constructor
    · rintro rfl
      exact ⟨address, rfl, by omega, rfl⟩
    · rintro ⟨other, equal, _, rfl⟩
      rw [Int.ofNat.inj equal]
  next outside =>
    constructor
    · intro impossible
      cases impossible
    · rintro ⟨address, same, inside, _⟩
      omega

theorem of_jump {machine : Machine} {target : Int64} {effect : Effect} (jumps : machine.jump target = .ok effect) :
    ∃ address : Nat, effect = .jump address ∧ address = target.toInt := by
  obtain ⟨address, same, _, rfl⟩ := jump_ok_iff.mp jumps
  exact ⟨address, rfl, same.symm⟩

/-- What every instruction that does not fail keeps to. -/
structure Course (machine : Machine) (instruction : Instruction) (effect : Effect) (next : Machine) : Prop where
  program : next.program = machine.program
  counter : next.counter = machine.counter
  jumps : ∀ target, effect = .jump target → instruction.opcode.jumps = true ∧ target = instruction.p2.toInt
  halts : instruction.opcode = .halt → effect = .halt
  still : instruction.opcode.stirs = false → next.cursors = machine.cursors

namespace Course

variable {machine : Machine} {instruction : Instruction}

theorem onward {next : Machine} (program : next.program = machine.program) (counter : next.counter = machine.counter)
    (goes : instruction.opcode ≠ .halt) (still : instruction.opcode.stirs = false → next.cursors = machine.cursors) :
    machine.Course instruction .proceed next :=
  ⟨program, counter, (fun _ impossible => by cases impossible), fun halts => absurd halts goes, still⟩

theorem jumped {next : Machine} {effect : Effect} (program : next.program = machine.program)
    (counter : next.counter = machine.counter) (names : instruction.opcode.jumps = true)
    (jumps : next.jump instruction.p2 = .ok effect)
    (still : instruction.opcode.stirs = false → next.cursors = machine.cursors) :
    machine.Course instruction effect next := by
  obtain ⟨address, rfl, same⟩ := of_jump jumps
  refine ⟨program, counter, ?_, ?_, still⟩
  · intro target reached
    cases reached
    exact ⟨names, same⟩
  · intro halts
    rw [halts] at names
    cases names

end Course

theorem Outcome.course {machine next : Machine} {instruction : Instruction} {effect : Effect}
    (outcome : machine.Outcome instruction effect next) : machine.Course instruction effect next := by
  cases outcome with
  | passed goes => exact .onward rfl rfl goes fun _ => rfl
  | halted => exact ⟨rfl, rfl, (fun _ impossible => by cases impossible), fun _ => rfl, fun _ => rfl⟩
  | jumped names jumps => exact .jumped rfl rfl names jumps fun _ => rfl
  | moved stirs =>
    refine .onward rfl rfl (fun halts => ?_) fun still => absurd (still.symm.trans stirs) Bool.false_ne_true
    rw [halts] at stirs
    cases stirs
  | left stirs names jumps =>
    exact .jumped rfl rfl names jumps fun still => absurd (still.symm.trans stirs) Bool.false_ne_true
  | stored goes => exact .onward rfl rfl goes fun _ => rfl
  | read opcode => exact .onward rfl rfl (by simp [opcode]) fun _ => rfl
  | sent opcode =>
    exact ⟨rfl, rfl, (fun _ impossible => by cases impossible), (by simp [opcode]), fun _ => rfl⟩

theorem execute_course {σ : Type} [Source σ] {machine next : Machine} {instruction : Instruction} {source last : σ}
    {effect : Effect} (ran : machine.execute instruction source = (.ok (effect, next), last)) :
    machine.Course instruction effect next :=
  (execute_outcome ran).course

end Machine
end SqliteReader
