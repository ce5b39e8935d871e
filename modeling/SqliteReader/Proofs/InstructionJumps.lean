import SqliteReader.Proofs.ProgramEnds

/-! Jumps. An instruction asks for its jump on a condition of its own; the target that it names
is checked afterwards, the same way for all. A target outside the program ends the run, and
nothing else leads away from the next instruction. -/

namespace SqliteReader

variable {σ : Type}

theorem Using.of_lift_bind_ok {α β : Type} {outcome : Except MachineError α} {next : α → Using σ β} {source last : σ}
    {result : β} (ran : (liftM outcome >>= next : Using σ β) source = (.ok result, last)) :
    ∃ middle, outcome = .ok middle ∧ next middle source = (.ok result, last) := by
  cases outcome with
  | error reason => cases ran
  | ok middle => exact ⟨middle, rfl, ran⟩

variable [Source σ]

namespace Machine

/-- The instruction asks for its jump and leaves the machine and the source like this. -/
inductive Branches (machine : Machine) (instruction : Instruction) (source : σ) : Machine → σ → Prop
  | init (opcode : instruction.opcode = .init) (named : instruction.p2 ≠ 0) :
      Branches machine instruction source machine source
  | goto (opcode : instruction.opcode = .goto) : Branches machine instruction source machine source
  | isNull {register : Nat} (opcode : instruction.opcode = .isNull)
      (named : instruction.register .p1 instruction.p1 = .ok register)
      (null : (machine.registers.get register).isNull = true) : Branches machine instruction source machine source
  | idxGT {key : List Value} {record : Record} (opcode : instruction.opcode = .idxGT)
      (keyed : machine.key instruction = .ok key) (here : machine.record instruction = .ok record)
      (greater : record.comparePrefix key = .gt) : Branches machine instruction source machine source
  | rewind {slot : Nat} {tree after : Tree} {last : σ} (opcode : instruction.opcode = .rewind)
      (named : instruction.cursor = .ok slot) (isOpen : machine.cursorAt slot = .ok tree)
      (empty : move tree.reset.next source = (.ok (false, after), last)) :
      Branches machine instruction source (machine.setCursor slot after) last
  | next {slot : Nat} {tree after : Tree} {last : σ} (opcode : instruction.opcode = .next)
      (named : instruction.cursor = .ok slot) (isOpen : machine.cursorAt slot = .ok tree)
      (found : move tree.next source = (.ok (true, after), last)) :
      Branches machine instruction source (machine.setCursor slot after) last
  | seekGE {slot : Nat} {tree after : Tree} {last : σ} {key : List Value} (opcode : instruction.opcode = .seekGE)
      (keyed : machine.key instruction = .ok key) (named : instruction.cursor = .ok slot)
      (isOpen : machine.cursorAt slot = .ok tree)
      (missed : move (tree.seekKey key) source = (.ok (false, after), last)) :
      Branches machine instruction source (machine.setCursor slot after) last

variable {machine next left : Machine} {instruction : Instruction} {source last : σ} {event : Event}

theorem Branches.program (branches : machine.Branches instruction source left last) : left.program = machine.program := by
  cases branches <;> rfl

/-- Once an instruction asks for its jump only the target is left to check. -/
theorem Branches.execute (branches : machine.Branches instruction source left last) :
    machine.execute instruction source =
      (liftM (left.jump instruction.p2) >>= fun effect => pure (effect, left) : Using σ (Effect × Machine)) last := by
  unfold Machine.execute
  cases branches with
  | init opcode named =>
    rw [opcode]
    exact congrFun (if_neg named) _
  | goto opcode => rw [opcode]
  | isNull opcode named null => simp only [opcode, named, Using.ok_bind, null, if_true]
  | idxGT opcode keyed here greater => simp only [opcode, keyed, here, Using.ok_bind, greater, if_true]
  | rewind opcode named isOpen empty =>
    simp only [opcode, named, isOpen, Using.ok_bind]
    exact Using.bind_of_ok empty
  | next opcode named isOpen found =>
    simp only [opcode, named, isOpen, Using.ok_bind]
    exact Using.bind_of_ok found
  | seekGE opcode keyed named isOpen missed =>
    simp only [opcode, keyed, named, isOpen, Using.ok_bind]
    exact Using.bind_of_ok missed

theorem branches_of_jump {target : Nat} (ran : machine.execute instruction source = (.ok (.jump target, left), last)) :
    machine.Branches instruction source left last := by
  have names := ((execute_course ran).jumps target rfl).1
  cases opcode : instruction.opcode with
  | init =>
    simp only [Machine.execute, opcode] at ran
    split at ran
    · cases ran
    next named =>
      obtain ⟨effect, _, done⟩ := Using.of_lift_bind_ok ran
      cases done
      exact .init opcode named
  | goto =>
    simp only [Machine.execute, opcode] at ran
    obtain ⟨effect, _, done⟩ := Using.of_lift_bind_ok ran
    cases done
    exact .goto opcode
  | isNull =>
    simp only [Machine.execute, opcode] at ran
    obtain ⟨register, named, ran⟩ := Using.of_lift_bind_ok ran
    split at ran
    next null =>
      obtain ⟨effect, _, done⟩ := Using.of_lift_bind_ok ran
      cases done
      exact .isNull opcode named null
    next => cases ran
  | idxGT =>
    simp only [Machine.execute, opcode] at ran
    obtain ⟨key, keyed, ran⟩ := Using.of_lift_bind_ok ran
    obtain ⟨record, here, ran⟩ := Using.of_lift_bind_ok ran
    split at ran
    next greater =>
      obtain ⟨effect, _, done⟩ := Using.of_lift_bind_ok ran
      cases done
      exact .idxGT opcode keyed here greater
    next => cases ran
  | rewind =>
    simp only [Machine.execute, opcode] at ran
    obtain ⟨slot, named, ran⟩ := Using.of_lift_bind_ok ran
    obtain ⟨tree, isOpen, ran⟩ := Using.of_lift_bind_ok ran
    obtain ⟨⟨moved, after⟩, middle, walked, ran⟩ := Using.of_bind_ok ran
    cases moved with
    | true => cases ran
    | false =>
      obtain ⟨effect, _, done⟩ := Using.of_lift_bind_ok ran
      cases done
      exact .rewind opcode named isOpen walked
  | next =>
    simp only [Machine.execute, opcode] at ran
    obtain ⟨slot, named, ran⟩ := Using.of_lift_bind_ok ran
    obtain ⟨tree, isOpen, ran⟩ := Using.of_lift_bind_ok ran
    obtain ⟨⟨moved, after⟩, middle, walked, ran⟩ := Using.of_bind_ok ran
    cases moved with
    | false => cases ran
    | true =>
      obtain ⟨effect, _, done⟩ := Using.of_lift_bind_ok ran
      cases done
      exact .next opcode named isOpen walked
  | seekGE =>
    simp only [Machine.execute, opcode] at ran
    obtain ⟨key, keyed, ran⟩ := Using.of_lift_bind_ok ran
    obtain ⟨slot, named, ran⟩ := Using.of_lift_bind_ok ran
    obtain ⟨tree, isOpen, ran⟩ := Using.of_lift_bind_ok ran
    obtain ⟨⟨found, after⟩, middle, walked, ran⟩ := Using.of_bind_ok ran
    cases found with
    | true => cases ran
    | false =>
      obtain ⟨effect, _, done⟩ := Using.of_lift_bind_ok ran
      cases done
      exact .seekGE opcode keyed named isOpen walked
  | halt | transaction | openRead | column | resultRow | string8 | cast | deferredSeek | unknown =>
    rw [opcode] at names
    cases names

theorem jump_outside {target : Int64}
    (outside : ¬ (0 ≤ target.toInt ∧ target.toInt < machine.program.instructions.size)) :
    machine.jump target = .error (.jumpOutOfRange target machine.program.instructions.size) :=
  if_neg outside

section

variable (here : machine.program.instructions[machine.counter]? = some instruction)
include here

theorem Branches.lands {address : Nat} (branches : machine.Branches instruction source left last)
    (target : instruction.p2.toInt = address) (inside : address < machine.program.instructions.size) :
    machine.step source = (.ok (.silent, { left with counter := address }), last) := by
  have jumps : left.jump instruction.p2 = .ok (.jump address) :=
    jump_ok_iff.mpr ⟨address, target, branches.program ▸ inside, rfl⟩
  have ran : machine.execute instruction source = (.ok (.jump address, left), last) := by
    rw [branches.execute, jumps]
    rfl
  simp [step, here, Using.bind_of_ok ran]

theorem Branches.strays (branches : machine.Branches instruction source left last)
    (outside : ¬ (0 ≤ instruction.p2.toInt ∧ instruction.p2.toInt < machine.program.instructions.size)) :
    Runs machine source []
      (some (.machine (.jumpOutOfRange instruction.p2 machine.program.instructions.size))) last := by
  have same := branches.program
  rw [← same] at outside ⊢
  have ran := branches.execute
  rw [jump_outside outside] at ran
  exact .refused here ran

end

/-- On to the next instruction or to the one that the instruction names. -/
theorem step_goes (ran : machine.step source = (.ok (event, next), last)) (going : event ≠ .ended) :
    ∃ instruction, machine.program.instructions[machine.counter]? = some instruction ∧
      (next.counter = machine.counter + 1 ∨
        ∃ (left : Machine) (address : Nat), machine.Branches instruction source left last ∧
          instruction.p2.toInt = address ∧ address < machine.program.instructions.size ∧
          next = { left with counter := address }) := by
  obtain ⟨instruction, effect, after, here, executed, running, rfl⟩ := of_step ran going
  have course : machine.Course instruction effect after := execute_course executed
  refine ⟨instruction, here, ?_⟩
  cases effect with
  | halt => exact absurd rfl running
  | proceed | emit => exact .inl (congrArg (· + 1) course.counter)
  | jump target =>
    have branches := branches_of_jump executed
    rw [branches.execute] at executed
    obtain ⟨effect, jumps, done⟩ := Using.of_lift_bind_ok executed
    obtain ⟨address, same, inside, rfl⟩ := jump_ok_iff.mp jumps
    cases done
    exact .inr ⟨after, _, branches, same, branches.program ▸ inside, rfl⟩

end Machine
end SqliteReader
