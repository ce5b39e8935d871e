import SqliteReader.Proofs.InstructionJumps
import SqliteReader.Proofs.RowBuffer
import SqliteReader.Proofs.RowExchange

/-! Where a machine can get to, whatever program it is given. Its counter leaves the program
by no more than the one place behind the last instruction, its cursors and registers stay
few, and every operand is the number that it says or ends the run. It comes to its end in
three ways that are no failures. -/

namespace SqliteReader

variable {σ : Type} [Source σ]

namespace Registers

variable {registers : Registers} {index : Nat}

theorem Powered.set (powered : registers.Powered) (value : Value) : (registers.set index value).Powered := by
  rw [Powered, size_set]
  split
  next => exact powered
  next => exact .inr (exists_covering index)

theorem size_set_le {power : Nat} (few : registers.size ≤ 1 <<< power) (small : index < 1 <<< power) (value : Value) :
    (registers.set index value).size ≤ 1 <<< power := by
  rw [size_set]
  split
  next => exact few
  next => exact covering_le small

end Registers

namespace Machine

variable {machine next : Machine} {instruction : Instruction} {source last : σ} {event : Event}

theorem size_setCursor (machine : Machine) (slot : Nat) (tree : Tree) :
    (machine.setCursor slot tree).cursors.size = max machine.cursors.size (slot + 1) := by
  simp only [setCursor, Array.size_setIfInBounds, Array.size_append, Array.size_replicate]
  omega

theorem cursorAt_setCursor (machine : Machine) (slot : Nat) (tree : Tree) :
    (machine.setCursor slot tree).cursorAt slot = .ok tree := by
  have inside : slot < (machine.setCursor slot tree).cursors.size := by
    rw [size_setCursor]
    omega
  have here : (machine.setCursor slot tree).cursors[slot]? = some (some tree) := by
    rw [setCursor, Array.getElem?_setIfInBounds_self_of_lt]
    simpa [setCursor] using inside
  rw [cursorAt, here]

/-- The counter is at an instruction or right behind the last one, and cursors and registers
are few. -/
structure Bounded (machine : Machine) : Prop where
  counter : machine.counter ≤ machine.program.instructions.size
  cursors : machine.cursors.size ≤ 256
  powered : machine.registers.Powered
  registers : machine.registers.size ≤ 65536

theorem Bounded.opened (program : Program) : Bounded { program } :=
  ⟨Nat.zero_le _, Nat.zero_le _, .inl rfl, Nat.zero_le _⟩

theorem Outcome.bounded {effect : Effect} {counter : Nat} (outcome : machine.Outcome instruction effect next)
    (bounded : machine.Bounded) (inside : counter ≤ next.program.instructions.size) :
    Bounded { next with counter } := by
  have cursors := bounded.cursors
  have powered := bounded.powered
  have registers : machine.registers.size ≤ 1 <<< 16 := bounded.registers
  cases outcome with
  | passed | halted | jumped | sent => exact ⟨inside, cursors, powered, registers⟩
  | moved stirs named | left stirs names jumps named =>
    refine ⟨inside, ?_, powered, registers⟩
    change (machine.setCursor _ _).cursors.size ≤ 256
    rw [size_setCursor]
    omega
  | stored goes plain named => exact ⟨inside, cursors, powered.set _, Registers.size_set_le registers named _⟩
  | read opcode cursor column target isOpen here named =>
    exact ⟨inside, cursors, powered.set _, Registers.size_set_le registers named _⟩

theorem Bounded.step (bounded : machine.Bounded) (ran : machine.step source = (.ok (event, next), last))
    (going : event ≠ .ended) : next.program = machine.program ∧ next.Bounded := by
  obtain ⟨found, here, goes⟩ := step_goes ran going
  obtain ⟨instruction, effect, after, _, executed, _, rfl⟩ := of_step ran going
  have outcome : machine.Outcome instruction effect after := execute_outcome executed
  have same := outcome.course.program
  have within : machine.counter < machine.program.instructions.size := (Array.getElem?_eq_some_iff.mp here).1
  refine ⟨same, outcome.bounded bounded ?_⟩
  rw [same]
  rcases goes with onward | ⟨left, address, _, _, inside, reached⟩
  · change effect.onward after.counter = _ at onward
    omega
  · have onward : effect.onward after.counter = address := congrArg Machine.counter reached
    omega

/-- Behind the last instruction or at one that ends the run. -/
def AtEnd (machine : Machine) : Prop :=
  machine.counter = machine.program.instructions.size ∨
    ∃ instruction, machine.program.instructions[machine.counter]? = some instruction ∧ instruction.opcode = .halt

theorem step_ended_iff (bounded : machine.Bounded) (source : σ) :
    (∃ next last, machine.step source = (.ok (.ended, next), last)) ↔ machine.AtEnd := by
  constructor
  · rintro ⟨next, last, ran⟩
    cases here : machine.program.instructions[machine.counter]? with
    | none => exact .inl (Nat.le_antisymm bounded.counter (Array.getElem?_eq_none_iff.mp here))
    | some instruction =>
      refine .inr ⟨instruction, here, ?_⟩
      simp only [Machine.step, here] at ran
      obtain ⟨⟨effect, after⟩, middle, executed, ran⟩ := Using.of_bind_ok ran
      cases effect with
      | proceed | jump | emit => cases ran
      | halt =>
        have outcome : machine.Outcome instruction .halt after :=
          execute_outcome executed
        cases outcome with
        | halted opcode => exact opcode
        | jumped _ jumps | left _ _ jumps =>
          obtain ⟨_, impossible, _⟩ := of_jump jumps
          cases impossible
  · rintro (behind | ⟨instruction, here, halts⟩)
    · have none : machine.program.instructions[machine.counter]? = none :=
        Array.getElem?_eq_none (Nat.le_of_eq behind.symm)
      exact ⟨machine, source, by simp only [Machine.step, none]; rfl⟩
    · have executed : machine.execute instruction source = (.ok (.halt, machine), source) := by
        simp only [Machine.execute, halts]
        rfl
      exact ⟨machine, source, by simp [Machine.step, here, Using.bind_of_ok executed]⟩

/-- A key is what some registers hold that follow each other. -/
theorem key_ok {key : List Value} (keyed : machine.key instruction = .ok key) :
    ∃ first count : Nat, instruction.p3.toInt = first ∧ 0 < count ∧ first + count ≤ 65536 ∧
      key = (List.range' first count).map machine.registers.get := by
  obtain ⟨first, named, keyed⟩ := bind_ok_iff.mp keyed
  obtain ⟨count, counted, keyed⟩ := bind_ok_iff.mp keyed
  cases keyed
  obtain ⟨start, below⟩ := operand_ok_iff.mp named
  have few : count < 65536 - first + 1 := by
    unfold Instruction.registerCount at counted
    split at counted
    next => exact (operand_ok_iff.mp counted).2
    next => cases counted
  refine ⟨first, max count 1, start, by omega, by omega, ?_⟩
  rw [List.range'_eq_map_range, List.map_map]
  rfl

/-- How a machine goes on from where it is. -/
structure Guided (machine : Machine) (source : σ) : Prop where
  ends : (∃ next last, machine.step source = (.ok (.ended, next), last)) ↔ machine.AtEnd
  goes : ∀ event next last, machine.step source = (.ok (event, next), last) → event ≠ .ended →
    ∃ instruction, machine.program.instructions[machine.counter]? = some instruction ∧
      (next.counter = machine.counter + 1 ∨
        ∃ (left : Machine) (address : Nat), machine.Branches instruction source left last ∧
          instruction.p2.toInt = address ∧ address < machine.program.instructions.size ∧
          next = { left with counter := address })
  lands : ∀ instruction left last (address : Nat), machine.program.instructions[machine.counter]? = some instruction →
    machine.Branches instruction source left last → instruction.p2.toInt = address →
    address < machine.program.instructions.size →
      machine.step source = (.ok (.silent, { left with counter := address }), last)
  strays : ∀ instruction left last, machine.program.instructions[machine.counter]? = some instruction →
    machine.Branches instruction source left last →
    ¬ (0 ≤ instruction.p2.toInt ∧ instruction.p2.toInt < machine.program.instructions.size) →
      Runs machine source []
        (some (.machine (.jumpOutOfRange instruction.p2 machine.program.instructions.size))) last
  keys : ∀ instruction, machine.program.instructions[machine.counter]? = some instruction →
    instruction.opcode = .seekGE ∨ instruction.opcode = .idxGT →
      (∃ first count : Nat, instruction.p3.toInt = first ∧ 0 < count ∧ first + count ≤ 65536 ∧
        machine.key instruction = .ok ((List.range' first count).map machine.registers.get)) ∨
      ∃ reason, machine.key instruction = .error reason ∧ Runs machine source [] (some (.machine reason)) source
  opens : ∀ instruction event next last, machine.program.instructions[machine.counter]? = some instruction →
    instruction.opcode = .openRead → machine.step source = (.ok (event, next), last) →
      ∃ (slot : Nat) (root : UInt32) (tree : Tree), instruction.p1.toInt = slot ∧ slot < 256 ∧
        instruction.p2.toInt = root.toNat ∧ Tree.openAt root source = (.ok tree, last) ∧
        next.cursorAt slot = .ok tree

theorem execute_unkeyed {reason : MachineError} (asks : instruction.opcode = .seekGE ∨ instruction.opcode = .idxGT)
    (refused : machine.key instruction = .error reason) (source : σ) :
    machine.execute instruction source = (.error (.machine reason), source) := by
  rcases asks with opcode | opcode
  · simp only [Machine.execute, opcode, refused]
    rfl
  · simp only [Machine.execute, opcode, refused]
    rfl

theorem execute_opens {effect : Effect} (opcode : instruction.opcode = .openRead)
    (ran : machine.execute instruction source = (.ok (effect, next), last)) :
    ∃ (slot : Nat) (root : UInt32) (tree : Tree), instruction.p1.toInt = slot ∧ slot < 256 ∧
      instruction.p2.toInt = root.toNat ∧ Tree.openAt root source = (.ok tree, last) ∧
      next = machine.setCursor slot tree := by
  simp only [Machine.execute, opcode] at ran
  split at ran
  · cases ran
  obtain ⟨slot, named, ran⟩ := Using.of_lift_bind_ok ran
  obtain ⟨root, counted, ran⟩ := Using.of_lift_bind_ok ran
  split at ran
  · cases ran
  obtain ⟨tree, middle, opened, done⟩ := Using.of_bind_ok ran
  cases done
  obtain ⟨cursor, few⟩ := operand_ok_iff.mp named
  obtain ⟨number, small⟩ := operand_ok_iff.mp counted
  exact ⟨slot, .ofNat root, tree, cursor, few, by rw [number, UInt32.toNat_ofNat_of_lt' small], opened, rfl⟩

theorem Bounded.guided (bounded : machine.Bounded) (source : σ) : machine.Guided source where
  ends := step_ended_iff bounded source
  goes _ _ _ := step_goes
  lands _ _ _ _ here branches target inside := branches.lands here target inside
  strays _ _ _ here branches outside := branches.strays here outside
  keys instruction here asks := by
    cases keyed : machine.key instruction with
    | ok key =>
      obtain ⟨first, count, start, some, few, rfl⟩ := key_ok keyed
      exact .inl ⟨first, count, start, some, few, rfl⟩
    | error reason => exact .inr ⟨reason, rfl, .refused here (execute_unkeyed asks keyed source)⟩
  opens instruction event next last here opcode ran := by
    simp only [Machine.step, here] at ran
    obtain ⟨⟨effect, after⟩, middle, executed, ran⟩ := Using.of_bind_ok ran
    obtain ⟨slot, root, tree, cursor, few, number, opened, rfl⟩ := execute_opens opcode executed
    have isOpen := cursorAt_setCursor machine slot tree
    cases effect with
    | proceed | jump | emit | halt =>
      cases ran
      exact ⟨slot, root, tree, cursor, few, number, opened, isOpen⟩

theorem bounded_of_emits {program : Program} {rows : List Row} {between : σ}
    (emits : Emits { program } source rows machine between) : machine.program = program ∧ machine.Bounded := by
  apply emits.keeps
  · exact ⟨rfl, .opened program⟩
  · rintro before after event middle last ⟨rfl, bounded⟩ ran going
    exact bounded.step ran going

end Machine

namespace Exchange

variable {start : Machine} {origin source : σ} {exchange next : Exchange σ} {program : Program} {capacity : Nat}

/-- The worker is somewhere on the way of the run, or the run is over. -/
def Traced (start : Machine) (origin : σ) (exchange : Exchange σ) : Prop :=
  match exchange.errand with
  | .running machine => ∃ rows, Emits start origin rows machine exchange.source
  | .sending row machine => ∃ rows before between, Emits start origin rows before between ∧
      before.step between = (.ok (.row row, machine), exchange.source)
  | _ => True

theorem Traced.works (traced : exchange.Traced start origin) (work : Works exchange next) :
    next.Traced start origin := by
  cases work with
  | goes running stepped =>
    rw [Traced, running] at traced
    obtain ⟨rows, emits⟩ := traced
    exact ⟨rows, emits.then_silent stepped⟩
  | emits running stepped =>
    rw [Traced, running] at traced
    obtain ⟨rows, emits⟩ := traced
    exact ⟨rows, _, _, emits, stepped⟩
  | puts sending | hands sending =>
    rw [Traced, sending] at traced
    obtain ⟨rows, before, between, emits, stepped⟩ := traced
    exact ⟨_, emits.then_row stepped⟩
  | ends | fails | abandons | leaves | reports | forgets | exits => trivial

/-- The one who asks does not touch the run. -/
theorem Traced.asks (traced : exchange.Traced start origin) (ask : Asks exchange next) : next.Traced start origin := by
  cases ask <;> exact traced

theorem traced_of_reached (reached : Reached program capacity source exchange) : exchange.Traced { program } source := by
  induction reached with
  | refl => exact ⟨[], .here⟩
  | tail _ step ih =>
    rcases step with work | ask
    · exact ih.works work
    · exact ih.asks ask

/-- The run is about to end and has not failed. -/
inductive Rests (start : Machine) (origin : σ) (exchange : Exchange σ) : Prop
  | ended {rows : List Row} {machine : Machine} (running : exchange.errand = .running machine)
      (emits : Emits start origin rows machine exchange.source) (atEnd : machine.AtEnd)
  | unheard {rows : List Row} {row : Row} {before after : Machine} {between : σ} {instruction : Instruction}
      (sending : exchange.errand = .sending row after) (unheard : exchange.listening = false)
      (emits : Emits start origin rows before between)
      (here : before.program.instructions[before.counter]? = some instruction) (opcode : instruction.opcode = .resultRow)
      (sent : before.step between = (.ok (.row row, after), exchange.source))

theorem rests_of_works (reached : Reached program capacity source exchange) (work : Works exchange next)
    (left : next.errand = .leaving (.ok ())) : exchange.Rests { program } source := by
  have traced := traced_of_reached reached
  cases work with
  | ends running stopped =>
    rw [Traced, running] at traced
    obtain ⟨rows, emits⟩ := traced
    have bounded := (Machine.bounded_of_emits emits).2
    exact .ended running emits ((Machine.step_ended_iff bounded _).mp ⟨_, _, stopped⟩)
  | abandons sending unheard =>
    rw [Traced, sending] at traced
    obtain ⟨rows, before, between, emits, sent⟩ := traced
    obtain ⟨instruction, here, opcode⟩ := Machine.sender_of_row sent
    exact .unheard sending unheard emits here opcode sent
  | goes | emits | fails | puts | hands | leaves | reports | forgets | exits => cases left

end Exchange

/-- Machines stay within their bounds, whatever program they run and whatever their source
answers. They go on to the next instruction or, where one asks for its jump, to the
instruction that it names, and fail if there is none. Without a failure they stop only
behind the last instruction, at one that halts, or with a row that nobody takes. No operand
is taken for a number that it is not. -/
theorem machines_stay_within (program : Program) (source : σ) :
    (∀ rows machine between, Emits { program } source rows machine between →
      machine.program = program ∧ machine.Bounded ∧ machine.Guided between) ∧
    (∀ capacity (exchange next : Exchange σ), Exchange.Reached program capacity source exchange →
      Exchange.Works exchange next → next.errand = .leaving (.ok ()) → exchange.Rests { program } source) ∧
    ∀ (instruction : Instruction) place number limit role value,
      instruction.operand place number limit role = .ok value ↔ number.toInt = value ∧ value < limit := by
  refine ⟨?_, fun _ _ _ => Exchange.rests_of_works, fun _ _ _ _ _ _ => Machine.operand_ok_iff⟩
  intro rows machine between emits
  obtain ⟨same, bounded⟩ := Machine.bounded_of_emits emits
  exact ⟨same, bounded, bounded.guided between⟩

/-- A jump that leads astray, and a row that nobody waits for. -/
theorem machines_stay_within_astray :
    Runs { program := { instructions := #[{ opcode := .isNull, p1 := 65535, p2 := 0x7FFFFFFFFFFFFFFF }] } } Sample.file
      [] (some (.machine (.jumpOutOfRange 0x7FFFFFFFFFFFFFFF 1))) Sample.file ∧
    ∃ exchange : Exchange Image,
      Exchange.Reached { instructions := #[{ opcode := .resultRow }] } 0 Sample.file exchange ∧
      exchange.Rests { program := { instructions := #[{ opcode := .resultRow }] } } Sample.file := by
  constructor
  · obtain ⟨states, _⟩ := machines_stay_within
      { instructions := #[{ opcode := .isNull, p1 := 65535, p2 := 0x7FFFFFFFFFFFFFFF }] } Sample.file
    obtain ⟨_, _, guided⟩ := states [] _ _ .here
    have named : Instruction.register { opcode := .isNull, p1 := 65535, p2 := 0x7FFFFFFFFFFFFFFF } .p1 65535 =
      .ok 65535 := by decide
    exact guided.strays _ _ _ rfl (.isNull rfl named rfl) (by decide)
  · obtain ⟨_, rests, _⟩ := machines_stay_within { instructions := #[{ opcode := .resultRow }] } Sample.file
    have begun : Exchange.Reached { instructions := #[{ opcode := .resultRow }] } 0 Sample.file _ :=
      .tail (.single (.inl (.emits rfl rfl))) (.inr (.closes rfl))
    exact ⟨_, begun, rests 0 _ _ begun (.abandons rfl rfl) rfl⟩

end SqliteReader
