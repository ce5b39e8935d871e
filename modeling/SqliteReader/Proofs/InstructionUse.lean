import SqliteReader.Proofs.CursorTurns
import SqliteReader.Proofs.RegisterHistory

/-! What one instruction asks of a source and what it can do. It asks at most one thing, and
everything else that it does, refusals included, is settled without the source. -/

namespace SqliteReader

variable {σ α : Type} [Source σ]

namespace Opcode

/-- May go on at the address that its second operand names. -/
def jumps : Opcode → Bool
  | .init | .goto | .rewind | .next | .isNull | .seekGE | .idxGT => true
  | _ => false

/-- Opens or moves a cursor. -/
def stirs : Opcode → Bool
  | .openRead | .rewind | .next | .seekGE | .deferredSeek => true
  | _ => false

/-- Adds to the row or sends it. -/
def fills : Opcode → Bool
  | .column | .resultRow => true
  | _ => false

theorem of_jumps {opcode : Opcode} (names : opcode.jumps = true) : opcode ≠ .halt ∧ opcode.fills = false := by
  cases opcode <;> simp_all [jumps, fills]

end Opcode

namespace Machine

/-- All that an instruction can do when it does not fail. -/
inductive Outcome (machine : Machine) (instruction : Instruction) : Effect → Machine → Prop
  | passed (goes : instruction.opcode ≠ .halt) (plain : instruction.opcode.fills = false) :
      Outcome machine instruction .proceed machine
  | halted (opcode : instruction.opcode = .halt) : Outcome machine instruction .halt machine
  | jumped {effect : Effect} (names : instruction.opcode.jumps = true)
      (jumps : machine.jump instruction.p2 = .ok effect) : Outcome machine instruction effect machine
  | moved {slot : Nat} {tree : Tree} (stirs : instruction.opcode.stirs = true) (named : slot < 256) :
      Outcome machine instruction .proceed (machine.setCursor slot tree)
  | left {slot : Nat} {tree : Tree} {effect : Effect} (stirs : instruction.opcode.stirs = true)
      (names : instruction.opcode.jumps = true)
      (jumps : (machine.setCursor slot tree).jump instruction.p2 = .ok effect) (named : slot < 256) :
      Outcome machine instruction effect (machine.setCursor slot tree)
  | stored {register : Nat} {value : Value} (goes : instruction.opcode ≠ .halt)
      (plain : instruction.opcode.fills = false) (named : register < 65536) :
      Outcome machine instruction .proceed { machine with registers := machine.registers.set register value }
  | read {slot index register : Nat} {tree : Tree} {record : Record} (opcode : instruction.opcode = .column)
      (cursor : instruction.p1.toInt = slot) (column : instruction.p2.toInt = index)
      (target : instruction.p3.toInt = register) (isOpen : machine.cursorAt slot = .ok tree)
      (here : tree.record? = some record) (named : register < 65536) :
      Outcome machine instruction .proceed { machine with
        registers := machine.registers.set register (record.column index).value
        row := machine.row.push (record.column index).value }
  | sent (opcode : instruction.opcode = .resultRow) :
      Outcome machine instruction (.emit machine.row) { machine with row := #[] }

/-- An operand that is accepted is the number itself, and below the limit. -/
theorem operand_ok_iff {instruction : Instruction} {place : Place} {number : Int64} {limit value : Nat} {role : Role} :
    instruction.operand place number limit role = .ok value ↔ number.toInt = value ∧ value < limit := by
  unfold Instruction.operand
  split
  next inside =>
    rw [Except.ok.injEq]
    omega
  next outside =>
    constructor
    · intro impossible
      cases impossible
    · intro inside
      omega

theorem of_operand {instruction : Instruction} {place : Place} {number : Int64} {limit value : Nat} {role : Role}
    (checked : instruction.operand place number limit role = .ok value) : number.toInt = value :=
  (operand_ok_iff.mp checked).1

theorem of_record {machine : Machine} {instruction : Instruction} {record : Record}
    (found : machine.record instruction = .ok record) :
    ∃ (slot : Nat) (tree : Tree), instruction.p1.toInt = slot ∧ machine.cursorAt slot = .ok tree ∧
      tree.record? = some record := by
  unfold Machine.record at found
  obtain ⟨slot, named, found⟩ := bind_ok_iff.mp found
  obtain ⟨tree, isOpen, found⟩ := bind_ok_iff.mp found
  split at found
  next here =>
    cases found
    exact ⟨slot, tree, of_operand named, isOpen, here⟩
  next => cases found

/-- The instruction moves the cursor in a slot, and how. -/
inductive Moves (machine : Machine) (instruction : Instruction) : Nat → Tree → Motion → Prop
  | rewind {slot : Nat} {tree : Tree} (opcode : instruction.opcode = .rewind) (named : instruction.cursor = .ok slot)
      (isOpen : machine.cursorAt slot = .ok tree) : Moves machine instruction slot tree .rewind
  | next {slot : Nat} {tree : Tree} (opcode : instruction.opcode = .next) (named : instruction.cursor = .ok slot)
      (isOpen : machine.cursorAt slot = .ok tree) : Moves machine instruction slot tree .next
  | seekGE {slot : Nat} {tree : Tree} {key : List Value} (opcode : instruction.opcode = .seekGE)
      (keyed : machine.key instruction = .ok key) (named : instruction.cursor = .ok slot)
      (isOpen : machine.cursorAt slot = .ok tree) : Moves machine instruction slot tree (.seekKey key)
  | deferredSeek {slot : Nat} {tree : Tree} {record : Record} (opcode : instruction.opcode = .deferredSeek)
      (here : machine.record instruction = .ok record)
      (named : instruction.operand .p3 instruction.p3 256 .cursor = .ok slot) (isOpen : machine.cursorAt slot = .ok tree) :
      Moves machine instruction slot tree (.seekRowid record.rowid)

namespace Moves

variable {machine : Machine} {instruction : Instruction} {slot : Nat} {tree : Tree} {motion : Motion}

theorem stirs (moves : machine.Moves instruction slot tree motion) : instruction.opcode.stirs = true := by
  cases moves <;> simp [*, Opcode.stirs]

theorem few (moves : machine.Moves instruction slot tree motion) : slot < 256 := by
  cases moves with
  | rewind _ named | next _ named | seekGE _ _ named | deferredSeek _ _ named => exact (operand_ok_iff.mp named).2

/-- The motion comes first, and a failure to move is that of the instruction. -/
theorem failed (moves : machine.Moves instruction slot tree motion) {source last : σ} {reason : Error}
    (stuck : move (motion.act tree) source = (.error reason, last)) :
    machine.execute instruction source = (.error reason, last) := by
  unfold execute
  cases moves with
  | rewind opcode named isOpen | next opcode named isOpen =>
    simp only [opcode, named, isOpen, Using.ok_bind]
    exact Using.bind_of_error stuck
  | seekGE opcode keyed named isOpen =>
    simp only [opcode, keyed, named, isOpen, Using.ok_bind]
    exact Using.bind_of_error stuck
  | deferredSeek opcode here named isOpen =>
    simp only [opcode, here, named, isOpen, Using.ok_bind]
    exact Using.bind_of_error stuck

end Moves

/-- If it succeeds, it is something that the instruction can do, and leaves these cursors. -/
def Gives (machine : Machine) (instruction : Instruction) (cursors : Array (Option Tree))
    (outcome : Except MachineError (Effect × Machine)) : Prop :=
  ∀ effect next, outcome = .ok (effect, next) → machine.Outcome instruction effect next ∧ next.cursors = cursors

/-- A computation that asks nothing of any source. -/
def Settled (machine : Machine) (instruction : Instruction) (cursors : Array (Option Tree))
    (act : ∀ (σ : Type) [Source σ], Using σ (Effect × Machine)) : Prop :=
  ∃ outcome, machine.Gives instruction cursors outcome ∧ ∀ (σ : Type) [Source σ], act σ = liftM outcome

namespace Settled

variable {machine next : Machine} {instruction : Instruction} {cursors : Array (Option Tree)} {effect : Effect}

theorem refused (reason : MachineError) : machine.Settled instruction cursors fun _ _ => throw (.machine reason) :=
  ⟨.error reason, (fun _ _ impossible => by cases impossible), fun _ _ => rfl⟩

theorem done (outcome : machine.Outcome instruction effect next) (kept : next.cursors = cursors) :
    machine.Settled instruction cursors fun _ _ => pure (effect, next) :=
  ⟨.ok (effect, next), (fun _ _ same => by cases same; exact ⟨outcome, kept⟩), fun _ _ => rfl⟩

theorem lift {outcome : Except MachineError α} {rest : α → ∀ (σ : Type) [Source σ], Using σ (Effect × Machine)}
    (onward : ∀ result, outcome = .ok result → machine.Settled instruction cursors (rest result)) :
    machine.Settled instruction cursors fun σ _ => liftM outcome >>= fun result => rest result σ := by
  cases outcome with
  | error reason => exact refused reason
  | ok result => exact onward result rfl

theorem passed (names : instruction.opcode.jumps = true) :
    machine.Settled instruction machine.cursors fun _ _ => pure (.proceed, machine) :=
  done (.passed (Opcode.of_jumps names).1 (Opcode.of_jumps names).2) rfl

theorem jumped (names : instruction.opcode.jumps = true) :
    machine.Settled instruction machine.cursors fun _ _ =>
      liftM (machine.jump instruction.p2) >>= fun effect => pure (effect, machine) :=
  lift fun _ jumps => done (.jumped names jumps) rfl

/-- A jump on a condition. -/
theorem branches (names : instruction.opcode.jumps = true) (condition : Prop) [Decidable condition] :
    machine.Settled instruction machine.cursors fun _ _ =>
      if condition then liftM (machine.jump instruction.p2) >>= fun effect => pure (effect, machine)
      else pure (.proceed, machine) := by
  split
  · exact jumped names
  · exact passed names

section

variable {slot : Nat} {tree : Tree} {motion : Motion} (moves : machine.Moves instruction slot tree motion) {after : Tree}
include moves

theorem moved : machine.Settled instruction (machine.setCursor slot after).cursors fun _ _ =>
    pure (.proceed, machine.setCursor slot after) :=
  done (.moved moves.stirs moves.few) rfl

theorem left (names : instruction.opcode.jumps = true) :
    machine.Settled instruction (machine.setCursor slot after).cursors fun _ _ =>
      liftM ((machine.setCursor slot after).jump instruction.p2) >>= fun effect =>
        pure (effect, machine.setCursor slot after) :=
  lift fun _ jumps => done (.left moves.stirs names jumps moves.few) rfl

end

end Settled

/-- The one thing that an instruction asks of a source, and what it makes of the answer. -/
inductive Use (machine : Machine) (instruction : Instruction)
  | none (outcome : Except MachineError (Effect × Machine))
      (gives : machine.Gives instruction machine.cursors outcome)
  | header (finish : Header → Except MachineError (Effect × Machine))
      (gives : ∀ header, machine.Gives instruction machine.cursors (finish header))
  | opening (slot : Nat) (root : UInt32) (stirs : instruction.opcode.stirs = true) (few : slot < 256)
  | moving (slot : Nat) (tree : Tree) (motion : Motion) (moves : machine.Moves instruction slot tree motion)
      (finish : Bool → Tree → Except MachineError (Effect × Machine))
      (gives : ∀ found after, machine.Gives instruction (machine.setCursor slot after).cursors (finish found after))

def Use.run {machine : Machine} {instruction : Instruction} : machine.Use instruction → Using σ (Effect × Machine)
  | .none outcome _ => liftM outcome
  | .header finish _ => do liftM (finish (← Source.header))
  | .opening slot root _ _ => do return (.proceed, machine.setCursor slot (← Tree.openAt root))
  | .moving _ tree motion _ finish _ => do
    let (found, after) ← move (motion.act tree)
    liftM (finish found after)

/-- A computation that asks for one thing, the same of every source. -/
def Uses (machine : Machine) (instruction : Instruction) (act : ∀ (σ : Type) [Source σ], Using σ (Effect × Machine)) :
    Prop :=
  ∃ use : machine.Use instruction, ∀ (σ : Type) [Source σ], act σ = use.run

namespace Uses

variable {machine next : Machine} {instruction : Instruction} {effect : Effect}

theorem settled {act : ∀ (σ : Type) [Source σ], Using σ (Effect × Machine)}
    (still : machine.Settled instruction machine.cursors act) : machine.Uses instruction act := by
  obtain ⟨outcome, gives, same⟩ := still
  exact ⟨.none outcome gives, same⟩

theorem refused (reason : MachineError) : machine.Uses instruction fun _ _ => throw (.machine reason) :=
  settled (.refused reason)

theorem done (outcome : machine.Outcome instruction effect next) (kept : next.cursors = machine.cursors) :
    machine.Uses instruction fun _ _ => pure (effect, next) :=
  settled (.done outcome kept)

theorem lift {outcome : Except MachineError α} {rest : α → ∀ (σ : Type) [Source σ], Using σ (Effect × Machine)}
    (onward : ∀ result, outcome = .ok result → machine.Uses instruction (rest result)) :
    machine.Uses instruction fun σ _ => liftM outcome >>= fun result => rest result σ := by
  cases outcome with
  | error reason => exact refused reason
  | ok result => exact onward result rfl

theorem header {rest : Header → ∀ (σ : Type) [Source σ], Using σ (Effect × Machine)}
    (still : ∀ header, machine.Settled instruction machine.cursors (rest header)) :
    machine.Uses instruction fun σ _ => Source.header >>= fun header => rest header σ := by
  refine ⟨.header (fun header => (still header).choose) fun header => (still header).choose_spec.1, ?_⟩
  intro σ _
  apply congrArg (Source.header >>= ·)
  funext header
  exact (still header).choose_spec.2 σ

theorem moving {slot : Nat} {tree : Tree} {motion : Motion} (moves : machine.Moves instruction slot tree motion)
    {rest : Bool × Tree → ∀ (σ : Type) [Source σ], Using σ (Effect × Machine)}
    (still : ∀ found after,
      machine.Settled instruction (machine.setCursor slot after).cursors (rest (found, after))) :
    machine.Uses instruction fun σ _ => move (motion.act tree) >>= fun moved => rest moved σ := by
  refine ⟨.moving slot tree motion moves (fun found after => (still found after).choose)
    fun found after => (still found after).choose_spec.1, ?_⟩
  intro σ _
  apply congrArg (move (motion.act tree) >>= ·)
  funext moved
  obtain ⟨found, after⟩ := moved
  exact (still found after).choose_spec.2 σ

/-- The cursor of a slot is moved. -/
theorem travels {motion : Motion} {named : Except MachineError Nat}
    {rest : Nat → Bool × Tree → ∀ (σ : Type) [Source σ], Using σ (Effect × Machine)}
    (moves : ∀ {slot tree}, named = .ok slot → machine.cursorAt slot = .ok tree → machine.Moves instruction slot tree motion)
    (still : ∀ slot tree, machine.Moves instruction slot tree motion → ∀ found after,
      machine.Settled instruction (machine.setCursor slot after).cursors (rest slot (found, after))) :
    machine.Uses instruction fun σ _ => liftM named >>= fun slot => liftM (machine.cursorAt slot) >>= fun tree =>
      move (motion.act tree) >>= fun moved => rest slot moved σ :=
  lift fun slot named => lift fun tree isOpen => moving (moves named isOpen) (still slot tree (moves named isOpen))

end Uses

theorem execute_uses (machine : Machine) (instruction : Instruction) :
    ∃ use : machine.Use instruction, ∀ (σ : Type) [Source σ], machine.execute instruction = use.run (σ := σ) := by
  change machine.Uses instruction fun _ _ => machine.execute instruction
  unfold execute
  cases opcode : instruction.opcode with
  | init =>
    have names : instruction.opcode.jumps = true := by rw [opcode]; rfl
    dsimp only
    split
    · exact .settled (.passed names)
    · exact .settled (.jumped names)
  | goto => exact .settled (.jumped (by rw [opcode]; rfl))
  | halt => exact .done (.halted opcode) rfl
  | isNull =>
    apply Uses.lift
    intro register stored
    exact .settled (.branches (by rw [opcode]; rfl) _)
  | idxGT =>
    apply Uses.lift
    intro key keyed
    apply Uses.lift
    intro record here
    exact .settled (.branches (by rw [opcode]; rfl) _)
  | transaction =>
    dsimp only
    split
    · exact .refused _
    split
    · exact .refused _
    apply Uses.header
    intro header
    split
    · exact .refused _
    · exact .done (.passed (by simp [opcode]) (by rw [opcode]; rfl)) rfl
  | openRead =>
    dsimp only
    split
    · exact .refused _
    apply Uses.lift
    intro slot named
    apply Uses.lift
    intro root counted
    split
    · exact .refused _
    · exact ⟨.opening slot (UInt32.ofNat root) (by rw [opcode]; rfl) (operand_ok_iff.mp named).2, fun _ _ => rfl⟩
  | rewind =>
    apply Uses.travels (.rewind opcode)
    intro slot tree moves found after
    cases found with
    | true => exact .moved moves
    | false => exact .left moves (by rw [opcode]; rfl)
  | next =>
    apply Uses.travels (.next opcode)
    intro slot tree moves found after
    cases found with
    | true => exact .left moves (by rw [opcode]; rfl)
    | false => exact .moved moves
  | seekGE =>
    apply Uses.lift
    intro key keyed
    apply Uses.travels (.seekGE opcode keyed)
    intro slot tree moves found after
    cases found with
    | true => exact .moved moves
    | false => exact .left moves (by rw [opcode]; rfl)
  | deferredSeek =>
    apply Uses.lift
    intro record here
    apply Uses.travels (.deferredSeek opcode here)
    intro slot tree moves found after
    cases found with
    | true => exact .moved moves
    | false => exact .refused _
  | column =>
    apply Uses.lift
    intro register stored
    apply Uses.lift
    intro index below
    apply Uses.lift
    intro record found
    obtain ⟨slot, tree, cursor, isOpen, here⟩ := of_record found
    have target := operand_ok_iff.mp stored
    exact .done (.read opcode cursor (of_operand below) target.1 isOpen here target.2) rfl
  | resultRow => exact .done (.sent opcode) rfl
  | string8 =>
    apply Uses.lift
    intro register stored
    split
    · exact .refused _
    · exact .done (.stored (by simp [opcode]) (by rw [opcode]; rfl) (operand_ok_iff.mp stored).2) rfl
  | cast =>
    apply Uses.lift
    intro register stored
    apply Uses.lift
    intro affinity named
    apply Uses.lift
    intro registers cast
    obtain ⟨value, rfl⟩ := Registers.set_of_cast cast
    exact .done (.stored (by simp [opcode]) (by rw [opcode]; rfl) (operand_ok_iff.mp stored).2) rfl
  | unknown name => exact .refused _

variable {machine next : Machine} {instruction : Instruction} {source last : σ} {effect : Effect}

theorem execute_outcome (ran : machine.execute instruction source = (.ok (effect, next), last)) :
    machine.Outcome instruction effect next := by
  obtain ⟨use, same⟩ := machine.execute_uses instruction
  rw [same σ] at ran
  cases use with
  | none outcome gives => exact (gives effect next (Using.of_lift_ok ran)).1
  | header finish gives =>
    obtain ⟨header, _, _, ran⟩ := Using.of_bind_ok ran
    exact (gives header effect next (Using.of_lift_ok ran)).1
  | opening slot root stirs few =>
    obtain ⟨tree, _, _, ran⟩ := Using.of_bind_ok ran
    cases ran
    exact .moved stirs few
  | moving slot tree motion moves finish gives =>
    obtain ⟨⟨found, after⟩, _, _, ran⟩ := Using.of_bind_ok ran
    exact (gives found after effect next (Using.of_lift_ok ran)).1

end Machine
end SqliteReader
