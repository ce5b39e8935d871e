import SqliteReader.Proofs.LookupRun
import SqliteReader.Proofs.ProgramEnds

/-! The row that a machine gathers beside its registers. Where a program lists at each of its
places which columns have been gathered there, and puts them into registers one after the
other, the row is at every place what these registers hold and what the cursors show, so
that nothing older is ever sent. -/

namespace SqliteReader

variable {σ : Type} [Source σ]

namespace Machine

def listed (machine : Machine) (first count : Nat) : Row :=
  ((List.range count).map fun offset => machine.registers.get (first + offset)).toArray

/-- The value is the column of the record that a cursor is on, the cursor and the column
being given by their numbers. -/
def Shows (machine : Machine) (place : Nat × Nat) (value : Value) : Prop :=
  ∃ tree record, machine.cursorAt place.1 = .ok tree ∧ tree.record? = some record ∧
    value = (record.column place.2).value

/-- The row holds the columns at these places, and so do the registers from `first` on. -/
structure Gathered (machine : Machine) (first : Nat) (places : List (Nat × Nat)) : Prop where
  shown : List.Forall₂ machine.Shows places machine.row.toList
  stored : machine.row = machine.listed first places.length

variable {machine next : Machine} {first : Nat} {places : List (Nat × Nat)}

theorem listed_succ (machine : Machine) (first count : Nat) :
    machine.listed first (count + 1) = (machine.listed first count).push (machine.registers.get (first + count)) := by
  simp [listed, List.range_succ]

theorem listed_congr {count : Nat} {value : Value}
    (set : next.registers = machine.registers.set (first + count) value) :
    next.listed first count = machine.listed first count := by
  simp only [listed]
  congr 1
  apply List.map_congr_left
  intro offset member
  rw [set, Registers.get_set, if_neg]
  have inside := List.mem_range.mp member
  omega

theorem Shows.congr {place : Nat × Nat} {value : Value} (shows : machine.Shows place value)
    (still : next.cursors = machine.cursors) : next.Shows place value := by
  obtain ⟨tree, record, isOpen, here, same⟩ := shows
  exact ⟨tree, record, by rw [cursorAt, still]; exact isOpen, here, same⟩

theorem gathered_nil (nothing : machine.row = #[]) : machine.Gathered first [] :=
  ⟨by rw [nothing]; exact .nil, nothing⟩

theorem Gathered.row_nil (gathered : machine.Gathered first []) : machine.row = #[] := gathered.stored

theorem Gathered.read {slot index : Nat} {tree : Tree} {record : Record} (gathered : machine.Gathered first places)
    (isOpen : machine.cursorAt slot = .ok tree) (here : tree.record? = some record)
    (still : next.cursors = machine.cursors)
    (registers : next.registers = machine.registers.set (first + places.length) (record.column index).value)
    (row : next.row = machine.row.push (record.column index).value) :
    next.Gathered first (places ++ [(slot, index)]) where
  shown := by
    rw [row, Array.toList_push]
    have shown := gathered.shown.imp fun _ _ shows => shows.congr still
    have added : machine.Shows (slot, index) (record.column index).value := ⟨tree, record, isOpen, here, rfl⟩
    exact List.rel_append shown (.cons (added.congr still) .nil)
  stored := by
    rw [List.length_append, List.length_singleton, listed_succ, listed_congr registers, ← gathered.stored, row,
      registers, Registers.get_set, if_pos rfl]

end Machine

/-- A program that gathers at each of its places what is listed for it. Only reading a column
adds to that, and the row is sent whole, from the registers that hold it. -/
structure Program.Gathers (program : Program) (first : Nat) (held : Nat → List (Nat × Nat)) : Prop where
  start : held 0 = []
  read : ∀ (counter : Nat) (instruction : Instruction), program.instructions[counter]? = some instruction →
    instruction.opcode = .column → ∀ slot index : Nat, instruction.p1.toInt = slot → instruction.p2.toInt = index →
      instruction.p3.toInt = first + (held counter).length ∧ held (counter + 1) = held counter ++ [(slot, index)]
  sent : ∀ (counter : Nat) (instruction : Instruction), program.instructions[counter]? = some instruction →
    instruction.opcode = .resultRow →
      instruction.p1.toInt = first ∧ instruction.p2.toInt = (held counter).length ∧ held (counter + 1) = []
  plain : ∀ (counter : Nat) (instruction : Instruction), program.instructions[counter]? = some instruction →
    instruction.opcode.fills = false → held counter = [] ∧ (instruction.opcode ≠ .halt → held (counter + 1) = []) ∧
      ∀ target : Nat, instruction.opcode.jumps = true → (target : Int) = instruction.p2.toInt → held target = []

namespace Opcode

variable {opcode : Opcode}

theorem fills_of_jumps (names : opcode.jumps = true) : opcode.fills = false := by
  cases opcode <;> first | rfl | cases names

theorem fills_of_stirs (stirs : opcode.stirs = true) : opcode.fills = false := by
  cases opcode <;> first | rfl | cases stirs

end Opcode

namespace Machine

variable {machine next : Machine} {instruction : Instruction} {effect : Effect}

theorem Outcome.row_of_plain (outcome : machine.Outcome instruction effect next)
    (plain : instruction.opcode.fills = false) : next.row = machine.row := by
  cases outcome with
  | read opcode | sent opcode =>
    rw [opcode] at plain
    cases plain
  | passed | halted | jumped | moved | left | stored => rfl

/-- Beyond going on, an instruction reads a column or sends the row. -/
theorem Outcome.fills (outcome : machine.Outcome instruction effect next)
    (fills : ¬ instruction.opcode.fills = false) :
    (∃ (slot index register : Nat) (tree : Tree) (record : Record), instruction.opcode = .column ∧
      instruction.p1.toInt = slot ∧ instruction.p2.toInt = index ∧ instruction.p3.toInt = register ∧
      machine.cursorAt slot = .ok tree ∧ tree.record? = some record ∧ effect = .proceed ∧
      next = { machine with
        registers := machine.registers.set register (record.column index).value
        row := machine.row.push (record.column index).value }) ∨
    instruction.opcode = .resultRow ∧ effect = .emit machine.row ∧ next = { machine with row := #[] } := by
  cases outcome with
  | read opcode cursor column target isOpen here =>
    exact .inl ⟨_, _, _, _, _, opcode, cursor, column, target, isOpen, here, rfl, rfl⟩
  | sent opcode => exact .inr ⟨opcode, rfl, rfl⟩
  | passed _ plain | stored _ plain => exact absurd plain fills
  | halted opcode => exact absurd (by rw [opcode]; rfl) fills
  | jumped names => exact absurd (Opcode.fills_of_jumps names) fills
  | moved stirs | left stirs => exact absurd (Opcode.fills_of_stirs stirs) fills

end Machine

namespace Program.Gathers

variable {first : Nat} {held : Nat → List (Nat × Nat)} {machine next : Machine} {event : Event} {source last : σ}

theorem step (gathers : machine.program.Gathers first held) (gathered : machine.Gathered first (held machine.counter))
    (ran : machine.step source = (.ok (event, next), last)) (going : event ≠ .ended) :
    next.program = machine.program ∧ next.Gathered first (held next.counter) := by
  obtain ⟨instruction, effect, after, here, executed, running, rfl⟩ := Machine.of_step ran going
  have outcome := Machine.execute_outcome executed
  have course : machine.Course instruction effect after := outcome.course
  refine ⟨course.program, ?_⟩
  -- The cursors move, and the way leads elsewhere, only while nothing is gathered.
  by_cases plain : instruction.opcode.fills = false
  · obtain ⟨nothing, onward, jumps⟩ := gathers.plain _ _ here plain
    rw [nothing] at gathered
    have goes : instruction.opcode ≠ .halt := fun halts => running (course.halts halts)
    have leads : held (effect.onward after.counter) = [] := by
      rw [course.counter]
      cases effect with
      | halt => exact absurd rfl running
      | proceed | emit => exact onward goes
      | jump target =>
        obtain ⟨names, same⟩ := course.jumps target rfl
        exact jumps target names same
    have empty : after.row = #[] := (outcome.row_of_plain plain).trans gathered.row_nil
    dsimp only
    rw [leads]
    exact Machine.gathered_nil empty
  · obtain ⟨slot, index, register, tree, record, opcode, cursor, column, target, isOpen, shown, rfl, rfl⟩ |
      ⟨opcode, rfl, rfl⟩ := outcome.fills plain
    · obtain ⟨place, more⟩ := gathers.read _ _ here opcode slot index cursor column
      obtain rfl : register = first + (held machine.counter).length := by omega
      change Machine.Gathered _ first (held (machine.counter + 1))
      rw [more]
      exact gathered.read isOpen shown rfl rfl rfl
    · obtain ⟨-, -, cleared⟩ := gathers.sent _ _ here opcode
      change Machine.Gathered _ first (held (machine.counter + 1))
      rw [cleared]
      exact Machine.gathered_nil rfl

theorem emits {program : Program} {rows : List Row} (gathers : program.Gathers first held)
    (emits : Emits { program } source rows machine last) :
    machine.program = program ∧ machine.Gathered first (held machine.counter) := by
  apply emits.keeps
  · have nothing : held 0 = [] := gathers.start
    refine ⟨rfl, ?_⟩
    dsimp only
    rw [nothing]
    exact Machine.gathered_nil rfl
  · rintro before after event middle between ⟨rfl, gathered⟩ ran going
    exact gathers.step gathered ran going

end Program.Gathers

/-- The instruction sends the registers that it names. They hold the columns at these places,
as the cursors show them now, and nothing is left in the row. -/
def Machine.Sends (machine : Machine) (instruction : Instruction) (source : σ) (places : List (Nat × Nat)) : Prop :=
  ∃ first count : Nat, instruction.p1.toInt = first ∧ instruction.p2.toInt = count ∧
    machine.step source = (.ok (.row (machine.listed first count),
      { machine with row := #[], counter := machine.counter + 1 }), source) ∧
    List.Forall₂ machine.Shows places (machine.listed first count).toList

theorem Program.Gathers.sends {program : Program} {first : Nat} {held : Nat → List (Nat × Nat)} {rows : List Row}
    {machine : Machine} {source between : σ} {instruction : Instruction} (gathers : program.Gathers first held)
    (emits : Emits { program } source rows machine between)
    (here : machine.program.instructions[machine.counter]? = some instruction)
    (opcode : instruction.opcode = .resultRow) : machine.Sends instruction between (held machine.counter) := by
  obtain ⟨rfl, gathered⟩ := gathers.emits emits
  obtain ⟨start, counted, -⟩ := gathers.sent _ _ here opcode
  have ran : machine.execute instruction between =
      (.ok (.emit machine.row, { machine with row := #[] }), between) := by
    simp only [Machine.execute, opcode]
    rfl
  refine ⟨first, (held machine.counter).length, start, counted, ?_, gathered.stored ▸ gathered.shown⟩
  rw [← gathered.stored]
  simp [Machine.step, here, Using.bind_of_ok ran]

namespace Catalog

variable {root table index cookie : Int64} {columns : List String} {key : String}

/-- Inside the loop of a scan the columns before the next one have been read. -/
def scanHeld (count counter : Nat) : List (Nat × Nat) :=
  if 3 ≤ counter ∧ counter ≤ 3 + count then (List.range (counter - 3)).map fun index => (0, index) else []

/-- The key comes from the index, the value from the table. -/
def lookupHeld (counter : Nat) : List (Nat × Nat) :=
  if counter = 10 then [(1, 0)] else if counter = 11 then [(1, 0), (0, 1)] else []

theorem scanHeld_inside {count read : Nat} (inside : read ≤ count) :
    scanHeld count (3 + read) = (List.range read).map fun index => (0, index) := by
  rw [scanHeld, if_pos (by omega), Nat.add_sub_cancel_left]

theorem scanHeld_outside {count counter : Nat} (outside : counter ≤ 3 ∨ 3 + count < counter) :
    scanHeld count counter = [] := by
  rw [scanHeld]
  split
  next inside =>
    obtain rfl : counter = 3 := by omega
    rfl
  next => rfl

theorem scan_resultRow {counter : Nat} {found : Instruction}
    (here : (scan root cookie columns).instructions[counter]? = some found) (opcode : found.opcode = .resultRow) :
    counter = 3 + columns.length := by
  cases scan_at here with
  | resultRow => rfl
  | _ => cases opcode

theorem scan_gathers (fits : columns.length + 8 < 0x8000000000000000) :
    (scan root cookie columns).Gathers 1 (scanHeld columns.length) := by
  have operand {number : Nat} (few : number ≤ columns.length + 6) : (Int64.ofNat number).toInt = number :=
    Int64.toInt_ofNat_of_lt (by omega)
  refine ⟨rfl, ?read, ?sent, ?plain⟩
  case read =>
    intro counter found here opcode slot index cursor column
    cases scan_at here with
    | @column place inside =>
      obtain rfl : 0 = slot := Int.ofNat.inj cursor
      obtain rfl : place = index := Int.ofNat.inj ((operand (by omega)).symm.trans column)
      rw [Nat.add_assoc, scanHeld_inside (by omega), scanHeld_inside inside, List.range_succ, List.map_append]
      refine ⟨?_, rfl⟩
      rw [List.length_map, List.length_range, Int.add_comm]
      exact operand (by omega)
    | _ => cases opcode
  case sent =>
    intro counter found here opcode
    cases scan_at here with
    | resultRow =>
      rw [scanHeld_inside (Nat.le_refl _), List.length_map, List.length_range]
      exact ⟨rfl, operand (by omega), scanHeld_outside (by omega)⟩
    | _ => cases opcode
  case plain =>
    intro counter found here plain
    cases scan_at here with
    | init =>
      refine ⟨scanHeld_outside (by omega), fun _ => scanHeld_outside (by omega), fun target _ same => ?_⟩
      obtain rfl : target = columns.length + 6 := Int.ofNat.inj (same.trans (operand (by omega)))
      exact scanHeld_outside (by omega)
    | rewind =>
      refine ⟨scanHeld_outside (by omega), fun _ => scanHeld_outside (by omega), fun target _ same => ?_⟩
      obtain rfl : target = columns.length + 5 := Int.ofNat.inj (same.trans (operand (by omega)))
      exact scanHeld_outside (by omega)
    | next =>
      refine ⟨scanHeld_outside (by omega), fun _ => scanHeld_outside (by omega), fun target _ same => ?_⟩
      obtain rfl : target = 3 := Int.ofNat.inj same
      exact scanHeld_outside (by omega)
    | goto =>
      refine ⟨scanHeld_outside (by omega), fun _ => scanHeld_outside (by omega), fun target _ same => ?_⟩
      obtain rfl : target = 1 := Int.ofNat.inj same
      exact scanHeld_outside (by omega)
    | openRead | halt | transaction =>
      refine ⟨scanHeld_outside (by omega), fun _ => scanHeld_outside (by omega), fun target names _ => ?_⟩
      cases names
    | column | resultRow => cases plain

theorem lookup_fills {counter : Nat} {found : Instruction}
    (here : (lookup table index cookie key).instructions[counter]? = some found) :
    (found.opcode.fills = false ∧ (counter < 9 ∨ 11 < counter)) ∨
      (counter = 9 ∧ found = instruction .column 1 0 2 0 0) ∨
      (counter = 10 ∧ found = instruction .column 0 1 3 0 0) ∨
      (counter = 11 ∧ found = instruction .resultRow 2 2 0 0 0) := by
  have inside : counter < 15 := (Array.getElem?_eq_some_iff.mp here).1
  interval_cases counter
  all_goals cases here
  all_goals simp [lookup, Opcode.fills, instruction]

theorem lookup_resultRow {counter : Nat} {found : Instruction}
    (here : (lookup table index cookie key).instructions[counter]? = some found) (opcode : found.opcode = .resultRow) :
    counter = 11 := by
  rcases lookup_fills here with ⟨plain, _⟩ | ⟨_, rfl⟩ | ⟨_, rfl⟩ | ⟨last, _⟩
  · rw [opcode] at plain
    cases plain
  · cases opcode
  · cases opcode
  · exact last

theorem lookupHeld_outside {counter : Nat} (outside : counter < 10 ∨ 11 < counter) : lookupHeld counter = [] := by
  rw [lookupHeld, if_neg (by omega), if_neg (by omega)]

theorem lookup_gathers : (lookup table index cookie key).Gathers 2 lookupHeld := by
  refine ⟨rfl, ?read, ?sent, ?plain⟩
  case read =>
    intro counter found here opcode slot column cursor named
    rcases lookup_fills here with ⟨plain, _⟩ | ⟨rfl, rfl⟩ | ⟨rfl, rfl⟩ | ⟨_, rfl⟩
    · rw [opcode] at plain
      cases plain
    · obtain rfl : 1 = slot := Int.ofNat.inj cursor
      obtain rfl : 0 = column := Int.ofNat.inj named
      exact ⟨rfl, rfl⟩
    · obtain rfl : 0 = slot := Int.ofNat.inj cursor
      obtain rfl : 1 = column := Int.ofNat.inj named
      exact ⟨rfl, rfl⟩
    · cases opcode
  case sent =>
    intro counter found here opcode
    rcases lookup_fills here with ⟨plain, _⟩ | ⟨_, rfl⟩ | ⟨_, rfl⟩ | ⟨rfl, rfl⟩
    · rw [opcode] at plain
      cases plain
    · cases opcode
    · cases opcode
    · exact ⟨rfl, rfl, rfl⟩
  case plain =>
    intro counter found here plain
    rcases lookup_fills here with ⟨_, outside⟩ | ⟨_, rfl⟩ | ⟨_, rfl⟩ | ⟨_, rfl⟩
    · refine ⟨lookupHeld_outside (by omega), fun _ => lookupHeld_outside (by omega), fun target names same => ?_⟩
      rcases lookup_jumps here names with ⟨_, operand⟩ | ⟨_, operand⟩ | ⟨_, operand⟩
      all_goals
        rw [operand] at same
        cases Int.ofNat.inj same
        rfl
    · cases plain
    · cases plain
    · cases plain

end Catalog

/-- Whatever its source answers, a program of the catalog sends with every row what the
registers hold that are named for it. A scan sends the columns of the record that its cursor
is on, one after the other, and a lookup the key of the entry and the value of the row that
its two cursors are on, so that nothing read earlier is among them. The columns of a scan are
few enough for an operand to number them, as in every list that a memory holds. -/
theorem rows_match_registers (source : σ) :
    (∀ (root cookie : Int64) (columns : List String), columns.length + 8 < 0x8000000000000000 →
      ∀ (rows : List Row) (machine : Machine) (between : σ) (instruction : Instruction),
        Emits { program := Catalog.scan root cookie columns } source rows machine between →
        machine.program.instructions[machine.counter]? = some instruction → instruction.opcode = .resultRow →
          machine.Sends instruction between ((List.range columns.length).map fun index => (0, index))) ∧
      ∀ (table index cookie : Int64) (key : String) (rows : List Row) (machine : Machine) (between : σ)
        (instruction : Instruction),
        Emits { program := Catalog.lookup table index cookie key } source rows machine between →
        machine.program.instructions[machine.counter]? = some instruction → instruction.opcode = .resultRow →
          machine.Sends instruction between [(1, 0), (0, 1)] := by
  constructor
  · intro root cookie columns fits rows machine between instruction emits here opcode
    have gathers := @Catalog.scan_gathers root cookie columns fits
    have sends := gathers.sends emits here opcode
    rw [(gathers.emits emits).1] at here
    rwa [Catalog.scan_resultRow here opcode, Catalog.scanHeld_inside (Nat.le_refl _)] at sends
  · intro table index cookie key rows machine between instruction emits here opcode
    have gathers := @Catalog.lookup_gathers table index cookie key
    have sends := gathers.sends emits here opcode
    rw [(gathers.emits emits).1] at here
    rwa [Catalog.lookup_resultRow here opcode] at sends

theorem Machine.sender_of_row {machine next : Machine} {row : Row} {source last : σ}
    (ran : machine.step source = (.ok (.row row, next), last)) :
    ∃ instruction, machine.program.instructions[machine.counter]? = some instruction ∧
      instruction.opcode = .resultRow := by
  cases here : machine.program.instructions[machine.counter]? with
  | none =>
    simp only [step, here] at ran
    cases ran
  | some instruction =>
    simp only [step, here] at ran
    obtain ⟨⟨effect, after⟩, middle, executed, ran⟩ := Using.of_bind_ok ran
    cases effect with
    | proceed | jump | halt => cases ran
    | emit sent =>
      have outcome : machine.Outcome instruction (.emit sent) after :=
        execute_outcome executed
      cases outcome with
      | sent opcode => exact ⟨instruction, rfl, opcode⟩
      | jumped _ jumps | left _ _ jumps =>
        obtain ⟨_, impossible, _⟩ := of_jump jumps
        cases impossible

theorem Runs.exists_sender {start : Machine} {source last : σ} {row : Row} {later : List Row} {ending : Option Error}
    (ran : Runs start source (row :: later) ending last) :
    ∃ machine between instruction, Emits start source [] machine between ∧
      machine.program.instructions[machine.counter]? = some instruction ∧ instruction.opcode = .resultRow := by
  generalize all : row :: later = rows at ran
  induction ran with
  | ended | failed => cases all
  | silent stepped _ ih =>
    obtain ⟨machine, between, instruction, emits, here, opcode⟩ := ih all
    exact ⟨machine, between, instruction, .silent stepped emits, here, opcode⟩
  | row stepped _ _ =>
    obtain ⟨instruction, here, opcode⟩ := Machine.sender_of_row stepped
    exact ⟨_, _, instruction, .here, here, opcode⟩

/-- The row of a small file, once scanned for and once looked up. -/
theorem rows_match_registers_row :
    (∃ machine between instruction,
      Emits { program := Catalog.scan 3 7 ["key", "value"] } Sample.file [] machine between ∧
      machine.program.instructions[machine.counter]? = some instruction ∧ instruction.opcode = .resultRow ∧
      machine.Sends instruction between [(0, 0), (0, 1)]) ∧
    ∃ machine between instruction, Emits { program := Catalog.lookup 3 4 7 "k" } Sample.file [] machine between ∧
      machine.program.instructions[machine.counter]? = some instruction ∧ instruction.opcode = .resultRow ∧
      machine.Sends instruction between [(1, 0), (0, 1)] := by
  obtain ⟨scans, lookups⟩ := rows_match_registers Sample.file
  constructor
  · have ran := @Scan.current Sample.file 7 ["key", "value"] 3 _ (by decide) (by decide) Sample.file_header (by decide)
    rw [Sample.findings_row] at ran
    obtain ⟨machine, between, instruction, emits, here, opcode⟩ := ran.exists_sender
    have sends := scans 3 7 ["key", "value"] (by decide) _ _ _ _ emits here opcode
    exact ⟨machine, between, instruction, emits, here, opcode, sends⟩
  · have tableWalk : Sample.file.findings [] 3 none = [Sample.row].map .record := Sample.findings_row
    have indexWalk : Sample.file.findings [] 4 none = [Sample.entry].map .record := Sample.findings_entry
    have ran := @Lookup.runs Sample.file 7 "k" _ _ 3 4 _ Sample.file_header (by decide) tableWalk
      (List.pairwise_singleton _ _) indexWalk (List.pairwise_singleton _ _)
    have told : (Lookup.outcome "k" [Sample.row] [Sample.entry]).1 = [#[.blob [107], .integer 42]] := by decide
    rw [told] at ran
    obtain ⟨machine, between, instruction, emits, here, opcode⟩ := ran.exists_sender
    exact ⟨machine, between, instruction, emits, here, opcode, lookups 3 4 7 "k" _ _ _ _ emits here opcode⟩

end SqliteReader
