import Mathlib.Data.List.Perm.Basic
import Mathlib.Logic.Hydra
import Mathlib.Tactic.IntervalCases
import SqliteReader.Proofs.ProgramCourse
import SqliteReader.Proofs.ScanRun

/-! Programs that come to an end. Where every way on leads downwards, but for the way back to
a record that a cursor has moved on to, a run ends after finitely many instructions, whatever
its source answers. -/

namespace SqliteReader

variable {σ : Type} [Source σ]

namespace Machine

/-- The ways of the cursors, each with what it has left to walk. -/
def remaining (machine : Machine) : Multiset (List Frame) :=
  machine.cursors.toList.map fun cursor => (cursor.map Tree.frames).getD []

/-- One of the ways shrinks, and the others stay. -/
def Shrinks : Multiset (List Frame) → Multiset (List Frame) → Prop :=
  Relation.CutExpand (Relation.TransGen SqliteReader.Shrinks)

variable {machine next after : Machine} {source last : σ} {slot : Nat} {tree moved : Tree}

theorem cursor_of_cursorAt (isOpen : machine.cursorAt slot = .ok tree) : machine.cursors[slot]? = some (some tree) := by
  unfold cursorAt at isOpen
  split at isOpen
  next here =>
    cases isOpen
    exact here
  next => cases isOpen

theorem setCursor_shrinks (isOpen : machine.cursorAt slot = .ok tree)
    (smaller : Relation.TransGen SqliteReader.Shrinks moved.frames tree.frames) :
    Shrinks (machine.setCursor slot moved).remaining machine.remaining := by
  have here := cursor_of_cursorAt isOpen
  obtain ⟨inside, same⟩ := Array.getElem?_eq_some_iff.mp here
  have present : slot + 1 - machine.cursors.size = 0 := by omega
  simp only [remaining, setCursor, present, Array.replicate_zero, Array.append_empty, Array.toList_setIfInBounds,
    List.map_set, Option.map_some, Option.getD_some]
  generalize listed : machine.cursors.toList.map (fun cursor => (cursor.map Tree.frames).getD []) = ways
  have within : slot < ways.length := by simpa [← listed] using inside
  have before : ways[slot] = tree.frames := by simp [← listed, same]
  have others (way : List Frame) : ((way :: ways.eraseIdx slot : List (List Frame)) : Multiset (List Frame)) =
      (ways.eraseIdx slot : Multiset (List Frame)) + {way} := by
    rw [← Multiset.cons_coe, ← Multiset.singleton_add, add_comm]
  rw [Multiset.coe_eq_coe.mpr (List.set_perm_cons_eraseIdx within moved.frames),
    ← Multiset.coe_eq_coe.mpr (List.getElem_cons_eraseIdx_perm within), before, others, others]
  exact Relation.cutExpand_add_single _ smaller

theorem execute_next_jump {instruction : Instruction} {target : Nat} (opcode : instruction.opcode = .next)
    (ran : machine.execute instruction source = (.ok (.jump target, next), last)) :
    Shrinks next.remaining machine.remaining := by
  simp only [execute, opcode] at ran
  obtain ⟨slot, _, _, ran⟩ := Using.of_bind_ok ran
  obtain ⟨tree, _, isOpen, ran⟩ := Using.of_bind_ok ran
  obtain ⟨⟨found, after⟩, _, walked, ran⟩ := Using.of_bind_ok ran
  cases found with
  | false => cases ran
  | true =>
    obtain ⟨effect, _, _, done⟩ := Using.of_bind_ok ran
    cases done
    exact setCursor_shrinks (Using.of_lift_ok isOpen) (Tree.next_found_shrinks (of_move_found walked))

end Machine

/-- Where an instruction goes on that is not the end. -/
def Effect.onward (counter : Nat) : Effect → Nat
  | .jump target => target
  | _ => counter + 1

theorem Machine.of_step {machine next : Machine} {event : Event} {source last : σ}
    (ran : machine.step source = (.ok (event, next), last)) (going : event ≠ .ended) :
    ∃ instruction effect after, machine.program.instructions[machine.counter]? = some instruction ∧
      machine.execute instruction source = (.ok (effect, after), last) ∧ effect ≠ .halt ∧
      next = { after with counter := effect.onward after.counter } := by
  cases here : machine.program.instructions[machine.counter]? with
  | none =>
    simp only [step, here] at ran
    cases ran
    exact absurd rfl going
  | some instruction =>
    simp only [step, here] at ran
    obtain ⟨⟨effect, after⟩, middle, executed, ran⟩ := Using.of_bind_ok ran
    cases effect with
    | halt =>
      cases ran
      exact absurd rfl going
    | proceed | jump | emit =>
      cases ran
      exact ⟨instruction, _, after, rfl, executed, by simp, rfl⟩

/-- On to a lower level or, without moving a cursor, to a lower rank on the same level. -/
def Instruction.Lower (instruction : Instruction) (level rank : Nat → Nat) (counter target : Nat) : Prop :=
  level target < level counter ∨
    instruction.opcode.stirs = false ∧ level target = level counter ∧ rank target < rank counter

/-- A program that leads downwards. Only from a record moved on to it may come back up on
the same level. -/
structure Program.Descends (program : Program) (level rank : Nat → Nat) : Prop where
  onward : ∀ (counter : Nat) (instruction : Instruction), program.instructions[counter]? = some instruction →
    instruction.opcode ≠ .halt → instruction.Lower level rank counter (counter + 1)
  jumps : ∀ (counter target : Nat) (instruction : Instruction), program.instructions[counter]? = some instruction →
    instruction.opcode.jumps = true → (target : Int) = instruction.p2.toInt → instruction.Lower level rank counter target ∨
      instruction.opcode = .next ∧ level target = level counter

namespace Machine

def standing (level rank : Nat → Nat) (machine : Machine) : Nat × Multiset (List Frame) × Nat :=
  (level machine.counter, machine.remaining, rank machine.counter)

def Sinks : Nat × Multiset (List Frame) × Nat → Nat × Multiset (List Frame) × Nat → Prop :=
  Prod.Lex (· < ·) (Prod.Lex Shrinks (· < ·))

theorem wellFounded_sinks : WellFounded Sinks :=
  WellFounded.prod_lex wellFounded_lt (WellFounded.prod_lex wellFounded_shrinks.transGen.cutExpand wellFounded_lt)

end Machine

namespace Program.Descends

variable {program : Program} {level rank : Nat → Nat} {machine next : Machine} {event : Event} {source last : σ}

private theorem sinks {instruction : Instruction} {target : Nat} {before after : Machine}
    (lower : instruction.Lower level rank before.counter target)
    (still : instruction.opcode.stirs = false → after.cursors = before.cursors) :
    Machine.Sinks (Machine.standing level rank { after with counter := target }) (before.standing level rank) := by
  rcases lower with lower | ⟨stays, same, lower⟩
  · exact Prod.Lex.left _ _ lower
  · have left : Machine.remaining { after with counter := target } = before.remaining := by
      rw [Machine.remaining, Machine.remaining, still stays]
    rw [Machine.standing, Machine.standing, same, left]
    exact Prod.Lex.right _ (Prod.Lex.right _ lower)

theorem step (descends : machine.program.Descends level rank) (ran : machine.step source = (.ok (event, next), last))
    (going : event ≠ .ended) :
    next.program = machine.program ∧ Machine.Sinks (next.standing level rank) (machine.standing level rank) := by
  obtain ⟨instruction, effect, after, here, executed, running, rfl⟩ := Machine.of_step ran going
  have course := Machine.execute_course executed
  refine ⟨course.program, ?_⟩
  have goes : instruction.opcode ≠ .halt := fun halts => running (course.halts halts)
  have lower := descends.onward _ _ here goes
  cases effect with
  | halt => exact absurd rfl running
  | proceed | emit =>
    have same : after.counter = machine.counter := course.counter
    simp only [Effect.onward, same]
    exact sinks lower course.still
  | jump target =>
    obtain ⟨names, same⟩ := course.jumps target rfl
    rcases descends.jumps _ _ _ here names same with lower | ⟨opcode, level⟩
    · exact sinks lower course.still
    · have shrunk : Machine.Shrinks after.remaining machine.remaining := Machine.execute_next_jump opcode executed
      rw [Machine.standing, Machine.standing, Effect.onward, level]
      exact Prod.Lex.right _ (Prod.Lex.left _ _ shrunk)

theorem runs (descends : machine.program.Descends level rank) (source : σ) :
    ∃ rows ending last, Runs machine source rows ending last := by
  -- By the level, then by what the cursors have left to walk, then by the rank.
  induction machine using (InvImage.wf (Machine.standing level rank) Machine.wellFounded_sinks).induction
    generalizing source with
  | _ machine ih =>
    rcases ran : machine.step source with ⟨reason | ⟨event, next⟩, middle⟩
    · exact ⟨[], some reason, middle, .failed ran⟩
    · cases event with
      | ended => exact ⟨[], none, middle, .ended ran⟩
      | silent =>
        obtain ⟨same, sinks⟩ := descends.step ran (by simp)
        obtain ⟨rows, ending, last, onward⟩ := ih next sinks (same ▸ descends) middle
        exact ⟨rows, ending, last, .silent ran onward⟩
      | row row =>
        obtain ⟨same, sinks⟩ := descends.step ran (by simp)
        obtain ⟨rows, ending, last, onward⟩ := ih next sinks (same ▸ descends) middle
        exact ⟨row :: rows, ending, last, .row ran onward⟩

end Program.Descends

namespace Catalog

/-- The loop of a scan is a level of its own, under the way into it and above the halt. -/
def scanLevel (count counter : Nat) : Nat :=
  if counter = 0 then 6
  else if counter = count + 6 then 5
  else if counter = count + 7 then 4
  else if counter = 1 then 3
  else if counter = 2 then 2
  else if counter ≤ count + 4 then 1
  else 0

def lookupLevel (counter : Nat) : Nat :=
  if counter = 0 then 16 else if counter = 13 then 15 else if counter = 14 then 14 else 13 - counter

variable {root table index cookie : Int64} {columns : List String} {key : String}

/-- Where which instruction of a scan of `count` columns stands. -/
inductive ScanAt (root cookie : Int64) (count : Nat) : Nat → Instruction → Prop
  | init : ScanAt root cookie count 0 (instruction .init 0 (Int64.ofNat (count + 6)) 0 0 0)
  | openRead : ScanAt root cookie count 1 (instruction .openRead 0 root 0 (Int64.ofNat count) 0)
  | rewind : ScanAt root cookie count 2 (instruction .rewind 0 (Int64.ofNat (count + 5)) 0 0 0)
  | column {index : Nat} (inside : index < count) :
      ScanAt root cookie count (3 + index) (instruction .column 0 (Int64.ofNat index) (Int64.ofNat (index + 1)) 0 0)
  | resultRow : ScanAt root cookie count (3 + count) (instruction .resultRow 1 (Int64.ofNat count) 0 0 0)
  | next : ScanAt root cookie count (3 + count + 1) (instruction .next 0 3 0 0 1)
  | halt : ScanAt root cookie count (3 + count + 2) (instruction .halt 0 0 0 0 0)
  | transaction : ScanAt root cookie count (3 + count + 3) (instruction .transaction 0 0 cookie 0 1)
  | goto : ScanAt root cookie count (3 + count + 4) (instruction .goto 0 1 0 0 0)

theorem scan_at {counter : Nat} {found : Instruction}
    (here : (scan root cookie columns).instructions[counter]? = some found) :
    ScanAt root cookie columns.length counter found := by
  have inside := (Array.getElem?_eq_some_iff.mp here).1
  rw [scan_size] at inside
  by_cases opening : counter < 3
  · rw [scan_opening opening] at here
    obtain rfl | rfl | rfl : counter = 0 ∨ counter = 1 ∨ counter = 2 := by omega
    all_goals cases here; constructor
  obtain ⟨offset, rfl⟩ := Nat.exists_eq_add_of_le (Nat.le_of_not_lt opening)
  by_cases reading : offset < columns.length
  · rw [scan_reading reading] at here
    cases here
    exact .column reading
  obtain ⟨last, rfl⟩ := Nat.exists_eq_add_of_le (Nat.le_of_not_lt reading)
  rw [← Nat.add_assoc, scan_closing] at here
  rw [← Nat.add_assoc]
  obtain rfl | rfl | rfl | rfl | rfl : last = 0 ∨ last = 1 ∨ last = 2 ∨ last = 3 ∨ last = 4 := by omega
  all_goals cases here; constructor

theorem scan_descends (fits : columns.length + 8 < 0x8000000000000000) :
    (scan root cookie columns).Descends (scanLevel columns.length) fun counter => columns.length + 5 - counter := by
  constructor
  · intro counter found here goes
    cases scan_at here with
    | column inside => exact .inr ⟨rfl, by grind [scanLevel], by dsimp only; omega⟩
    | resultRow => exact .inr ⟨rfl, by grind [scanLevel], by dsimp only; omega⟩
    | halt => exact absurd rfl goes
    | _ => exact .inl (by grind [scanLevel])
  · intro counter target found here names same
    cases scan_at here with
    | init =>
      have operand := Int64.toInt_ofNat_of_lt (show columns.length + 6 < 0x8000000000000000 by omega)
      cases Int.ofNat.inj (same.trans operand)
      exact .inl (.inl (by grind [scanLevel]))
    | rewind =>
      have operand := Int64.toInt_ofNat_of_lt (show columns.length + 5 < 0x8000000000000000 by omega)
      cases Int.ofNat.inj (same.trans operand)
      exact .inl (.inl (by grind [scanLevel]))
    | next =>
      obtain rfl : target = 3 := Int.ofNat.inj same
      exact .inr ⟨rfl, by grind [scanLevel]⟩
    | goto =>
      obtain rfl : target = 1 := Int.ofNat.inj same
      exact .inl (.inl (by grind [scanLevel]))
    | openRead | column | resultRow | halt | transaction => cases names

theorem lookup_jumps {counter : Nat} {found : Instruction}
    (here : (lookup table index cookie key).instructions[counter]? = some found) (names : found.opcode.jumps = true) :
    (counter = 0 ∧ found.p2 = 13) ∨ (counter < 12 ∧ found.p2 = 12) ∨ (counter = 14 ∧ found.p2 = 1) := by
  have inside : counter < 15 := (Array.getElem?_eq_some_iff.mp here).1
  interval_cases counter
  all_goals cases here
  all_goals simp [lookup, instruction, Opcode.jumps] at names ⊢

theorem lookup_descends : (lookup table index cookie key).Descends lookupLevel fun _ => 0 := by
  constructor
  · intro counter found here goes
    have inside : counter < 15 := (Array.getElem?_eq_some_iff.mp here).1
    by_cases last : counter = 12
    · subst last
      cases here
      exact absurd rfl goes
    · exact .inl (by grind [lookupLevel])
  · intro counter target found here names same
    rcases lookup_jumps here names with ⟨rfl, operand⟩ | ⟨before, operand⟩ | ⟨rfl, operand⟩
    all_goals
      rw [operand] at same
      cases Int.ofNat.inj same
      exact .inl (.inl (by grind [lookupLevel]))

end Catalog
end SqliteReader
