import SqliteReader.Proofs.SourceAgreement

/-! Whole runs of a machine, step after step to their end. A machine has one run at most
from a source, and the same run from every source that answers alike. -/

namespace SqliteReader

variable {σ τ : Type} [Source σ] [Source τ]

/-- A run with the rows it emits and the failure that ends it, if any. -/
inductive Runs : Machine → σ → List Row → Option Error → σ → Prop
  | ended {machine after : Machine} {source last : σ} (stopped : machine.step source = (.ok (.ended, after), last)) :
      Runs machine source [] none last
  | failed {machine : Machine} {source last : σ} {reason : Error} (stopped : machine.step source = (.error reason, last)) :
      Runs machine source [] (some reason) last
  | silent {machine next : Machine} {source middle last : σ} {rows : List Row} {ending : Option Error}
      (stepped : machine.step source = (.ok (.silent, next), middle)) (onward : Runs next middle rows ending last) :
      Runs machine source rows ending last
  | row {machine next : Machine} {source middle last : σ} {row : Row} {rows : List Row} {ending : Option Error}
      (stepped : machine.step source = (.ok (.row row, next), middle)) (onward : Runs next middle rows ending last) :
      Runs machine source (row :: rows) ending last

theorem Runs.unique {machine : Machine} {source last other : σ} {rows others : List Row} {ending result : Option Error}
    (first : Runs machine source rows ending last) (second : Runs machine source others result other) :
    rows = others ∧ ending = result ∧ last = other := by
  induction first generalizing others with
  | ended stopped =>
    cases second with
    | ended same => cases stopped.symm.trans same; exact ⟨rfl, rfl, rfl⟩
    | failed same | silent same _ | row same _ => cases stopped.symm.trans same
  | failed stopped =>
    cases second with
    | failed same => cases stopped.symm.trans same; exact ⟨rfl, rfl, rfl⟩
    | ended same | silent same _ | row same _ => cases stopped.symm.trans same
  | silent stepped onward ih =>
    cases second with
    | silent same rest => cases stepped.symm.trans same; exact ih rest
    | ended same | failed same | row same _ => cases stepped.symm.trans same
  | row stepped onward ih =>
    cases second with
    | row same rest =>
      cases stepped.symm.trans same
      obtain ⟨rfl, ends⟩ := ih rest
      exact ⟨rfl, ends⟩
    | ended same | failed same | silent same _ => cases stepped.symm.trans same

/-- The rows that are emitted on the way from one machine to another. -/
inductive Emits : Machine → σ → List Row → Machine → σ → Prop
  | here {machine : Machine} {source : σ} : Emits machine source [] machine source
  | silent {machine next last : Machine} {source middle final : σ} {rows : List Row}
      (stepped : machine.step source = (.ok (.silent, next), middle)) (onward : Emits next middle rows last final) :
      Emits machine source rows last final
  | row {machine next last : Machine} {source middle final : σ} {row : Row} {rows : List Row}
      (stepped : machine.step source = (.ok (.row row, next), middle)) (onward : Emits next middle rows last final) :
      Emits machine source (row :: rows) last final

namespace Emits

variable {machine middle last : Machine} {source between final : σ} {rows others : List Row}

theorem trans (first : Emits machine source rows middle between) (second : Emits middle between others last final) :
    Emits machine source (rows ++ others) last final := by
  induction first with
  | here => exact second
  | silent stepped _ ih => exact .silent stepped (ih second)
  | row stepped _ ih => exact .row stepped (ih second)

theorem runs {ending : Option Error} (first : Emits machine source rows middle between)
    (rest : Runs middle between others ending final) : Runs machine source (rows ++ others) ending final := by
  induction first with
  | here => exact rest
  | silent stepped _ ih => exact .silent stepped (ih rest)
  | row stepped _ ih => exact .row stepped (ih rest)

section

variable {next : Machine} {after : σ} (emits : Emits machine source rows last final)
include emits

theorem then_silent (stepped : last.step final = (.ok (.silent, next), after)) : Emits machine source rows next after := by
  rw [← List.append_nil rows]
  exact emits.trans (.silent stepped .here)

theorem then_row {row : Row} (stepped : last.step final = (.ok (.row row, next), after)) :
    Emits machine source (rows ++ [row]) next after :=
  emits.trans (.row stepped .here)

theorem then_ended (stopped : last.step final = (.ok (.ended, next), after)) : Runs machine source rows none after := by
  rw [← List.append_nil rows]
  exact emits.runs (.ended stopped)

theorem then_failed {reason : Error} (stopped : last.step final = (.error reason, after)) :
    Runs machine source rows (some reason) after := by
  rw [← List.append_nil rows]
  exact emits.runs (.failed stopped)

end

/-- What every step keeps is kept all the way. -/
theorem keeps {good : Machine → Prop} (emits : Emits machine source rows last final) (began : good machine)
    (kept : ∀ (before after : Machine) (event : Event) (middle between : σ), good before →
      before.step middle = (.ok (event, after), between) → event ≠ .ended → good after) : good last := by
  induction emits with
  | here => exact began
  | silent stepped _ ih => exact ih (kept _ _ _ _ _ began stepped (by simp))
  | row stepped _ ih => exact ih (kept _ _ _ _ _ began stepped (by simp))

/-- A part of the rows has been emitted somewhere on the way. -/
theorem cut (emits : Emits machine source rows last final) (split : others <+: rows) :
    ∃ middle between, Emits machine source others middle between := by
  induction emits generalizing others with
  | here =>
    cases List.prefix_nil.mp split
    exact ⟨_, _, .here⟩
  | silent stepped _ ih =>
    obtain ⟨middle, between, emits⟩ := ih split
    exact ⟨middle, between, .silent stepped emits⟩
  | row stepped _ ih =>
    rcases List.prefix_cons_iff.mp split with rfl | ⟨rest, rfl, shorter⟩
    · exact ⟨_, _, .here⟩
    · obtain ⟨middle, between, emits⟩ := ih shorter
      exact ⟨middle, between, .row stepped emits⟩

/-- The rest of a run that has got somewhere. -/
theorem rest_runs {ending : Option Error} (emits : Emits machine source rows middle between)
    (ran : Runs machine source others ending final) :
    ∃ rest, others = rows ++ rest ∧ Runs middle between rest ending final := by
  induction emits generalizing others with
  | here => exact ⟨others, rfl, ran⟩
  | silent stepped _ ih =>
    cases ran with
    | silent same onward =>
      cases stepped.symm.trans same
      exact ih onward
    | ended same | failed same | row same _ => cases stepped.symm.trans same
  | row stepped _ ih =>
    cases ran with
    | row same onward =>
      cases stepped.symm.trans same
      obtain ⟨rest, rfl, ran⟩ := ih onward
      exact ⟨rest, rfl, ran⟩
    | ended same | failed same | silent same _ => cases stepped.symm.trans same

/-- Of two places on the way of one run, one comes first. -/
theorem ahead (first : Emits machine source rows middle between) (second : Emits machine source others last final) :
    (∃ rest, others = rows ++ rest ∧ Emits middle between rest last final) ∨
      ∃ rest, rows = others ++ rest ∧ Emits last final rest middle between := by
  induction first generalizing others with
  | here => exact .inl ⟨others, rfl, second⟩
  | silent stepped onward ih =>
    cases second with
    | here => exact .inr ⟨_, rfl, .silent stepped onward⟩
    | silent same onward =>
      cases stepped.symm.trans same
      exact ih onward
    | row same _ => cases stepped.symm.trans same
  | row stepped onward ih =>
    cases second with
    | here => exact .inr ⟨_, rfl, .row stepped onward⟩
    | silent same _ => cases stepped.symm.trans same
    | row same onward =>
      cases stepped.symm.trans same
      rcases ih onward with ⟨rest, rfl, between⟩ | ⟨rest, rfl, between⟩
      · exact .inl ⟨rest, rfl, between⟩
      · exact .inr ⟨rest, rfl, between⟩

end Emits

theorem Runs.emits {machine : Machine} {source last : σ} {rows : List Row} {ending : Option Error}
    (ran : Runs machine source rows ending last) : ∃ middle between, Emits machine source rows middle between := by
  induction ran with
  | ended | failed => exact ⟨_, _, .here⟩
  | silent stepped _ ih =>
    obtain ⟨middle, between, emits⟩ := ih
    exact ⟨middle, between, .silent stepped emits⟩
  | row stepped _ ih =>
    obtain ⟨middle, between, emits⟩ := ih
    exact ⟨middle, between, .row stepped emits⟩

theorem Alike.runs {related : σ → τ → Prop} (alike : Alike related) {machine : Machine} {source last : σ} {copy : τ}
    {rows : List Row} {ending : Option Error} (ran : Runs machine source rows ending last) (same : related source copy) :
    ∃ final, Runs machine copy rows ending final ∧ related last final := by
  induction ran generalizing copy with
  | ended stopped =>
    obtain ⟨_, _, final, step, matching, kept⟩ := alike.step _ _ _ same
    cases stopped.symm.trans step
    exact ⟨final, .ended matching, kept⟩
  | failed stopped =>
    obtain ⟨_, _, final, step, matching, kept⟩ := alike.step _ _ _ same
    cases stopped.symm.trans step
    exact ⟨final, .failed matching, kept⟩
  | silent stepped onward ih =>
    obtain ⟨_, _, between, step, matching, kept⟩ := alike.step _ _ _ same
    cases stepped.symm.trans step
    obtain ⟨final, rest, close⟩ := ih kept
    exact ⟨final, .silent matching rest, close⟩
  | row stepped onward ih =>
    obtain ⟨_, _, between, step, matching, kept⟩ := alike.step _ _ _ same
    cases stepped.symm.trans step
    obtain ⟨final, rest, close⟩ := ih kept
    exact ⟨final, .row matching rest, close⟩

section

variable {machine next : Machine} {instruction : Instruction} {source middle last : σ} {rows : List Row}
  {ending : Option Error} (here : machine.program.instructions[machine.counter]? = some instruction)
include here

namespace Machine

theorem step_proceed (ran : machine.execute instruction source = (.ok (.proceed, next), last)) :
    machine.step source = (.ok (.silent, { next with counter := next.counter + 1 }), last) := by
  simp [step, here, Using.bind_of_ok ran]

theorem step_jump {target : Nat} (ran : machine.execute instruction source = (.ok (.jump target, next), last)) :
    machine.step source = (.ok (.silent, { next with counter := target }), last) := by
  simp [step, here, Using.bind_of_ok ran]

theorem step_refused {reason : Error} (ran : machine.execute instruction source = (.error reason, last)) :
    machine.step source = (.error reason, last) := by
  simp [step, here, Using.bind_of_error ran]

end Machine

namespace Runs

theorem proceed (ran : machine.execute instruction source = (.ok (.proceed, next), middle))
    (onward : Runs { next with counter := next.counter + 1 } middle rows ending last) :
    Runs machine source rows ending last :=
  .silent (Machine.step_proceed here ran) onward

theorem jump {target : Nat} (ran : machine.execute instruction source = (.ok (.jump target, next), middle))
    (onward : Runs { next with counter := target } middle rows ending last) : Runs machine source rows ending last :=
  .silent (Machine.step_jump here ran) onward

theorem emit {row : Row} (ran : machine.execute instruction source = (.ok (.emit row, next), middle))
    (onward : Runs { next with counter := next.counter + 1 } middle rows ending last) :
    Runs machine source (row :: rows) ending last := by
  refine .row ?_ onward
  simp [Machine.step, here, Using.bind_of_ok ran]

theorem halt (ran : machine.execute instruction source = (.ok (.halt, next), last)) :
    Runs machine source [] none last := by
  have stopped : machine.step source = (.ok (.ended, next), last) := by
    simp [Machine.step, here, Using.bind_of_ok ran]
  exact .ended stopped

theorem refused {reason : Error} (ran : machine.execute instruction source = (.error reason, last)) :
    Runs machine source [] (some reason) last :=
  .failed (Machine.step_refused here ran)

end Runs

end

section

variable {number : Nat} (small : number < 0x8000000000000000)
include small

theorem Instruction.operand_ofNat (instruction : Instruction) (place : Place) {limit : Nat} (role : Role)
    (below : number < limit) : instruction.operand place (Int64.ofNat number) limit role = .ok number := by
  have value := Int64.toInt_ofNat_of_lt small
  rw [operand, value, if_pos ⟨Int.natCast_nonneg number, Int.ofNat_lt.mpr below⟩, Int.toNat_natCast]

theorem Machine.jump_ofNat {machine : Machine} (inside : number < machine.program.instructions.size) :
    machine.jump (Int64.ofNat number) = .ok (.jump number) := by
  have value := Int64.toInt_ofNat_of_lt small
  rw [jump, value, if_pos ⟨Int.natCast_nonneg number, Int.ofNat_lt.mpr inside⟩, Int.toNat_natCast]

end

namespace Instruction

variable {number : Nat}

theorem cursor_ofNat (named : number < 256) (opcode : Opcode) (second third : Int64) (last : Operand) (flags : Int64) :
    cursor ⟨opcode, .ofNat number, second, third, last, flags⟩ = .ok number := by
  apply operand_ofNat
  · omega
  · exact named

theorem register_ofNat (stored : number < 65536) (instruction : Instruction) (place : Place) :
    instruction.register place (.ofNat number) = .ok number := by
  apply operand_ofNat
  · omega
  · exact stored

end Instruction

end SqliteReader
