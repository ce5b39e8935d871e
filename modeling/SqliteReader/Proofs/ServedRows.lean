import Mathlib.Data.List.Induction
import SqliteReader.Proofs.PageLayout
import SqliteReader.Proofs.RowDelivery
import SqliteReader.Proofs.ScanRun

/-! What executions answer. Their answers are told by steps of an exchange, and with steps
enough for each request they tell all that an exchange tells, whatever their capacity is. -/

namespace SqliteReader

variable {σ : Type} [Source σ]

/-- A machine that does not go on silently for ever. -/
inductive Speaks : Machine → σ → Prop
  | now {machine : Machine} {source after : σ} {outcome : Except Error (Event × Machine)}
      (stepped : machine.step source = (outcome, after)) (loud : ∀ next, outcome ≠ .ok (.silent, next)) :
      Speaks machine source
  | later {machine next : Machine} {source middle : σ} (stepped : machine.step source = (.ok (.silent, next), middle))
      (onward : Speaks next middle) : Speaks machine source

theorem Emits.speaks {machine last : Machine} {source final : σ} {row : Row} {rows : List Row}
    (emits : Emits machine source (row :: rows) last final) : Speaks machine source := by
  generalize same : row :: rows = all at emits
  induction emits with
  | here => cases same
  | silent stepped _ ih => exact .later stepped (ih same)
  | row stepped => exact .now stepped (by simp)

theorem Runs.speaks {machine : Machine} {source last : σ} {rows : List Row} {ending : Option Error}
    (ran : Runs machine source rows ending last) : Speaks machine source := by
  induction ran with
  | ended stopped => exact .now stopped (by simp)
  | failed stopped => exact .now stopped (by simp)
  | silent stepped _ ih => exact .later stepped ih
  | row stepped => exact .now stepped (by simp)

namespace Told

variable {start machine : Machine} {source last : σ} {told : List Reply} {taken : List Row} {reply : Reply}

theorem init (more : Told start source (told ++ [reply])) : Told start source told := by
  generalize same : told ++ [reply] = all at more
  cases more with
  | @rows all _ _ emits =>
    obtain ⟨before, after, rfl, rfl, _⟩ := List.map_eq_append_iff.mp same.symm
    obtain ⟨machine, last, emits⟩ := emits.cut (List.prefix_append before after)
    exact .rows emits
  | ended ran more =>
    cases more with
    | zero =>
      obtain ⟨rfl, _⟩ := List.append_inj' same rfl
      obtain ⟨machine, last, emits⟩ := ran.emits
      exact .rows emits
    | succ more =>
      rw [List.replicate_succ', ← List.cons_append, ← List.append_assoc] at same
      obtain ⟨rfl, _⟩ := List.append_inj' same rfl
      exact .ended ran more

/-- Where more can be told than there are rows so far, the run comes to it. -/
theorem speaks (more : Told start source (taken.map .row ++ [reply])) (emits : Emits start source taken machine last) :
    Speaks machine last := by
  generalize same : taken.map Reply.row ++ [reply] = all at more
  cases more with
  | ended ran more =>
    obtain ⟨rest, _, ran⟩ := emits.rest_runs ran
    exact ran.speaks
  | rows other =>
    rcases emits.ahead other with ⟨rest, rfl, between⟩ | ⟨rest, rfl, _⟩
    · cases rest with
      | nil => simp at same
      | cons row rest => exact between.speaks
    · simp at same

end Told

theorem Speaks.settles {machine : Machine} {pager : Pager} (speaks : Speaks machine pager) (execution : Execution)
    (running : execution.worker = .running machine) :
    ∃ steps, ∀ machine, (execution.settle steps pager).1.worker ≠ .running machine := by
  induction speaks generalizing execution with
  | @now machine pager after outcome stepped loud =>
    refine ⟨1, ?_⟩
    intro other
    rcases outcome with reason | ⟨event, next⟩
    · simp [Execution.settle, Execution.work, running, stepped]
    · cases event with
      | silent => exact (loud next rfl).elim
      | row row => simp [Execution.settle, Execution.work, running, stepped]
      | ended => simp [Execution.settle, Execution.work, running, stepped]
  | @later machine next pager middle stepped _ ih =>
    obtain ⟨steps, stops⟩ := ih { execution with worker := .running next } rfl
    have worked : execution.work pager = some ({ execution with worker := .running next }, middle) := by
      simp [Execution.work, running, stepped]
    refine ⟨steps + 1, ?_⟩
    rw [Execution.settle, worked]
    exact stops

/-- An execution after some requests, with the answers given so far. A request that still
waits when its steps are used up has no answer. -/
inductive Served (program : Program) (capacity : Nat) (pager : Pager) : Execution → Pager → List Reply → Prop
  | started {steps : Nat} {execution : Execution} {last : Pager}
      (ran : Database.execute steps capacity program pager = (execution, last)) :
      Served program capacity pager execution last []
  | waited {steps : Nat} {execution next : Execution} {middle last : Pager} {told : List Reply}
      (before : Served program capacity pager execution middle told)
      (ran : execution.nextRow steps middle = (.waiting, next, last)) : Served program capacity pager next last told
  | answered {steps : Nat} {execution next : Execution} {middle last : Pager} {told : List Reply} {reply : Reply}
      (before : Served program capacity pager execution middle told)
      (ran : execution.nextRow steps middle = (reply, next, last)) (answered : reply ≠ .waiting) :
      Served program capacity pager next last (told ++ [reply])

namespace Served

variable {program : Program} {capacity : Nat} {pager last : Pager} {execution : Execution} {told replies : List Reply}

open Exchange (Reached)

theorem reached (served : Served program capacity pager execution last told) :
    Reached program capacity pager (execution.exchange last .idle told) := by
  induction served with
  | started ran => exact @Execution.settle_steps (.start program capacity) _ _ _ [] _ .idle Inquiry.noConfusion ran
  | waited before ran ih =>
    obtain ⟨_, _, _, first, received, second⟩ := Execution.of_nextRow ran
    obtain ⟨rfl, _⟩ := Execution.receive_waiting received
    exact (ih.trans (Execution.settle_steps .idle Inquiry.noConfusion first)).trans
      (Execution.settle_steps .idle Inquiry.noConfusion second)
  | answered before ran answered ih =>
    obtain ⟨_, _, _, first, received, second⟩ := Execution.of_nextRow ran
    exact ((ih.trans (Execution.settle_steps .idle Inquiry.noConfusion first)).trans
      (Execution.receive_steps received answered)).trans (Execution.settle_steps .idle Inquiry.noConfusion second)

theorem listens_or_gone (reached : Reached program capacity pager (execution.exchange last .idle told)) :
    (execution.listening = true ∧ ∃ taken, told = taken.map .row ∧
      (execution.exchange last .idle told).Accounts { program } pager (taken ++ execution.buffer)) ∨
    ∃ result, execution.worker = .ended result := by
  cases Exchange.Sound.of_reached reached with
  | @listening taken heard _ _ _ told accounts => exact .inl ⟨heard, taken, told, accounts⟩
  | ended _ _ _ gone =>
    cases worker : execution.worker with
    | ended result => exact .inr ⟨result, rfl⟩
    | running | offering =>
      simp only [Execution.exchange, worker] at gone
      cases gone
  | drained _ _ asking | joining _ _ asking | closing _ asking => simp [Execution.exchange] at asking

/-- A request goes unanswered only while the program runs on and no row is left. -/
theorem running_of_waiting (served : Served program capacity pager execution last told) {steps : Nat} {next : Execution}
    {final : Pager} (ran : execution.nextRow steps last = (.waiting, next, final)) :
    (execution.settle steps last).1.buffer = [] ∧
      ∃ machine, (execution.settle steps last).1.worker = .running machine := by
  obtain ⟨settled, middle, _, first, received, _⟩ := Execution.of_nextRow ran
  rw [first]
  obtain ⟨_, drained, waits⟩ := Execution.receive_waiting received
  rcases listens_or_gone (served.reached.trans (Execution.settle_steps .idle Inquiry.noConfusion first)) with
    ⟨heard, _⟩ | ⟨result, ended⟩
  · refine ⟨drained heard, waits.resolve_right ?_⟩
    intro unheard
    cases heard.symm.trans unheard.1
  · simp [ended] at waits

theorem closes (served : Served program capacity pager execution last told) {steps : Nat} {closed : Execution}
    {final : Pager} (ran : execution.close steps last = (closed, final)) :
    Reached program capacity pager (closed.exchange final .parting told) ∧
      (closed.work final = none → ∃ result, closed.worker = .ended result) := by
  have reached := (served.reached.trans Execution.hangUp_steps).trans
    (Execution.settle_steps .parting Inquiry.noConfusion ran)
  refine ⟨reached, ?_⟩
  intro stuck
  have unheard : closed.listening = false := by
    cases Exchange.Sound.of_reached reached with
    | listening _ _ _ asking | ended _ _ asking => simp [Execution.exchange] at asking
    | drained unheard | joining unheard | closing unheard => exact unheard
  unfold Execution.work at stuck
  split at stuck
  next =>
    split at stuck <;> cases stuck
  next =>
    rw [unheard] at stuck
    cases stuck
  next result ended => exact ⟨result, ended⟩

theorem tells (served : Served program capacity pager execution last told) : Told { program } pager told :=
  (Exchange.Sound.of_reached served.reached).told

theorem exists_answered {reply : Reply} (served : Served program capacity pager execution last told)
    (more : Told { program } pager (told ++ [reply])) :
    ∃ steps answer next final, execution.nextRow steps last = (answer, next, final) ∧ answer ≠ .waiting := by
  have answers (steps : Nat) (lively : (execution.settle steps last).1.buffer = [] →
      ∀ machine, (execution.settle steps last).1.worker ≠ .running machine) :
      ∃ steps answer next final, execution.nextRow steps last = (answer, next, final) ∧ answer ≠ .waiting := by
    refine ⟨steps, _, _, _, rfl, ?_⟩
    intro waits
    obtain ⟨drained, machine, running⟩ := served.running_of_waiting (Prod.ext waits rfl)
    exact lively drained machine running
  rcases listens_or_gone served.reached with ⟨_, taken, rfl, accounts⟩ | ⟨result, ended⟩
  · cases ready : execution.buffer with
    | cons row rest => exact answers 0 fun drained => by cases ready.symm.trans drained
    | nil =>
      cases worker : execution.worker with
      | running machine =>
        rw [ready, List.append_nil] at accounts
        simp only [Exchange.Accounts, Execution.exchange, worker, Worker.errand] at accounts
        obtain ⟨steps, stops⟩ := (more.speaks accounts.2).settles execution worker
        exact answers steps fun _ => stops
      | offering row machine => exact answers 0 fun _ other running => by cases worker.symm.trans running
      | ended result => exact answers 0 fun _ other running => by cases worker.symm.trans running
  · exact answers 0 fun _ other running => by cases ended.symm.trans running

theorem exists_served (told : Told { program } pager replies) :
    ∃ execution last, Served program capacity pager execution last replies := by
  induction replies using List.reverseRecOn with
  | nil => exact ⟨_, _, @started program capacity pager 0 _ _ rfl⟩
  | append_singleton before reply ih =>
    obtain ⟨execution, last, served⟩ := ih told.init
    obtain ⟨steps, answer, next, final, ran, answered⟩ := served.exists_answered told
    have later := served.answered ran answered
    -- Nothing different can be told, so the answer is the one that was looked for.
    have same : before ++ [answer] = before ++ [reply] := by
      rcases later.tells.comparable told with split | split
      · exact split.eq_of_length (by simp)
      · exact (split.eq_of_length (by simp)).symm
    rw [same] at later
    exact ⟨next, final, later⟩

end Served

/-- A worker that runs a program and one who asks for its rows, with any room between them.
Told are at every time, in order, the first rows of the run, and after its last row how it
ended, once; every such sequence is told at some time; and what is told differs with neither
the room nor the order in which the two sides take their steps. Nobody waits in vain.
Executions answer by steps of this exchange, and with time enough they answer all of it. -/
theorem rows_delivered (program : Program) (capacity : Nat) (source : σ) (pager : Pager) :
    (∀ replies, (∃ exchange, Exchange.Reached program capacity source exchange ∧ exchange.told = replies) ↔
      Told { program } source replies) ∧
    (∀ exchange, Exchange.Reached program capacity source exchange →
      exchange.inquiry ≠ .lost ∧ (exchange.inquiry.waits = true → exchange.Moves) ∧
      (∀ rows result last, Runs { program } source rows (failureOf result) last →
        ∃ more, exchange.told <+: rows.map .row ++ .ofResult result :: .replicate more .finished) ∧
      ∀ room other, Exchange.Reached program room source other →
        exchange.told <+: other.told ∨ other.told <+: exchange.told) ∧
    (∀ replies, (∃ execution last, Served program capacity pager execution last replies) ↔
      Told { program } pager replies) ∧
    ∀ execution last told, Served program capacity pager execution last told →
      Exchange.Reached program capacity pager (execution.exchange last .idle told) ∧
      (∀ steps next final, execution.nextRow steps last = (.waiting, next, final) →
        (execution.settle steps last).1.buffer = [] ∧
          ∃ machine, (execution.settle steps last).1.worker = .running machine) ∧
      ∀ steps closed final, execution.close steps last = (closed, final) →
        Exchange.Reached program capacity pager (closed.exchange final .parting told) ∧
          (closed.work final = none → ∃ result, closed.worker = .ended result) := by
  refine ⟨?_, ?_, ?_, ?_⟩
  · intro replies
    refine ⟨?_, Exchange.exists_reached capacity⟩
    rintro ⟨exchange, reached, rfl⟩
    exact (Exchange.Sound.of_reached reached).told
  · intro exchange reached
    have sound := Exchange.Sound.of_reached reached
    refine ⟨sound.not_lost, sound.moves, fun rows result last ran => sound.told.within ran, ?_⟩
    intro room other also
    exact sound.told.comparable (Exchange.Sound.of_reached also).told
  · intro replies
    refine ⟨?_, Served.exists_served⟩
    rintro ⟨execution, last, served⟩
    exact served.tells
  · intro execution last told served
    exact ⟨served.reached, fun steps next final => served.running_of_waiting, fun steps closed final => served.closes⟩

/-- A scan of a page that lists itself has a row to tell and then a failure, once, with room
for rows and without. One who asks at once waits for the worker, which can go on. -/
theorem rows_delivered_loop :
    ∃ direct buffered waiting, Exchange.Reached (Catalog.scan 2 7 ["key"]) 0 Sample.file direct ∧
      direct.told = [.row #[.blob [107]], .failed (.corrupt (.treeCycle 2)), .finished] ∧
      Exchange.Reached (Catalog.scan 2 7 ["key"]) 3 Sample.file buffered ∧ buffered.told = direct.told ∧
      Exchange.Reached (Catalog.scan 2 7 ["key"]) 0 Sample.file waiting ∧ waiting.inquiry.waits = true ∧ waiting.Moves := by
  have parsed : Sample.file.header = .ok Sample.header := Sample.file_header
  have ran := @Scan.current Sample.file 7 ["key"] 2 _ (by decide) (by decide) parsed (by decide)
  rw [Sample.findings_loop] at ran
  have told : Told { program := Catalog.scan 2 7 ["key"] } Sample.file
      [.row #[.blob [107]], .failed (.corrupt (.treeCycle 2)), .finished] :=
    @Told.ended _ _ _ _ [#[.blob [107]]] (.error (.corrupt (.treeCycle 2))) _ ran 1
  have asking : Exchange.Reached (Catalog.scan 2 7 ["key"]) 0 Sample.file
      { Exchange.opened (Catalog.scan 2 7 ["key"]) 0 Sample.file with inquiry := .receiving } :=
    .single (.inr (.asks rfl rfl))
  obtain ⟨direct, reached, same⟩ := ((rows_delivered _ 0 Sample.file Sample.file.opened).1 _).mpr told
  obtain ⟨buffered, also, alike⟩ := ((rows_delivered _ 3 Sample.file Sample.file.opened).1 _).mpr told
  have moves := ((rows_delivered _ 0 Sample.file Sample.file.opened).2.1 _ asking).2.1 rfl
  exact ⟨direct, buffered, _, reached, same, also, alike.trans same.symm, asking, rfl, moves⟩

end SqliteReader
