import SqliteReader.Proofs.RowExchange

/-! Rows are delivered whole and in order whatever room there is for them. What a run lets
be told can be told with every capacity, and nothing else ever is. Executions answer their
requests by steps of such an exchange. -/

namespace SqliteReader

variable {σ : Type} [Source σ]

theorem failureOf_inj {first second : Except Error Unit} (same : failureOf first = failureOf second) : first = second := by
  rcases first with reason | ⟨⟨⟩⟩ <;> rcases second with other | ⟨⟨⟩⟩ <;> simp_all [failureOf]

namespace Told

variable {start : Machine} {source last : σ} {replies others : List Reply} {rows : List Row}
  {result : Except Error Unit}

/-- What is told of a run that comes to its end is a part of its rows and its result. -/
theorem within (told : Told start source replies) (ran : Runs start source rows (failureOf result) last) :
    ∃ more, replies <+: rows.map .row ++ .ofResult result :: .replicate more .finished := by
  cases told with
  | rows emits =>
    obtain ⟨rest, rfl, _⟩ := emits.rest_runs ran
    exact ⟨0, by simp⟩
  | ended same more =>
    obtain ⟨rfl, ending, _⟩ := ran.unique same
    cases failureOf_inj ending
    exact ⟨more, List.prefix_rfl⟩

theorem comparable (first : Told start source replies) (second : Told start source others) :
    replies <+: others ∨ others <+: replies := by
  cases first with
  | rows emits =>
    cases second with
    | rows other =>
      rcases emits.ahead other with ⟨rest, rfl, _⟩ | ⟨rest, rfl, _⟩
      · exact .inl (by simp)
      · exact .inr (by simp)
    | ended ran more =>
      obtain ⟨rest, rfl, _⟩ := emits.rest_runs ran
      exact .inl (by simp)
  | ended ran more =>
    cases second with
    | rows other =>
      obtain ⟨rest, rfl, _⟩ := other.rest_runs ran
      exact .inr (by simp)
    | ended same others =>
      obtain ⟨rfl, ending, _⟩ := ran.unique same
      cases failureOf_inj ending
      simp only [List.prefix_append_right_inj, List.cons_prefix_cons, List.prefix_replicate_iff, List.length_replicate,
        true_and, and_true]
      exact Nat.le_total more others

end Told

namespace Exchange

open Relation (ReflTransGen)

def ready (capacity : Nat) (machine : Machine) (source : σ) (told : List Reply) : Exchange σ :=
  { capacity, source, errand := .running machine, told }

/-- After the result has been told. -/
def spent (capacity : Nat) (source : σ) (told : List Reply) : Exchange σ :=
  { capacity, source, errand := .gone, listening := false, pending := false, told }

variable {machine next : Machine} {source after last : σ} {rows : List Row}

theorem ready_row {row : Row} (capacity : Nat) (told : List Reply)
    (stepped : machine.step source = (.ok (.row row, next), after)) :
    ReflTransGen Steps (ready capacity machine source told) (ready capacity next after (told ++ [.row row])) := by
  have asked : Steps (ready capacity machine source told)
      { ready capacity machine source told with inquiry := .receiving } :=
    .inr (.asks rfl rfl)
  refine .head asked (.head (.inl (.emits rfl stepped)) ?_)
  cases capacity with
  | zero => exact .single (.inl (.hands rfl rfl rfl rfl))
  | succ more => exact .head (.inl (.puts rfl rfl (Nat.succ_pos more))) (.single (.inr (.takes rfl rfl)))

/-- A worker whose run has ended reports and goes, whether or not anybody wants to know. -/
theorem leaving_gone (exchange : Exchange σ) {result : Except Error Unit} (leaving : exchange.errand = .leaving result)
    (room : exchange.result = none) (alone : exchange.inquiry ≠ .awaiting) :
    ReflTransGen Steps exchange
      { exchange with errand := .gone, result := if exchange.pending then some result else none } := by
  obtain ⟨capacity, source, errand, rows, kept, listening, pending, inquiry, told⟩ := exchange
  cases leaving
  cases room
  refine .head (.inl (.leaves rfl)) ?_
  cases pending with
  | true => exact .head (.inl (.reports rfl (.inl rfl) rfl)) (.single (.inl (.exits rfl)))
  | false => exact .head (.inl (.forgets rfl rfl alone)) (.single (.inl (.exits rfl)))

theorem ready_spent {result : Except Error Unit} (capacity : Nat) (told : List Reply)
    (ended : Works (ready capacity machine source told)
      { ready capacity machine source told with source := after, errand := .leaving result }) :
    ReflTransGen Steps (ready capacity machine source told) (spent capacity after (told ++ [.ofResult result])) := by
  refine .head (.inl ended) ((leaving_gone _ rfl rfl Inquiry.noConfusion).trans ?_)
  refine .head (.inr (.asks rfl rfl)) (.head (.inr (.turns rfl rfl rfl)) (.head (.inr (.awaits rfl rfl)) ?_))
  exact .head (.inr (.learns rfl rfl)) (.single (.inr (.joins rfl rfl)))

theorem spent_more (capacity : Nat) (source : σ) (told : List Reply) (more : Nat) :
    ReflTransGen Steps (spent capacity source told) (spent capacity source (told ++ .replicate more .finished)) := by
  induction more with
  | zero =>
    rw [List.replicate_zero, List.append_nil]
  | succ more ih =>
    rw [List.replicate_succ', ← List.append_assoc]
    exact ih.trans (.head (.inr (.returns rfl rfl)) (.single (.inr (.repeats rfl rfl))))

theorem ready_emits {final : Machine} (capacity : Nat) (told : List Reply) (emits : Emits machine source rows final last) :
    ReflTransGen Steps (ready capacity machine source told) (ready capacity final last (told ++ rows.map .row)) := by
  induction emits generalizing told with
  | here =>
    rw [List.map_nil, List.append_nil]
  | silent stepped _ ih => exact .head (.inl (.goes rfl stepped)) (ih told)
  | row stepped _ ih =>
    rw [List.map_cons, List.append_cons]
    exact (ready_row capacity told stepped).trans (ih _)

theorem ready_runs {result : Except Error Unit} (capacity : Nat) (told : List Reply)
    (ran : Runs machine source rows (failureOf result) last) :
    ReflTransGen Steps (ready capacity machine source told)
      (spent capacity last (told ++ (rows.map .row ++ [.ofResult result]))) := by
  generalize same : failureOf result = ending at ran
  induction ran generalizing told with
  | ended stopped =>
    cases result with
    | error reason => cases same
    | ok => exact ready_spent capacity told (.ends rfl stopped)
  | failed stopped =>
    cases result with
    | ok => cases same
    | error reason =>
      cases same
      exact ready_spent capacity told (.fails rfl stopped)
  | silent stepped _ ih => exact .head (.inl (.goes rfl stepped)) (ih told same)
  | row stepped _ ih =>
    rw [List.map_cons, List.cons_append, List.append_cons]
    exact (ready_row capacity told stepped).trans (ih _ same)

/-- Whatever can be told is told at some time, whatever the capacity is. -/
theorem exists_reached {program : Program} {replies : List Reply} (capacity : Nat)
    (told : Told { program } source replies) :
    ∃ exchange, Reached program capacity source exchange ∧ exchange.told = replies := by
  cases told with
  | rows emits => exact ⟨_, ready_emits capacity [] emits, rfl⟩
  | ended ran more =>
    refine ⟨_, (ready_runs capacity [] ran).trans (spent_more capacity _ _ more), ?_⟩
    simp [spent]

end Exchange

def Worker.errand : Worker → Errand
  | .running machine => .running machine
  | .offering row machine => .sending row machine
  | .ended _ => .gone

def Worker.result? : Worker → Option (Except Error Unit)
  | .ended result => some result
  | _ => none

namespace Execution

open Relation (ReflTransGen)
open Exchange (Steps)

/-- An execution as an exchange. A worker that has ended has reported its result. -/
def exchange (execution : Execution) (pager : Pager) (inquiry : Inquiry) (told : List Reply) : Exchange Pager where
  capacity := execution.capacity
  source := pager
  errand := execution.worker.errand
  rows := execution.buffer
  result := if execution.reported then none else execution.worker.result?
  listening := execution.listening
  pending := !execution.reported
  inquiry := inquiry
  told := told

variable {execution next : Execution} {pager last : Pager} {told : List Reply}

theorem work_steps (inquiry : Inquiry) (alone : inquiry ≠ .awaiting) (worked : execution.work pager = some (next, last)) :
    ReflTransGen Steps (execution.exchange pager inquiry told) (next.exchange last inquiry told) := by
  obtain ⟨columns, capacity, worker, buffer, listening, reported⟩ := execution
  cases worker with
  | running machine =>
    simp only [work] at worked
    split at worked
    next stepped =>
      cases worked
      cases reported <;> exact .single (.inl (.goes rfl stepped))
    next stepped =>
      cases worked
      cases reported <;> exact .single (.inl (.emits rfl stepped))
    next stepped =>
      cases worked
      cases reported <;> exact .head (.inl (.ends rfl stepped)) (Exchange.leaving_gone _ rfl rfl alone)
    next stepped =>
      cases worked
      cases reported <;> exact .head (.inl (.fails rfl stepped)) (Exchange.leaving_gone _ rfl rfl alone)
  | offering row machine =>
    simp only [work] at worked
    split at worked
    next unheard =>
      cases worked
      have unheard : listening = false := by simpa using unheard
      cases reported <;> exact .head (.inl (.abandons rfl unheard)) (Exchange.leaving_gone _ rfl rfl alone)
    next heard =>
      split at worked
      next room =>
        cases worked
        have heard : listening = true := by simpa using heard
        cases reported <;> exact .single (.inl (.puts rfl heard room))
      next => cases worked
  | ended result => cases worked

/-- With nothing left to take, the answer is the result and after that only that there is
nothing more. -/
theorem ended_steps {result : Except Error Unit} (ended : execution.worker = .ended result)
    (drained : execution.listening = true → execution.buffer = []) :
    ReflTransGen Steps (execution.exchange pager .idle told)
      ({ execution with listening := false, reported := true }.exchange pager .idle
        (told ++ [if execution.reported then Reply.finished else Reply.ofResult result])) := by
  obtain ⟨columns, capacity, worker, buffer, listening, reported⟩ := execution
  cases ended
  have turned : ReflTransGen Steps
      (Execution.exchange ⟨columns, capacity, .ended result, buffer, listening, reported⟩ pager .idle told)
      (Execution.exchange ⟨columns, capacity, .ended result, buffer, false, reported⟩ pager .turning told) := by
    cases listening with
    | true =>
      cases drained rfl
      exact .head (.inr (.asks rfl rfl)) (.single (.inr (.turns rfl rfl rfl)))
    | false => exact .single (.inr (.returns rfl rfl))
  refine turned.trans ?_
  cases reported with
  | true => exact .single (.inr (.repeats rfl rfl))
  | false => exact .head (.inr (.awaits rfl rfl)) (.head (.inr (.learns rfl rfl)) (.single (.inr (.joins rfl rfl))))

theorem receive_steps {reply : Reply} (received : execution.receive = (reply, next)) (answered : reply ≠ .waiting) :
    ReflTransGen Steps (execution.exchange pager .idle told) (next.exchange pager .idle (told ++ [reply])) := by
  unfold receive at received
  split at received
  next heard ready =>
    cases received
    obtain ⟨columns, capacity, worker, buffer, listening, reported⟩ := execution
    cases heard
    cases ready
    cases reported <;> exact .head (.inr (.asks rfl rfl)) (.single (.inr (.takes rfl rfl)))
  next heard ready offering =>
    cases received
    obtain ⟨columns, capacity, worker, buffer, listening, reported⟩ := execution
    cases heard
    cases ready
    cases offering
    refine .head (.inr (.asks rfl rfl)) ?_
    cases capacity with
    | zero => cases reported <;> exact .single (.inl (.hands rfl rfl rfl rfl))
    | succ more =>
      cases reported <;> exact .head (.inl (.puts rfl rfl (Nat.succ_pos more))) (.single (.inr (.takes rfl rfl)))
  next result ended stuck =>
    have drained : execution.listening = true → execution.buffer = [] := by
      intro heard
      cases ready : execution.buffer with
      | nil => rfl
      | cons row rest => exact (stuck row rest heard ready).elim
    have steps := @ended_steps execution pager told result ended drained
    split at received
    next known =>
      cases received
      rw [if_pos known] at steps
      exact steps
    next unknown =>
      rw [if_neg unknown] at steps
      rcases result with reason | ⟨⟨⟩⟩ <;> cases received <;> exact steps
  next =>
    cases received
    exact absurd rfl answered

theorem hangUp_steps :
    ReflTransGen Steps (execution.exchange pager .idle told) (execution.hangUp.exchange pager .parting told) := by
  cases reported : execution.reported <;> exact .head (.inr (.closes rfl)) (.single (.inr (.parts rfl)))

theorem settle_steps {steps : Nat} (inquiry : Inquiry) (alone : inquiry ≠ .awaiting)
    (settled : execution.settle steps pager = (next, last)) :
    ReflTransGen Steps (execution.exchange pager inquiry told) (next.exchange last inquiry told) := by
  induction steps generalizing execution pager with
  | zero =>
    cases settled
    exact .refl
  | succ steps ih =>
    rw [settle] at settled
    split at settled
    next =>
      cases settled
      exact .refl
    next worked => exact (work_steps inquiry alone worked).trans (ih settled)

theorem of_nextRow {steps : Nat} {reply : Reply} (ran : execution.nextRow steps pager = (reply, next, last)) :
    ∃ settled middle received, execution.settle steps pager = (settled, middle) ∧
      settled.receive = (reply, received) ∧ received.settle steps middle = (next, last) := by
  unfold nextRow at ran
  rcases settled : execution.settle steps pager with ⟨before, middle⟩
  rcases received : before.receive with ⟨other, after⟩
  simp only [settled, received] at ran
  obtain ⟨rfl, rest⟩ := Prod.mk.inj ran
  exact ⟨before, middle, after, rfl, received, rest⟩

/-- A request that waits changes nothing. It waits for a worker that runs, or for one to
which nobody listens. -/
theorem receive_waiting (received : execution.receive = (.waiting, next)) :
    next = execution ∧ (execution.listening = true → execution.buffer = []) ∧
      ((∃ machine, execution.worker = .running machine) ∨
        execution.listening = false ∧ ∃ row machine, execution.worker = .offering row machine) := by
  unfold receive at received
  split at received
  next => cases received
  next => cases received
  next result ended _ =>
    split at received
    · cases received
    · rcases result with reason | ⟨⟨⟩⟩ <;> cases received
  next unready unended unoffered =>
    have drained : execution.listening = true → execution.buffer = [] := by
      intro heard
      cases ready : execution.buffer with
      | nil => rfl
      | cons row rest => exact (unready row rest heard ready).elim
    refine ⟨(Prod.mk.inj received).2.symm, drained, ?_⟩
    cases worker : execution.worker with
    | running machine => exact .inl ⟨machine, rfl⟩
    | ended result => exact (unended result worker).elim
    | offering row machine =>
      cases heard : execution.listening with
      | false => exact .inr ⟨rfl, row, machine, rfl⟩
      | true => exact (unoffered row machine heard (drained heard) worker).elim

end Execution

end SqliteReader
