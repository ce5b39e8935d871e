import Mathlib.Logic.Relation
import SqliteReader.Database
import SqliteReader.Proofs.WatchedReads

/-! Rows on their way from a worker to the one who asks for them, one step of one side at a
time. There is a channel of fixed capacity for the rows and one that has room for a single
result. The worker lets go of the first before it uses the second. The one who asks turns to
the second only when nothing is left in the first and nobody can put anything there. What
can be told is settled by the program alone, and neither side waits for the other in vain. -/

namespace SqliteReader

inductive Errand
  | running (machine : Machine)
  /-- Waits for room, for someone who takes the row, or for nobody to be there. -/
  | sending (row : Row) (machine : Machine)
  | leaving (result : Except Error Unit)
  | reporting (result : Except Error Unit)
  | finishing
  | gone

inductive Inquiry
  | idle
  | receiving
  | turning
  | awaiting
  /-- Has the result and waits for the worker to be gone. -/
  | joining (result : Except Error Unit)
  /-- The worker went without a result. -/
  | lost
  | closing
  /-- Has let go of both channels and waits for the worker to be gone. -/
  | parting
  | closed

structure Exchange (σ : Type) where
  capacity : Nat
  source : σ
  errand : Errand
  rows : List Row := []
  result : Option (Except Error Unit) := none
  /-- Whether somebody may still take rows. -/
  listening : Bool := true
  /-- Whether the result has not been asked for yet. -/
  pending : Bool := true
  inquiry : Inquiry := .idle
  told : List Reply := []

def Reply.ofResult : Except Error Unit → Reply
  | .ok () => .finished
  | .error reason => .failed reason

def Errand.left : Errand → Bool
  | .reporting _ | .finishing | .gone => true
  | _ => false

/-- Neither at rest between two requests nor through. -/
def Inquiry.waits : Inquiry → Bool
  | .idle | .closed => false
  | _ => true

variable {σ : Type} [Source σ]

namespace Exchange

def opened (program : Program) (capacity : Nat) (source : σ) : Exchange σ :=
  { capacity, source, errand := .running { program } }

inductive Works : Exchange σ → Exchange σ → Prop
  | goes {exchange : Exchange σ} {machine next : Machine} {after : σ} (running : exchange.errand = .running machine)
      (stepped : machine.step exchange.source = (.ok (.silent, next), after)) :
      Works exchange { exchange with source := after, errand := .running next }
  | emits {exchange : Exchange σ} {machine next : Machine} {after : σ} {row : Row}
      (running : exchange.errand = .running machine)
      (stepped : machine.step exchange.source = (.ok (.row row, next), after)) :
      Works exchange { exchange with source := after, errand := .sending row next }
  | ends {exchange : Exchange σ} {machine next : Machine} {after : σ} (running : exchange.errand = .running machine)
      (stepped : machine.step exchange.source = (.ok (.ended, next), after)) :
      Works exchange { exchange with source := after, errand := .leaving (.ok ()) }
  | fails {exchange : Exchange σ} {machine : Machine} {after : σ} {reason : Error}
      (running : exchange.errand = .running machine)
      (stepped : machine.step exchange.source = (.error reason, after)) :
      Works exchange { exchange with source := after, errand := .leaving (.error reason) }
  | puts {exchange : Exchange σ} {machine : Machine} {row : Row} (sending : exchange.errand = .sending row machine)
      (heard : exchange.listening = true) (room : exchange.rows.length < exchange.capacity) :
      Works exchange { exchange with errand := .running machine, rows := exchange.rows ++ [row] }
  | hands {exchange : Exchange σ} {machine : Machine} {row : Row} (sending : exchange.errand = .sending row machine)
      (heard : exchange.listening = true) (direct : exchange.capacity = 0) (asked : exchange.inquiry = .receiving) :
      Works exchange
        { exchange with errand := .running machine, inquiry := .idle, told := exchange.told ++ [.row row] }
  | abandons {exchange : Exchange σ} {machine : Machine} {row : Row} (sending : exchange.errand = .sending row machine)
      (unheard : exchange.listening = false) : Works exchange { exchange with errand := .leaving (.ok ()) }
  | leaves {exchange : Exchange σ} {result : Except Error Unit} (leaving : exchange.errand = .leaving result) :
      Works exchange { exchange with errand := .reporting result }
  | reports {exchange : Exchange σ} {result : Except Error Unit} (reporting : exchange.errand = .reporting result)
      (heard : exchange.pending = true ∨ exchange.inquiry = .awaiting) (room : exchange.result = none) :
      Works exchange { exchange with errand := .finishing, result := some result }
  | forgets {exchange : Exchange σ} {result : Except Error Unit} (reporting : exchange.errand = .reporting result)
      (unheard : exchange.pending = false) (alone : exchange.inquiry ≠ .awaiting) :
      Works exchange { exchange with errand := .finishing }
  | exits {exchange : Exchange σ} (finishing : exchange.errand = .finishing) :
      Works exchange { exchange with errand := .gone }

inductive Asks : Exchange σ → Exchange σ → Prop
  | asks {exchange : Exchange σ} (idle : exchange.inquiry = .idle) (heard : exchange.listening = true) :
      Asks exchange { exchange with inquiry := .receiving }
  | returns {exchange : Exchange σ} (idle : exchange.inquiry = .idle) (unheard : exchange.listening = false) :
      Asks exchange { exchange with inquiry := .turning }
  | takes {exchange : Exchange σ} {row : Row} {rest : List Row} (receiving : exchange.inquiry = .receiving)
      (ready : exchange.rows = row :: rest) :
      Asks exchange { exchange with rows := rest, inquiry := .idle, told := exchange.told ++ [.row row] }
  | turns {exchange : Exchange σ} (receiving : exchange.inquiry = .receiving) (drained : exchange.rows = [])
      (left : exchange.errand.left = true) : Asks exchange { exchange with listening := false, inquiry := .turning }
  | awaits {exchange : Exchange σ} (turning : exchange.inquiry = .turning) (unknown : exchange.pending = true) :
      Asks exchange { exchange with pending := false, inquiry := .awaiting }
  | repeats {exchange : Exchange σ} (turning : exchange.inquiry = .turning) (known : exchange.pending = false) :
      Asks exchange { exchange with inquiry := .idle, told := exchange.told ++ [.finished] }
  | learns {exchange : Exchange σ} {result : Except Error Unit} (awaiting : exchange.inquiry = .awaiting)
      (ready : exchange.result = some result) :
      Asks exchange { exchange with result := none, inquiry := .joining result }
  | misses {exchange : Exchange σ} (awaiting : exchange.inquiry = .awaiting) (drained : exchange.result = none)
      (left : exchange.errand = .gone) : Asks exchange { exchange with inquiry := .lost }
  | joins {exchange : Exchange σ} {result : Except Error Unit} (joining : exchange.inquiry = .joining result)
      (left : exchange.errand = .gone) :
      Asks exchange { exchange with inquiry := .idle, told := exchange.told ++ [.ofResult result] }
  | closes {exchange : Exchange σ} (idle : exchange.inquiry = .idle) :
      Asks exchange { exchange with rows := [], listening := false, inquiry := .closing }
  | parts {exchange : Exchange σ} (closing : exchange.inquiry = .closing) :
      Asks exchange { exchange with result := none, pending := false, inquiry := .parting }
  | closed {exchange : Exchange σ} (parting : exchange.inquiry = .parting) (left : exchange.errand = .gone) :
      Asks exchange { exchange with inquiry := .closed }

def Steps (exchange next : Exchange σ) : Prop := Works exchange next ∨ Asks exchange next

def Reached (program : Program) (capacity : Nat) (source : σ) (exchange : Exchange σ) : Prop :=
  Relation.ReflTransGen Steps (opened program capacity source) exchange

end Exchange

/-- What can be told of a run: its rows from the first on, and after the last one how it
ended, once, and then that it has ended. -/
inductive Told (start : Machine) (source : σ) : List Reply → Prop
  | rows {taken : List Row} {machine : Machine} {last : σ} (emits : Emits start source taken machine last) :
      Told start source (taken.map .row)
  | ended {taken : List Row} {result : Except Error Unit} {last : σ} (ran : Runs start source taken (failureOf result) last)
      (more : Nat) : Told start source (taken.map .row ++ .ofResult result :: .replicate more .finished)

namespace Exchange

/-- How the rows sent so far and the result are parts of the run. -/
def Accounts (start : Machine) (origin : σ) (exchange : Exchange σ) (sent : List Row) : Prop :=
  match exchange.errand with
  | .running machine => exchange.result = none ∧ Emits start origin sent machine exchange.source
  | .sending row machine => exchange.result = none ∧ Emits start origin (sent ++ [row]) machine exchange.source
  | .leaving result | .reporting result =>
    exchange.result = none ∧ Runs start origin sent (failureOf result) exchange.source
  | .finishing | .gone =>
    ∃ result, exchange.result = some result ∧ Runs start origin sent (failureOf result) exchange.source

/-- Rows are sent and taken, or all have been taken and the result is asked for, has been
received or has been told, or nobody asks for anything any more. -/
inductive Sound (start : Machine) (origin : σ) (exchange : Exchange σ) : Prop
  | listening {taken : List Row} (heard : exchange.listening = true) (unknown : exchange.pending = true)
      (fits : exchange.rows.length ≤ exchange.capacity)
      (asking : exchange.inquiry = .idle ∨ exchange.inquiry = .receiving) (told : exchange.told = taken.map .row)
      (accounts : exchange.Accounts start origin (taken ++ exchange.rows))
  | drained {taken : List Row} (unheard : exchange.listening = false) (left : exchange.errand.left = true)
      (asking : exchange.inquiry = .turning ∧ exchange.pending = true ∨
        exchange.inquiry = .awaiting ∧ exchange.pending = false)
      (told : exchange.told = taken.map .row) (accounts : exchange.Accounts start origin taken)
  | joining {taken : List Row} {result : Except Error Unit} (unheard : exchange.listening = false)
      (known : exchange.pending = false) (asking : exchange.inquiry = .joining result)
      (left : exchange.errand = .finishing ∨ exchange.errand = .gone) (told : exchange.told = taken.map .row)
      (ran : Runs start origin taken (failureOf result) exchange.source)
  | ended {taken : List Row} {result : Except Error Unit} {more : Nat} (unheard : exchange.listening = false)
      (known : exchange.pending = false) (asking : exchange.inquiry = .idle ∨ exchange.inquiry = .turning)
      (left : exchange.errand = .gone)
      (told : exchange.told = taken.map .row ++ .ofResult result :: .replicate more .finished)
      (ran : Runs start origin taken (failureOf result) exchange.source)
  | closing (unheard : exchange.listening = false)
      (asking : exchange.inquiry = .closing ∨
        (exchange.inquiry = .parting ∨ exchange.inquiry = .closed) ∧ exchange.pending = false)
      (told : Told start origin exchange.told)

variable {start : Machine} {origin : σ} {exchange next : Exchange σ} {taken : List Row}

theorem Sound.opened (program : Program) (capacity : Nat) (source : σ) :
    Sound { program } source (opened program capacity source) :=
  @Sound.listening _ _ _ _ _ [] rfl rfl (Nat.zero_le _) (.inl rfl) rfl ⟨rfl, .here⟩

theorem Accounts.taken_told {sent : List Row} (accounts : exchange.Accounts start origin sent) (split : taken <+: sent) :
    Told start origin (taken.map .row) := by
  have emitted : ∃ more machine last, Emits start origin (sent ++ more) machine last := by
    unfold Accounts at accounts
    split at accounts
    next machine _ => exact ⟨[], machine, _, by simpa using accounts.2⟩
    next row machine _ => exact ⟨[row], machine, _, accounts.2⟩
    next => exact ⟨[], by simpa using accounts.2.emits⟩
    next => exact ⟨[], by simpa using accounts.2.emits⟩
    next =>
      obtain ⟨result, _, ran⟩ := accounts
      exact ⟨[], by simpa using ran.emits⟩
    next =>
      obtain ⟨result, _, ran⟩ := accounts
      exact ⟨[], by simpa using ran.emits⟩
  obtain ⟨more, machine, last, emits⟩ := emitted
  obtain ⟨machine, last, emits⟩ := emits.cut (split.trans (List.prefix_append sent more))
  exact .rows emits

theorem Sound.told (sound : exchange.Sound start origin) : Told start origin exchange.told := by
  cases sound with
  | listening heard unknown fits asking told accounts =>
    rw [told]
    exact accounts.taken_told (List.prefix_append _ _)
  | drained unheard left asking told accounts =>
    rw [told]
    exact accounts.taken_told List.prefix_rfl
  | joining unheard known asking left told ran =>
    rw [told]
    obtain ⟨machine, last, emits⟩ := ran.emits
    exact .rows emits
  | ended unheard known asking left told ran =>
    rw [told]
    exact .ended ran _
  | closing unheard asking told => exact told

theorem Sound.works_listening (heard : exchange.listening = true) (unknown : exchange.pending = true)
    (fits : exchange.rows.length ≤ exchange.capacity) (asking : exchange.inquiry = .idle ∨ exchange.inquiry = .receiving)
    (told : exchange.told = taken.map .row) (accounts : exchange.Accounts start origin (taken ++ exchange.rows))
    (work : Works exchange next) : next.Sound start origin := by
  cases work with
  | goes running stepped =>
    rw [Accounts, running] at accounts
    exact .listening heard unknown fits asking told ⟨accounts.1, accounts.2.then_silent stepped⟩
  | emits running stepped =>
    rw [Accounts, running] at accounts
    exact .listening heard unknown fits asking told ⟨accounts.1, accounts.2.then_row stepped⟩
  | ends running stepped =>
    rw [Accounts, running] at accounts
    exact .listening heard unknown fits asking told ⟨accounts.1, accounts.2.then_ended stepped⟩
  | fails running stepped =>
    rw [Accounts, running] at accounts
    exact .listening heard unknown fits asking told ⟨accounts.1, accounts.2.then_failed stepped⟩
  | puts sending _ room =>
    rw [Accounts, sending] at accounts
    refine .listening heard unknown ?_ asking told ⟨accounts.1, ?_⟩
    · simpa using Nat.succ_le_of_lt room
    · rw [← List.append_assoc]
      exact accounts.2
  | @hands machine row sending _ direct asked =>
    -- Without room nothing is in the buffer that the row could overtake.
    have drained : exchange.rows = [] := List.eq_nil_of_length_eq_zero (Nat.le_zero.mp (direct ▸ fits))
    rw [Accounts, sending, drained, List.append_nil] at accounts
    refine @Sound.listening _ _ _ _ _ (taken ++ [row]) heard unknown fits (.inl rfl) ?_ ⟨accounts.1, ?_⟩
    · simp [told]
    · rw [drained, List.append_nil]
      exact accounts.2
  | abandons sending unheard => cases heard.symm.trans unheard
  | leaves leaving =>
    rw [Accounts, leaving] at accounts
    exact .listening heard unknown fits asking told accounts
  | reports reporting _ room =>
    rw [Accounts, reporting] at accounts
    exact .listening heard unknown fits asking told ⟨_, rfl, accounts.2⟩
  | forgets reporting known => cases unknown.symm.trans known
  | exits finishing =>
    rw [Accounts, finishing] at accounts
    exact .listening heard unknown fits asking told accounts

/-- Once the rows are drained the worker has only its result to report. -/
theorem Sound.works_drained (unheard : exchange.listening = false) (left : exchange.errand.left = true)
    (asking : exchange.inquiry = .turning ∧ exchange.pending = true ∨
      exchange.inquiry = .awaiting ∧ exchange.pending = false)
    (told : exchange.told = taken.map .row) (accounts : exchange.Accounts start origin taken) (work : Works exchange next) :
    next.Sound start origin := by
  cases work with
  | goes stage | emits stage | ends stage | fails stage | puts stage | hands stage | abandons stage | leaves stage =>
    rw [stage] at left
    cases left
  | reports reporting _ room =>
    rw [Accounts, reporting] at accounts
    exact .drained unheard rfl asking told ⟨_, rfl, accounts.2⟩
  | forgets reporting known alone =>
    obtain ⟨_, unknown⟩ := asking.resolve_right fun awaiting => alone awaiting.1
    cases unknown.symm.trans known
  | exits finishing =>
    rw [Accounts, finishing] at accounts
    exact .drained unheard rfl asking told accounts

theorem Sound.works_closing (unheard : exchange.listening = false)
    (asking : exchange.inquiry = .closing ∨
      (exchange.inquiry = .parting ∨ exchange.inquiry = .closed) ∧ exchange.pending = false)
    (told : Told start origin exchange.told) (work : Works exchange next) : next.Sound start origin := by
  cases work with
  | hands _ heard => cases heard.symm.trans unheard
  | goes | emits | ends | fails | puts | abandons | leaves | reports | forgets | exits =>
    exact .closing unheard asking told

theorem Sound.works (sound : exchange.Sound start origin) (work : Works exchange next) : next.Sound start origin := by
  cases sound with
  | listening heard unknown fits asking told accounts =>
    exact .works_listening heard unknown fits asking told accounts work
  | drained unheard left asking told accounts => exact .works_drained unheard left asking told accounts work
  | joining unheard known asking left told ran =>
    cases work with
    | goes busy | emits busy | ends busy | fails busy | puts busy | hands busy | abandons busy | leaves busy
    | reports busy | forgets busy => rcases left with left | left <;> cases left.symm.trans busy
    | exits => exact .joining unheard known asking (.inr rfl) told ran
  | ended unheard known asking left told ran =>
    cases work with
    | goes busy | emits busy | ends busy | fails busy | puts busy | hands busy | abandons busy | leaves busy
    | reports busy | forgets busy | exits busy => cases left.symm.trans busy
  | closing unheard asking told => exact .works_closing unheard asking told work

theorem Accounts.of_gone {sent : List Row} (accounts : exchange.Accounts start origin sent)
    (gone : exchange.errand = .gone) :
    ∃ result, exchange.result = some result := by
  rw [Accounts, gone] at accounts
  obtain ⟨result, reported, _⟩ := accounts
  exact ⟨result, reported⟩

theorem Accounts.of_reported {sent : List Row} {result : Except Error Unit}
    (accounts : exchange.Accounts start origin sent) (reported : exchange.result = some result) :
    (exchange.errand = .finishing ∨ exchange.errand = .gone) ∧
      Runs start origin sent (failureOf result) exchange.source := by
  unfold Accounts at accounts
  split at accounts
  next => cases accounts.1.symm.trans reported
  next => cases accounts.1.symm.trans reported
  next => cases accounts.1.symm.trans reported
  next => cases accounts.1.symm.trans reported
  next finishing =>
    obtain ⟨_, same, ran⟩ := accounts
    cases same.symm.trans reported
    exact ⟨.inl finishing, ran⟩
  next gone =>
    obtain ⟨_, same, ran⟩ := accounts
    cases same.symm.trans reported
    exact ⟨.inr gone, ran⟩

theorem Sound.asks_listening (heard : exchange.listening = true) (unknown : exchange.pending = true)
    (fits : exchange.rows.length ≤ exchange.capacity) (asking : exchange.inquiry = .idle ∨ exchange.inquiry = .receiving)
    (told : exchange.told = taken.map .row) (accounts : exchange.Accounts start origin (taken ++ exchange.rows))
    (ask : Asks exchange next) : next.Sound start origin := by
  cases ask with
  | asks => exact .listening heard unknown fits (.inr rfl) told accounts
  | returns _ unheard => cases heard.symm.trans unheard
  | takes _ ready =>
    rw [ready, List.length_cons] at fits
    rw [ready, List.append_cons] at accounts
    refine .listening heard unknown (Nat.le_of_succ_le fits) (.inl rfl) ?_ accounts
    simp [told]
  | turns _ drained left =>
    rw [drained, List.append_nil] at accounts
    exact .drained rfl left (.inl ⟨rfl, unknown⟩) told accounts
  | closes =>
    refine .closing rfl (.inl rfl) ?_
    rw [told]
    exact accounts.taken_told (List.prefix_append _ _)
  | awaits moment | repeats moment | learns moment | misses moment | joins moment | parts moment | closed moment =>
    simp [moment] at asking

theorem Sound.asks_drained (unheard : exchange.listening = false) (left : exchange.errand.left = true)
    (asking : exchange.inquiry = .turning ∧ exchange.pending = true ∨
      exchange.inquiry = .awaiting ∧ exchange.pending = false)
    (told : exchange.told = taken.map .row) (accounts : exchange.Accounts start origin taken) (ask : Asks exchange next) :
    next.Sound start origin := by
  cases ask with
  | awaits => exact .drained unheard left (.inr ⟨rfl, rfl⟩) told accounts
  | learns awaiting ready =>
    obtain ⟨left, ran⟩ := accounts.of_reported ready
    simp only [awaiting, true_and, reduceCtorEq, false_and, false_or] at asking
    exact .joining unheard asking rfl left told ran
  | misses _ drained gone =>
    obtain ⟨_, reported⟩ := accounts.of_gone gone
    cases drained.symm.trans reported
  | repeats moment known => simp [moment, known] at asking
  | asks moment | returns moment | takes moment | turns moment | joins moment | closes moment | parts moment
  | closed moment => simp [moment] at asking

theorem Sound.asks_ended {result : Except Error Unit} {more : Nat} (unheard : exchange.listening = false)
    (known : exchange.pending = false) (asking : exchange.inquiry = .idle ∨ exchange.inquiry = .turning)
    (left : exchange.errand = .gone)
    (told : exchange.told = taken.map .row ++ .ofResult result :: .replicate more .finished)
    (ran : Runs start origin taken (failureOf result) exchange.source) (ask : Asks exchange next) :
    next.Sound start origin := by
  cases ask with
  | asks _ heard => cases heard.symm.trans unheard
  | returns => exact .ended unheard known (.inr rfl) left told ran
  | awaits _ unknown => cases unknown.symm.trans known
  | repeats =>
    refine @Sound.ended _ _ _ _ _ taken result (more + 1) unheard known (.inl rfl) left ?_ ran
    rw [told, List.append_assoc, List.cons_append, List.replicate_succ']
  | closes =>
    refine .closing rfl (.inl rfl) ?_
    rw [told]
    exact .ended ran more
  | takes moment | turns moment | learns moment | misses moment | joins moment | parts moment | closed moment =>
    simp [moment] at asking

theorem Sound.asks (sound : exchange.Sound start origin) (ask : Asks exchange next) : next.Sound start origin := by
  cases sound with
  | listening heard unknown fits asking told accounts =>
    exact .asks_listening heard unknown fits asking told accounts ask
  | drained unheard left asking told accounts => exact .asks_drained unheard left asking told accounts ask
  | joining unheard known asking left told ran =>
    cases ask with
    | joins moment gone =>
      cases asking.symm.trans moment
      refine @Sound.ended _ _ _ _ _ _ _ 0 unheard known (.inl rfl) gone ?_ ran
      rw [told]
      rfl
    | asks moment | returns moment | takes moment | turns moment | awaits moment | repeats moment | learns moment
    | misses moment | closes moment | parts moment | closed moment => cases asking.symm.trans moment
  | ended unheard known asking left told ran => exact .asks_ended unheard known asking left told ran ask
  | closing unheard asking told =>
    cases ask with
    | parts => exact .closing unheard (.inr ⟨.inl rfl, rfl⟩) told
    | closed parting =>
      simp only [parting, reduceCtorEq, false_or, or_false, true_and] at asking
      exact .closing unheard (.inr ⟨.inr rfl, asking⟩) told
    | asks moment | returns moment | takes moment | turns moment | awaits moment | repeats moment | learns moment
    | misses moment | joins moment | closes moment => simp [moment] at asking

theorem Sound.of_reached {program : Program} {capacity : Nat} {source : σ}
    (reached : Reached program capacity source exchange) :
    exchange.Sound { program } source := by
  induction reached with
  | refl => exact .opened program capacity source
  | tail _ step ih => exact step.elim ih.works ih.asks

theorem Works.of_running {machine : Machine} (running : exchange.errand = .running machine) :
    ∃ next, Works exchange next := by
  rcases ran : machine.step exchange.source with ⟨outcome, after⟩
  rcases outcome with reason | ⟨event, machine⟩
  · exact ⟨_, .fails running ran⟩
  · cases event with
    | silent => exact ⟨_, .goes running ran⟩
    | row row => exact ⟨_, .emits running ran⟩
    | ended => exact ⟨_, .ends running ran⟩

/-- Some side can go on. Once the worker is gone it is the one who asks. -/
def Moves (exchange : Exchange σ) : Prop :=
  (∃ next, Asks exchange next) ∨ exchange.errand ≠ .gone ∧ ∃ next, Works exchange next

theorem moves_receiving {sent : List Row} (heard : exchange.listening = true) (unknown : exchange.pending = true)
    (receiving : exchange.inquiry = .receiving) (accounts : exchange.Accounts start origin sent) : exchange.Moves := by
  cases ready : exchange.rows with
  | cons row rest => exact .inl ⟨_, .takes receiving ready⟩
  | nil =>
    cases stage : exchange.errand with
    | running machine => exact .inr ⟨by simp [stage], Works.of_running stage⟩
    | sending row machine =>
      refine .inr ⟨by simp [stage], ?_⟩
      cases capacity : exchange.capacity with
      | zero => exact ⟨_, .hands stage heard capacity receiving⟩
      | succ more =>
        refine ⟨_, .puts stage heard ?_⟩
        rw [ready, capacity]
        exact Nat.succ_pos more
    | leaving result => exact .inr ⟨by simp [stage], _, .leaves stage⟩
    | reporting result =>
      rw [Accounts, stage] at accounts
      exact .inr ⟨by simp [stage], _, .reports stage (.inl unknown) accounts.1⟩
    | finishing => exact .inr ⟨by simp [stage], _, .exits stage⟩
    | gone => exact .inl ⟨_, .turns receiving ready (by rw [stage, Errand.left])⟩

theorem moves_awaiting {sent : List Row} (left : exchange.errand.left = true) (awaiting : exchange.inquiry = .awaiting)
    (accounts : exchange.Accounts start origin sent) : exchange.Moves := by
  cases stage : exchange.errand with
  | running | sending | leaving =>
    rw [stage] at left
    cases left
  | reporting result =>
    rw [Accounts, stage] at accounts
    exact .inr ⟨by simp [stage], _, .reports stage (.inr awaiting) accounts.1⟩
  | finishing => exact .inr ⟨by simp [stage], _, .exits stage⟩
  | gone =>
    obtain ⟨result, reported⟩ := accounts.of_gone stage
    exact .inl ⟨_, .learns awaiting reported⟩

theorem moves_parting (unheard : exchange.listening = false) (known : exchange.pending = false)
    (parting : exchange.inquiry = .parting) : exchange.Moves := by
  cases stage : exchange.errand with
  | running machine => exact .inr ⟨by simp [stage], Works.of_running stage⟩
  | sending row machine => exact .inr ⟨by simp [stage], _, .abandons stage unheard⟩
  | leaving result => exact .inr ⟨by simp [stage], _, .leaves stage⟩
  | reporting result => exact .inr ⟨by simp [stage], _, .forgets stage known (by simp [parting])⟩
  | finishing => exact .inr ⟨by simp [stage], _, .exits stage⟩
  | gone => exact .inl ⟨_, .closed parting stage⟩

theorem Sound.moves (sound : exchange.Sound start origin) (waits : exchange.inquiry.waits = true) : exchange.Moves := by
  cases sound with
  | listening heard unknown fits asking told accounts =>
    rcases asking with idle | receiving
    · rw [idle] at waits
      cases waits
    · exact moves_receiving heard unknown receiving accounts
  | drained unheard left asking told accounts =>
    rcases asking with ⟨turning, unknown⟩ | ⟨awaiting, known⟩
    · exact .inl ⟨_, .awaits turning unknown⟩
    · exact moves_awaiting left awaiting accounts
  | joining unheard known asking left told ran =>
    rcases left with finishing | gone
    · exact .inr ⟨by simp [finishing], _, .exits finishing⟩
    · exact .inl ⟨_, .joins asking gone⟩
  | ended unheard known asking left told ran =>
    rcases asking with idle | turning
    · rw [idle] at waits
      cases waits
    · exact .inl ⟨_, .repeats turning known⟩
  | closing unheard asking told =>
    rcases asking with closing | ⟨parting | closed, known⟩
    · exact .inl ⟨_, .parts closing⟩
    · exact moves_parting unheard known parting
    · rw [closed] at waits
      cases waits

theorem Sound.not_lost (sound : exchange.Sound start origin) : exchange.inquiry ≠ .lost := by
  intro lost
  cases sound with
  | listening _ _ _ asking | drained _ _ asking | joining _ _ asking | ended _ _ asking | closing _ asking =>
    simp [lost] at asking

end Exchange
end SqliteReader
