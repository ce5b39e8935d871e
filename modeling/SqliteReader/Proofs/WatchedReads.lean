import SqliteReader.Pager
import SqliteReader.Proofs.MachineRun

/-! A pager under watch, whose answers are kept on a list. Watching changes nothing, and it
shows that no failure goes by: whatever uses the pager either meets none or ends with the
only one that it met. -/

namespace SqliteReader

def failureOf {α : Type} : Except Error α → Option Error
  | .ok _ => none
  | .error reason => some reason

inductive Read
  | header (outcome : Except Error Header)
  | node (page : UInt32) (outcome : Except Error Node)

def Read.failure? : Read → Option Error
  | .header outcome => failureOf outcome
  | .node _ outcome => failureOf outcome

structure Watched where
  pager : Pager
  /-- The latest one last. -/
  reads : List Read := []

namespace Watched

def failures (watched : Watched) : List Error := watched.reads.filterMap Read.failure?

instance : Source Watched where
  header := fun watched =>
    let (outcome, pager) := Pager.header watched.pager
    (outcome, ⟨pager, watched.reads ++ [.header outcome]⟩)
  node page parent := fun watched =>
    let (outcome, pager) := Pager.readNode page parent watched.pager
    (outcome, ⟨pager, watched.reads ++ [.node page outcome]⟩)
  given ran := Source.given (Prod.ext (Prod.mk.inj ran).1 rfl)

theorem alike_pager : Alike fun (watched : Watched) (pager : Pager) => watched.pager = pager where
  header watched pager same := by
    subst same
    exact ⟨_, _, _, rfl, rfl, rfl⟩
  node page parent watched pager same := by
    subst same
    exact ⟨_, _, _, rfl, rfl, rfl⟩

/-- What the failures on the list are after an outcome. -/
def Tells (before after : Watched) : Option Error → Prop
  | none => after.failures = before.failures
  | some reason => after.failures = before.failures ∨ after.failures = before.failures ++ [reason]

theorem Tells.refl (watched : Watched) (failure : Option Error) : watched.Tells watched failure := by
  cases failure with
  | none => rfl
  | some reason => exact .inl rfl

theorem Tells.trans {first middle last : Watched} {failure : Option Error} (before : first.Tells middle none)
    (rest : middle.Tells last failure) : first.Tells last failure := by
  have same : middle.failures = first.failures := before
  cases failure with
  | none => exact Eq.trans (show last.failures = middle.failures from rest) same
  | some reason =>
    rw [Tells, same] at rest
    exact rest

/-- Where nothing had failed before, the failure told is the only one. -/
theorem Tells.only {before after : Watched} {failure : Option Error} (told : before.Tells after failure)
    (clean : before.failures = []) : ∀ reason ∈ after.failures, failure = some reason := by
  intro reason met
  cases failure with
  | none =>
    rw [show after.failures = [] from Eq.trans told clean] at met
    cases met
  | some other =>
    rcases told with same | same
    · rw [same, clean] at met
      cases met
    · rw [same, clean] at met
      rw [List.mem_singleton.mp met]

theorem tells_read (watched : Watched) (pager : Pager) (read : Read) :
    watched.Tells ⟨pager, watched.reads ++ [read]⟩ read.failure? := by
  cases failed : read.failure? with
  | none => simp [Tells, failures, failed]
  | some reason => simp [Tells, failures, failed]

end Watched

/-- What was met is told: no failure unless one is reported, and then no other. -/
def Candid {α : Type} (act : Using Watched α) : Prop :=
  ∀ watched : Watched, watched.Tells (act watched).2 (failureOf (act watched).1)

namespace Candid

variable {α β : Type}

theorem tells {act : Using Watched α} (candid : Candid act) {watched after : Watched} {outcome : Except Error α}
    (ran : act watched = (outcome, after)) : watched.Tells after (failureOf outcome) := by
  have told := candid watched
  rw [ran] at told
  exact told

theorem pure (result : α) : Candid (pure result) := fun watched => .refl watched none

theorem lift (outcome : Except MachineError α) : Candid (liftM outcome) := fun watched => .refl watched _

theorem bind {act : Using Watched α} {next : α → Using Watched β} (first : Candid act)
    (rest : ∀ result, Candid (next result)) : Candid (act >>= next) := by
  intro watched
  rcases ran : act watched with ⟨outcome, after⟩
  have told := first.tells ran
  cases outcome with
  | error reason =>
    rw [Using.bind_of_error ran]
    exact told
  | ok result =>
    rw [Using.bind_of_ok ran]
    exact told.trans (rest result after)

theorem header : Candid Source.header := fun watched => Watched.tells_read watched _ (.header _)

theorem node (page : UInt32) (parent : Option (Nat × PageKind)) : Candid (Source.node page parent) :=
  fun watched => Watched.tells_read watched _ (.node page _)

end Candid

theorem Visited.tells {nodes : Array Node} {way : List UInt32} {holder index : Nat} {page : UInt32}
    {watched last : Watched} {outcome : Except Error (Nat × Array Node)}
    (visited : Visited nodes way holder index page watched outcome last) : watched.Tells last (failureOf outcome) := by
  cases visited with
  | known => exact .refl _ none
  | cyclic => exact .refl _ (some _)
  | unreadable _ _ asked => exact (Candid.node page _).tells asked
  | decoded _ _ asked => exact (Candid.node page _).tells asked

namespace Walk

variable {walk next last : Walk Watched} {finding : Option Finding}

theorem Turned.tells (turned : walk.Turned finding next) :
    walk.source.Tells next.source (finding.bind Finding.failure?) := by
  cases turned with
  | left | record => exact .refl _ none
  | refused _ _ visited => exact visited.tells
  | entered _ _ visited => exact visited.tells

theorem Ends.tells {asked : Record → Bool} {passed : List Record} (ends : Ends asked walk passed finding last) :
    walk.source.Tells last.source (finding.bind Finding.failure?) := by
  induction ends with
  | exhausted => exact .refl _ none
  | failed ran | found ran _ => exact (Walk.turned ran).tells
  | passed ran _ _ ih | onward ran _ ih => exact (Walk.turned ran).tells.trans ih

end Walk

theorem search_tells (tree : Tree) (asked : Record → Bool) (watched : Watched) :
    ∃ found passed after last, tree.search asked watched = (found, passed, after, last) ∧
      watched.Tells last after.failure := by
  cases latched : tree.failure with
  | some reason => exact ⟨_, _, _, _, Tree.search_latched latched asked watched, .refl watched _⟩
  | none =>
    obtain ⟨passed, finding, last, after, ends, ran, left⟩ := Tree.search_ends latched asked watched
    exact ⟨_, _, _, _, ran, left.failure ▸ ends.tells⟩

theorem Motion.act_tells (motion : Motion) (tree : Tree) (watched : Watched) :
    ∃ found after last, motion.act tree watched = (found, after, last) ∧ watched.Tells last after.failure := by
  cases latched : tree.failure with
  | some reason => exact ⟨_, _, _, motion.act_latched latched watched, .refl watched _⟩
  | none =>
    obtain ⟨passed, finding, last, after, ends, ran, left⟩ := motion.act_ends latched watched
    exact ⟨_, _, _, ran, left.failure ▸ ends.tells⟩

section

variable {σ : Type} [Source σ] {source last : σ} {tree after : Tree}

theorem openAt_unlatched {root : UInt32} (opened : Tree.openAt root source = (.ok tree, last)) : tree.failure = none := by
  obtain ⟨_, _, _, rfl⟩ := Tree.of_openAt_ok opened
  rfl

theorem move_unlatched {motion : Motion} {found : Bool}
    (ran : Machine.move (motion.act tree) source = (.ok (found, after), last)) : after.failure = none := by
  rcases moved : motion.act tree source with ⟨_ | _, reached, final⟩
  · cases latched : reached.failure with
    | none =>
      cases (Machine.move_ended moved latched).symm.trans ran
      exact latched
    | some reason => cases (Machine.move_failed moved latched).symm.trans ran
  · obtain ⟨_, _, clear⟩ := motion.act_found moved
    cases (Machine.move_found moved).symm.trans ran
    exact clear

end

theorem Candid.move (motion : Motion) (tree : Tree) : Candid (Machine.move (motion.act tree)) := by
  intro watched
  obtain ⟨found, after, last, moved, told⟩ := motion.act_tells tree watched
  cases found with
  | true =>
    obtain ⟨_, _, clear⟩ := motion.act_found moved
    rw [Machine.move_found moved]
    rw [clear] at told
    exact told
  | false =>
    cases latched : after.failure with
    | none =>
      rw [latched] at told
      rw [Machine.move_ended moved latched]
      exact told
    | some reason =>
      rw [latched] at told
      rw [Machine.move_failed moved latched]
      exact told

theorem Candid.openAt (root : UInt32) : Candid (Tree.openAt root) := by
  intro watched
  rcases read : (Source.node root none watched : Except Error Node × Watched) with ⟨outcome, after⟩
  have told := (Candid.node root none).tells read
  cases outcome with
  | error reason =>
    rw [Tree.openAt_of_error read]
    exact told
  | ok node =>
    rw [Tree.openAt_of_ok read]
    exact told

theorem Candid.execute (machine : Machine) (instruction : Instruction) : Candid (machine.execute instruction) := by
  obtain ⟨use, same⟩ := machine.execute_uses instruction
  rw [same Watched]
  cases use with
  | none outcome => exact .lift outcome
  | header finish =>
    apply Candid.header.bind
    intro header
    exact .lift (finish header)
  | opening slot root =>
    apply (Candid.openAt root).bind
    intro tree
    exact .pure _
  | moving slot tree motion moves finish =>
    apply (Candid.move motion tree).bind
    intro moved
    exact .lift (finish moved.1 moved.2)

theorem Candid.step (machine : Machine) : Candid machine.step := by
  unfold Machine.step
  split
  · exact .pure _
  · apply (Candid.execute machine _).bind
    intro executed
    obtain ⟨effect, next⟩ := executed
    cases effect <;> exact .pure _

namespace Machine

def Unlatched (machine : Machine) : Prop :=
  ∀ (slot : Nat) (tree : Tree), machine.cursors[slot]? = some (some tree) → tree.failure = none

variable {machine next : Machine}

theorem Unlatched.congr (unlatched : machine.Unlatched) (same : next.cursors = machine.cursors) : next.Unlatched := by
  intro slot tree found
  exact unlatched slot tree (same ▸ found)

theorem Unlatched.setCursor (unlatched : machine.Unlatched) (slot : Nat) {tree : Tree} (clear : tree.failure = none) :
    (machine.setCursor slot tree).Unlatched := by
  intro other kept found
  simp only [Machine.setCursor, Array.getElem?_setIfInBounds] at found
  split at found
  · split at found
    · cases found
      exact clear
    · cases found
  · rw [Array.getElem?_append] at found
    split at found
    · exact unlatched other kept found
    · rw [Array.getElem?_replicate] at found
      split at found <;> cases found

variable {σ : Type} [Source σ] {source last : σ}

theorem Unlatched.execute (unlatched : machine.Unlatched) {instruction : Instruction} {effect : Effect}
    (ran : machine.execute instruction source = (.ok (effect, next), last)) : next.Unlatched := by
  obtain ⟨use, same⟩ := machine.execute_uses instruction
  rw [same σ] at ran
  cases use with
  | none outcome gives => exact unlatched.congr (gives effect next (Using.of_lift_ok ran)).2
  | header finish gives =>
    obtain ⟨header, after, _, ran⟩ := Using.of_bind_ok ran
    exact unlatched.congr (gives header effect next (Using.of_lift_ok ran)).2
  | opening slot root =>
    obtain ⟨tree, after, opened, ran⟩ := Using.of_bind_ok ran
    cases ran
    exact unlatched.setCursor slot (openAt_unlatched opened)
  | moving slot tree motion moves finish gives =>
    obtain ⟨⟨found, moved⟩, after, walked, ran⟩ := Using.of_bind_ok ran
    exact (unlatched.setCursor slot (move_unlatched walked)).congr (gives found moved effect next (Using.of_lift_ok ran)).2

theorem Unlatched.step (unlatched : machine.Unlatched) {event : Event}
    (ran : machine.step source = (.ok (event, next), last)) : next.Unlatched := by
  cases here : machine.program.instructions[machine.counter]? with
  | none =>
    simp only [Machine.step, here] at ran
    cases ran
    exact unlatched
  | some instruction =>
    simp only [Machine.step, here] at ran
    obtain ⟨⟨effect, middle⟩, after, executed, ran⟩ := Using.of_bind_ok ran
    have kept := unlatched.execute executed
    cases effect <;> cases ran <;> exact kept.congr rfl

end Machine

/-- The machines and sources at the boundaries of the instructions of a run. -/
inductive Boundary {σ : Type} [Source σ] (program : Program) (source : σ) : Machine → σ → Prop
  | start : Boundary program source { program } source
  | step {machine next : Machine} {event : Event} {middle last : σ} (before : Boundary program source machine middle)
      (ran : machine.step middle = (.ok (event, next), last)) : Boundary program source next last

theorem Boundary.unlatched {σ : Type} [Source σ] {program : Program} {source last : σ} {machine : Machine}
    (boundary : Boundary program source machine last) : machine.Unlatched := by
  induction boundary with
  | start =>
    intro slot tree impossible
    simp at impossible
  | step before ran ih => exact ih.step ran

theorem Boundary.no_failures {program : Program} {watched last : Watched} {machine : Machine}
    (boundary : Boundary program watched machine last) : last.failures = watched.failures := by
  induction boundary with
  | start => rfl
  | @step machine next event middle last before ran ih =>
    have told := (Candid.step machine).tells ran
    exact Eq.trans told ih

theorem Runs.tells {machine : Machine} {watched last : Watched} {rows : List Row} {ending : Option Error}
    (ran : Runs machine watched rows ending last) : watched.Tells last ending := by
  induction ran with
  | ended stopped => exact (Candid.step _).tells stopped
  | failed stopped => exact (Candid.step _).tells stopped
  | silent stepped onward ih =>
    have told := (Candid.step _).tells stepped
    exact told.trans ih
  | row stepped onward ih =>
    have told := (Candid.step _).tells stepped
    exact told.trans ih

end SqliteReader
