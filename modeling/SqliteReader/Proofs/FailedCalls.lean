import SqliteReader.Proofs.BalancedReads

/-! What a call that fails leaves behind. The pager is as open as before, with as many pages
handed out, and locked as before, with one exception: a page that cannot be read under a
SHARED lock that was taken for its own sake takes this lock along if no page is handed out. -/

namespace SqliteReader

namespace Pager

/-- The lock is given back as if it had been taken for the page that cannot be read. -/
def LosesLock (pager : Pager) (call : Call) (reason : Error) : Prop :=
  call.takesPage = true ∧ reason = .io .unexpectedEnd ∧ pager.level = .shared ∧ pager.held = 0

instance (pager : Pager) (call : Call) (reason : Error) : Decidable (pager.LosesLock call reason) :=
  inferInstanceAs (Decidable (_ ∧ _ ∧ _ ∧ _))

structure Spared (pager : Pager) (call : Call) (reason : Error) (after : Pager) : Prop where
  keeps : pager.Keeps after ↔ ¬ pager.LosesLock call reason
  isOpen : after.isOpen = pager.isOpen
  held : after.held = pager.held
  lost : pager.LosesLock call reason → after.level = .none ∧ ∀ byte, after.disk.own.at? byte = none

/-- Level and page count are the same, and the file is as open. With right books this settles
the bytes that are locked. -/
structure Agrees (pager after : Pager) : Prop where
  level : after.level = pager.level
  held : after.held = pager.held
  isOpen : after.isOpen = pager.isOpen

def leaving (pager : Pager) (call : Call) (reason : Error) : Pager :=
  if pager.LosesLock call reason then pager.dropLock else pager

variable {pager middle after : Pager} {call : Call} {reason : Error}

theorem Agrees.refl (pager : Pager) : pager.Agrees pager := ⟨rfl, rfl, rfl⟩

theorem Agrees.trans (first : pager.Agrees middle) (second : middle.Agrees after) : pager.Agrees after :=
  ⟨second.level.trans first.level, second.held.trans first.held, second.isOpen.trans first.isOpen⟩

theorem Agrees.leaving (same : pager.Agrees after) (call : Call) (reason : Error) :
    (pager.leaving call reason).Agrees (after.leaving call reason) := by
  have loses : after.LosesLock call reason ↔ pager.LosesLock call reason := by
    simp only [LosesLock, same.level, same.held]
  unfold Pager.leaving
  by_cases lost : pager.LosesLock call reason
  · rw [if_pos lost, if_pos (loses.mpr lost)]
    exact ⟨rfl, same.held, same.isOpen⟩
  · rw [if_neg lost, if_neg (mt loses.mp lost)]
    exact same

theorem leaving_of_free (free : pager.level = .none) : pager.leaving call reason = pager := by
  refine if_neg ?_
  rintro ⟨_, _, shared, _⟩
  cases free.symm.trans shared

theorem leaving_unread (shared : pager.level = .shared) (number : UInt32) :
    pager.leaving (.getPage number) (.io .unexpectedEnd) = pager.dropIdleLock := by
  have idle : pager.LosesLock (.getPage number) (.io .unexpectedEnd) ↔ pager.held = 0 ∧ pager.level ≠ .none := by
    simp [LosesLock, Call.takesPage, shared]
  simp only [Pager.leaving, Pager.dropIdleLock, idle]

theorem Sound.getPage_failed (sound : pager.Sound) (shared : pager.level = .shared) {number : UInt32}
    (failed : getPage number pager = (.error reason, after)) :
    reason ≠ .io .unexpectedEnd ∧ after = pager ∨ reason = .io .unexpectedEnd ∧ after = pager.dropIdleLock := by
  obtain ⟨header, _, ensured⟩ := sound.ensureShared_shared shared
  unfold getPage at failed
  split at failed
  · cases failed
    exact .inl ⟨by simp, rfl⟩
  · simp only [ensured] at failed
    split at failed
    · cases failed
    next unread =>
      cases failed
      exact .inr ⟨readPage_failed unread, rfl⟩

theorem Effect.agrees_of_refused {pager after : Pager} (effect : pager.Effect call (.error reason) after)
    (other : ¬ call.takesPage = true) : after = pager := by
  cases effect with
  | refused => rfl
  | unread => exact absurd rfl other

theorem agrees_dropIdleLock (free : pager.level = .none) : pager.Agrees pager.dropIdleLock :=
  ⟨(level_dropIdleLock free).trans free.symm, held_dropIdleLock pager, isOpen_dropIdleLock pager⟩

theorem Sound.run_failed (sound : pager.Sound) (direct : ¬ call.Acquires pager)
    (failed : call.run pager = (.error reason, after)) : (pager.leaving call reason).Agrees after := by
  have effect := sound.run_effect direct
  rw [failed] at effect
  rcases sound.level with free | shared
  · rw [leaving_of_free free]
    cases effect with
    | refused => exact .refl _
    | unread => exact agrees_dropIdleLock free
  · by_cases takes : call.takesPage = true
    · cases call with
      | getPage number =>
        have outcome : getPage number pager = (.error reason, after) := by
          simp only [Call.run, Access.answer] at failed
          rcases ran : getPage number pager with ⟨_ | _, _⟩ <;> rw [ran] at failed <;> cases failed
          rfl
        rcases sound.getPage_failed shared outcome with ⟨other, rfl⟩ | ⟨rfl, rfl⟩
        · rw [Pager.leaving, if_neg fun loses => other loses.2.1]
          exact .refl _
        · rw [leaving_unread shared]
          exact .refl _
      | releasePage | header | lock | unlock | close => cases takes
    · obtain rfl : after = pager := effect.agrees_of_refused takes
      rw [Pager.leaving, if_neg fun loses => takes loses.1]
      exact .refl _

theorem follow_failed {known : Header} (failed : call.follow known pager = (.error reason, after)) :
    after = pager.dropIdleLock := by
  cases call with
  | getPage number =>
    simp only [Call.follow] at failed
    split at failed <;> cases failed
    rfl
  | releasePage | header | lock | unlock | close => cases failed

/-- A call that fails behind the steps on the locks gives back the lock it has taken there. -/
theorem Acquiring.resume_failed {granted : Bool} {progress : Acquisition} (acquiring : pager.Acquiring progress)
    (failed : call.resume granted pager = (.error reason, after)) : pager.Agrees after := by
  have drops (taken : Pager) (held : taken.held = 0) (level : taken.level = .shared) :
      taken.dropIdleLock = taken.dropLock := if_pos ⟨held, by simp [level]⟩
  cases granted with
  | false =>
    cases failed
    exact .refl pager
  | true =>
    simp only [Call.resume, settleShared, if_true, refresh, if_pos acquiring.isOpen] at failed
    cases parsed : Header.parse (pager.disk.image.extract 0 Header.size).data.toList with
    | error cause =>
      simp only [parsed] at failed
      cases failed
      rw [drops { pager with level := .shared } acquiring.idle rfl]
      exact ⟨acquiring.free.symm, rfl, rfl⟩
    | ok header =>
      simp only [parsed] at failed
      have dropped := drops ({ pager with level := .shared }.learn header) acquiring.idle rfl
      rw [follow_failed failed]
      exact dropped ▸ ⟨acquiring.free.symm, rfl, rfl⟩

theorem Agrees.spared (same : (pager.leaving call reason).Agrees after) (sound : pager.Sound) (kept : after.Sound) :
    pager.Spared call reason after := by
  by_cases lost : pager.LosesLock call reason
  · rw [Pager.leaving, if_pos lost] at same
    have free : after.level = .none := same.level
    refine ⟨⟨fun keeps => ?_, fun other => absurd lost other⟩, same.isOpen, same.held, fun _ => ⟨free, ?_⟩⟩
    · cases (lost.2.2.1.symm.trans keeps.level.symm).trans free
    · intro byte
      simp [kept.locks.own byte, free]
  · rw [Pager.leaving, if_neg lost] at same
    refine ⟨⟨fun _ => lost, fun _ => ⟨same.isOpen, same.held, same.level, ?_⟩⟩, same.isOpen, same.held,
      fun loses => absurd loses lost⟩
    intro byte
    rw [kept.locks.own, sound.locks.own, same.level]

end Pager

namespace Scene

variable {scene next later : Scene}

/-- What the calls that have ended meanwhile did: none of them nothing, and a single one
that failed what such a call does. -/
def Spares (scene later : Scene) : List (Call × Except Error Answer) → Prop
  | [] => scene.pager.Agrees later.pager
  | [(call, .error reason)] => (scene.pager.leaving call reason).Agrees later.pager
  | _ => True

theorem Sound.quiet_or_spares (sound : scene.Sound) (moved : Step scene next) :
    (next.past = scene.past ∧ scene.pager.Agrees next.pager) ∨
    ∃ call outcome, next.past = (call, outcome) :: scene.past ∧
      ∀ reason, outcome = .error reason → (scene.pager.leaving call reason).Agrees next.pager := by
  cases moved with
  | foreign act => exact .inl ⟨rfl, rfl, rfl, rfl⟩
  | begin idle acquires => exact .inl ⟨rfl, rfl, rfl, rfl⟩
  | advance underway => exact .inl ⟨rfl, rfl, rfl, rfl⟩
  | @direct call idle direct =>
    refine .inr ⟨call, _, rfl, ?_⟩
    intro reason failed
    exact (sound.between idle).run_failed direct (Prod.ext failed rfl)
  | @grant call underway =>
    refine .inr ⟨call, _, rfl, ?_⟩
    intro reason failed
    have acquiring := (sound.within _ _ underway).2
    rw [Pager.leaving_of_free acquiring.free]
    exact acquiring.resume_failed (Prod.ext failed rfl)
  | @refuse call underway =>
    refine .inr ⟨call, _, rfl, ?_⟩
    intro reason failed
    have acquiring := (sound.within _ _ underway).2
    rw [Pager.leaving_of_free acquiring.free]
    exact acquiring.resume_failed (Prod.ext failed rfl)

theorem Sound.steps_spare (sound : scene.Sound) (moved : Steps scene later) :
    ∃ ended, later.past = ended ++ scene.past ∧ scene.Spares later ended := by
  induction moved with
  | refl => exact ⟨[], rfl, .refl scene.pager⟩
  | tail before moved ih =>
    obtain ⟨ended, same, spares⟩ := ih
    rcases (sound.steps before).quiet_or_spares moved with ⟨quiet, agrees⟩ | ⟨call, outcome, ends, left⟩
    · refine ⟨ended, quiet.trans same, ?_⟩
      -- Only of no call at all, or of one that failed, is anything said.
      rcases ended with _ | ⟨⟨_, _ | _⟩, _ | _⟩
      · exact Pager.Agrees.trans spares agrees
      · exact Pager.Agrees.trans spares agrees
      all_goals trivial
    · refine ⟨(call, outcome) :: ended, by rw [ends, same, List.cons_append], ?_⟩
      rcases ended with _ | _
      · cases outcome with
        | ok answer => trivial
        | error reason => exact (Pager.Agrees.leaving spares call reason).trans (left reason rfl)
      · cases outcome <;> trivial

/-- A call that fails, also one between whose steps another process takes its own, leaves the
level, the locked bytes, the pages and the file as they were, unless it loses the lock. -/
theorem failed_calls_spare (reachable : scene.Reachable) (idle : scene.underway = none) :
    (∀ later call reason, Steps scene later → later.underway = none →
      later.past = (call, .error reason) :: scene.past → scene.pager.Spared call reason later.pager) ∧
    ∀ call reason after, call.run scene.pager = (.error reason, after) → scene.pager.Spared call reason after := by
  have sound := reachable.sound
  have apart : ∀ later call reason, Steps scene later → later.underway = none →
      later.past = (call, .error reason) :: scene.past → scene.pager.Spared call reason later.pager := by
    intro later call reason moved settled failed
    obtain ⟨ended, same, spares⟩ := sound.steps_spare moved
    obtain rfl : [(call, .error reason)] = ended := List.append_cancel_right (failed.symm.trans same)
    exact Pager.Agrees.spared spares (sound.between idle) ((sound.steps moved).between settled)
  refine ⟨apart, ?_⟩
  intro call reason after failed
  have moved := steps_run idle call
  rw [failed] at moved
  exact apart _ call reason moved rfl rfl

/-- Nobody can close a pager while a page is handed out, and trying it changes nothing. -/
theorem failed_calls_spare_close :
    ∃ scene : Scene, scene.Reachable ∧ scene.underway = none ∧
      (∃ later, Steps scene later ∧ later.past = (.close, .error (.pagesOutstanding 1)) :: scene.past ∧
        scene.pager.Keeps later.pager) ∧
      scene.pager.Keeps (Call.run .close scene.pager).2 := by
  obtain ⟨scene, reachable, idle, held⟩ := exists_holding
  have failed : Call.run .close scene.pager = (.error (.pagesOutstanding 1), scene.pager) := by
    simp [Call.run, Access.answer, Pager.close, held, Except.map]
  have moved := steps_run idle .close
  rw [failed] at moved
  have needless : ¬ scene.pager.LosesLock .close (.pagesOutstanding 1) := fun loses => Bool.false_ne_true loses.1
  refine ⟨scene, reachable, idle, ⟨_, moved, rfl, ?_⟩, ?_⟩
  · exact ((failed_calls_spare reachable idle).1 _ .close _ moved rfl rfl).keeps.mpr needless
  · rw [failed]
    exact ((failed_calls_spare reachable idle).2 .close _ _ failed).keeps.mpr needless

end Scene

namespace Sample

/-- The first page alone of a file whose header counts four. -/
def cut : Image := .ofPages [schemaPage]

theorem cut_header : cut.header = .ok header := Image.header_ofPages (by decide +kernel) (by decide +kernel)

theorem cut_page : cut.page 2 = .error (.io .unexpectedEnd) := by
  have outside : ¬ 1024 ≤ cut.bytes.size := by decide +kernel
  simp [Image.page, cut_header, Pager.readPage, header, Disk.read?, ByteRange.stop, Image.opened, outside]

end Sample

/-- A lock that was taken explicitly is lost to a page that cannot be read. -/
theorem Scene.failed_call_loses_lock :
    ∃ scene : Scene, scene.Reachable ∧ scene.underway = none ∧ scene.pager.level = .shared ∧
      (Call.run (.getPage 2) scene.pager).1 = .error (.io .unexpectedEnd) ∧
      (Call.run (.getPage 2) scene.pager).2.level = .none := by
  obtain ⟨locked, taken, serves, idle, level⟩ := (Pager.Serves.opened Sample.cut).acquireShared rfl
  rw [Sample.cut_header] at taken
  have ran : Call.run (.lock .shared) Sample.cut.opened = (.ok .done, locked) := by
    have free : Sample.cut.opened.level = .none := rfl
    simp [Call.run, Access.answer, Pager.lock, free, taken, Except.map]
  have moved : Steps { pager := Sample.cut.opened } _ := steps_run rfl (.lock .shared)
  rw [ran] at moved
  have sound : locked.Sound := ((Sound.opened rfl).steps moved).between rfl
  have shared := sound.level.resolve_left (level _ Sample.cut_header)
  obtain ⟨after, failed, _⟩ := serves.getPage 2
  rw [Sample.cut_page] at failed
  have unread : Call.run (.getPage 2) locked = (.error (.io .unexpectedEnd), after) := by
    simp [Call.run, Access.answer, failed, Except.map]
  have direct : ¬ Call.Acquires (.getPage 2) locked := fun acquires => by cases shared.symm.trans acquires.2.1
  have lost : locked.LosesLock (.getPage 2) (.io .unexpectedEnd) := ⟨rfl, rfl, shared, idle⟩
  have left := sound.run_failed direct unread
  rw [Pager.leaving, if_pos lost] at left
  refine ⟨_, ⟨_, rfl, moved⟩, rfl, shared, congrArg Prod.fst unread, ?_⟩
  exact (congrArg (fun result => result.2.level) unread).trans left.level

end SqliteReader
