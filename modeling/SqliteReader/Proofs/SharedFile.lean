import Mathlib.Logic.Relation
import SqliteReader.Proofs.PageLayout
import SqliteReader.Proofs.ReadOnlyCalls

/-! A pager and another process at work on one file. Their steps come in any order, also
between the steps of a call to the SHARED lock. Whatever the order, the books of the pager
are right after every call, nobody writes under the eyes of a reader, and a reader that is
refused leaves no trace. -/

namespace SqliteReader

structure Scene where
  pager : Pager
  /-- The call that is on its way to the SHARED lock, if one is. -/
  underway : Option (Call × Acquisition) := none
  /-- What the calls before came to, the latest first. -/
  past : List (Call × Except Error Answer) := []

namespace Scene

def finish (scene : Scene) (call : Call) (result : Except Error Answer × Pager) : Scene :=
  { pager := result.2, past := (call, result.1) :: scene.past }

def successes (scene : Scene) (kind : Call → Bool) : Nat :=
  scene.past.countP fun (call, outcome) => kind call && outcome.isOk

/-- One step of either process. A call that needs the SHARED lock is begun, goes its way and
is settled; any other call is one step. -/
inductive Step (scene : Scene) : Scene → Prop
  | foreign (act : Foreign) : Step scene { scene with pager.disk := act.act scene.pager.disk }
  | direct {call : Call} (idle : scene.underway = none) (direct : ¬ call.Acquires scene.pager) :
      Step scene (scene.finish call (call.run scene.pager))
  | begin {call : Call} (idle : scene.underway = none) (acquires : call.Acquires scene.pager) :
      Step scene { scene with underway := some (call, .idle) }
  | advance {call : Call} {progress : Acquisition} (underway : scene.underway = some (call, progress)) :
      Step scene { scene with
        pager.disk := (progress.step scene.pager.disk).2
        underway := some (call, (progress.step scene.pager.disk).1) }
  | grant {call : Call} (underway : scene.underway = some (call, .granted)) :
      Step scene (scene.finish call (call.resume true scene.pager))
  | refuse {call : Call} (underway : scene.underway = some (call, .busy)) :
      Step scene (scene.finish call (call.resume false scene.pager))

abbrev Steps : Scene → Scene → Prop := Relation.ReflTransGen Step

/-- From a pager before its first use, over a file with whatever locks of the other process. -/
def Reachable (scene : Scene) : Prop :=
  ∃ disk : Disk, disk.own = {} ∧ Steps { pager := { disk } } scene

/-- A step that leaves the bytes of the file as they are. -/
def Calm (scene next : Scene) : Prop := Step scene next ∧ next.pager.disk.image = scene.pager.disk.image

theorem calm_advance {scene : Scene} {call : Call} {progress : Acquisition}
    (underway : scene.underway = some (call, progress)) :
    Calm scene { scene with
      pager.disk := (progress.step scene.pager.disk).2
      underway := some (call, (progress.step scene.pager.disk).1) } :=
  ⟨.advance underway, ((Pager.SameFile.refl scene.pager).step progress).image⟩

/-- A call with nothing between its steps is the call as it runs, which only reads. -/
theorem calm_run {scene : Scene} (idle : scene.underway = none) (call : Call) :
    Relation.ReflTransGen Calm scene (scene.finish call (call.run scene.pager)) := by
  have ran := Pager.image_run call scene.pager
  by_cases acquires : call.Acquires scene.pager
  · have begun : Relation.ReflTransGen Calm scene _ := .single ⟨.begin idle acquires, rfl⟩
    have third := ((begun.tail (calm_advance rfl)).tail (calm_advance rfl)).tail (calm_advance rfl)
    have asked := (Pager.SameFile.steps scene.pager).image
    rw [Call.run_of_acquires acquires] at ran ⊢
    rcases Acquisition.settled scene.pager.disk _ _ with granted | busy
    · have taken : scene.pager.disk.acquireShared.1 = true := by simpa [Disk.acquireShared] using granted
      rw [taken] at ran ⊢
      exact third.tail ⟨.grant (congrArg (fun progress => some (call, progress)) granted), ran.trans asked.symm⟩
    · have refused : scene.pager.disk.acquireShared.1 = false := by simp [Disk.acquireShared, busy]
      rw [refused] at ran ⊢
      exact third.tail ⟨.refuse (congrArg (fun progress => some (call, progress)) busy), ran.trans asked.symm⟩
  · exact .single ⟨.direct idle acquires, ran⟩

theorem steps_of_calm {scene later : Scene} (calm : Relation.ReflTransGen Calm scene later) : Steps scene later :=
  Relation.ReflTransGen.mono (fun _ _ (moved : Calm _ _) => moved.1) _ _ calm

theorem steps_run {scene : Scene} (idle : scene.underway = none) (call : Call) :
    Steps scene (scene.finish call (call.run scene.pager)) :=
  steps_of_calm (calm_run idle call)

structure Sound (scene : Scene) : Prop where
  between : scene.underway = none → scene.pager.Sound
  within : ∀ call progress, scene.underway = some (call, progress) →
    call.wantsShared = true ∧ scene.pager.Acquiring progress
  counted : scene.pager.held + scene.successes Call.givesPage = scene.successes Call.takesPage
  closed : ∀ answer, (.close, .ok answer) ∈ scene.past → scene.pager.isOpen = false

namespace Sound

variable {scene next : Scene} {pager after : Pager} {call : Call} {outcome : Except Error Answer}

theorem opened {disk : Disk} (fresh : disk.own = {}) : Sound { pager := { disk } } where
  between _ := {
    level := .inl rfl
    locks := .nothing fresh
    locked := fun held => absurd rfl held
    informed := fun impossible => by cases impossible }
  within _ _ impossible := by cases impossible
  counted := rfl
  closed _ impossible := by cases impossible

theorem foreign (sound : scene.Sound) (act : Foreign) :
    Sound { scene with pager.disk := act.act scene.pager.disk } where
  between idle :=
    have kept := sound.between idle
    ⟨kept.level, kept.locks.foreign act, kept.locked, kept.informed⟩
  within call progress underway :=
    have ⟨wants, kept⟩ := sound.within call progress underway
    ⟨wants, kept.free, kept.isOpen, kept.idle, kept.locks.foreign act⟩
  counted := sound.counted
  closed := sound.closed

theorem begin (sound : scene.Sound) (idle : scene.underway = none) (acquires : call.Acquires scene.pager) :
    Sound { scene with underway := some (call, .idle) } where
  between impossible := by cases impossible
  within _ _ same := by
    cases same
    obtain ⟨wants, free, isOpen⟩ := acquires
    have kept := sound.between idle
    refine ⟨wants, free, isOpen, kept.unheld free, kept.locks.congr ?_⟩
    intro byte
    simp [free, Acquisition.bytes]
  counted := sound.counted
  closed := sound.closed

theorem advance (sound : scene.Sound) {progress : Acquisition} (underway : scene.underway = some (call, progress)) :
    Sound { scene with
      pager.disk := (progress.step scene.pager.disk).2
      underway := some (call, (progress.step scene.pager.disk).1) } where
  between impossible := by cases impossible
  within _ _ same := by
    cases same
    obtain ⟨wants, kept⟩ := sound.within call progress underway
    exact ⟨wants, kept.free, kept.isOpen, kept.idle, Acquisition.step_holds kept.locks⟩
  counted := sound.counted
  closed := sound.closed

theorem finish (sound : scene.Sound) (kept : pager.Sound) (effect : pager.Effect call outcome after)
    (held : pager.held = scene.pager.held) (isOpen : pager.isOpen = scene.pager.isOpen) :
    (scene.finish call (outcome, after)).Sound where
  between _ := kept.effect effect
  within _ _ impossible := by cases impossible
  counted := by
    have counted := effect.counted
    have before := sound.counted
    simp only [successes, Scene.finish, List.countP_cons] at before ⊢
    omega
  closed answer ended := by
    rcases List.mem_cons.mp ended with same | earlier
    · cases same
      exact effect.shuts rfl rfl
    · have shut := sound.closed answer earlier
      rcases effect.isOpen with same | ⟨_, shuts⟩
      · exact same.trans (isOpen.trans shut)
      · exact shuts

theorem fail {reason : Error} (sound : scene.Sound) (held : after.held = scene.pager.held)
    (isOpen : after.isOpen = scene.pager.isOpen) (kept : after.Sound) :
    (scene.finish call (.error reason, after)).Sound where
  between _ := kept
  within _ _ impossible := by cases impossible
  counted := by
    have before := sound.counted
    simp only [successes, Scene.finish, List.countP_cons, Except.isOk, Except.toBool] at before ⊢
    simp [held, before]
  closed answer ended := by
    rcases List.mem_cons.mp ended with same | earlier
    · cases same
    · exact isOpen.trans (sound.closed answer earlier)

theorem step (sound : scene.Sound) (moved : Step scene next) : next.Sound := by
  cases moved with
  | foreign act => exact sound.foreign act
  | direct idle direct =>
    have kept := sound.between idle
    exact sound.finish kept (kept.run_effect direct) rfl rfl
  | begin idle acquires => exact sound.begin idle acquires
  | advance underway => exact sound.advance underway
  | grant underway =>
    obtain ⟨wants, acquiring⟩ := sound.within _ _ underway
    rcases acquiring.resume_granted wants with ⟨header, _, effect⟩ | ⟨reason, _, failed⟩
    · exact sound.finish (acquiring.sound_learn header) effect rfl rfl
    · rw [failed]
      exact sound.fail rfl rfl acquiring.sound_dropLock
  | refuse underway =>
    obtain ⟨wants, acquiring⟩ := sound.within _ _ underway
    exact sound.fail rfl rfl acquiring.sound_busy

theorem steps (sound : scene.Sound) (moved : Steps scene next) : next.Sound := by
  induction moved with
  | refl => exact sound
  | tail _ moved ih => exact ih.step moved

end Sound

theorem Reachable.sound {scene : Scene} (reachable : scene.Reachable) : scene.Sound := by
  obtain ⟨disk, fresh, moved⟩ := reachable
  exact (Sound.opened fresh).steps moved

theorem Sound.between_or_within {scene : Scene} (sound : scene.Sound) :
    (scene.underway = none ∧ scene.pager.Sound) ∨ ∃ progress, scene.pager.Acquiring progress := by
  cases underway : scene.underway with
  | none => exact .inl ⟨rfl, sound.between underway⟩
  | some pending => exact .inr ⟨pending.2, (sound.within pending.1 pending.2 underway).2⟩

theorem Sound.between_of_shared {scene : Scene} (sound : scene.Sound) (shared : scene.pager.level = .shared) :
    scene.pager.Sound := by
  rcases sound.between_or_within with ⟨_, kept⟩ | ⟨progress, acquiring⟩
  · exact kept
  · cases acquiring.free.symm.trans shared

theorem Sound.shared_of_held {scene : Scene} (sound : scene.Sound) (held : 0 < scene.pager.held) :
    scene.pager.level = .shared := by
  rcases sound.between_or_within with ⟨_, kept⟩ | ⟨progress, acquiring⟩
  · exact kept.locked (by omega)
  · have unheld := acquiring.idle
    omega

/-- Once the file is closed, nothing is held and no call has to do with the file. -/
theorem Sound.inert {scene : Scene} (sound : scene.Sound) {answer : Answer} (closed : (.close, .ok answer) ∈ scene.past) :
    scene.underway = none ∧ scene.pager.level = .none ∧ scene.pager.held = 0 ∧
      ∀ call : Call, ∃ reason, ∀ disk, call.run { scene.pager with disk } = (.error reason, { scene.pager with disk }) := by
  have shut := sound.closed answer closed
  rcases sound.between_or_within with ⟨idle, kept⟩ | ⟨progress, acquiring⟩
  · have free : scene.pager.level = .none := by
      rcases kept.level with free | shared
      · exact free
      · cases (kept.informed shared).1.symm.trans shut
    have unheld := kept.unheld free
    exact ⟨idle, free, unheld, Pager.run_closed shut free unheld⟩
  · cases acquiring.isOpen.symm.trans shut

/-- A step either goes on within what is under way, or brings one call to its end. -/
theorem Sound.quiet_or_ends {scene next : Scene} (sound : scene.Sound) (moved : Step scene next) :
    (next.past = scene.past ∧ next.pager.level = scene.pager.level ∧ next.pager.held = scene.pager.held) ∨
    ∃ call outcome, next.past = (call, outcome) :: scene.past ∧
      (outcome = .error (.lock .busy) →
        scene.pager.level = .none ∧ next.pager.level = .none ∧ next.pager.held = scene.pager.held) := by
  cases moved with
  | foreign act => exact .inl ⟨rfl, rfl, rfl⟩
  | direct idle direct =>
    exact .inr ⟨_, _, rfl, fun busy => absurd busy ((sound.between idle).run_effect direct).not_busy⟩
  | begin idle acquires => exact .inl ⟨rfl, rfl, rfl⟩
  | advance underway => exact .inl ⟨rfl, rfl, rfl⟩
  | grant underway =>
    obtain ⟨wants, acquiring⟩ := sound.within _ _ underway
    refine .inr ⟨_, _, rfl, ?_⟩
    intro busy
    rcases acquiring.resume_granted wants with ⟨header, _, effect⟩ | ⟨reason, other, failed⟩
    · exact absurd busy effect.not_busy
    · rw [failed] at busy
      cases busy
      exact absurd rfl other
  | refuse underway =>
    have free := (sound.within _ _ underway).2.free
    exact .inr ⟨_, _, rfl, fun _ => ⟨free, free, rfl⟩⟩

theorem Sound.past_grows {scene later : Scene} (sound : scene.Sound) (moved : Steps scene later) :
    ∃ ended, later.past = ended ++ scene.past := by
  induction moved with
  | refl => exact ⟨[], rfl⟩
  | tail before moved ih =>
    obtain ⟨ended, same⟩ := ih
    rcases (sound.steps before).quiet_or_ends moved with ⟨quiet, _⟩ | ⟨call, outcome, ends, _⟩
    · exact ⟨ended, quiet.trans same⟩
    · exact ⟨(call, outcome) :: ended, by rw [ends, same, List.cons_append]⟩

/-- After every call the books are right: the lock is NONE or SHARED and the bytes locked are
those of the level; pages handed out are pages got less pages given back, and need SHARED;
under SHARED the file is open and the header known; a closed pager has to do with nothing. -/
theorem calls_keep_books {scene : Scene} (reachable : scene.Reachable) :
    (scene.pager.level = .none ∨ scene.pager.level = .shared) ∧
    (scene.underway = none → ∀ byte, scene.pager.disk.own.at? byte =
      if scene.pager.level = .shared ∧ sharedRange.contains byte = true then some .read else none) ∧
    scene.pager.held + scene.successes Call.givesPage = scene.successes Call.takesPage ∧
    (0 < scene.pager.held → scene.pager.level = .shared) ∧
    (scene.pager.level = .shared → scene.pager.isOpen = true ∧
      ∃ header, scene.pager.known = some header ∧ Pager.ensureShared scene.pager = (.ok header, scene.pager)) ∧
    (∀ answer, (.close, .ok answer) ∈ scene.past → ∀ later, Steps scene later →
      later.underway = none ∧ later.pager.level = .none ∧ later.pager.held = 0 ∧
        ∀ call : Call, ∃ reason, ∀ disk,
          call.run { later.pager with disk } = (.error reason, { later.pager with disk })) ∧
    (scene.underway = none → ∀ call : Call, Steps scene (scene.finish call (call.run scene.pager))) := by
  have sound := reachable.sound
  refine ⟨?_, ?_, sound.counted, sound.shared_of_held, ?_, ?_, steps_run⟩
  · rcases sound.between_or_within with ⟨_, kept⟩ | ⟨_, acquiring⟩
    · exact kept.level
    · exact .inl acquiring.free
  · intro idle byte
    simpa using (sound.between idle).locks.own byte
  · intro shared
    have kept := sound.between_of_shared shared
    exact ⟨(kept.informed shared).1, kept.ensureShared_shared shared⟩
  · intro answer closed later moved
    obtain ⟨ended, same⟩ := sound.past_grows moved
    exact (sound.steps moved).inert (same ▸ List.mem_append_right ended closed)

/-- A page is handed out of the sample file. -/
theorem held_behind : (Call.run (.getPage 9) Sample.file.opened).2.held = 1 := by
  obtain ⟨after, ran, _, held⟩ := (Pager.Serves.opened Sample.file).getPage 9
  have behind : Sample.file.page 9 = .ok (.zeroed 9 512) := by
    simp [Image.page, Sample.file_header, Pager.readPage, Sample.header]
  have ended : (Call.run (.getPage 9) Sample.file.opened).2 = after := congrArg Prod.snd ran
  exact (congrArg Pager.held ended).trans (held _ behind)

theorem exists_holding : ∃ scene : Scene, scene.Reachable ∧ scene.underway = none ∧ scene.pager.held = 1 :=
  ⟨_, ⟨Sample.file.opened.disk, rfl, steps_run rfl (.getPage 9)⟩, rfl, held_behind⟩

theorem calls_keep_books_page :
    ∃ scene : Scene, scene.Reachable ∧ scene.pager.held = 1 ∧ scene.pager.level = .shared ∧
      ∀ byte, scene.pager.disk.own.at? byte = if sharedRange.contains byte = true then some .read else none := by
  obtain ⟨scene, reachable, idle, held⟩ := exists_holding
  obtain ⟨_, locks, _, locked, _⟩ := calls_keep_books reachable
  have shared := locked (by omega)
  refine ⟨scene, reachable, held, shared, ?_⟩
  intro byte
  rw [locks idle byte]
  simp [shared]

end Scene
end SqliteReader
