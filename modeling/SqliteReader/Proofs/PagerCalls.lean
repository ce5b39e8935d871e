import SqliteReader.Pager
import SqliteReader.Proofs.ByteLocks

/-! The calls of a pager as data, and all that one of them can do to it. A call that takes
the SHARED lock is cut where the locks are asked for, so that another process can come
between; everything else is one step. -/

namespace SqliteReader

inductive Call
  | getPage (number : UInt32)
  | releasePage
  | header
  | lock (level : LockLevel)
  | unlock (level : LockLevel)
  | close
  deriving Repr

inductive Answer
  | page (page : Page)
  | header (header : Header)
  | done

def Access.answer {α : Type} (act : Access α) (wrap : α → Answer) : Access Answer := fun pager =>
  let (outcome, after) := act pager
  (outcome.map wrap, after)

/-- Goes on behind the steps on the locks, whatever came of them. -/
def Pager.settleShared (granted : Bool) : Access Header := fun pager =>
  if granted then
    match refresh { pager with level := .shared } with
    | (.ok header, pager) => (.ok header, pager)
    | (.error reason, pager) => (.error reason, pager.dropIdleLock)
  else (.error (.lock .busy), pager)

namespace Call

def run : Call → Access Answer
  | .getPage number => Access.answer (Pager.getPage number) .page
  | .releasePage => Access.answer Pager.releasePage fun _ => .done
  | .header => Access.answer Pager.header .header
  | .lock level => Access.answer (Pager.lock level) fun _ => .done
  | .unlock level => Access.answer (Pager.unlock level) fun _ => .done
  | .close => Access.answer Pager.close fun _ => .done

def takesPage : Call → Bool
  | .getPage _ => true
  | _ => false

def givesPage : Call → Bool
  | .releasePage => true
  | _ => false

/-- Whether the call takes the SHARED lock where it is not held. -/
def wantsShared : Call → Bool
  | .getPage number => number ≠ 0
  | .header => true
  | .lock level => level = .shared
  | _ => false

/-- The call goes through the steps on the locks. -/
def Acquires (call : Call) (pager : Pager) : Prop :=
  call.wantsShared = true ∧ pager.level = .none ∧ pager.isOpen = true

/-- What is left of a call that has taken the lock and read the header under it. -/
def follow (call : Call) (known : Header) : Access Answer := fun pager =>
  match call with
  | .getPage number =>
    match pager.readPage number known with
    | .ok page => (.ok (.page page), { pager with held := pager.held + 1 })
    | .error reason => (.error reason, pager.dropIdleLock)
  | .header => (.ok (.header known), pager.dropIdleLock)
  | _ => (.ok .done, pager)

def resume (granted : Bool) (call : Call) : Access Answer := fun pager =>
  match pager.settleShared granted with
  | (.ok known, pager) => call.follow known pager
  | (.error reason, pager) => (.error reason, pager)

end Call

theorem Pager.acquireShared_settles {pager : Pager} (isOpen : pager.isOpen = true) :
    Pager.acquireShared pager =
      Pager.settleShared pager.disk.acquireShared.1 { pager with disk := pager.disk.acquireShared.2 } := by
  rcases locked : pager.disk.acquireShared with ⟨_ | _, disk⟩
  · simp only [Pager.acquireShared, if_pos isOpen, locked]
    rfl
  · simp only [Pager.acquireShared, if_pos isOpen, locked]
    rfl

namespace Call

variable {call : Call} {pager : Pager}

/-- Where nothing comes between, a call is its steps on the locks and what is left then. -/
theorem run_of_acquires (acquires : call.Acquires pager) :
    call.run pager = call.resume pager.disk.acquireShared.1 { pager with disk := pager.disk.acquireShared.2 } := by
  obtain ⟨wants, free, isOpen⟩ := acquires
  rw [resume, ← Pager.acquireShared_settles isOpen]
  have ensures : Pager.ensureShared pager = Pager.acquireShared pager := if_pos free
  rcases taken : Pager.acquireShared pager with ⟨outcome, after⟩
  rw [taken] at ensures
  cases call with
  | getPage number =>
    have counted : ¬ number = 0 := by simpa [wantsShared] using wants
    simp only [run, Access.answer, Pager.getPage, if_neg counted, ensures]
    cases outcome with
    | error reason => rfl
    | ok known =>
      simp only [follow]
      cases after.readPage number known <;> rfl
  | header =>
    simp only [run, Access.answer, Pager.header, ensures, if_pos free]
    cases outcome <;> rfl
  | lock level =>
    have shared : level = .shared := by simpa [wantsShared] using wants
    simp only [run, Access.answer, Pager.lock, if_pos (And.intro shared free), taken]
    cases outcome <;> rfl
  | releasePage => exact absurd wants Bool.false_ne_true
  | unlock level => exact absurd wants Bool.false_ne_true
  | close => exact absurd wants Bool.false_ne_true

end Call
namespace Pager

/-- Between calls: the lock is NONE or SHARED, and SHARED while pages are handed out; the
reader's locks are those of the level; under SHARED the file is open and its header known. -/
structure Sound (pager : Pager) : Prop where
  level : pager.level = .none ∨ pager.level = .shared
  locks : pager.disk.Holds fun byte => pager.level = .shared && sharedRange.contains byte
  locked : pager.held ≠ 0 → pager.level = .shared
  informed : pager.level = .shared → pager.isOpen = true ∧ ∃ header, pager.known = some header

/-- Within a call that is on its way to the SHARED lock. -/
structure Acquiring (pager : Pager) (progress : Acquisition) : Prop where
  free : pager.level = .none
  isOpen : pager.isOpen = true
  idle : pager.held = 0
  locks : pager.disk.Holds progress.bytes

/-- All that a call does to a pager when it has no locks to wait for. -/
inductive Effect (pager : Pager) : Call → Except Error Answer → Pager → Prop
  | refused {call : Call} {reason : Error} (other : reason ≠ .lock .busy) : Effect pager call (.error reason) pager
  | unread {number : UInt32} {reason : Error} (other : reason ≠ .lock .busy) :
      Effect pager (.getPage number) (.error reason) pager.dropIdleLock
  | handed {number : UInt32} {page : Page} (shared : pager.level = .shared) :
      Effect pager (.getPage number) (.ok (.page page)) { pager with held := pager.held + 1 }
  | returned (held : pager.held ≠ 0) :
      Effect pager .releasePage (.ok .done) { pager with held := pager.held - 1 }.dropIdleLock
  | told {header : Header} : Effect pager .header (.ok (.header header)) pager
  | toldIdle {header : Header} : Effect pager .header (.ok (.header header)) pager.dropIdleLock
  | locked : Effect pager (.lock .shared) (.ok .done) pager
  | unlocked (idle : pager.held = 0) : Effect pager (.unlock .none) (.ok .done) pager.dropLock
  | closed (idle : pager.held = 0) (free : pager.level = .none) :
      Effect pager .close (.ok .done) { pager with isOpen := false }

variable {pager after : Pager} {call : Call} {outcome : Except Error Answer}

theorem dropLock_sound {bytes : Nat → Bool} (locks : pager.disk.Holds bytes)
    (inside : ∀ byte, bytes byte = true → sharedRange.contains byte = true) (idle : pager.held = 0) :
    pager.dropLock.Sound where
  level := .inl rfl
  locks := by
    refine (locks.unlockOwn sharedRange).congr ?_
    intro byte
    cases locked : bytes byte with
    | false => simp [dropLock]
    | true => simp [dropLock, inside byte locked]
  locked held := absurd idle held
  informed impossible := by cases impossible

theorem Sound.unheld (sound : pager.Sound) (free : pager.level = .none) : pager.held = 0 :=
  Classical.byContradiction fun held => by cases free.symm.trans (sound.locked held)

theorem Sound.dropLock (sound : pager.Sound) (idle : pager.held = 0) : pager.dropLock.Sound := by
  refine dropLock_sound sound.locks ?_ idle
  intro byte locked
  exact (Bool.and_eq_true_iff.mp locked).2

theorem Sound.dropIdleLock (sound : pager.Sound) : pager.dropIdleLock.Sound := by
  unfold Pager.dropIdleLock
  split
  next idle => exact sound.dropLock idle.1
  next => exact sound

theorem Sound.effect (sound : pager.Sound) (effect : pager.Effect call outcome after) : after.Sound := by
  cases effect with
  | refused => exact sound
  | unread => exact sound.dropIdleLock
  | handed shared => exact ⟨sound.level, sound.locks, fun _ => shared, sound.informed⟩
  | returned held =>
    have fewer : Sound { pager with held := pager.held - 1 } :=
      ⟨sound.level, sound.locks, fun _ => sound.locked held, sound.informed⟩
    exact fewer.dropIdleLock
  | told => exact sound
  | toldIdle => exact sound.dropIdleLock
  | locked => exact sound
  | unlocked idle => exact sound.dropLock idle
  | closed idle free =>
    refine ⟨sound.level, sound.locks, sound.locked, ?_⟩
    intro shared
    cases free.symm.trans shared

@[simp] theorem held_dropLock (pager : Pager) : pager.dropLock.held = pager.held := rfl

@[simp] theorem held_dropIdleLock (pager : Pager) : pager.dropIdleLock.held = pager.held := by
  unfold Pager.dropIdleLock
  split <;> rfl

@[simp] theorem isOpen_dropIdleLock (pager : Pager) : pager.dropIdleLock.isOpen = pager.isOpen := by
  unfold Pager.dropIdleLock
  split <;> rfl

theorem level_dropIdleLock (free : pager.level = .none) : pager.dropIdleLock.level = .none := by
  unfold Pager.dropIdleLock
  split
  · rfl
  · exact free

namespace Effect

variable (effect : pager.Effect call outcome after)
include effect

theorem not_busy : outcome ≠ .error (.lock .busy) := by
  cases effect <;> simp_all

/-- Only pages handed out and pages given back are counted. -/
theorem counted :
    after.held + (if (call.givesPage && outcome.isOk) then 1 else 0) =
      pager.held + if (call.takesPage && outcome.isOk) then 1 else 0 := by
  cases effect with
  | returned held =>
    simp [Call.takesPage, Call.givesPage, Except.isOk, Except.toBool]
    omega
  | _ => simp [Call.takesPage, Call.givesPage, Except.isOk, Except.toBool]

theorem isOpen : after.isOpen = pager.isOpen ∨ call = .close ∧ after.isOpen = false := by
  cases effect with
  | closed => exact .inr ⟨rfl, rfl⟩
  | unread => exact .inl (isOpen_dropIdleLock pager)
  | toldIdle => exact .inl (isOpen_dropIdleLock pager)
  | returned held => exact .inl (isOpen_dropIdleLock _)
  | _ => exact .inl rfl

theorem shuts {answer : Answer} (closes : call = .close) (succeeds : outcome = .ok answer) : after.isOpen = false := by
  cases effect <;> cases closes <;> cases succeeds
  rfl

/-- Without the steps on the locks there is no way up. -/
theorem level (free : pager.level = .none) : after.level = .none := by
  cases effect with
  | unread => exact level_dropIdleLock free
  | toldIdle => exact level_dropIdleLock free
  | returned held => exact level_dropIdleLock free
  | unlocked => rfl
  | _ => exact free

end Effect

/-- A page is there or lies outside the file. -/
theorem readPage_failed {number : UInt32} {header : Header} {reason : Error}
    (failed : pager.readPage number header = .error reason) : reason = .io .unexpectedEnd := by
  unfold readPage at failed
  split at failed
  · cases failed
  · split at failed <;> cases failed
    rfl

theorem readPage_not_busy {number : UInt32} {header : Header} {reason : Error}
    (failed : pager.readPage number header = .error reason) : reason ≠ .lock .busy := by
  rw [readPage_failed failed]
  exact Error.noConfusion

theorem Sound.ensureShared_shared (sound : pager.Sound) (shared : pager.level = .shared) :
    ∃ header, pager.known = some header ∧ Pager.ensureShared pager = (.ok header, pager) := by
  obtain ⟨_, header, known⟩ := sound.informed shared
  refine ⟨header, known, ?_⟩
  simp [Pager.ensureShared, shared, known]

theorem acquireShared_closed (shut : ¬ pager.isOpen = true) : Pager.acquireShared pager = (.error .closed, pager) :=
  if_neg shut

theorem Sound.ensureShared_direct (sound : pager.Sound) (direct : ¬ (pager.level = .none ∧ pager.isOpen = true)) :
    (pager.level = .shared ∧ ∃ header, Pager.ensureShared pager = (.ok header, pager)) ∨
      Pager.ensureShared pager = (.error .closed, pager) := by
  rcases sound.level with free | shared
  · right
    rw [Pager.ensureShared, if_pos free]
    exact acquireShared_closed fun isOpen => direct ⟨free, isOpen⟩
  · obtain ⟨header, _, same⟩ := sound.ensureShared_shared shared
    exact .inl ⟨shared, header, same⟩

theorem follow_effect (known : Header) (wants : call.wantsShared = true) (shared : pager.level = .shared) :
    pager.Effect call (call.follow known pager).1 (call.follow known pager).2 := by
  cases call with
  | getPage number =>
    simp only [Call.follow]
    cases read : pager.readPage number known with
    | ok page => exact .handed shared
    | error reason => exact .unread (readPage_not_busy read)
  | header => exact .toldIdle
  | lock level =>
    obtain rfl : level = .shared := by simpa [Call.wantsShared] using wants
    exact .locked
  | releasePage => exact absurd wants Bool.false_ne_true
  | unlock level => exact absurd wants Bool.false_ne_true
  | close => exact absurd wants Bool.false_ne_true

theorem Sound.run_effect (sound : pager.Sound) (direct : ¬ call.Acquires pager) :
    pager.Effect call (call.run pager).1 (call.run pager).2 := by
  cases call with
  | getPage number =>
    simp only [Call.run, Access.answer, Pager.getPage]
    split
    next zero => exact .refused (by simp)
    next counted =>
      have unhindered : ¬ (pager.level = .none ∧ pager.isOpen = true) :=
        fun free => direct ⟨by simpa [Call.wantsShared] using counted, free⟩
      rcases sound.ensureShared_direct unhindered with ⟨shared, header, same⟩ | same
      · simp only [same]
        cases read : pager.readPage number header with
        | ok page => exact .handed shared
        | error reason => exact .unread (readPage_not_busy read)
      · simp only [same]
        exact .refused (by simp)
  | releasePage =>
    simp only [Call.run, Access.answer, Pager.releasePage]
    split
    next empty => exact .refused (by simp)
    next held => exact .returned held
  | header =>
    have unhindered : ¬ (pager.level = .none ∧ pager.isOpen = true) := fun free => direct ⟨rfl, free⟩
    simp only [Call.run, Access.answer, Pager.header]
    rcases sound.ensureShared_direct unhindered with ⟨shared, header, same⟩ | same
    · have taken : pager.level ≠ .none := by simp [shared]
      simp only [same, if_neg taken]
      exact .told
    · simp only [same]
      exact .refused (by simp)
  | lock level =>
    simp only [Call.run, Access.answer, Pager.lock]
    split
    next wanted =>
      have shut : ¬ pager.isOpen = true :=
        fun isOpen => direct ⟨by simpa [Call.wantsShared] using wanted.1, wanted.2, isOpen⟩
      simp only [acquireShared_closed shut]
      exact .refused (by simp)
    next =>
      split
      · exact .refused (by simp)
      · split
        · exact .refused (by simp)
        · exact .refused (by simp)
  | unlock level =>
    simp only [Call.run, Access.answer, Pager.unlock]
    split
    next wanted =>
      obtain ⟨rfl, _⟩ := wanted
      split
      next idle => exact .unlocked idle
      next => exact .refused (by simp)
    next =>
      split
      · exact .refused (by simp)
      · split
        · exact .refused (by simp)
        · exact .refused (by simp)
  | close =>
    simp only [Call.run, Access.answer, Pager.close]
    split
    next => exact .refused (by simp)
    next idle =>
      split
      next => exact .refused (by simp)
      next free =>
        split
        · exact .closed (Decidable.not_not.mp idle) (Decidable.not_not.mp free)
        · exact .refused (by simp)

namespace Acquiring

theorem sound_busy (acquiring : pager.Acquiring .busy) : pager.Sound where
  level := .inl acquiring.free
  locks := by
    refine acquiring.locks.congr ?_
    intro byte
    simp [acquiring.free, Acquisition.bytes]
  locked held := absurd acquiring.idle held
  informed shared := by cases acquiring.free.symm.trans shared

theorem sound_learn (acquiring : pager.Acquiring .granted) (header : Header) :
    ({ pager with level := .shared }.learn header).Sound where
  level := .inr rfl
  locks := by
    refine acquiring.locks.congr ?_
    intro byte
    simp [learn, Acquisition.bytes]
  locked _ := rfl
  informed _ := ⟨acquiring.isOpen, header, rfl⟩

theorem sound_dropLock (acquiring : pager.Acquiring .granted) : { pager with level := .shared }.dropLock.Sound :=
  dropLock_sound acquiring.locks (fun _ locked => locked) acquiring.idle

/-- With the lock granted a call reads the header first, and gives the lock back if it cannot. -/
theorem resume_granted (acquiring : pager.Acquiring .granted) (wants : call.wantsShared = true) :
    (∃ header, Header.parse (pager.disk.image.extract 0 Header.size).data.toList = .ok header ∧
      ({ pager with level := .shared }.learn header).Effect call (call.resume true pager).1 (call.resume true pager).2) ∨
    ∃ reason, reason ≠ .lock .busy ∧
      call.resume true pager = (.error reason, { pager with level := .shared }.dropLock) := by
  simp only [Call.resume, settleShared, if_true, Pager.refresh, if_pos acquiring.isOpen]
  cases Header.parse (pager.disk.image.extract 0 Header.size).data.toList with
  | ok header => exact .inl ⟨header, rfl, follow_effect header wants rfl⟩
  | error reason =>
    refine .inr ⟨.header reason, by simp, ?_⟩
    simp [dropIdleLock, acquiring.idle]

end Acquiring

/-- A closed pager refuses every call, and neither the answer nor what is left of the pager
has anything to do with the file. -/
theorem run_closed (shut : pager.isOpen = false) (free : pager.level = .none) (idle : pager.held = 0) (call : Call) :
    ∃ reason, ∀ disk, call.run { pager with disk } = (.error reason, { pager with disk }) := by
  have ensures (disk : Disk) : Pager.ensureShared { pager with disk } = (.error .closed, { pager with disk }) := by
    simp [Pager.ensureShared, Pager.acquireShared, free, shut]
  cases call with
  | getPage number =>
    by_cases zero : number = 0
    · refine ⟨.invalidPageNumber number, ?_⟩
      intro disk
      simp [Call.run, Access.answer, Pager.getPage, zero, Except.map]
    · refine ⟨.closed, ?_⟩
      intro disk
      simp [Call.run, Access.answer, Pager.getPage, zero, ensures, Except.map]
  | releasePage =>
    refine ⟨.noPagesHeld, ?_⟩
    intro disk
    simp [Call.run, Access.answer, Pager.releasePage, idle, Except.map]
  | header =>
    refine ⟨.closed, ?_⟩
    intro disk
    simp [Call.run, Access.answer, Pager.header, ensures, Except.map]
  | lock level =>
    refine ⟨.closed, ?_⟩
    intro disk
    by_cases shared : level = .shared <;>
      simp [Call.run, Access.answer, Pager.lock, Pager.acquireShared, free, shared, shut, Except.map]
  | unlock level =>
    refine ⟨.closed, ?_⟩
    intro disk
    simp [Call.run, Access.answer, Pager.unlock, free, shut, Except.map]
  | close =>
    refine ⟨.closed, ?_⟩
    intro disk
    simp [Call.run, Access.answer, Pager.close, free, idle, shut, Except.map]

end Pager
end SqliteReader
