import SqliteReader.Proofs.ChangingFile
import SqliteReader.Proofs.LastingSources
import SqliteReader.Proofs.RowDelivery
import SqliteReader.Proofs.SharedFile

/-! Reads are balanced. Whoever finds the SHARED lock taken just while pages are handed out
leaves both as they were, however the reading ends, and a database nobody has closed can be
closed after any use. -/

namespace SqliteReader

namespace Pager

/-- An open pager with so many pages handed out, which has the SHARED lock just for them. -/
structure Even (pager : Pager) (count : Nat) : Prop where
  isOpen : pager.isOpen = true
  counted : pager.held = count
  level : pager.level = if count = 0 then .none else .shared

/-- The same with the SHARED lock whether or not it is needed. -/
structure Taken (pager : Pager) (count : Nat) : Prop where
  isOpen : pager.isOpen = true
  counted : pager.held = count
  level : pager.level = .shared

/-- With the lock where a header was got under it, and otherwise without. -/
def Locks (count : Nat) : Except Error Header × Pager → Prop
  | (.ok _, pager) => pager.Taken count
  | (.error _, pager) => pager.Even count

variable {pager : Pager} {count : Nat}

theorem Taken.dropIdleLock (taken : pager.Taken count) : pager.dropIdleLock.Even count := by
  unfold Pager.dropIdleLock
  by_cases idle : count = 0
  · rw [if_pos ⟨taken.counted.trans idle, by simp [taken.level]⟩]
    exact ⟨taken.isOpen, taken.counted, (if_pos idle).symm⟩
  · rw [if_neg fun both => idle (taken.counted.symm.trans both.1)]
    exact ⟨taken.isOpen, taken.counted, taken.level.trans (if_neg idle).symm⟩

theorem Taken.refresh (taken : pager.Taken count) : (refresh pager).2.Taken count := by
  unfold Pager.refresh
  rw [if_pos taken.isOpen]
  split
  · exact taken
  · exact ⟨taken.isOpen, taken.counted, taken.level⟩

theorem Even.acquireShared (even : pager.Even count) : Locks count (acquireShared pager) := by
  unfold Pager.acquireShared
  rw [if_pos even.isOpen]
  split
  next => exact ⟨even.isOpen, even.counted, even.level⟩
  next disk _ =>
    have taken : Taken { pager with disk, level := .shared } count := ⟨even.isOpen, even.counted, rfl⟩
    have kept := taken.refresh
    split
    next refreshed =>
      rw [refreshed] at kept
      exact kept
    next refreshed =>
      rw [refreshed] at kept
      exact kept.dropIdleLock

theorem Even.ensureShared (even : pager.Even count) : Locks count (ensureShared pager) := by
  unfold Pager.ensureShared
  split
  next => exact even.acquireShared
  next locked =>
    have busy : count ≠ 0 := fun idle => locked (even.level.trans (if_pos idle))
    have taken : pager.Taken count := ⟨even.isOpen, even.counted, even.level.trans (if_neg busy)⟩
    split
    next => exact taken
    next =>
      have kept := taken.refresh
      rcases refreshed : Pager.refresh pager with ⟨_ | _, after⟩
      · rw [refreshed] at kept
        exact ⟨kept.isOpen, kept.counted, kept.level.trans (if_neg busy).symm⟩
      · rw [refreshed] at kept
        exact kept

theorem Even.header (even : pager.Even count) : (Pager.header pager).2.Even count := by
  have locks := even.ensureShared
  unfold Pager.header
  split
  next failed =>
    rw [failed] at locks
    exact locks
  next after ensured =>
    rw [ensured] at locks
    have taken : after.Taken count := locks
    split
    next => exact taken.dropIdleLock
    next locked =>
      have busy : count ≠ 0 := fun idle => locked (even.level.trans (if_pos idle))
      exact ⟨taken.isOpen, taken.counted, taken.level.trans (if_neg busy).symm⟩

/-- One more page is handed out, or everything is as before. -/
theorem Even.getPage (even : pager.Even count) (number : UInt32) :
    match Pager.getPage number pager with
    | (.ok _, after) => after.Even (count + 1)
    | (.error _, after) => after.Even count := by
  have locks := even.ensureShared
  unfold Pager.getPage
  by_cases zero : number = 0
  · rw [if_pos zero]
    exact even
  · rw [if_neg zero]
    rcases ensured : Pager.ensureShared pager with ⟨reason | header, after⟩
    · rw [ensured] at locks
      exact locks
    · rw [ensured] at locks
      have taken : after.Taken count := locks
      cases read : after.readPage number header with
      | ok page =>
        simp only [read]
        exact ⟨taken.isOpen, congrArg (· + 1) taken.counted, taken.level⟩
      | error reason =>
        simp only [read]
        exact taken.dropIdleLock

theorem Even.releasePage (even : pager.Even (count + 1)) :
    ∃ after, Pager.releasePage pager = (.ok (), after) ∧ after.Even count := by
  have held : pager.held ≠ 0 := by simp [even.counted]
  refine ⟨_, if_neg held, ?_⟩
  apply Taken.dropIdleLock
  exact ⟨even.isOpen, by simp [even.counted], even.level⟩

theorem Even.readNode (even : pager.Even count) (page : UInt32) (parent : Option (Nat × PageKind)) :
    (Pager.readNode page parent pager).2.Even count := by
  have got := even.getPage page
  unfold Pager.readNode
  split
  next failed =>
    rw [failed] at got
    exact got
  next taken =>
    rw [taken] at got
    obtain ⟨after, released, kept⟩ := got.releasePage
    simp only [released]
    exact kept

/-- A state of a pager between its calls, whatever it was called for and another process did. -/
def Resting (pager : Pager) : Prop :=
  ∃ scene : Scene, scene.Reachable ∧ scene.underway = none ∧ scene.pager = pager

theorem Resting.sound (resting : pager.Resting) : pager.Sound := by
  obtain ⟨scene, reachable, idle, rfl⟩ := resting
  exact reachable.sound.between idle

theorem Resting.call (resting : pager.Resting) (call : Call) : (call.run pager).2.Resting := by
  obtain ⟨scene, ⟨disk, fresh, moved⟩, idle, rfl⟩ := resting
  exact ⟨_, ⟨disk, fresh, moved.trans (Scene.steps_run idle call)⟩, rfl, rfl⟩

theorem Resting.foreign (resting : pager.Resting) (act : Foreign) :
    Resting { pager with disk := act.act pager.disk } := by
  obtain ⟨scene, ⟨disk, fresh, moved⟩, idle, rfl⟩ := resting
  exact ⟨_, ⟨disk, fresh, moved.tail (.foreign act)⟩, idle, rfl⟩

theorem lasts_even : Lasts fun pager : Pager => pager.Even count where
  header even := even.header
  node page parent even := even.readNode page parent

/-- A node is read by two calls. -/
theorem lasts_of_calls {good : Pager → Prop}
    (runs : ∀ {pager : Pager} (call : Call), call ≠ .close → good pager → good (call.run pager).2) : Lasts good where
  header before := runs .header Call.noConfusion before
  node page parent before := by
    have got := runs (.getPage page) Call.noConfusion before
    simp only [Call.run, Access.answer] at got
    simp only [Source.node]
    unfold Pager.readNode
    split
    next failed =>
      rw [failed] at got
      exact got
    next taken =>
      rw [taken] at got
      have released := runs .releasePage Call.noConfusion got
      simp only [Call.run, Access.answer] at released
      split
      next same =>
        rw [same] at released
        exact released
      next same =>
        rw [same] at released
        exact released

theorem lasts_resting : Lasts Resting := lasts_of_calls fun call _ resting => resting.call call

/-- The file is as open as before, the pages are as many and the lock is the same, also on
every byte. -/
structure Keeps (pager last : Pager) : Prop where
  isOpen : last.isOpen = pager.isOpen
  held : last.held = pager.held
  level : last.level = pager.level
  locks : ∀ byte, last.disk.own.at? byte = pager.disk.own.at? byte

theorem Even.keeps {last : Pager} (even : pager.Even count) (resting : pager.Resting) (after : last.Even count)
    (stays : last.Resting) : pager.Keeps last where
  isOpen := after.isOpen.trans even.isOpen.symm
  held := after.counted.trans even.counted.symm
  level := after.level.trans even.level.symm
  locks byte := by
    rw [stays.sound.locks.own, resting.sound.locks.own, after.level, even.level]

theorem Resting.even (resting : pager.Resting) (isOpen : pager.isOpen = true)
    (shared : pager.level = .shared ↔ pager.held ≠ 0) : pager.Even pager.held := by
  refine ⟨isOpen, rfl, ?_⟩
  split
  next idle => exact resting.sound.level.resolve_right fun locked => shared.mp locked idle
  next busy => exact shared.mpr busy

theorem Even.closes (even : pager.Even 0) : ∃ closed, Pager.close pager = (.ok (), closed) := by
  refine ⟨{ pager with isOpen := false }, ?_⟩
  simp [Pager.close, even.counted, even.level, even.isOpen]

end Pager

/-- What another process does makes no difference. -/
def Steady (good : Pager → Prop) : Prop :=
  ∀ {pager : Pager} (act : Foreign), good pager → good { pager with disk := act.act pager.disk }

theorem Pager.steady_balanced {count : Nat} : Steady fun pager => pager.Even count ∧ pager.Resting :=
  fun act before => ⟨⟨before.1.isOpen, before.1.counted, before.1.level⟩, before.2.foreign act⟩

theorem Steady.disturb {good : Pager → Prop} (steady : Steady good) {pager : Pager} (before : good pager)
    (acts : List Foreign) : good (pager.disturb acts) := by
  induction acts generalizing pager with
  | nil => exact before
  | cons act acts ih => exact ih (steady act before)

theorem Disturbed.lasts {good : Pager → Prop} (lasts : Lasts good) (steady : Steady good) :
    Lasts fun disturbed : Disturbed => good disturbed.pager where
  header before := lasts.header (steady.disturb before _)
  node page parent before := lasts.node page parent (steady.disturb before _)

theorem Execution.settle_lasts {good : Pager → Prop} (lasts : Lasts good) {execution next : Execution} {steps : Nat}
    {pager last : Pager} (before : good pager) (ran : execution.settle steps pager = (next, last)) : good last :=
  @Lasts.exchanges _ _ good lasts (execution.exchange pager .idle []) _ before
    (settle_steps .idle Inquiry.noConfusion ran)

namespace Database

/-- What may happen to an open database. Executions may be at any point of theirs, and
another process may do something. -/
inductive Acts (pager : Pager) : Pager → Prop
  | foreign (act : Foreign) : Acts pager { pager with disk := act.act pager.disk }
  | uses {last : Pager} (use : Uses pager last) : Acts pager last
  | starts {steps capacity : Nat} {program : Program} {execution : Execution} {last : Pager}
      (ran : execute steps capacity program pager = (execution, last)) : Acts pager last
  | asks {steps : Nat} {execution next : Execution} {reply : Reply} {last : Pager}
      (ran : execution.nextRow steps pager = (reply, next, last)) : Acts pager last
  | closes {steps : Nat} {execution closed : Execution} {last : Pager}
      (ran : execution.close steps pager = (closed, last)) : Acts pager last

variable {pager last : Pager}

theorem lasts_act {good : Pager → Prop} (lasts : Lasts good) (before : good pager) (act : Acts pager last)
    (foreign : ∀ other : Foreign, last = { pager with disk := other.act pager.disk } → good last) : good last := by
  cases act with
  | foreign other => exact foreign other rfl
  | uses use => exact lasts.uses before use
  | starts ran => exact Execution.settle_lasts lasts before ran
  | asks ran =>
    obtain ⟨_, _, _, first, _, second⟩ := Execution.of_nextRow ran
    exact Execution.settle_lasts lasts (Execution.settle_lasts lasts before first) second
  | closes ran => exact Execution.settle_lasts lasts before ran

theorem lasts_acts {good : Pager → Prop} (lasts : Lasts good) (steady : Steady good) (before : good pager)
    (acts : Relation.ReflTransGen Acts pager last) : good last := by
  induction acts with
  | refl => exact before
  | tail _ act kept =>
    refine lasts_act lasts kept act ?_
    rintro other rfl
    exact steady other kept

theorem even_of_connect {files : Directory} {path : String} (opened : connect files path = .ok pager) : pager.Even 0 := by
  unfold connect at opened
  split at opened
  · cases opened
  next disk _ =>
    have kept := (⟨rfl, rfl, rfl⟩ : Pager.Even { disk } 0).header
    split at opened
    · cases opened
    next told =>
      cases opened
      rw [told] at kept
      exact kept

end Database

/-- Reading leaves the pages handed out and the lock as they were, whether it succeeds or
fails, with whatever locks another process has and also while it goes on changing them and
the file. A database that was opened and has only been read from can be closed. -/
theorem reads_balanced :
    (∀ pager : Pager, pager.Resting → pager.isOpen = true → (pager.level = .shared ↔ pager.held ≠ 0) →
      (∀ last, Relation.ReflTransGen Database.Acts pager last → pager.Keeps last) ∧
      ∀ acts asked (last : Disturbed), Uses (⟨pager, acts, asked⟩ : Disturbed) last → pager.Keeps last.pager) ∧
    ∀ files path pager last, Database.connect files path = .ok pager → Relation.ReflTransGen Database.Acts pager last →
      last.held = 0 ∧ last.level = .none ∧ ∃ closed, Pager.close last = (.ok (), closed) := by
  constructor
  · intro pager resting isOpen shared
    have even := resting.even isOpen shared
    have lasts := (@Pager.lasts_even pager.held).and Pager.lasts_resting
    constructor
    · intro last acts
      obtain ⟨after, stays⟩ := Database.lasts_acts lasts Pager.steady_balanced ⟨even, resting⟩ acts
      exact even.keeps resting after stays
    · intro acts asked last use
      obtain ⟨after, stays⟩ := (Disturbed.lasts lasts Pager.steady_balanced).uses ⟨even, resting⟩ use
      exact even.keeps resting after stays
  · intro files path pager last opened acts
    have even : last.Even 0 := Database.lasts_acts Pager.lasts_even
      (fun act even => ⟨even.isOpen, even.counted, even.level⟩) (Database.even_of_connect opened) acts
    exact ⟨even.counted, even.level, even.closes⟩

/-- A page is decoded while another is handed out, and the rows of a table are asked for in
a database that has just been opened. -/
theorem reads_balanced_sample :
    (∃ pager : Pager, pager.Resting ∧ pager.isOpen = true ∧ pager.held = 1 ∧ pager.level = .shared ∧
      pager.Keeps (Pager.readNode 2 none pager).2) ∧
    ∃ pager, Database.connect (fun _ => some Sample.file.opened.disk) "sample" = .ok pager ∧
      ∃ closed, Pager.close (Schema.countRows "table" pager).2 = (.ok (), closed) := by
  constructor
  · obtain ⟨scene, reachable, idle, held⟩ := Scene.exists_holding
    have resting : scene.pager.Resting := ⟨scene, reachable, idle, rfl⟩
    have shared := resting.sound.locked (by omega)
    have isOpen := (resting.sound.informed shared).1
    have needed : scene.pager.level = .shared ↔ scene.pager.held ≠ 0 := by simp [shared, held]
    refine ⟨scene.pager, resting, isOpen, held, shared, ?_⟩
    exact (reads_balanced.1 scene.pager resting isOpen needed).1 _ (.single (.uses (.node rfl)))
  · obtain ⟨after, told, _⟩ := (Pager.Serves.opened Sample.file).header
    have opened : Database.connect (fun _ => some Sample.file.opened.disk) "sample" = .ok after := by
      have header : Pager.header { disk := Sample.file.opened.disk } = (Sample.file.header, after) := told
      simp only [Database.connect, header, Sample.file_header]
    refine ⟨after, opened, ?_⟩
    exact (reads_balanced.2 _ _ after _ opened (.single (.uses (.counts rfl)))).2.2

end SqliteReader
