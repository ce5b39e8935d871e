import SqliteReader.Proofs.BalancedReads

/-! A file that stays as it is. The lock cannot be taken without a look at the header, so
that a pager which had no lock when the file was last changed knows under each later lock
the header of the file, whoever used it for what and whatever became of it. -/

namespace SqliteReader

namespace Pager.Effect

variable {pager after : Pager} {call : Call} {outcome : Except Error Answer}

theorem known (effect : pager.Effect call outcome after) : after.known = pager.known := by
  have drops (pager : Pager) : pager.dropIdleLock.known = pager.known := by
    unfold Pager.dropIdleLock
    split <;> rfl
  cases effect with
  | unread => exact drops pager
  | toldIdle => exact drops pager
  | returned held => exact drops _
  | refused | handed | told | locked | unlocked | closed => rfl

theorem shared (effect : pager.Effect call outcome after) (sound : pager.Sound) (shared : after.level = .shared) :
    pager.level = .shared := by
  refine sound.level.resolve_left ?_
  intro free
  cases (effect.level free).symm.trans shared

end Pager.Effect

namespace Scene

open Relation (ReflTransGen)

/-- The file is this one, and the header that is known under the lock is its header. -/
structure Current (image : Image) (scene : Scene) : Prop where
  unchanged : scene.pager.disk.image = image.bytes
  known : scene.pager.level = .shared → ∀ header, scene.pager.known = some header → image.header = .ok header

variable {image : Image} {scene next later : Scene}

theorem Sound.step_current (sound : scene.Sound) (current : scene.Current image) (calm : Calm scene next) :
    next.Current image := by
  obtain ⟨moved, same⟩ := calm
  refine ⟨same.trans current.unchanged, ?_⟩
  cases moved with
  | foreign | begin | advance => exact current.known
  | direct idle direct =>
    have effect := (sound.between idle).run_effect direct
    intro shared header known
    exact current.known (effect.shared (sound.between idle) shared) header (effect.known.symm.trans known)
  | grant underway =>
    obtain ⟨wants, acquiring⟩ := sound.within _ _ underway
    rcases acquiring.resume_granted wants with ⟨read, parsed, effect⟩ | ⟨reason, _, failed⟩
    · intro _ header known
      cases effect.known.symm.trans known
      rw [current.unchanged] at parsed
      rw [Image.header, parsed]
      rfl
    · intro shared
      simp [Scene.finish, failed, Pager.dropLock] at shared
  | refuse underway =>
    intro shared
    cases (sound.within _ _ underway).2.free.symm.trans shared

theorem Sound.calm_current (sound : scene.Sound) (current : scene.Current image) (calm : ReflTransGen Calm scene later) :
    later.Current image := by
  induction calm with
  | refl => exact current
  | tail before moved ih => exact (sound.steps (steps_of_calm before)).step_current ih moved

end Scene

namespace Pager

open Relation (ReflTransGen)

/-- A pager between its calls over a file that has been this one at least since some time at
which the pager had no lock, be it when it was opened. -/
def Abiding (pager : Pager) (image : Image) : Prop :=
  ∃ free scene : Scene, free.Reachable ∧ free.pager.level = .none ∧ free.pager.disk.image = image.bytes ∧
    ReflTransGen Scene.Calm free scene ∧ scene.underway = none ∧ scene.pager = pager

variable {pager : Pager} {image : Image}

namespace Abiding

/-- Whatever another process has locked when the pager is opened. -/
theorem opened {disk : Disk} (fresh : disk.own = {}) (unchanged : disk.image = image.bytes) :
    Abiding { disk } image :=
  ⟨{ pager := { disk } }, _, ⟨disk, fresh, .refl⟩, rfl, unchanged, .refl, rfl, rfl⟩

theorem resting (abiding : pager.Abiding image) : pager.Resting := by
  obtain ⟨free, scene, ⟨disk, fresh, moved⟩, _, _, calm, idle, rfl⟩ := abiding
  exact ⟨scene, ⟨disk, fresh, moved.trans (Scene.steps_of_calm calm)⟩, idle, rfl⟩

theorem current (abiding : pager.Abiding image) :
    pager.disk.image = image.bytes ∧
      (pager.level = .shared → ∀ header, pager.known = some header → image.header = .ok header) := by
  obtain ⟨free, scene, reachable, unlocked, unchanged, calm, _, rfl⟩ := abiding
  have start : free.Current image := ⟨unchanged, fun shared => by cases unlocked.symm.trans shared⟩
  obtain ⟨same, known⟩ := reachable.sound.calm_current start calm
  exact ⟨same, known⟩

theorem call (abiding : pager.Abiding image) (call : Call) : (call.run pager).2.Abiding image := by
  obtain ⟨free, scene, reachable, unlocked, unchanged, calm, idle, rfl⟩ := abiding
  exact ⟨free, _, reachable, unlocked, unchanged, calm.trans (Scene.calm_run idle call), rfl, rfl⟩

theorem foreign (abiding : pager.Abiding image) (act : Foreign) (same : (act.act pager.disk).image = pager.disk.image) :
    Abiding { pager with disk := act.act pager.disk } image := by
  obtain ⟨free, scene, reachable, unlocked, unchanged, calm, idle, rfl⟩ := abiding
  exact ⟨free, _, reachable, unlocked, unchanged, calm.tail ⟨.foreign act, same⟩, idle, rfl⟩

end Abiding

/-- A pager over a file that abides, with the file open and no other process in the way of
reading it now. -/
structure Undisturbed (pager : Pager) (image : Image) : Prop where
  abiding : pager.Abiding image
  isOpen : pager.isOpen = true
  pendingFree : pager.disk.other.conflict? .read pendingByte = none
  sharedFree : pager.disk.other.conflict? .read sharedRange = none

namespace Undisturbed

theorem opened (image : Image) : image.opened.Undisturbed image := ⟨.opened rfl rfl, rfl, rfl, rfl⟩

theorem serves (undisturbed : pager.Undisturbed image) : pager.Serves image := by
  have sound := undisturbed.abiding.resting.sound
  obtain ⟨unchanged, known⟩ := undisturbed.abiding.current
  refine ⟨⟨undisturbed.isOpen, unchanged, undisturbed.pendingFree, undisturbed.sharedFree⟩, ?_, ?_⟩
  · intro held
    simp [sound.locked held]
  · intro locked
    exact known (sound.level.resolve_left locked)

theorem call (undisturbed : pager.Undisturbed image) {call : Call} (other : call ≠ .close) :
    (call.run pager).2.Undisturbed image := by
  have same := SameFile.run pager other
  refine ⟨undisturbed.abiding.call call, same.isOpen.trans undisturbed.isOpen, ?_, ?_⟩
  · rw [same.other]
    exact undisturbed.pendingFree
  · rw [same.other]
    exact undisturbed.sharedFree

end Undisturbed

/-- What is done with a database or its pager, short of closing it, and by another process
that does not change the file. -/
inductive Peaceful (pager : Pager) : Pager → Prop
  | act {last : Pager} (act : Database.Acts pager last) (same : last.disk.image = pager.disk.image) : Peaceful pager last
  | call {call : Call} (other : call ≠ .close) : Peaceful pager (call.run pager).2

theorem Abiding.peaceful {last : Pager} (abiding : pager.Abiding image) (isOpen : pager.isOpen = true)
    (acts : ReflTransGen Peaceful pager last) : last.Abiding image ∧ last.isOpen = true := by
  have called (pager : Pager) {call : Call} (other : call ≠ .close) (before : pager.Abiding image ∧ pager.isOpen = true) :
      (call.run pager).2.Abiding image ∧ (call.run pager).2.isOpen = true :=
    ⟨before.1.call call, (SameFile.run pager other).isOpen.trans before.2⟩
  have lasts : Lasts fun pager : Pager => pager.Abiding image ∧ pager.isOpen = true :=
    lasts_of_calls fun _ other before => called _ other before
  induction acts with
  | refl => exact ⟨abiding, isOpen⟩
  | tail _ act kept =>
    cases act with
    | act act same =>
      refine Database.lasts_act lasts kept act ?_
      rintro foreign rfl
      exact ⟨kept.1.foreign foreign same, kept.2⟩
    | call other => exact called _ other kept

end Pager
end SqliteReader
