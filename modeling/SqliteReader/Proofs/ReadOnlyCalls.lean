import SqliteReader.Proofs.PagerCalls

/-! The calls of a pager only read. Whatever comes of them, the file and the locks of the
other process are as before, and unless it is closed the file is as open. -/

namespace SqliteReader

namespace Pager

/-- The file is as it was: its bytes, what the other process has locked, and that it is open
or closed. -/
structure SameFile (pager after : Pager) : Prop where
  image : after.disk.image = pager.disk.image
  other : after.disk.other = pager.disk.other
  isOpen : after.isOpen = pager.isOpen

namespace SameFile

variable {pager after : Pager}

theorem refl (pager : Pager) : pager.SameFile pager := ⟨rfl, rfl, rfl⟩

theorem step (same : pager.SameFile after) (progress : Acquisition) :
    pager.SameFile { after with disk := (progress.step after.disk).2 } := by
  obtain ⟨own, stepped⟩ := progress.step_own after.disk
  rw [stepped]
  exact ⟨same.image, same.other, same.isOpen⟩

theorem dropIdleLock (same : pager.SameFile after) : pager.SameFile after.dropIdleLock := by
  unfold Pager.dropIdleLock
  split
  · exact ⟨same.image, same.other, same.isOpen⟩
  · exact same

theorem refresh (same : pager.SameFile after) : pager.SameFile (Pager.refresh after).2 := by
  unfold Pager.refresh
  split
  · split
    · exact same
    · exact ⟨same.image, same.other, same.isOpen⟩
  · exact same

theorem steps (pager : Pager) : pager.SameFile { pager with disk := pager.disk.acquireShared.2 } :=
  (((SameFile.refl pager).step .idle).step _).step _

theorem acquireShared (pager : Pager) : pager.SameFile (Pager.acquireShared pager).2 := by
  have asks := steps pager
  unfold Pager.acquireShared
  split
  · split
    next refused =>
      rw [refused] at asks
      exact asks
    next disk granted =>
      rw [granted] at asks
      have taken : pager.SameFile { pager with disk, level := .shared } := ⟨asks.image, asks.other, rfl⟩
      have kept := taken.refresh
      split
      next refreshed =>
        rw [refreshed] at kept
        exact kept
      next refreshed =>
        rw [refreshed] at kept
        exact kept.dropIdleLock
  · exact .refl pager

theorem ensureShared (pager : Pager) : pager.SameFile (Pager.ensureShared pager).2 := by
  unfold Pager.ensureShared
  split
  · exact .acquireShared pager
  · split
    · exact .refl pager
    · exact (SameFile.refl pager).refresh

theorem getPage (pager : Pager) (number : UInt32) : pager.SameFile (Pager.getPage number pager).2 := by
  have ensures := ensureShared pager
  unfold Pager.getPage
  split
  · exact .refl pager
  · split
    next failed =>
      rw [failed] at ensures
      exact ensures
    next ensured =>
      rw [ensured] at ensures
      split
      · exact ⟨ensures.image, ensures.other, ensures.isOpen⟩
      · exact ensures.dropIdleLock

theorem header (pager : Pager) : pager.SameFile (Pager.header pager).2 := by
  have ensures := ensureShared pager
  unfold Pager.header
  split
  next failed =>
    rw [failed] at ensures
    exact ensures
  next ensured =>
    rw [ensured] at ensures
    dsimp only
    split
    · exact ensures.dropIdleLock
    · exact ensures

theorem lock (pager : Pager) (level : LockLevel) : pager.SameFile (Pager.lock level pager).2 := by
  have acquires := acquireShared pager
  unfold Pager.lock
  split
  · split
    next taken =>
      rw [taken] at acquires
      exact acquires
    next taken =>
      rw [taken] at acquires
      exact acquires
  · split
    · exact .refl pager
    · split <;> exact .refl pager

theorem unlock (pager : Pager) (level : LockLevel) : pager.SameFile (Pager.unlock level pager).2 := by
  unfold Pager.unlock
  split
  · split
    · exact ⟨rfl, rfl, rfl⟩
    · exact .refl pager
  · split
    · exact .refl pager
    · split <;> exact .refl pager

theorem run (pager : Pager) {call : Call} (other : call ≠ .close) : pager.SameFile (call.run pager).2 := by
  cases call with
  | getPage number => exact getPage pager number
  | releasePage =>
    have fewer : pager.SameFile { pager with held := pager.held - 1 } := ⟨rfl, rfl, rfl⟩
    simp only [Call.run, Access.answer, Pager.releasePage]
    split
    · exact .refl pager
    · exact fewer.dropIdleLock
  | header => exact header pager
  | lock level => exact lock pager level
  | unlock level => exact unlock pager level
  | close => exact absurd rfl other

end SameFile

theorem image_run (call : Call) (pager : Pager) : (call.run pager).2.disk.image = pager.disk.image := by
  by_cases closes : call = .close
  · subst closes
    simp only [Call.run, Access.answer, Pager.close]
    split
    · rfl
    · split
      · rfl
      · split <;> rfl
  · exact (SameFile.run pager closes).image

end Pager
end SqliteReader
