import SqliteReader.Disk

/-! The locks of a file byte by byte. A reader that steps to the SHARED lock and another
process that locks, unlocks, writes and truncates as it likes keep one rule between them:
no byte is read-locked by the one and write-locked by the other. -/

namespace SqliteReader

namespace LockTable

variable {table : LockTable} {range : ByteRange} {byte : Nat}

theorem exists_of_at? {kind : LockKind} (found : table.at? byte = some kind) :
    ∃ held ∈ table.locks, held.kind = kind ∧ held.range.contains byte = true := by
  obtain ⟨held, first, same⟩ := Option.map_eq_some_iff.mp found
  exact ⟨held, List.mem_of_find?_eq_some first, same, by simpa using List.find?_some first⟩

theorem at?_of_write_free (free : table.conflict? .write range = none) (inside : range.contains byte = true) :
    table.at? byte = none := by
  cases found : table.at? byte with
  | none => rfl
  | some kind =>
    obtain ⟨held, member, _, covers⟩ := exists_of_at? found
    have clear := List.find?_eq_none.mp free held member
    exact absurd (by simpa using ByteRange.overlaps_iff.mpr ⟨byte, covers, inside⟩) clear

theorem at?_of_read_free (free : table.conflict? .read range = none) (inside : range.contains byte = true) :
    table.at? byte ≠ some .write := by
  intro found
  obtain ⟨held, member, writes, covers⟩ := exists_of_at? found
  have clear := List.find?_eq_none.mp free held member
  exact clear (by simpa [writes] using ByteRange.overlaps_iff.mpr ⟨byte, covers, inside⟩)

end LockTable

/-- What another process may do to the file and to its own locks. -/
inductive Foreign
  | write (offset : Nat) (bytes : ByteArray)
  | resize (size : Nat)
  | lock (kind : LockKind) (range : ByteRange)
  | unlock (range : ByteRange)

def Foreign.act : Foreign → Disk → Disk
  | .write offset bytes, disk => disk.overwrite offset bytes
  | .resize size, disk => disk.resize size
  | .lock kind range, disk => (disk.lockOther kind range).2
  | .unlock range, disk => disk.unlockOther range

/-- Just these bytes are read-locked by the reader, and none of them is write-locked by the
other process. -/
structure Disk.Holds (disk : Disk) (bytes : Nat → Bool) : Prop where
  own : ∀ byte, disk.own.at? byte = if bytes byte then some .read else none
  unwritten : ∀ byte, bytes byte = true → disk.other.at? byte ≠ some .write

namespace Disk.Holds

variable {disk : Disk} {bytes : Nat → Bool}

theorem nothing (fresh : disk.own = {}) : disk.Holds fun _ => false where
  own byte := by
    rw [fresh]
    rfl
  unwritten byte impossible := by cases impossible

theorem congr {same : Nat → Bool} (holds : disk.Holds bytes) (agree : ∀ byte, same byte = bytes byte) :
    disk.Holds same := by
  rw [funext agree]
  exact holds

theorem lockOwn {after : Disk} {range : ByteRange} (holds : disk.Holds bytes)
    (granted : disk.lockOwn range = (true, after)) :
    after.Holds fun byte => range.contains byte || bytes byte := by
  unfold Disk.lockOwn at granted
  split at granted
  · cases granted
  next free =>
    cases granted
    rw [Option.not_isSome_iff_eq_none] at free
    constructor
    · intro byte
      rw [LockTable.at?_hold, holds.own]
      by_cases inside : range.contains byte <;> simp [inside]
    · intro byte locked
      by_cases inside : range.contains byte = true
      · exact LockTable.at?_of_read_free free inside
      · exact holds.unwritten byte (by simpa [inside] using locked)

theorem lockOwn_refused {after : Disk} {range : ByteRange} (refused : disk.lockOwn range = (false, after)) :
    after = disk := by
  unfold Disk.lockOwn at refused
  split at refused <;> cases refused
  rfl

theorem unlockOwn (holds : disk.Holds bytes) (range : ByteRange) :
    (disk.unlockOwn range).Holds fun byte => !range.contains byte && bytes byte := by
  constructor
  · intro byte
    rw [Disk.unlockOwn, LockTable.at?_release, holds.own]
    by_cases inside : range.contains byte <;> simp [inside]
  · intro byte locked
    exact holds.unwritten byte (Bool.and_eq_true_iff.mp locked).2

theorem lockOther (holds : disk.Holds bytes) (kind : LockKind) (range : ByteRange) :
    (disk.lockOther kind range).2.Holds bytes := by
  unfold Disk.lockOther
  split
  · exact holds
  next free =>
    rw [Option.not_isSome_iff_eq_none] at free
    refine ⟨holds.own, ?_⟩
    intro byte locked
    rw [LockTable.at?_hold]
    split
    next inside =>
      intro same
      cases same
      have untouched := LockTable.at?_of_write_free free inside
      rw [holds.own, if_pos locked] at untouched
      cases untouched
    next => exact holds.unwritten byte locked

theorem unlockOther (holds : disk.Holds bytes) (range : ByteRange) : (disk.unlockOther range).Holds bytes := by
  refine ⟨holds.own, ?_⟩
  intro byte locked
  rw [Disk.unlockOther, LockTable.at?_release]
  split
  · exact fun impossible => by cases impossible
  · exact holds.unwritten byte locked

/-- Nothing that the other process does comes between a reader and its locks. -/
theorem foreign (holds : disk.Holds bytes) (act : Foreign) : (act.act disk).Holds bytes := by
  cases act with
  | write offset written =>
    rw [Foreign.act, Disk.overwrite]
    split
    · exact holds
    · exact ⟨holds.own, holds.unwritten⟩
  | resize size => exact ⟨holds.own, holds.unwritten⟩
  | lock kind range => exact holds.lockOther kind range
  | unlock range => exact holds.unlockOther range

end Disk.Holds

namespace Acquisition

/-- The bytes that are locked on the way to the SHARED lock. -/
def bytes : Acquisition → Nat → Bool
  | .idle, _ => false
  | .pending, byte => pendingByte.contains byte
  | .both, byte => sharedRange.contains byte || pendingByte.contains byte
  | .refused, byte => pendingByte.contains byte
  | .granted, byte => sharedRange.contains byte
  | .busy, _ => false

/-- Three steps settle the matter. -/
theorem settled (first second third : Disk) :
    (((idle.step first).1.step second).1.step third).1 = .granted ∨
      (((idle.step first).1.step second).1.step third).1 = .busy := by
  rcases lockedPending : first.lockOwn pendingByte with ⟨_ | _, _⟩ <;>
    rcases lockedShared : second.lockOwn sharedRange with ⟨_ | _, _⟩ <;> simp [step, lockedPending, lockedShared]

/-- Nothing but the reader's own locks changes on its way. -/
theorem step_own (progress : Acquisition) (disk : Disk) : ∃ own, (progress.step disk).2 = { disk with own } := by
  have locked (range : ByteRange) : ∃ own, (disk.lockOwn range).2 = { disk with own } := by
    unfold Disk.lockOwn
    split <;> exact ⟨_, rfl⟩
  cases progress with
  | idle =>
    rcases asked : disk.lockOwn pendingByte with ⟨_ | _, after⟩ <;> simpa [step, asked] using locked pendingByte
  | pending =>
    rcases asked : disk.lockOwn sharedRange with ⟨_ | _, after⟩ <;> simpa [step, asked] using locked sharedRange
  | both | refused | granted | busy => exact ⟨_, rfl⟩

theorem pending_apart {byte : Nat} (shared : sharedRange.contains byte = true) : pendingByte.contains byte = false := by
  rw [← Bool.not_eq_true]
  rw [ByteRange.contains_iff] at shared ⊢
  simp only [sharedRange, pendingByte] at shared ⊢
  omega

theorem step_holds {progress : Acquisition} {disk : Disk} (holds : disk.Holds progress.bytes) :
    (progress.step disk).2.Holds (progress.step disk).1.bytes := by
  cases progress with
  | idle =>
    rcases locked : disk.lockOwn pendingByte with ⟨_ | _, after⟩ <;> simp only [step, locked]
    · rw [Disk.Holds.lockOwn_refused locked]
      exact holds
    · exact (holds.lockOwn locked).congr fun byte => (Bool.or_false _).symm
  | pending =>
    rcases locked : disk.lockOwn sharedRange with ⟨_ | _, after⟩ <;> simp only [step, locked]
    · rw [Disk.Holds.lockOwn_refused locked]
      exact holds
    · exact holds.lockOwn locked
  | both =>
    refine (holds.unlockOwn pendingByte).congr ?_
    intro byte
    simp only [step, bytes]
    cases shared : sharedRange.contains byte with
    | true => simp [pending_apart shared]
    | false => simp
  | refused =>
    refine (holds.unlockOwn pendingByte).congr ?_
    intro byte
    simp [step, bytes]
  | granted => exact holds
  | busy => exact holds

end Acquisition
end SqliteReader
