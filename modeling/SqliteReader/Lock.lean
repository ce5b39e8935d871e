/-! Locks that processes put on byte ranges of a file, and the levels that the reader
builds from them. A process holds at most one lock on a byte and replaces its own at
will. Against another process a write lock excludes everything, a read lock only write
locks. -/

namespace SqliteReader

inductive LockLevel
  | none
  | shared
  | reserved
  | pending
  | exclusive
  deriving DecidableEq, Repr

namespace LockLevel

def name : LockLevel → String
  | .none => "NONE"
  | .shared => "SHARED"
  | .reserved => "RESERVED"
  | .pending => "PENDING"
  | .exclusive => "EXCLUSIVE"

/-- Each level allows what the levels below it allow. -/
def rank : LockLevel → Nat
  | .none => 0
  | .shared => 1
  | .reserved => 2
  | .pending => 3
  | .exclusive => 4

end LockLevel

inductive LockKind
  | read
  | write
  deriving DecidableEq, Repr

structure ByteRange where
  start : Nat
  length : Nat
  deriving DecidableEq, Repr

namespace ByteRange

def stop (range : ByteRange) : Nat := range.start + range.length

def contains (range : ByteRange) (byte : Nat) : Bool := range.start ≤ byte && byte < range.stop

def overlaps (range other : ByteRange) : Bool :=
  max range.start other.start < min range.stop other.stop

/-- What is left of a range outside another: a part before it and a part behind it. -/
def outside (range other : ByteRange) : List ByteRange :=
  let before := { start := range.start, length := min range.stop other.start - range.start : ByteRange }
  let behind := max range.start other.stop
  [before, { start := behind, length := range.stop - behind }].filter (0 < ·.length)

theorem contains_iff {range : ByteRange} {byte : Nat} :
    range.contains byte = true ↔ range.start ≤ byte ∧ byte < range.start + range.length := by
  simp only [contains, Bool.and_eq_true, decide_eq_true_eq]
  rfl

theorem overlaps_iff {range other : ByteRange} :
    range.overlaps other = true ↔ ∃ byte, range.contains byte = true ∧ other.contains byte = true := by
  simp only [contains_iff, overlaps, decide_eq_true_eq]
  constructor
  · intro shared
    refine ⟨max range.start other.start, ?_⟩
    simp only [stop] at shared
    omega
  · rintro ⟨byte, inside, inOther⟩
    simp only [stop]
    omega

theorem exists_mem_outside_iff {range other : ByteRange} {byte : Nat} :
    (∃ part ∈ range.outside other, part.contains byte = true) ↔
      range.contains byte = true ∧ other.contains byte = false := by
  rw [← Bool.not_eq_true, contains_iff, contains_iff]
  simp only [outside, stop, List.mem_filter, List.mem_cons, List.not_mem_nil, or_false, decide_eq_true_eq,
    and_assoc, or_and_right, exists_or, exists_eq_left, contains_iff]
  omega

end ByteRange

structure HeldLock where
  kind : LockKind
  range : ByteRange
  deriving DecidableEq, Repr

structure LockTable where
  locks : List HeldLock := []
  deriving DecidableEq, Repr

namespace LockTable

def at? (table : LockTable) (byte : Nat) : Option LockKind :=
  (table.locks.find? (·.range.contains byte)).map HeldLock.kind

def release (table : LockTable) (range : ByteRange) : LockTable :=
  ⟨table.locks.flatMap fun held => (held.range.outside range).map (HeldLock.mk held.kind)⟩

def hold (table : LockTable) (kind : LockKind) (range : ByteRange) : LockTable :=
  ⟨⟨kind, range⟩ :: (table.release range).locks⟩

/-- The lock that keeps another process from locking a range. -/
def conflict? (table : LockTable) (wanted : LockKind) (range : ByteRange) : Option HeldLock :=
  table.locks.find? fun held => (wanted == .write || held.kind == .write) && held.range.overlaps range

private theorem at?_outside (kind : LockKind) (parts : List ByteRange) (byte : Nat) (more : List HeldLock) :
    at? ⟨parts.map (HeldLock.mk kind) ++ more⟩ byte =
      if parts.any (·.contains byte) then some kind else at? ⟨more⟩ byte := by
  induction parts with
  | nil => rfl
  | cons part parts ih =>
    by_cases inside : part.contains byte
    · simp [at?, inside]
    · simpa [at?, inside] using ih

theorem at?_cons (held : HeldLock) (locks : List HeldLock) (byte : Nat) :
    at? ⟨held :: locks⟩ byte = if held.range.contains byte then some held.kind else at? ⟨locks⟩ byte := by
  by_cases inside : held.range.contains byte <;> simp [at?, inside]

theorem at?_release (table : LockTable) (range : ByteRange) (byte : Nat) :
    (table.release range).at? byte = if range.contains byte then none else table.at? byte := by
  obtain ⟨locks⟩ := table
  induction locks with
  | nil => simp [release, at?]
  | cons held locks ih =>
    have parts : ((held.range.outside range).any (·.contains byte) = true) ↔
        held.range.contains byte = true ∧ range.contains byte = false := by
      rw [List.any_eq_true]
      exact ByteRange.exists_mem_outside_iff
    simp only [release, List.flatMap_cons] at ih ⊢
    rw [at?_outside, ih, at?_cons]
    by_cases freed : range.contains byte <;> by_cases inside : held.range.contains byte <;> simp_all

theorem at?_hold (table : LockTable) (kind : LockKind) (range : ByteRange) (byte : Nat) :
    (table.hold kind range).at? byte = if range.contains byte then some kind else table.at? byte := by
  rw [hold, at?_cons]
  by_cases inside : range.contains byte
  · rw [if_pos inside, if_pos inside]
  · rw [if_neg inside, if_neg inside]
    exact (at?_release table range byte).trans (if_neg inside)

end LockTable

/-- Read-locked by a reader while it takes the shared range, so that a writer on its way
up cannot finish meanwhile. -/
def pendingByte : ByteRange := ⟨0x40000000, 1⟩

def reservedByte : ByteRange := ⟨pendingByte.start + 8, 1⟩

/-- Read-locked by every reader. -/
def sharedRange : ByteRange := ⟨pendingByte.start + 16, 510⟩

end SqliteReader
