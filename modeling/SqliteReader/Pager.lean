import SqliteReader.Disk
import SqliteReader.Source

/-! Access to the pages of a file. The first page that is handed out takes the SHARED
lock, and giving back the last one drops it. The header is read afresh whenever the
lock is taken, since another process may have written meanwhile; while the lock is
held it cannot change. An operation that fails leaves the pages as they were; a page
that cannot be read also drops the lock if no page is handed out, whoever took it. -/

namespace SqliteReader

structure Pager where
  disk : Disk
  isOpen : Bool := true
  level : LockLevel := .none
  /-- Pages handed out and not yet given back. -/
  held : Nat := 0
  /-- The header last read. -/
  known : Option Header := none
  /-- Grows whenever a header shows another schema cookie than the one before. -/
  generation : Nat := 0

abbrev Access (α : Type) : Type := Using Pager α

namespace Pager

def learn (pager : Pager) (header : Header) : Pager :=
  let changed := pager.known.any (·.schemaCookie != header.schemaCookie)
  { pager with known := some header, generation := if changed then pager.generation + 1 else pager.generation }

def refresh : Access Header := fun pager =>
  if pager.isOpen then
    match Header.parse (pager.disk.image.extract 0 Header.size).data.toList with
    | .error reason => (.error (.header reason), pager)
    | .ok header => (.ok header, pager.learn header)
  else (.error .closed, pager)

def dropLock (pager : Pager) : Pager :=
  { pager with disk := pager.disk.releaseShared, level := .none }

/-- After a failure nobody may be left to give the lock back. -/
def dropIdleLock (pager : Pager) : Pager :=
  if pager.held = 0 ∧ pager.level ≠ .none then pager.dropLock else pager

def acquireShared : Access Header := fun pager =>
  if pager.isOpen then
    match pager.disk.acquireShared with
    | (false, disk) => (.error (.lock .busy), { pager with disk })
    | (true, disk) =>
      match refresh { pager with disk, level := .shared } with
      | (.ok header, pager) => (.ok header, pager)
      | (.error reason, pager) => (.error reason, pager.dropIdleLock)
  else (.error .closed, pager)

/-- Takes the SHARED lock unless it is held, and gives the header that holds under it. -/
def ensureShared : Access Header := fun pager =>
  if pager.level = .none then acquireShared pager
  else match pager.known with
    | some header => (.ok header, pager)
    | none => refresh pager

/-- A page past the end of the database is all zeros; every other has to be in the file. -/
def readPage (pager : Pager) (number : UInt32) (header : Header) : Except Error Page :=
  if header.databaseSize < number then .ok (Page.zeroed number header.pageSize)
  else match pager.disk.read? ⟨(number.toNat - 1) * header.pageSize, header.pageSize⟩ with
    | some data => .ok ⟨number, data⟩
    | none => .error (.io .unexpectedEnd)

/-- Hands out a page, to be given back with `releasePage`. -/
def getPage (number : UInt32) : Access Page := fun pager =>
  if number = 0 then (.error (.invalidPageNumber number), pager)
  else match ensureShared pager with
    | (.error reason, pager) => (.error reason, pager)
    | (.ok header, pager) =>
      match pager.readPage number header with
      | .ok page => (.ok page, { pager with held := pager.held + 1 })
      | .error reason => (.error reason, pager.dropIdleLock)

def releasePage : Access Unit := fun pager =>
  if pager.held = 0 then (.error .noPagesHeld, pager)
  else
    let fewer := { pager with held := pager.held - 1 }
    (.ok (), fewer.dropIdleLock)

/-- The header under a SHARED lock, which is dropped again if it was taken only for this. -/
def header : Access Header := fun pager =>
  match ensureShared pager with
  | (.error reason, after) => (.error reason, after)
  | (.ok header, after) =>
    (.ok header, if pager.level = .none then after.dropIdleLock else after)

def lock (level : LockLevel) : Access Unit := fun pager =>
  if level = .shared ∧ pager.level = .none then
    match acquireShared pager with
    | (.error reason, pager) => (.error reason, pager)
    | (.ok _, pager) => (.ok (), pager)
  else if !pager.isOpen then (.error .closed, pager)
  else if level.rank ≤ pager.level.rank then (.error (.lock (.alreadyHeld pager.level level)), pager)
  else (.error (.lock (.unsupported level)), pager)

def unlock (level : LockLevel) : Access Unit := fun pager =>
  if level = .none ∧ pager.level ≠ .none then
    if pager.held = 0 then (.ok (), pager.dropLock) else (.error (.pagesOutstanding pager.held), pager)
  else if !pager.isOpen then (.error .closed, pager)
  else if pager.level.rank ≤ level.rank then (.error (.lock (.notHeld pager.level level)), pager)
  else (.error (.lock (.unsupported level)), pager)

def close : Access Unit := fun pager =>
  if pager.held ≠ 0 then (.error (.pagesOutstanding pager.held), pager)
  else if pager.level ≠ .none then (.error (.lockStillHeld pager.level), pager)
  else if pager.isOpen then (.ok (), { pager with isOpen := false })
  else (.error .closed, pager)

/-- Decodes a page, which is given back whether or not it could be decoded. -/
def readNode (number : UInt32) (parent : Option (Nat × PageKind)) : Access Node := fun pager =>
  match getPage number pager with
  | (.error reason, pager) => (.error reason, pager)
  | (.ok page, pager) =>
    match releasePage pager with
    | (.error reason, pager) => (.error reason, pager)
    | (.ok (), pager) => ((Node.ofPage page parent).mapError .corrupt, pager)

theorem readPage_number {pager : Pager} {number : UInt32} {header : Header} {page : Page}
    (read : pager.readPage number header = .ok page) : page.number = number := by
  unfold readPage at read
  split at read
  · cases read
    rfl
  · split at read <;> cases read
    rfl

theorem getPage_number {pager after : Pager} {number : UInt32} {page : Page}
    (handed : Pager.getPage number pager = (.ok page, after)) : page.number = number := by
  unfold getPage at handed
  split at handed
  · cases handed
  split at handed
  · cases handed
  split at handed
  next read =>
    cases handed
    exact readPage_number read
  next => cases handed

/-- A node that was read is what the page of its number decodes to. -/
theorem readNode_page {pager after : Pager} {number : UInt32} {parent : Option (Nat × PageKind)} {node : Node}
    (ran : Pager.readNode number parent pager = (.ok node, after)) :
    ∃ page : Page, page.number = number ∧ Node.ofPage page parent = .ok node := by
  rcases taken : Pager.getPage number pager with ⟨handed, middle⟩
  simp only [Pager.readNode, taken] at ran
  cases handed with
  | error reason => cases ran
  | ok page =>
    rcases released : Pager.releasePage middle with ⟨given, final⟩
    simp only [released] at ran
    cases given with
    | error reason => cases ran
    | ok _ =>
      cases decoded : Node.ofPage page parent with
      | error reason =>
        rw [decoded] at ran
        cases ran
      | ok other =>
        rw [decoded] at ran
        cases ran
        exact ⟨page, getPage_number taken, decoded⟩

end Pager

instance : Source Pager where
  header := Pager.header
  node := Pager.readNode
  given := by
    intro number parent pager after decoded ran
    obtain ⟨page, rfl, read⟩ := Pager.readNode_page ran
    exact Node.ofPage_given read

end SqliteReader
