import SqliteReader.Database
import SqliteReader.Proofs.SourceAgreement

/-! A file as a source of its own, without locks, counts and cached headers. A pager over
a file that stays as it is and that no other process keeps from being read answers just
what the file says, whatever has been done with that pager before. -/

namespace SqliteReader

structure Image where
  bytes : ByteArray

namespace Image

/-- A pager before its first use. -/
def opened (image : Image) : Pager := { disk := { image := image.bytes } }

def header (image : Image) : Except Error Header :=
  (Header.parse (image.bytes.extract 0 Header.size).data.toList).mapError .header

def page (image : Image) (number : UInt32) : Except Error Page :=
  if number = 0 then .error (.invalidPageNumber number)
  else match image.header with
    | .error reason => .error reason
    | .ok header => image.opened.readPage number header

def node (image : Image) (number : UInt32) (parent : Option (Nat × PageKind)) : Except Error Node :=
  match image.page number with
  | .error reason => .error reason
  | .ok page => (Node.ofPage page parent).mapError .corrupt

theorem node_page {image : Image} {number : UInt32} {parent : Option (Nat × PageKind)} {node : Node}
    (decoded : image.node number parent = .ok node) :
    ∃ page : Page, page.number = number ∧ Node.ofPage page parent = .ok node := by
  unfold Image.node at decoded
  split at decoded
  · cases decoded
  next page found =>
    unfold Image.page at found
    split at found
    · cases found
    split at found
    · cases found
    refine ⟨page, Pager.readPage_number found, ?_⟩
    cases read : Node.ofPage page parent with
    | error reason =>
      rw [read] at decoded
      cases decoded
    | ok other =>
      rw [read] at decoded
      cases decoded
      rfl

instance : Source Image where
  header := fun image => (image.header, image)
  node number parent := fun image => (image.node number parent, image)
  given := by
    intro number parent image last node ran
    obtain ⟨page, rfl, read⟩ := node_page (Prod.mk.inj ran).1
    exact Node.ofPage_given read

end Image

/-- A pager over a file that nobody else changes or locks. -/
structure Pager.Over (pager : Pager) (image : Image) : Prop where
  isOpen : pager.isOpen = true
  unchanged : pager.disk.image = image.bytes
  pendingFree : pager.disk.other.conflict? .read pendingByte = none
  sharedFree : pager.disk.other.conflict? .read sharedRange = none

/-- Such a pager in a state that uses of it lead to: pages are handed out under the lock,
and the header known under the lock is that of the file. -/
structure Pager.Serves (pager : Pager) (image : Image) : Prop extends pager.Over image where
  locked : pager.held ≠ 0 → pager.level ≠ .none
  current : pager.level ≠ .none → ∀ header, pager.known = some header → image.header = .ok header

namespace Pager

variable {pager : Pager} {image : Image}

theorem Over.refresh (steady : pager.Over image) :
    Pager.refresh pager = match image.header with
      | .error reason => (.error reason, pager)
      | .ok header => (.ok header, pager.learn header) := by
  simp only [Pager.refresh, if_pos steady.isOpen, steady.unchanged, Image.header]
  cases Header.parse (image.bytes.extract 0 Header.size).data.toList <;> rfl

theorem Over.learn (steady : pager.Over image) (header : Header) : (pager.learn header).Over image :=
  ⟨steady.isOpen, steady.unchanged, steady.pendingFree, steady.sharedFree⟩

theorem Over.serves_learn (steady : pager.Over image) {header : Header} (parsed : image.header = .ok header)
    (held : pager.level ≠ .none) : (pager.learn header).Serves image :=
  ⟨steady.learn header, fun _ => held, fun _ _ same => by cases same; exact parsed⟩

theorem Over.dropIdleLock (steady : pager.Over image) (busy : pager.held ≠ 0 → pager.Serves image) :
    pager.dropIdleLock.Serves image ∧ pager.dropIdleLock.held = pager.held := by
  unfold Pager.dropIdleLock
  split
  next idle =>
    refine ⟨⟨⟨steady.isOpen, steady.unchanged, steady.pendingFree, steady.sharedFree⟩, ?_, ?_⟩, rfl⟩
    · exact fun held => absurd idle.1 held
    · exact fun held => absurd rfl held
  next needed =>
    refine ⟨?_, rfl⟩
    by_cases idle : pager.held = 0
    · have free : pager.level = .none := Classical.byContradiction fun held => needed ⟨idle, held⟩
      exact ⟨steady, fun held => absurd idle held, fun held => absurd free held⟩
    · exact busy idle

/-- With nothing in its way a reader gets the lock, and the file stays as it is. -/
theorem Over.lockShared (steady : pager.Over image) :
    ∃ own, pager.disk.acquireShared = (true, { pager.disk with own }) := by
  simp [Disk.acquireShared, Acquisition.step, Disk.lockOwn, Disk.unlockOwn, steady.pendingFree, steady.sharedFree]

theorem Over.readPage (steady : pager.Over image) (number : UInt32) (header : Header) :
    pager.readPage number header = image.opened.readPage number header := by
  have same : pager.disk.read? = image.opened.disk.read? := by
    funext range
    unfold Disk.read?
    rw [steady.unchanged]
    rfl
  simp only [Pager.readPage, same]

namespace Serves

theorem opened (image : Image) : image.opened.Serves image :=
  ⟨⟨rfl, rfl, rfl, rfl⟩, fun held => absurd rfl held, fun held => absurd rfl held⟩

theorem acquireShared (serves : pager.Serves image) (free : pager.level = .none) :
    ∃ after, Pager.acquireShared pager = (image.header, after) ∧ after.Serves image ∧ after.held = pager.held ∧
      ∀ header, image.header = .ok header → after.level ≠ .none := by
  have idle : pager.held = 0 := Classical.byContradiction fun held => serves.locked held free
  obtain ⟨own, locked⟩ := serves.lockShared
  have steady : Pager.Over { pager with disk := { pager.disk with own }, level := .shared } image :=
    ⟨serves.isOpen, serves.unchanged, serves.pendingFree, serves.sharedFree⟩
  simp only [Pager.acquireShared, if_pos serves.isOpen, locked, steady.refresh]
  cases parsed : image.header with
  | error reason =>
    obtain ⟨kept, held⟩ := steady.dropIdleLock fun held => absurd idle held
    refine ⟨_, rfl, kept, held, ?_⟩
    intro header impossible
    cases impossible
  | ok header =>
    refine ⟨_, rfl, steady.serves_learn parsed (by simp), rfl, ?_⟩
    intro header same
    simp [Pager.learn]

theorem ensureShared (serves : pager.Serves image) :
    ∃ after, Pager.ensureShared pager = (image.header, after) ∧ after.Serves image ∧ after.held = pager.held ∧
      ∀ header, image.header = .ok header → after.level ≠ .none := by
  unfold Pager.ensureShared
  split
  next free => exact serves.acquireShared free
  next taken =>
    split
    next header known =>
      exact ⟨pager, by rw [serves.current taken header known], serves, rfl, fun _ _ => taken⟩
    next unknown =>
      rw [serves.refresh]
      cases parsed : image.header with
      | error reason =>
        refine ⟨pager, rfl, serves, rfl, ?_⟩
        intro header impossible
        cases impossible
      | ok header => exact ⟨_, rfl, serves.serves_learn parsed taken, rfl, fun _ _ => taken⟩

theorem header (serves : pager.Serves image) :
    ∃ after, Pager.header pager = (image.header, after) ∧ after.Serves image ∧ after.held = pager.held := by
  obtain ⟨after, ran, kept, held, _⟩ := serves.ensureShared
  simp only [Pager.header, ran]
  cases parsed : image.header with
  | error reason => exact ⟨after, rfl, kept, held⟩
  | ok header =>
    by_cases free : pager.level = .none
    · simp only [if_pos free]
      obtain ⟨dropped, same⟩ := kept.dropIdleLock fun _ => kept
      exact ⟨_, rfl, dropped, same.trans held⟩
    · simp only [if_neg free]
      exact ⟨after, rfl, kept, held⟩

theorem getPage (serves : pager.Serves image) (number : UInt32) :
    ∃ after, Pager.getPage number pager = (image.page number, after) ∧ after.Serves image ∧
      ∀ page, image.page number = .ok page → after.held = pager.held + 1 := by
  unfold Pager.getPage Image.page
  by_cases zero : number = 0
  · rw [if_pos zero, if_pos zero]
    refine ⟨pager, rfl, serves, ?_⟩
    intro page impossible
    cases impossible
  · rw [if_neg zero, if_neg zero]
    obtain ⟨after, ran, kept, held, level⟩ := serves.ensureShared
    simp only [ran]
    cases parsed : image.header with
    | error reason =>
      refine ⟨after, rfl, kept, ?_⟩
      intro page impossible
      cases impossible
    | ok header =>
      simp only [kept.readPage]
      cases Pager.readPage image.opened number header with
      | error reason =>
        refine ⟨_, rfl, (kept.dropIdleLock fun _ => kept).1, ?_⟩
        intro page impossible
        cases impossible
      | ok page =>
        refine ⟨_, rfl, ⟨?_, fun _ => level header parsed, kept.current⟩, fun _ _ => congrArg (· + 1) held⟩
        exact ⟨kept.isOpen, kept.unchanged, kept.pendingFree, kept.sharedFree⟩

/-- Giving back a page cannot fail while one is handed out. -/
theorem releasePage (serves : pager.Serves image) (held : pager.held ≠ 0) :
    ∃ after, Pager.releasePage pager = (.ok (), after) ∧ after.Serves image := by
  have fewer : Pager.Serves { pager with held := pager.held - 1 } image :=
    ⟨⟨serves.isOpen, serves.unchanged, serves.pendingFree, serves.sharedFree⟩,
      fun _ => serves.locked held, serves.current⟩
  rw [Pager.releasePage, if_neg held]
  exact ⟨_, rfl, (fewer.dropIdleLock fun _ => fewer).1⟩

theorem readNode (serves : pager.Serves image) (number : UInt32) (parent : Option (Nat × PageKind)) :
    ∃ after, Pager.readNode number parent pager = (image.node number parent, after) ∧ after.Serves image := by
  obtain ⟨after, ran, kept, held⟩ := serves.getPage number
  simp only [Pager.readNode, Image.node, ran]
  cases found : image.page number with
  | error reason => exact ⟨after, rfl, kept⟩
  | ok page =>
    obtain ⟨last, released, final⟩ := kept.releasePage (by rw [held page found]; omega)
    simp only [released]
    exact ⟨last, rfl, final⟩

end Serves

/-- Whatever a pager went through, it says of the file what the file says itself. -/
theorem alike_image : Alike Pager.Serves where
  header pager image serves := by
    obtain ⟨after, ran, kept, _⟩ := serves.header
    exact ⟨image.header, after, image, ran, rfl, kept⟩
  node page parent pager image serves := by
    obtain ⟨after, ran, kept⟩ := serves.readNode page parent
    exact ⟨image.node page parent, after, image, ran, rfl, kept⟩

end Pager
end SqliteReader
