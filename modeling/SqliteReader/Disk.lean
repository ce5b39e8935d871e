import SqliteReader.Lock

/-! A file as two processes see it: its bytes, the locks of the reader, and the locks of
the other process, which may also change the bytes. Taking the SHARED lock is three
steps on the locks; steps of the other process may come between them. -/

namespace SqliteReader

structure Disk where
  image : ByteArray
  own : LockTable := {}
  other : LockTable := {}

namespace Disk

def read? (disk : Disk) (range : ByteRange) : Option ByteArray :=
  if range.stop ≤ disk.image.size then some (disk.image.extract range.start range.stop) else none

def resize (disk : Disk) (size : Nat) : Disk :=
  let kept := disk.image.extract 0 size
  { disk with image := kept ++ ⟨Array.replicate (size - kept.size) 0⟩ }

/-- Writing nothing changes nothing, even behind the end. -/
def overwrite (disk : Disk) (offset : Nat) (bytes : ByteArray) : Disk :=
  if bytes.isEmpty then disk
  else
    let grown := disk.resize (max disk.image.size (offset + bytes.size))
    { grown with image := bytes.copySlice 0 grown.image offset bytes.size }

/-- Takes a read lock for the reader, unless the other process prevents it. -/
def lockOwn (disk : Disk) (range : ByteRange) : Bool × Disk :=
  if (disk.other.conflict? .read range).isSome then (false, disk)
  else (true, { disk with own := disk.own.hold .read range })

def unlockOwn (disk : Disk) (range : ByteRange) : Disk :=
  { disk with own := disk.own.release range }

/-- The reader's lock that would stop the other process. -/
def probe? (disk : Disk) (kind : LockKind) (range : ByteRange) : Option HeldLock :=
  disk.own.conflict? kind range

def lockOther (disk : Disk) (kind : LockKind) (range : ByteRange) : Bool × Disk :=
  if (disk.probe? kind range).isSome then (false, disk)
  else (true, { disk with other := disk.other.hold kind range })

def unlockOther (disk : Disk) (range : ByteRange) : Disk :=
  { disk with other := disk.other.release range }

end Disk

/-- How far a reader is on its way to the SHARED lock. -/
inductive Acquisition
  | idle
  | pending
  | both
  | refused
  | granted
  | busy
  deriving DecidableEq, Repr

namespace Acquisition

/-- The pending byte, then the shared range, then the pending byte given back whatever
became of the range. -/
def step : Acquisition → Disk → Acquisition × Disk
  | .idle, disk =>
    match disk.lockOwn pendingByte with
    | (true, locked) => (.pending, locked)
    | (false, same) => (.busy, same)
  | .pending, disk =>
    match disk.lockOwn sharedRange with
    | (true, locked) => (.both, locked)
    | (false, same) => (.refused, same)
  | .both, disk => (.granted, disk.unlockOwn pendingByte)
  | .refused, disk => (.busy, disk.unlockOwn pendingByte)
  | .granted, disk => (.granted, disk)
  | .busy, disk => (.busy, disk)

end Acquisition

namespace Disk

/-- All steps to the SHARED lock, with nothing of the other process between them. -/
def acquireShared (disk : Disk) : Bool × Disk :=
  let (first, disk) := Acquisition.idle.step disk
  let (second, disk) := first.step disk
  let (third, disk) := second.step disk
  (third = .granted, disk)

def releaseShared (disk : Disk) : Disk := disk.unlockOwn sharedRange

end Disk
end SqliteReader
