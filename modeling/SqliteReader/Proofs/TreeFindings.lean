import Mathlib.Data.List.Dedup
import SqliteReader.Proofs.ImageSource

/-! What there is to find in a tree, read off its pages one after the other without a
cursor. A page that cannot be decoded, or that lies below itself, is a finding too; it hides
what would be below it and nothing else. -/

namespace SqliteReader

namespace Finding

def seen : Finding → Except Error (Option Record)
  | .record found => .ok (some found)
  | .failure reason => .error reason

/-- What lies below the first child, the first record, and so on. -/
def between : List (List Finding) → List Record → List Finding
  | child :: children, entry :: entries => child ++ .record entry :: between children entries
  | children, [] => children.flatten
  | [], entries => entries.map .record

/-- The records before the first failure. -/
def leading : List Finding → List Record
  | .record found :: rest => found :: leading rest
  | _ => []

def stopping? : List Finding → Option Error
  | [] => none
  | .record _ :: rest => stopping? rest
  | .failure reason :: _ => some reason

@[simp] theorem leading_append (records : List Record) (walk : List Finding) :
    leading (records.map .record ++ walk) = records ++ leading walk := by
  induction records with
  | nil => rfl
  | cons record records ih => exact congrArg (record :: ·) ih

@[simp] theorem stopping_append (records : List Record) (walk : List Finding) :
    stopping? (records.map .record ++ walk) = stopping? walk := by
  induction records with
  | nil => rfl
  | cons record records ih => exact ih

@[simp] theorem leading_records (records : List Record) : leading (records.map .record) = records := by
  simpa [leading] using leading_append records []

@[simp] theorem stopping_records (records : List Record) : stopping? (records.map .record) = none := by
  simpa [stopping?] using stopping_append records []

end Finding

def unseen (above : List UInt32) : Nat := UInt32.size - above.dedup.length

theorem unseen_lt {above : List UInt32} {page : UInt32} (fresh : page ∉ above) :
    unseen (page :: above) < unseen above := by
  have bound := pages_length_le (page :: above).dedup (List.nodup_dedup _)
  rw [List.dedup_cons_of_notMem fresh, List.length_cons] at bound
  rw [unseen, unseen, List.dedup_cons_of_notMem fresh, List.length_cons]
  omega

namespace Image

/-- Everything on a page and below it, in the order of the keys, given the pages above it
and the kind of its parent. -/
def findings (image : Image) (above : List UInt32) (page : UInt32) (parent : Option PageKind) : List Finding :=
  if _cyclic : page ∈ above then [.failure (.corrupt (.treeCycle page))]
  else match image.node page (parent.map fun kind => (0, kind)) with
    | .error reason => [.failure reason]
    | .ok node =>
      let below := node.children.toList.map fun child => image.findings (page :: above) child.page (some node.kind)
      match node.kind with
      | .tableLeaf | .indexLeaf => node.records.toList.map .record
      | .tableInterior => below.flatten
      | .indexInterior => Finding.between below node.records.toList
termination_by unseen above
decreasing_by exact unseen_lt _cyclic

/-- What there is at one position of a node, given the pages down to that node. -/
def slotFindings (image : Image) (above : List UInt32) (kind : Option PageKind) : Slot → List Finding
  | .record record => [.record record]
  | .child _ page => image.findings above page kind

theorem flatMap_recordSlots (image : Image) (above : List UInt32) (kind : Option PageKind) (node : Node) :
    node.recordSlots.flatMap (image.slotFindings above kind) = node.records.toList.map .record := by
  rw [Node.recordSlots, List.flatMap_map]
  exact (List.map_eq_flatMap ..).symm

theorem map_childSlots (image : Image) (above : List UInt32) (kind : Option PageKind) (node : Node) :
    node.childSlots.map (image.slotFindings above kind) =
      node.children.toList.map fun child => image.findings above child.page kind := by
  apply List.ext_getElem?
  intro index
  simp only [Node.childSlots, List.getElem?_map, List.getElem?_mapIdx, Option.map_map]
  rfl

theorem flatMap_alternate (image : Image) (above : List UInt32) (kind : Option PageKind)
    (children : List Slot) (records : List Record) :
    (Node.alternate children (records.map .record)).flatMap (image.slotFindings above kind) =
      Finding.between (children.map (image.slotFindings above kind)) records := by
  induction children generalizing records with
  | nil =>
    rw [Node.alternate, List.flatMap_map, List.map_nil]
    cases records with
    | nil => rfl
    | cons record records => exact (List.map_eq_flatMap ..).symm
  | cons child children ih =>
    cases records with
    | nil => rfl
    | cons record records =>
      simp only [List.map_cons, Node.alternate, List.flatMap_cons, Finding.between, ih]
      rfl

theorem findings_of_node {image : Image} {above : List UInt32} {page : UInt32} {parent : Option PageKind} {node : Node}
    (fresh : page ∉ above) (decoded : image.node page (parent.map fun kind => (0, kind)) = .ok node) :
    image.findings above page parent = node.slots.flatMap (image.slotFindings (page :: above) (some node.kind)) := by
  rw [findings, dif_neg fresh]
  simp only [decoded, Node.slots]
  cases node.kind with
  | tableLeaf => exact (flatMap_recordSlots ..).symm
  | indexLeaf => exact (flatMap_recordSlots ..).symm
  | tableInterior => rw [← map_childSlots image (page :: above), List.flatMap_def]
  | indexInterior => rw [← map_childSlots image (page :: above), Node.recordSlots, flatMap_alternate]

end Image
end SqliteReader
