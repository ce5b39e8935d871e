import SqliteReader.Pager
import SqliteReader.Proofs.PageDecoding

/-! Nodes as they come from their pages, and what stands at which of their positions. On an
interior index page children and records take turns, so that half of the position tells
which of them it is. -/

namespace SqliteReader

namespace Cell

theorem Means.interior {child : UInt32} {payload : List UInt8} {entry : Entry}
    (means : Means (.indexInterior child payload) entry) : entry.record.isSome ∧ entry.child.isSome := by
  cases means
  exact ⟨rfl, rfl⟩

theorem means_interior {cells : List Cell} {entries : List Entry} (means : List.Forall₂ Means cells entries)
    (interior : ∀ cell ∈ cells, cell.kind = .indexInterior) :
    (entries.filterMap Entry.record).length = cells.length ∧ (entries.filterMap Entry.child).length = cells.length := by
  induction means with
  | nil => exact ⟨rfl, rfl⟩
  | @cons cell entry cells entries meant means ih =>
    obtain ⟨records, children⟩ := ih fun other member => interior other (List.mem_cons_of_mem _ member)
    have both : entry.record.isSome ∧ entry.child.isSome := by
      cases cell with
      | indexInterior child payload => exact meant.interior
      | tableLeaf | tableInterior | indexLeaf => cases interior _ List.mem_cons_self
    obtain ⟨record, here⟩ := Option.isSome_iff_exists.mp both.1
    obtain ⟨child, below⟩ := Option.isSome_iff_exists.mp both.2
    simp [here, below, records, children]

end Cell

namespace Node

/-- An interior index node has a child before each record and at most one behind the last. -/
def Balanced (node : Node) : Prop :=
  node.kind = .indexInterior → node.children.size = node.records.size ∨ node.children.size = node.records.size + 1

theorem ofPage_balanced {page : Page} {parent : Option (Nat × PageKind)} {node : Node}
    (decoded : ofPage page parent = .ok node) : node.Balanced := by
  obtain ⟨front, cells, entries, laid, means, _, rfl⟩ := ofPage_ok_iff.mp decoded
  intro interior
  have kinds : ∀ cell ∈ cells, cell.kind = .indexInterior := by
    intro cell member
    obtain ⟨index, found⟩ := List.mem_iff_getElem?.mp member
    exact (laid.pointed index cell found).1.trans interior
  obtain ⟨records, children⟩ := Cell.means_interior means kinds
  simp only [ofEntries, List.size_toArray, List.length_append, records, children]
  split
  · exact .inl rfl
  · exact .inr rfl

/-- A child or a record by its number. -/
inductive Stand
  | child (index : Nat)
  | record (index : Nat)

/-- What stands at a position, told from the position and the counts alone. -/
def stand? (node : Node) (position : Nat) : Option Stand :=
  match node.kind with
  | .tableLeaf | .indexLeaf => if position < node.records.size then some (.record position) else none
  | .tableInterior => if position < node.children.size then some (.child position) else none
  | .indexInterior =>
    if node.children.size + node.records.size ≤ position then none
    else if position % 2 = 0 then some (.child (position / 2))
    else some (.record (position / 2))

section

variable {α : Type} {first second : List α}

theorem length_alternate (first second : List α) : (alternate first second).length = first.length + second.length := by
  induction first generalizing second with
  | nil => simp [alternate]
  | cons one first ih =>
    cases second with
    | nil => rfl
    | cons other second =>
      simp only [alternate, List.length_cons, ih]
      omega

theorem getElem?_alternate (fewer : second.length ≤ first.length) (close : first.length ≤ second.length + 1) (index : Nat) :
    (alternate first second)[2 * index]? = first[index]? ∧ (alternate first second)[2 * index + 1]? = second[index]? := by
  induction first generalizing second index with
  | nil =>
    cases List.length_eq_zero_iff.mp (Nat.le_zero.mp fewer)
    simp [alternate]
  | cons one first ih =>
    cases second with
    | nil =>
      cases List.length_eq_zero_iff.mp (Nat.le_zero.mp (Nat.le_of_succ_le_succ close))
      cases index <;> simp [alternate]
    | cons other second =>
      cases index with
      | zero => exact ⟨rfl, rfl⟩
      | succ index => exact ih (Nat.le_of_succ_le_succ fewer) (Nat.le_of_succ_le_succ close) index

end

variable {node : Node}

theorem getElem?_childSlots (node : Node) (index : Nat) :
    node.childSlots[index]? = node.children[index]?.map fun child => .child index child.page := by
  simp [childSlots]

theorem getElem?_recordSlots (node : Node) (index : Nat) : node.recordSlots[index]? = node.records[index]?.map .record := by
  simp [recordSlots]

/-- Every position shows what stands there, and nothing stands outside its array. -/
def Ordered (node : Node) : Prop :=
  ∀ position,
    match node.stand? position with
    | none => node.slots[position]? = none
    | some (.child index) =>
      ∃ child, node.children[index]? = some child ∧ node.slots[position]? = some (.child index child.page)
    | some (.record index) =>
      ∃ record, node.records[index]? = some record ∧ node.slots[position]? = some (.record record)

theorem record_of_mem_slots {node : Node} {record : Record} (member : .record record ∈ node.slots) :
    record ∈ node.records := by
  have strange : Slot.record record ∉ node.childSlots := by simp [childSlots]
  have listed : Slot.record record ∈ node.recordSlots := by
    unfold slots at member
    split at member
    · exact member
    · exact member
    · exact absurd member strange
    · exact (mem_alternate member).resolve_left strange
  simpa [recordSlots] using listed

theorem Balanced.ordered (balanced : node.Balanced) : node.Ordered := by
  intro position
  have childAt {index : Nat} (inside : index < node.children.size) :
      ∃ child, node.children[index]? = some child ∧ node.childSlots[index]? = some (.child index child.page) :=
    ⟨_, Array.getElem?_eq_getElem inside, by rw [getElem?_childSlots, Array.getElem?_eq_getElem inside]; rfl⟩
  have recordAt {index : Nat} (inside : index < node.records.size) :
      ∃ record, node.records[index]? = some record ∧ node.recordSlots[index]? = some (.record record) :=
    ⟨_, Array.getElem?_eq_getElem inside, by rw [getElem?_recordSlots, Array.getElem?_eq_getElem inside]; rfl⟩
  cases kind : node.kind with
  | tableLeaf | indexLeaf =>
    simp only [stand?, slots, kind]
    by_cases inside : position < node.records.size
    · rw [if_pos inside]
      exact recordAt inside
    · rw [if_neg inside]
      simp [recordSlots, Nat.le_of_not_lt inside]
  | tableInterior =>
    simp only [stand?, slots, kind]
    by_cases inside : position < node.children.size
    · rw [if_pos inside]
      exact childAt inside
    · rw [if_neg inside]
      simp [childSlots, Nat.le_of_not_lt inside]
  | indexInterior =>
    have children : node.childSlots.length = node.children.size := by simp [childSlots]
    have records : node.recordSlots.length = node.records.size := by simp [recordSlots]
    have sizes := balanced kind
    have taken := @getElem?_alternate _ node.childSlots node.recordSlots (by omega) (by omega) (position / 2)
    simp only [stand?, slots, kind]
    by_cases outside : node.children.size + node.records.size ≤ position
    · rw [if_pos outside]
      exact List.getElem?_eq_none (by rw [length_alternate, children, records]; exact outside)
    · rw [if_neg outside]
      by_cases even : position % 2 = 0
      · rw [if_pos even]
        rw [show 2 * (position / 2) = position by omega] at taken
        simp only [taken.1]
        exact childAt (by omega)
      · rw [if_neg even]
        rw [show 2 * (position / 2) + 1 = position by omega] at taken
        simp only [taken.2]
        exact recordAt (by omega)

end Node

/-- A source whose interior index nodes have their children and records in turns. -/
class Source.Balances (σ : Type) [Source σ] : Prop where
  balanced {page : UInt32} {parent : Option (Nat × PageKind)} {source last : σ} {node : Node} :
    Source.node page parent source = (.ok node, last) → node.Balanced

instance : Source.Balances Pager where
  balanced ran := by
    obtain ⟨_, _, decoded⟩ := Pager.readNode_page ran
    exact Node.ofPage_balanced decoded

end SqliteReader
