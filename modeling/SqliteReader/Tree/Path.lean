import SqliteReader.Tree.Arena

/-! The way of a cursor from the root down to the node it is on. It follows entries whose
children are kept, so that back up from its innermost node by the parents it is the same way,
and no page comes twice on it. Page numbers have 32 bits: no way is longer than there are
page numbers, whatever a damaged file says about children. -/

namespace SqliteReader

structure Frame where
  /-- Where the tree keeps the node. -/
  node : Nat
  page : UInt32
  /-- The position that the cursor is in, unless it is before the first. -/
  current : Option Slot := none
  /-- The positions behind it. -/
  rest : List Slot
  deriving DecidableEq, Repr

namespace Frame

def before (nodes : Array Node) (place : Nat) (page : UInt32) : Frame :=
  { node := place, page, rest := (nodes[place]?.map Node.slots).getD [] }

def enter (frame : Frame) (slot : Slot) (rest : List Slot) : Frame := { frame with current := some slot, rest }

/-- The position that a frame is in follows those passed and comes before those left. -/
def Stands (nodes : Array Node) (frame : Frame) : Prop :=
  ∃ node passed, nodes[frame.node]? = some node ∧ node.page = frame.page ∧
    node.slots = passed ++ frame.current.toList ++ frame.rest ∧ (frame.current = none → passed = [])

theorem stands_before {nodes : Array Node} {place : Nat} {page : UInt32} {node : Node}
    (found : nodes[place]? = some node) (same : node.page = page) : (Frame.before nodes place page).Stands nodes :=
  ⟨node, [], found, same, by simp [Frame.before, found], fun _ => rfl⟩

theorem Stands.extends {nodes later : Array Node} {frame : Frame} (stands : frame.Stands nodes)
    (more : Extends nodes later) : frame.Stands later := by
  obtain ⟨node, passed, found, page, slots, first⟩ := stands
  obtain ⟨same, there, samePage, _, _, sameSlots⟩ := more.kept _ _ found
  exact ⟨same, passed, there, samePage.trans page, sameSlots.trans slots, first⟩

end Frame

def pagesOf (frames : List Frame) : List UInt32 := frames.map Frame.page

@[simp] theorem pagesOf_cons (frame : Frame) (outer : List Frame) :
    pagesOf (frame :: outer) = frame.page :: pagesOf outer := rfl

/-- The record that the innermost frame is on. -/
def recordOf? : List Frame → Option Record
  | { current := some (.record record), .. } :: _ => some record
  | _ => none

theorem recordOf_eq_some_iff {frame : Frame} {outer : List Frame} {record : Record} :
    recordOf? (frame :: outer) = some record ↔ frame.current = some (.record record) := by
  obtain ⟨_, _, current, _⟩ := frame
  rcases current with _ | (_ | _) <;> simp [recordOf?]

/-- One frame for each level from the root down, the root last. All but the innermost are on
a child, whose node is that of the next level. A way without frames is that of an exhausted
cursor. -/
inductive Levels (nodes : Array Node) : List Frame → Prop
  | exhausted : Levels nodes []
  | root {frame : Frame} (stands : frame.Stands nodes) (first : frame.node = 0) : Levels nodes [frame]
  | within {inner outer : Frame} {frames : List Frame} {index : Nat} {child : Child} (stands : inner.Stands nodes)
      (entered : outer.current = some (.child index child.page)) (listed : listing? nodes outer.node index = some child)
      (noted : child.node = some inner.node) (rest : Levels nodes (outer :: frames)) :
      Levels nodes (inner :: outer :: frames)

/-- There are no more pages than page numbers. -/
theorem pages_length_le (pages : List UInt32) (distinct : pages.Nodup) : pages.length ≤ UInt32.size := by
  have numbers : (pages.map UInt32.toNat).Nodup := by
    refine List.Pairwise.map _ ?_ distinct
    intro first second different same
    exact different (UInt32.toNat_inj.mp same)
  have inside : pages.map UInt32.toNat ⊆ List.range UInt32.size := by
    intro number member
    obtain ⟨page, _, rfl⟩ := List.mem_map.mp member
    exact List.mem_range.mpr page.toNat_lt
  simpa using numbers.length_le_of_subset inside

theorem Levels.extends {nodes later : Array Node} {frames : List Frame} (levels : Levels nodes frames)
    (more : Extends nodes later) : Levels later frames := by
  induction levels with
  | exhausted => exact .exhausted
  | root stands first => exact .root (stands.extends more) first
  | within stands entered listed noted _ ih =>
    exact .within (stands.extends more) entered (more.noted _ _ _ _ listed noted) noted ih

namespace Levels

variable {root : UInt32} {nodes : Array Node} {frame : Frame} {frames outer : List Frame} {slot : Slot}
  {rest : List Slot}

theorem stands (levels : Levels nodes (frame :: outer)) : frame.Stands nodes := by
  cases levels with
  | root stands => exact stands
  | within stands => exact stands

theorem left (levels : Levels nodes (frame :: outer)) : Levels nodes outer := by
  cases levels with
  | root => exact .exhausted
  | within _ _ _ _ rest => exact rest

theorem onward (levels : Levels nodes (frame :: outer)) (left : frame.rest = slot :: rest) :
    Levels nodes (frame.enter slot rest :: outer) := by
  have entered : (frame.enter slot rest).Stands nodes := by
    obtain ⟨node, passed, found, page, slots, _⟩ := levels.stands
    refine ⟨node, passed ++ frame.current.toList, found, page, ?_, fun impossible => by cases impossible⟩
    simp [slots, left, Frame.enter]
  cases levels with
  | root _ first => exact .root entered first
  | within _ below listed noted rest => exact .within entered below listed noted rest

/-- The child at the next position is one of the node. -/
theorem listed {index : Nat} {page : UInt32} (levels : Levels nodes (frame :: outer))
    (left : frame.rest = .child index page :: rest) :
    ∃ node child, nodes[frame.node]? = some node ∧ listing? nodes frame.node index = some child ∧ child.page = page := by
  obtain ⟨node, passed, found, _, slots, _⟩ := levels.stands
  have member : .child index page ∈ node.slots := by simp [slots, left]
  obtain ⟨child, listed, same⟩ := Node.child_of_mem_slots member
  exact ⟨node, child, found, (listing_of_getElem? found).trans listed, same⟩

/-- On to the node of the child that the innermost frame is on. -/
theorem descend {index place : Nat} {page : UInt32} {child : Child} (levels : Levels nodes (frame :: outer))
    (arena : Arena root nodes) (here : frame.current = some (.child index page))
    (listed : listing? nodes frame.node index = some child) (noted : child.node = some place) (same : child.page = page) :
    Levels nodes (.before nodes place page :: frame :: outer) := by
  subst same
  obtain ⟨node, found, page, _⟩ := arena.noted listed noted
  exact .within (Frame.stands_before found page) here listed noted levels

/-- The parents lead back up through the same pages. -/
theorem ascent (levels : Levels nodes (frame :: outer)) (arena : Arena root nodes) :
    Ascent nodes frame.node (pagesOf (frame :: outer)) := by
  generalize whole : frame :: outer = frames at levels
  induction levels generalizing frame outer with
  | exhausted => cases whole
  | root stands first =>
    cases whole
    obtain ⟨node, _, found, page, _⟩ := stands
    obtain ⟨top, there, _, none⟩ := arena.rooted
    rw [first] at found ⊢
    cases there.symm.trans found
    rw [pagesOf_cons, ← page]
    exact .root found none
  | within stands _ listed noted _ ih =>
    cases whole
    obtain ⟨node, _, found, page, _⟩ := stands
    obtain ⟨same, there, _, parent⟩ := arena.noted listed noted
    cases there.symm.trans found
    rw [pagesOf_cons, ← page]
    exact .under found parent (ih rfl)

theorem distinct (levels : Levels nodes frames) (arena : Arena root nodes) : (pagesOf frames).Nodup := by
  cases frames with
  | nil => exact List.nodup_nil
  | cons frame outer => exact arena.apart _ _ (levels.ascent arena)

theorem length_le (levels : Levels nodes frames) (arena : Arena root nodes) : frames.length ≤ UInt32.size := by
  simpa [pagesOf] using pages_length_le (pagesOf frames) (levels.distinct arena)

end Levels

/-- What is left to walk grows less: the innermost node is left, or a position of it is, be
it for the positions of a node one level down. -/
inductive Shrinks : List Frame → List Frame → Prop
  | left {frame : Frame} {outer : List Frame} : Shrinks outer (frame :: outer)
  | onward {frame entered : Frame} {outer : List Frame} (fewer : entered.rest.length < frame.rest.length) :
      Shrinks (entered :: outer) (frame :: outer)
  | below {frame entered inner : Frame} {outer : List Frame} (fewer : entered.rest.length < frame.rest.length)
      (room : outer.length + 1 < UInt32.size) : Shrinks (inner :: entered :: outer) (frame :: outer)

namespace Shrinks

variable {outer : List Frame}

theorem acc_cons (others : Acc Shrinks outer)
    (deeper : outer.length + 1 < UInt32.size → ∀ entered : Frame, Acc Shrinks (entered :: outer) →
      ∀ inner : Frame, Acc Shrinks (inner :: entered :: outer))
    (frame : Frame) : Acc Shrinks (frame :: outer) := by
  -- By the positions left in the frame.
  induction frame using (measure fun frame : Frame => frame.rest.length).wf.induction with
  | _ frame ih =>
    refine .intro _ fun less shrinks => ?_
    cases shrinks with
    | left => exact others
    | onward fewer => exact ih _ fewer
    | @below _ entered inner _ fewer room => exact deeper room entered (ih entered fewer) inner

/-- By the number of levels that there is room for. -/
theorem acc_within (room : Nat) (fits : UInt32.size - outer.length ≤ room) (others : Acc Shrinks outer) (frame : Frame) :
    Acc Shrinks (frame :: outer) := by
  induction room generalizing outer frame with
  | zero =>
    refine acc_cons others (fun more => ?_) frame
    omega
  | succ room ih =>
    refine acc_cons others (fun more entered behind inner => ?_) frame
    exact ih (by simp only [List.length_cons]; omega) behind inner

end Shrinks

theorem wellFounded_shrinks : WellFounded Shrinks := by
  refine ⟨fun frames => ?_⟩
  induction frames with
  | nil => exact .intro _ fun _ impossible => by cases impossible
  | cons frame outer others => exact Shrinks.acc_within _ (Nat.le_refl _) others frame

end SqliteReader
