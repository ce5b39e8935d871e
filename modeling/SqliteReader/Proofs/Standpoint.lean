import SqliteReader.Proofs.DecodedNodes
import SqliteReader.Tree.Search

/-! Where a cursor stands: the place of its node, and a position in that node and in each
above it. Each turn goes on to the next position, then down to the node of a child that is
there, or up to the parent if there is no next position. An exhausted cursor is at the root,
and in no position. -/

namespace SqliteReader

def AllNodes (good : Node → Prop) (nodes : Array Node) : Prop :=
  ∀ (place : Nat) (node : Node), nodes[place]? = some node → good node

namespace Node

variable {node : Node} {position : Nat}

/-- Before the first position, or in one at which something stands. -/
def Within (node : Node) (position : Int) : Prop :=
  position = -1 ∨ ∃ inside : Nat, position = inside ∧ (node.stand? inside).isSome

theorem Ordered.stand_none (ordered : node.Ordered) (behind : node.slots[position]? = none) : node.stand? position = none := by
  have here := ordered position
  split at here
  next same => exact same
  next =>
    obtain ⟨child, _, shown⟩ := here
    cases behind.symm.trans shown
  next =>
    obtain ⟨record, _, shown⟩ := here
    cases behind.symm.trans shown

theorem Ordered.stand_child (ordered : node.Ordered) {index : Nat} {page : UInt32}
    (shown : node.slots[position]? = some (.child index page)) :
    node.stand? position = some (.child index) ∧ ∃ child, node.children[index]? = some child ∧ child.page = page := by
  have here := ordered position
  split at here
  next => cases here.symm.trans shown
  next other same =>
    obtain ⟨child, listed, there⟩ := here
    cases there.symm.trans shown
    exact ⟨same, child, listed, rfl⟩
  next =>
    obtain ⟨record, _, there⟩ := here
    cases there.symm.trans shown

theorem Ordered.stand_record (ordered : node.Ordered) {record : Record}
    (shown : node.slots[position]? = some (.record record)) :
    ∃ index, node.stand? position = some (.record index) ∧ node.records[index]? = some record := by
  have here := ordered position
  split at here
  next => cases here.symm.trans shown
  next =>
    obtain ⟨child, _, there⟩ := here
    cases there.symm.trans shown
  next index same =>
    obtain ⟨other, listed, there⟩ := here
    cases there.symm.trans shown
    exact ⟨index, same, listed⟩

theorem Ordered.stand_isSome (ordered : node.Ordered) {slot : Slot} (shown : node.slots[position]? = some slot) :
    (node.stand? position).isSome := by
  cases slot with
  | child => rw [(ordered.stand_child shown).1]; rfl
  | record =>
    obtain ⟨_, same, _⟩ := ordered.stand_record shown
    rw [same]; rfl

end Node

namespace Frame

/-- The position that a frame is in; before the first it is -1. -/
def position (nodes : Array Node) (frame : Frame) : Int :=
  (((nodes[frame.node]?.map Node.slots).getD []).length : Int) - frame.rest.length - 1

variable {nodes later : Array Node} {frame : Frame} {node : Node} {slot : Slot} {rest : List Slot}

theorem position_before {place : Nat} {page : UInt32} : (Frame.before nodes place page).position nodes = -1 := by
  simp only [position, before]
  omega

theorem position_enter (left : frame.rest = slot :: rest) :
    (frame.enter slot rest).position nodes = frame.position nodes + 1 := by
  simp only [position, enter, left, List.length_cons]
  omega

theorem position_extends (stands : frame.Stands nodes) (more : Extends nodes later) :
    frame.position later = frame.position nodes := by
  obtain ⟨node, _, found, _⟩ := stands
  obtain ⟨same, there, _, _, _, slots⟩ := more.kept _ _ found
  simp only [position, found, there, Option.map_some, slots]

theorem Stands.shown (stands : frame.Stands nodes) (found : nodes[frame.node]? = some node) :
    (frame.current = none ∧ frame.position nodes = -1) ∨
      ∃ (position : Nat) (slot : Slot), frame.current = some slot ∧ frame.position nodes = position ∧
        node.slots[position]? = some slot := by
  obtain ⟨same, passed, there, _, slots, first⟩ := stands
  cases found.symm.trans there
  simp only [position, found, Option.map_some, Option.getD_some, slots]
  cases current : frame.current with
  | none =>
    refine .inl ⟨rfl, ?_⟩
    simp only [first current, Option.toList_none, List.append_nil, List.nil_append]
    omega
  | some slot =>
    refine .inr ⟨passed.length, slot, rfl, ?_, ?_⟩
    · simp only [Option.toList_some, List.length_append, List.length_singleton]
      omega
    · simp

/-- Behind the position of a frame comes what it has left. -/
theorem Stands.ahead (stands : frame.Stands nodes) (found : nodes[frame.node]? = some node) :
    node.slots[(frame.position nodes + 1).toNat]? = frame.rest.head? := by
  obtain ⟨same, passed, there, _, slots, _⟩ := stands
  cases found.symm.trans there
  have next : (frame.position nodes + 1).toNat = (passed ++ frame.current.toList).length := by
    simp only [position, found, Option.map_some, Option.getD_some, slots, List.length_append]
    omega
  rw [next, slots, List.getElem?_append_right (Nat.le_refl _), Nat.sub_self, List.head?_eq_getElem?]

theorem Stands.within (stands : frame.Stands nodes) (found : nodes[frame.node]? = some node) (ordered : node.Ordered) :
    node.Within (frame.position nodes) := by
  rcases stands.shown found with ⟨_, before⟩ | ⟨position, slot, _, same, shown⟩
  · exact .inl before
  · exact .inr ⟨position, same, ordered.stand_isSome shown⟩

end Frame

/-- The innermost position comes first. -/
structure Standpoint where
  place : Nat
  positions : List Int
  deriving DecidableEq, Repr

namespace Standpoint

def ofFrames (nodes : Array Node) (frames : List Frame) : Standpoint where
  place := (frames.head?.map Frame.node).getD 0
  positions := frames.map (Frame.position nodes)

def onward (standpoint : Standpoint) : Standpoint :=
  { standpoint with positions := standpoint.positions.modifyHead (· + 1) }

/-- Up to the parent. Only the root has none, and from there the cursor is exhausted. -/
def climb (nodes : Array Node) (standpoint : Standpoint) : Standpoint :=
  match nodes[standpoint.place]?.bind Node.parent with
  | some parent => { place := parent, positions := standpoint.positions.tail }
  | none => { standpoint with positions := [] }

def enter (standpoint : Standpoint) (place : Nat) : Standpoint where
  place
  positions := -1 :: standpoint.positions

def stand? (nodes : Array Node) (standpoint : Standpoint) : Option Node.Stand :=
  match standpoint.positions with
  | .ofNat position :: _ => nodes[standpoint.place]?.bind (·.stand? position)
  | _ => none

def record? (nodes : Array Node) (standpoint : Standpoint) : Option Record :=
  match standpoint.stand? nodes with
  | some (.record index) => nodes[standpoint.place]?.bind (·.records[index]?)
  | _ => none

/-- One position for each level from the root down to the node at a place. All but the
innermost are those of a child, whose node is that of the next level. -/
inductive Descends (nodes : Array Node) : Nat → List Int → Prop
  | root {node : Node} {position : Int} (found : nodes[0]? = some node) (top : node.parent = none)
      (within : node.Within position) : Descends nodes 0 [position]
  | under {holder place above index : Nat} {upper node : Node} {child : Child} {position : Int} {outer : List Int}
      (found : nodes[place]? = some node) (parent : node.parent = some holder) (within : node.Within position)
      (holding : nodes[holder]? = some upper) (stand : upper.stand? above = some (.child index))
      (listed : upper.children[index]? = some child) (noted : child.node = some place)
      (rest : Descends nodes holder (above :: outer)) : Descends nodes place (position :: above :: outer)

def Holds (nodes : Array Node) (standpoint : Standpoint) : Prop :=
  standpoint = { place := 0, positions := [] } ∨ Descends nodes standpoint.place standpoint.positions

/-- One round of the loop that moves a cursor on, by its standpoint alone. The pages that a
child must not be one of are met on the way up by the parents. -/
inductive Steps {σ : Type} [Source σ] (nodes : Array Node) (source : σ) (here : Standpoint) :
    Option Finding → Array Node → σ → Standpoint → Prop
  | climbed (inside : here.positions ≠ []) (passed : here.onward.stand? nodes = none) :
      Steps nodes source here none nodes source (here.climb nodes)
  | record {record : Record} (ahead : here.onward.record? nodes = some record) :
      Steps nodes source here (some (.record record)) nodes source here.onward
  | known {index place : Nat} {child : Child} (ahead : here.onward.stand? nodes = some (.child index))
      (listed : listing? nodes here.place index = some child) (noted : child.node = some place) :
      Steps nodes source here none nodes source (here.onward.enter place)
  | cyclic {index : Nat} {child : Child} {above : List UInt32} (ahead : here.onward.stand? nodes = some (.child index))
      (listed : listing? nodes here.place index = some child) (unknown : child.node = none)
      (ascent : Ascent nodes here.place above) (cyclic : child.page ∈ above) :
      Steps nodes source here (some (.failure (.corrupt (.treeCycle child.page)))) nodes source here.onward
  | unreadable {index : Nat} {child : Child} {above : List UInt32} {reason : Error} {last : σ}
      (ahead : here.onward.stand? nodes = some (.child index)) (listed : listing? nodes here.place index = some child)
      (unknown : child.node = none) (ascent : Ascent nodes here.place above) (clear : child.page ∉ above)
      (asked : Source.node child.page (nodes[here.place]?.map fun node => (here.place, node.kind)) source =
        (.error reason, last)) : Steps nodes source here (some (.failure reason)) nodes last here.onward
  | decoded {index : Nat} {child : Child} {above : List UInt32} {decoded : Node} {last : σ}
      (ahead : here.onward.stand? nodes = some (.child index)) (listed : listing? nodes here.place index = some child)
      (unknown : child.node = none) (ascent : Ascent nodes here.place above) (clear : child.page ∉ above)
      (asked : Source.node child.page (nodes[here.place]?.map fun node => (here.place, node.kind)) source =
        (.ok decoded, last)) :
      Steps nodes source here none (adopted nodes here.place index decoded) last (here.onward.enter nodes.size)

variable {root : UInt32} {nodes later : Array Node} {frame : Frame} {frames outer : List Frame} {slot : Slot}
  {rest : List Slot}

theorem ofFrames_extends (levels : Levels nodes frames) (more : Extends nodes later) :
    ofFrames later frames = ofFrames nodes frames := by
  have same : frames.map (Frame.position later) = frames.map (Frame.position nodes) := by
    induction levels with
    | exhausted => rfl
    | root stands => simp only [List.map_cons, List.map_nil, Frame.position_extends stands more]
    | within stands _ _ _ _ ih =>
      rw [List.map_cons, ih, Frame.position_extends stands more]
      rfl
  rw [ofFrames, same, ofFrames]

theorem ofFrames_enter (left : frame.rest = slot :: rest) :
    ofFrames nodes (frame.enter slot rest :: outer) = (ofFrames nodes (frame :: outer)).onward := by
  simp only [ofFrames, onward, List.map_cons, List.modifyHead_cons, Frame.position_enter left]
  rfl

theorem ofFrames_before {place : Nat} {page : UInt32} :
    ofFrames nodes (.before nodes place page :: frames) = (ofFrames nodes frames).enter place := by
  simp only [ofFrames, enter, List.map_cons, Frame.position_before]
  rfl

/-- A frame is left the way that the parent of its node tells. -/
theorem ofFrames_left (levels : Levels nodes (frame :: outer)) (arena : Arena root nodes) :
    ofFrames nodes outer = (ofFrames nodes (frame :: outer)).climb nodes := by
  cases levels with
  | root stands first =>
    obtain ⟨node, found, _, top⟩ := arena.rooted
    simp [climb, ofFrames, first, found, top]
  | within stands _ listed noted _ =>
    obtain ⟨node, found, _, parent⟩ := arena.noted listed noted
    simp [climb, ofFrames, found, parent]

theorem descends (levels : Levels nodes (frame :: outer)) (arena : Arena root nodes)
    (ordered : AllNodes Node.Ordered nodes) :
    Descends nodes frame.node ((frame :: outer).map (Frame.position nodes)) := by
  generalize whole : frame :: outer = frames at levels
  induction levels generalizing frame outer with
  | exhausted => cases whole
  | root stands first =>
    cases whole
    obtain ⟨node, found, _, top⟩ := arena.rooted
    have within := stands.within (first ▸ found) (ordered _ _ found)
    exact first ▸ .root found top within
  | @within inner upper frames index child stands entered listed noted levels ih =>
    cases whole
    obtain ⟨node, found, _, parent⟩ := arena.noted listed noted
    obtain ⟨holder, _, holding, _⟩ := levels.stands
    rw [listing_of_getElem? holding] at listed
    have above := ih rfl
    rcases levels.stands.shown holding with ⟨none, _⟩ | ⟨position, slot, current, same, shown⟩
    · cases none.symm.trans entered
    · cases current.symm.trans entered
      simp only [List.map_cons, same] at above ⊢
      have stand := ((ordered _ _ holding).stand_child shown).1
      exact .under found parent (stands.within found (ordered _ _ found)) holding stand listed noted above

theorem holds (levels : Levels nodes frames) (arena : Arena root nodes)
    (ordered : AllNodes Node.Ordered nodes) :
    (ofFrames nodes frames).Holds nodes := by
  cases frames with
  | nil => exact .inl rfl
  | cons frame outer => exact .inr (descends levels arena ordered)

theorem stand_of_position {node : Node} {position : Nat} (found : nodes[frame.node]? = some node)
    (same : frame.position nodes = position) :
    (ofFrames nodes (frame :: outer)).stand? nodes = node.stand? position := by
  simp [ofFrames, stand?, same, found]

/-- The record of a cursor is told by its standpoint alone. -/
theorem record_ofFrames (levels : Levels nodes frames)
    (ordered : AllNodes Node.Ordered nodes) :
    (ofFrames nodes frames).record? nodes = recordOf? frames := by
  cases frames with
  | nil => rfl
  | cons frame outer =>
    obtain ⟨node, _, found, _⟩ := levels.stands
    apply Option.ext
    intro record
    rw [recordOf_eq_some_iff]
    rcases levels.stands.shown found with ⟨none, before⟩ | ⟨position, slot, current, same, shown⟩
    · have nowhere : (ofFrames nodes (frame :: outer)).stand? nodes = .none := by simp [ofFrames, stand?, before]
      simp [record?, nowhere, none]
    · rw [record?, stand_of_position found same, current]
      cases slot with
      | child index page => simp [((ordered _ _ found).stand_child shown).1]
      | record other =>
        obtain ⟨index, stand, listed⟩ := (ordered _ _ found).stand_record shown
        simp [stand, ofFrames, found, listed]

theorem stand_onward (levels : Levels nodes (frame :: outer)) {node : Node} (found : nodes[frame.node]? = some node) :
    (ofFrames nodes (frame :: outer)).onward.stand? nodes = node.stand? (frame.position nodes + 1).toNat := by
  obtain ⟨next, counted⟩ : ∃ next : Nat, frame.position nodes + 1 = next := by
    rcases levels.stands.shown found with ⟨_, before⟩ | ⟨position, _, _, same, _⟩
    · exact ⟨0, by omega⟩
    · exact ⟨position + 1, by omega⟩
  simp [ofFrames, onward, stand?, counted, found]

theorem stand_onward_child (levels : Levels nodes (frame :: outer)) {node : Node} (found : nodes[frame.node]? = some node)
    (ordered : node.Ordered) {index : Nat} {page : UInt32} (left : frame.rest = .child index page :: rest) :
    (ofFrames nodes (frame :: outer)).onward.stand? nodes = some (.child index) := by
  have ahead := levels.stands.ahead found
  rw [left, List.head?_cons] at ahead
  rw [stand_onward levels found, (ordered.stand_child ahead).1]

end Standpoint

open Standpoint

/-- The cursor of the frames takes the steps that places, positions and parents tell. -/
theorem Walk.Turned.steps {σ : Type} [Source σ] {root : UInt32} {walk next : Walk σ} {finding : Option Finding}
    (turned : walk.Turned finding next) (shaped : Shaped root walk.nodes walk.frames)
    (ordered : AllNodes Node.Ordered walk.nodes) :
    Steps walk.nodes walk.source (ofFrames walk.nodes walk.frames) finding next.nodes next.source
      (ofFrames next.nodes next.frames) := by
  obtain ⟨arena, levels⟩ := shaped
  cases turned with
  | left here left =>
    rw [here] at levels ⊢
    rw [ofFrames_left levels arena]
    refine .climbed (List.cons_ne_nil _ _) ?_
    obtain ⟨node, _, found, _⟩ := levels.stands
    have ahead := levels.stands.ahead found
    rw [left, List.head?_nil] at ahead
    rw [stand_onward levels found, (ordered _ _ found).stand_none ahead]
  | record here left =>
    rw [here] at levels ⊢
    simp only [ofFrames_enter left]
    refine .record ?_
    rw [← ofFrames_enter left, record_ofFrames (levels.onward left) ordered]
    rfl
  | refused here left visited =>
    rw [here] at levels ⊢
    simp only [ofFrames_enter left]
    obtain ⟨node, child, found, listed, rfl⟩ := levels.listed left
    have ahead := stand_onward_child levels found (ordered _ _ found) left
    have ascent := levels.ascent arena
    cases visited with
    | cyclic unknown cyclic =>
      rw [listed, Option.bind_some] at unknown
      exact .cyclic ahead listed unknown ascent cyclic
    | unreadable unknown clear asked =>
      rw [listed, Option.bind_some] at unknown
      exact .unreadable ahead listed unknown ascent clear asked
  | entered here left visited =>
    rw [here] at levels ⊢
    obtain ⟨node, child, found, listed, rfl⟩ := levels.listed left
    have ahead := stand_onward_child levels found (ordered _ _ found) left
    simp only [ofFrames_before]
    cases visited with
    | known same noted =>
      cases listed.symm.trans same
      rw [ofFrames_enter left]
      exact .known ahead listed noted
    | decoded unknown clear asked =>
      rw [listed, Option.bind_some] at unknown
      rw [ofFrames_extends (levels.onward left) (extends_adopted listed unknown), ofFrames_enter left]
      exact .decoded ahead listed unknown (levels.ascent arena) clear asked

end SqliteReader
