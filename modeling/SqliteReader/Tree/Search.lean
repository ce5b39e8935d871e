import SqliteReader.Source
import SqliteReader.Tree.Path

/-! The walk over a tree in the order of its keys, from where a cursor is to the first
record that is asked for. A turn of it leaves a node without positions, enters a record, or
goes down to a child. Nodes are decoded when the walk first enters them and are found again
later. A page that is to be decoded must be none of those on the way; one that was decoded
is not looked at again. -/

namespace SqliteReader

inductive Finding
  | record (record : Record)
  | failure (reason : Error)
  deriving DecidableEq

namespace Finding

def record? : Finding → Option Record
  | .record found => some found
  | .failure _ => none

def failure? : Finding → Option Error
  | .record _ => none
  | .failure reason => some reason

end Finding

variable {σ : Type} [Source σ]

/-- Where the node of a child is kept. It is decoded unless it was before. -/
def visit (nodes : Array Node) (way : List UInt32) (holder index : Nat) (page : UInt32) : Using σ (Nat × Array Node) :=
  fun source =>
    match (listing? nodes holder index).bind Child.node with
    | some known => (.ok (known, nodes), source)
    | none =>
      if page ∈ way then (.error (.corrupt (.treeCycle page)), source)
      else
        match Source.node page (nodes[holder]?.map fun node => (holder, node.kind)) source with
        | (.error reason, source) => (.error reason, source)
        | (.ok decoded, source) => (.ok (nodes.size, adopted nodes holder index decoded), source)

section

variable {nodes : Array Node} {way : List UInt32} {holder index : Nat} {page : UInt32} {source last : σ}
  {outcome : Except Error (Nat × Array Node)}

inductive Visited (nodes : Array Node) (way : List UInt32) (holder index : Nat) (page : UInt32) (source : σ) :
    Except Error (Nat × Array Node) → σ → Prop
  | known {child : Child} {place : Nat} (listed : listing? nodes holder index = some child)
      (noted : child.node = some place) : Visited nodes way holder index page source (.ok (place, nodes)) source
  | cyclic (unknown : (listing? nodes holder index).bind Child.node = none) (cyclic : page ∈ way) :
      Visited nodes way holder index page source (.error (.corrupt (.treeCycle page))) source
  | unreadable {reason : Error} {last : σ} (unknown : (listing? nodes holder index).bind Child.node = none)
      (clear : page ∉ way)
      (asked : Source.node page (nodes[holder]?.map fun node => (holder, node.kind)) source = (.error reason, last)) :
      Visited nodes way holder index page source (.error reason) last
  | decoded {decoded : Node} {last : σ} (unknown : (listing? nodes holder index).bind Child.node = none)
      (clear : page ∉ way)
      (asked : Source.node page (nodes[holder]?.map fun node => (holder, node.kind)) source = (.ok decoded, last)) :
      Visited nodes way holder index page source (.ok (nodes.size, adopted nodes holder index decoded)) last

theorem visited (ran : visit nodes way holder index page source = (outcome, last)) :
    Visited nodes way holder index page source outcome last := by
  unfold visit at ran
  split at ran
  next place same =>
    obtain ⟨child, listed, noted⟩ := Option.bind_eq_some_iff.mp same
    cases ran
    exact .known listed noted
  next unknown =>
    split at ran
    next cyclic =>
      cases ran
      exact .cyclic unknown cyclic
    next clear =>
      split at ran
      next asked =>
        cases ran
        exact .unreadable unknown clear asked
      next asked =>
        cases ran
        exact .decoded unknown clear asked

end

/-- The nodes in memory and a way down through them. -/
structure Shaped (root : UInt32) (nodes : Array Node) (frames : List Frame) : Prop where
  arena : Arena root nodes
  levels : Levels nodes frames

structure Walk (σ : Type) where
  frames : List Frame
  nodes : Array Node
  source : σ

namespace Walk

/-- One turn, and what it comes upon. An exhausted walk has no turn left. -/
def turn (walk : Walk σ) : Option (Option Finding × Walk σ) :=
  match walk.frames with
  | [] => none
  | frame :: outer =>
    match frame.rest with
    | [] => some (none, { walk with frames := outer })
    | .record record :: rest =>
      some (some (.record record), { walk with frames := frame.enter (.record record) rest :: outer })
    | .child index page :: rest =>
      let frames := frame.enter (.child index page) rest :: outer
      match visit walk.nodes (pagesOf (frame :: outer)) frame.node index page walk.source with
      | (.error reason, source) => some (some (.failure reason), { walk with frames, source })
      | (.ok (place, nodes), source) => some (none, ⟨.before nodes place page :: frames, nodes, source⟩)

variable {walk next : Walk σ} {finding : Option Finding} {root : UInt32}

inductive Turned (walk : Walk σ) : Option Finding → Walk σ → Prop
  | left {frame : Frame} {outer : List Frame} (here : walk.frames = frame :: outer) (left : frame.rest = []) :
      Turned walk none { walk with frames := outer }
  | record {frame : Frame} {outer : List Frame} {record : Record} {rest : List Slot}
      (here : walk.frames = frame :: outer) (left : frame.rest = .record record :: rest) :
      Turned walk (some (.record record)) { walk with frames := frame.enter (.record record) rest :: outer }
  | refused {frame : Frame} {outer : List Frame} {index : Nat} {page : UInt32} {rest : List Slot} {reason : Error}
      {last : σ} (here : walk.frames = frame :: outer) (left : frame.rest = .child index page :: rest)
      (visited : Visited walk.nodes (pagesOf (frame :: outer)) frame.node index page walk.source (.error reason) last) :
      Turned walk (some (.failure reason))
        { walk with frames := frame.enter (.child index page) rest :: outer, source := last }
  | entered {frame : Frame} {outer : List Frame} {index place : Nat} {page : UInt32} {rest : List Slot}
      {nodes : Array Node} {last : σ} (here : walk.frames = frame :: outer)
      (left : frame.rest = .child index page :: rest)
      (visited : Visited walk.nodes (pagesOf (frame :: outer)) frame.node index page walk.source (.ok (place, nodes)) last) :
      Turned walk none ⟨.before nodes place page :: frame.enter (.child index page) rest :: outer, nodes, last⟩

theorem turned (turned : walk.turn = some (finding, next)) : walk.Turned finding next := by
  unfold turn at turned
  split at turned
  next => cases turned
  next frame outer here =>
    split at turned
    next left =>
      cases turned
      exact .left here left
    next left =>
      cases turned
      exact .record here left
    next left =>
      dsimp only at turned
      split at turned
      next visited =>
        cases turned
        exact .refused here left (SqliteReader.visited visited)
      next visited =>
        cases turned
        exact .entered here left (SqliteReader.visited visited)

theorem frames_of_exhausted (exhausted : walk.turn = none) : walk.frames = [] := by
  unfold turn at exhausted
  split at exhausted
  next here => exact here
  next =>
    split at exhausted
    · cases exhausted
    · cases exhausted
    · dsimp only at exhausted
      split at exhausted <;> cases exhausted

theorem Turned.shaped (turned : walk.Turned finding next) (shaped : Shaped root walk.nodes walk.frames) :
    Shaped root next.nodes next.frames := by
  obtain ⟨arena, levels⟩ := shaped
  cases turned with
  | left here left =>
    rw [here] at levels
    exact ⟨arena, levels.left⟩
  | record here left =>
    rw [here] at levels
    exact ⟨arena, levels.onward left⟩
  | refused here left =>
    rw [here] at levels
    exact ⟨arena, levels.onward left⟩
  | @entered frame outer index place page rest nodes last here left visited =>
    rw [here] at levels
    obtain ⟨node, child, found, listed, rfl⟩ := levels.listed left
    cases visited with
    | known same noted =>
      cases listed.symm.trans same
      exact ⟨arena, (levels.onward left).descend arena rfl listed noted rfl⟩
    | decoded unknown clear asked =>
      rw [listed, Option.bind_some] at unknown
      rw [found, Option.map_some] at asked
      have given := Source.given asked
      have apart : ∀ above, Ascent walk.nodes frame.node above → child.page ∉ above := by
        intro above ascent
        rwa [ascent.unique (levels.ascent arena)]
      have grown := arena.adopted listed unknown apart given
      refine ⟨grown, Levels.descend ?_ grown rfl (entry_adopted listed) rfl rfl⟩
      exact (levels.onward left).extends (extends_adopted listed unknown)

theorem Turned.shrinks (turned : walk.Turned finding next) (shaped : Shaped root walk.nodes walk.frames) :
    Shrinks next.frames walk.frames := by
  have fewer {frame : Frame} {slot : Slot} {rest : List Slot} (left : frame.rest = slot :: rest) :
      (frame.enter slot rest).rest.length < frame.rest.length := by
    rw [left]
    exact Nat.lt_succ_self _
  have later := turned.shaped shaped
  cases turned with
  | left here left => exact here ▸ .left
  | record here left => exact here ▸ .onward (fewer left)
  | refused here left => exact here ▸ .onward (fewer left)
  | entered here left =>
    have room := later.levels.length_le later.arena
    simp only [List.length_cons] at room
    exact here ▸ .below (fewer left) (by omega)

/-- Where a walk stops, with the records that it has passed. -/
structure Stop (σ : Type) (root : UInt32) where
  walk : Walk σ
  shaped : Shaped root walk.nodes walk.frames
  passed : Array Record
  finding : Option Finding

/-- Turns up to the first record that is asked for, a failure, or the end. -/
def run (asked : Record → Bool) (walk : Walk σ) (shaped : Shaped root walk.nodes walk.frames) (passed : Array Record) :
    Stop σ root :=
  match ran : walk.turn with
  | none => ⟨walk, shaped, passed, none⟩
  | some (none, next) => next.run asked ((turned ran).shaped shaped) passed
  | some (some (.failure reason), next) => ⟨next, (turned ran).shaped shaped, passed, some (.failure reason)⟩
  | some (some (.record record), next) =>
    if asked record then ⟨next, (turned ran).shaped shaped, passed, some (.record record)⟩
    else next.run asked ((turned ran).shaped shaped) (passed.push record)
termination_by wellFounded_shrinks.wrap walk.frames
decreasing_by
  · exact (turned ran).shrinks shaped
  · exact (turned ran).shrinks shaped

end Walk
end SqliteReader
