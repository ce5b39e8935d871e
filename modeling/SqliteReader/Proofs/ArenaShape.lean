import SqliteReader.Proofs.ChangingFile
import SqliteReader.Proofs.CursorTurns
import SqliteReader.Proofs.CursorWalk
import SqliteReader.Proofs.Standpoint

/-! The trees that a file may lead to, and what holds of their nodes and cursors however they
are used. What holds of nodes as they come from the source holds of all that are kept. -/

namespace SqliteReader

/-- What nodes that come from the source are, and stay when the place of a child is noted. -/
structure Source.Supplies (σ : Type) [Source σ] (good : Node → Prop) : Prop where
  decoded : ∀ (page : UInt32) (parent : Option (Nat × PageKind)) (source last : σ) (node : Node),
    Source.node page parent source = (.ok node, last) → good node
  linked : ∀ (node : Node) (index place : Nat), good node → good (node.link index place)

section

variable {σ : Type} [Source σ] {good : Node → Prop} (supplies : Source.Supplies σ good)
include supplies

theorem Walk.Turned.all {walk next : Walk σ} {finding : Option Finding} (turned : walk.Turned finding next)
    (all : AllNodes good walk.nodes) : AllNodes good next.nodes := by
  cases turned with
  | left | record | refused => exact all
  | entered here left visited =>
    cases visited with
    | known => exact all
    | decoded unknown clear asked =>
      intro place node found
      rcases adopted_cases found with ⟨_, rfl⟩ | ⟨before, earlier, rfl⟩
      · exact supplies.decoded _ _ _ _ _ asked
      · have kept := all place before earlier
        split
        · exact supplies.linked before _ _ kept
        · exact kept

theorem Walk.all_of_turns {walk next : Walk σ} (turns : Relation.ReflTransGen Walk.Turns walk next)
    (all : AllNodes good walk.nodes) : AllNodes good next.nodes := by
  induction turns with
  | refl => exact all
  | tail _ turn ih =>
    obtain ⟨_, ran⟩ := turn
    exact (Walk.turned ran).all supplies ih

end

namespace Tree

/-- The trees that a file may lead to, opened at a root and used in any way. What the cursor
reads from may be another thing each time. -/
inductive Arises (σ : Type) [Source σ] (root : UInt32) : Tree → Prop
  | opened {tree : Tree} {source last : σ} (ran : openAt root source = (.ok tree, last)) : Arises σ root tree
  | moved {tree after : Tree} {source last : σ} {found : Bool} (motion : Motion) (before : Arises σ root tree)
      (ran : motion.act tree source = (found, after, last)) : Arises σ root after
  | reset {tree : Tree} (before : Arises σ root tree) : Arises σ root tree.reset
  | taken {tree : Tree} (before : Arises σ root tree) : Arises σ root tree.takeFailure.2

variable {σ : Type} [Source σ] {root : UInt32} {tree after : Tree} {source last : σ}

theorem act_root {motion : Motion} {found : Bool} (ran : motion.act tree source = (found, after, last)) :
    after.root = tree.root := by
  cases latched : tree.failure with
  | some reason =>
    cases (motion.act_latched latched source).symm.trans ran
    cases motion <;> rfl
  | none =>
    obtain ⟨_, _, _, _, _, acted, left⟩ := motion.act_ends latched source
    cases acted.symm.trans ran
    exact left.root

theorem Arises.named (arises : tree.Arises σ root) : tree.root = root := by
  induction arises with
  | opened ran =>
    obtain ⟨_, _, _, rfl⟩ := of_openAt_ok ran
    rfl
  | moved motion _ ran ih => exact (act_root ran).trans ih
  | reset _ ih | taken _ ih => exact ih

theorem act_all {good : Node → Prop} (supplies : Source.Supplies σ good) {motion : Motion} {found : Bool}
    (all : AllNodes good tree.nodes) (ran : motion.act tree source = (found, after, last)) : AllNodes good after.nodes := by
  have start : AllNodes good (motion.start tree).nodes := by cases motion <;> exact all
  cases latched : tree.failure with
  | some reason =>
    cases (motion.act_latched latched source).symm.trans ran
    exact start
  | none =>
    obtain ⟨_, _, _, _, ends, acted, left⟩ := motion.act_ends latched source
    cases acted.symm.trans ran
    exact left.nodes ▸ Walk.all_of_turns supplies ends.turns start

theorem Arises.all {good : Node → Prop} (supplies : Source.Supplies σ good) (arises : tree.Arises σ root) :
    AllNodes good tree.nodes := by
  induction arises with
  | opened ran =>
    obtain ⟨node, asked, _, rfl⟩ := of_openAt_ok ran
    intro place other found
    obtain ⟨_, rfl⟩ := of_getElem?_root found
    exact supplies.decoded _ _ _ _ _ asked
  | moved motion _ ran ih => exact act_all supplies ih ran
  | reset _ ih | taken _ ih => exact ih

/-- The record under a cursor is one of the node that the cursor is on. -/
theorem record_of_frames {record : Record} (here : tree.record? = some record) :
    ∃ frame outer node, tree.frames = frame :: outer ∧ tree.nodes[frame.node]? = some node ∧ record ∈ node.records := by
  have levels := tree.shaped.levels
  rw [record?] at here
  cases way : tree.frames with
  | nil =>
    rw [way] at here
    cases here
  | cons frame outer =>
    rw [way] at here levels
    obtain ⟨node, passed, found, _, slots, _⟩ := levels.stands
    refine ⟨frame, outer, node, rfl, found, Node.record_of_mem_slots ?_⟩
    simp [slots, recordOf_eq_some_iff.mp here]

end Tree

theorem Source.supplies_balanced (σ : Type) [Source σ] [Source.Balances σ] : Source.Supplies σ Node.Balanced where
  decoded _ _ _ _ _ := Source.Balances.balanced
  linked node index place balanced := by
    intro interior
    simpa [Node.link] using balanced interior

instance : Source.Balances Disturbed where
  balanced := by
    intro page parent source last node ran
    obtain ⟨decoded, _⟩ := Prod.mk.inj ran
    exact Source.Balances.balanced (Prod.ext decoded rfl)

open Standpoint

/-- However a tree was used and whatever its file was at each time, on every turn of its
cursor the nodes have their shape and the way of the cursor leads down through them. Told by
places and positions, the cursor is at the root and in no position, or it descends from there
to where it is, and its turns are the rounds of the loop over them, so that nothing outside an
array is asked for. A motion that finds something leaves the cursor on a record. -/
theorem cursors_shaped {σ : Type} [Source σ] [Source.Balances σ] {root : UInt32} {tree : Tree}
    (arises : tree.Arises σ root) :
    (∀ (motion : Motion) (source : σ) (walk : Walk σ),
      Relation.ReflTransGen Walk.Turns ((motion.start tree).walk source) walk →
        Arena root walk.nodes ∧ AllNodes Node.Balanced walk.nodes ∧ AllNodes Node.Ordered walk.nodes ∧
        Levels walk.nodes walk.frames ∧ (ofFrames walk.nodes walk.frames).Holds walk.nodes ∧
        (ofFrames walk.nodes walk.frames).record? walk.nodes = recordOf? walk.frames ∧
        match walk.turn with
        | none => ofFrames walk.nodes walk.frames = { place := 0, positions := [] }
        | some (finding, next) => Steps walk.nodes walk.source (ofFrames walk.nodes walk.frames) finding next.nodes
            next.source (ofFrames next.nodes next.frames)) ∧
    ∀ (motion : Motion) (source last : σ) (after : Tree), motion.act tree source = (true, after, last) →
      ∃ frame outer node record, after.frames = frame :: outer ∧ after.nodes[frame.node]? = some node ∧
        after.record? = some record ∧ record ∈ node.records := by
  have supplies := Source.supplies_balanced σ
  constructor
  · intro motion source walk turns
    have every := arises.all supplies
    have start : (motion.start tree).root = root ∧ AllNodes Node.Balanced (motion.start tree).nodes := by
      cases motion <;> exact ⟨arises.named, every⟩
    have stays := Walk.shaped_of_turns turns (start.1 ▸ (motion.start tree).shaped)
    have balanced := Walk.all_of_turns supplies turns start.2
    have ordered : AllNodes Node.Ordered walk.nodes := fun place node found => (balanced place node found).ordered
    refine ⟨stays.arena, balanced, ordered, stays.levels, holds stays.levels stays.arena ordered,
      record_ofFrames stays.levels ordered, ?_⟩
    cases ran : walk.turn with
    | none => rw [Walk.frames_of_exhausted ran]; rfl
    | some turned => exact (Walk.turned ran).steps stays ordered
  · intro motion source last after ran
    obtain ⟨record, here, _⟩ := motion.act_found ran
    obtain ⟨frame, outer, node, way, found, member⟩ := Tree.record_of_frames here
    exact ⟨frame, outer, node, record, way, found, here, member⟩

/-- The page that lists itself, opened and moved on over pagers of their own. -/
theorem cursors_shaped_loop :
    ∃ tree after last, tree.Arises Pager 2 ∧ Motion.next.act tree Sample.file.opened = (true, after, last) ∧
      Arena 2 tree.nodes ∧ ∃ frame outer node record, after.frames = frame :: outer ∧
        after.nodes[frame.node]? = some node ∧ after.record? = some record ∧ record ∈ node.records := by
  have serves := Pager.Serves.opened Sample.file
  obtain ⟨outcome, middle, _, ran, answer, _⟩ := Pager.alike_image.openAt 2 _ _ serves
  cases outcome with
  | error reason =>
    have impossible := Sample.findings_loop.symm.trans (Tree.openAt_failed answer).1
    cases impossible
  | ok tree =>
    obtain ⟨sound, rooted, clear, start, _⟩ := Tree.openAt_sound answer
    have coming := sound.upcoming_reset
    rw [start, rooted, Sample.findings_loop] at coming
    obtain ⟨after, found, _⟩ := sound.next_found clear coming
    obtain ⟨_, _, last, _, moved, same, _⟩ := Pager.alike_image.next _ _ _ serves
    cases same.symm.trans (Machine.of_move_found found)
    have shape := cursors_shaped (.opened ran)
    have still := (shape.1 .next Sample.file.opened _ .refl).1
    exact ⟨tree, after, last, .opened ran, moved, still, shape.2 .next _ last after moved⟩

end SqliteReader
