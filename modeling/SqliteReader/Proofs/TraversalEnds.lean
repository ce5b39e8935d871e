import SqliteReader.Proofs.ArenaShape
import SqliteReader.Proofs.ProgramEnds

/-! Nothing that walks over trees goes on for ever, whatever a file says and however it
changes on the way: no motion of a cursor, no count or schema, no program for a statement.
A page is looked for on the way down only when it is to be decoded. That no way comes through
a page twice needs more: up from every node the pages differ, so that a child that is kept,
and is entered unasked, is not on the way either. -/

namespace SqliteReader

theorem Arena.exists_ascent {root : UInt32} {nodes : Array Node} (arena : Arena root nodes) {place : Nat} {node : Node}
    (found : nodes[place]? = some node) : ∃ pages, Ascent nodes place pages := by
  -- Parents are kept before their children.
  induction place using Nat.strongRecOn generalizing node with
  | _ place ih =>
    by_cases first : place = 0
    · subst first
      obtain ⟨top, there, _, none⟩ := arena.rooted
      exact ⟨_, .root there none⟩
    · obtain ⟨parent, index, child, earlier, known, listed, _⟩ := arena.parented _ _ found first
      obtain ⟨holder, holding, _⟩ := Option.bind_eq_some_iff.mp listed
      obtain ⟨above, ascent⟩ := ih parent earlier holding
      exact ⟨_, .under found known ascent⟩

/-- No page is above itself, be it by the parents of the nodes or on the way of a cursor. -/
structure Acyclic (root : UInt32) (nodes : Array Node) (frames : List Frame) : Prop where
  arena : Arena root nodes
  above : ∀ (place : Nat) (node : Node), nodes[place]? = some node → ∃ pages, Ascent nodes place pages
  apart : ∀ (place : Nat) (pages : List UInt32), Ascent nodes place pages → pages.Nodup
  kept : ∀ (holder index place : Nat) (child : Child) (pages : List UInt32), listing? nodes holder index = some child →
    child.node = some place → Ascent nodes holder pages → child.page ∉ pages
  climbs : ∀ (frame : Frame) (outer : List Frame), frames = frame :: outer → Ascent nodes frame.node (pagesOf frames)
  distinct : (pagesOf frames).Nodup

theorem Shaped.acyclic {root : UInt32} {nodes : Array Node} {frames : List Frame} (shaped : Shaped root nodes frames) :
    Acyclic root nodes frames where
  arena := shaped.arena
  above _ _ := shaped.arena.exists_ascent
  apart := shaped.arena.apart
  kept _ _ _ _ _ listed noted := shaped.arena.not_above listed noted
  climbs frame outer way := by
    subst way
    exact shaped.levels.ascent shaped.arena
  distinct := shaped.levels.distinct shaped.arena

variable {σ : Type} [Source σ]

/-- On every source, which may answer whatever it likes and otherwise the next time, all
walks come to an end. A motion is a finite number of turns; however a tree was used, on every
turn of its cursor no page is above itself; a cursor that is moved on again and again is at its end from some move on,
whatever its source becomes between the moves and however often its failures are taken; and
schema, counts of rows, scans and lookups by key are through after finitely many moves and
instructions. -/
theorem traversals_end (columns : List String) (fits : columns.length + 8 < 0x8000000000000000) (source : σ) :
    (∀ (tree : Tree) (motion : Motion),
      match tree.failure with
      | some _ => motion.act tree source = (false, motion.start tree, source)
      | none => ∃ passed finding last after,
          Walk.Ends motion.asks ((motion.start tree).walk source) passed finding last ∧
          motion.act tree source = ((finding.bind Finding.record?).any motion.accepts, after, last.source) ∧
          Tree.Left tree.root last finding after) ∧
    (∀ (root : UInt32) (tree : Tree), tree.Arises σ root → ∀ (motion : Motion) (walk : Walk σ),
      Relation.ReflTransGen Walk.Turns ((motion.start tree).walk source) walk → Acyclic root walk.nodes walk.frames) ∧
    (∀ (tree : Tree) (coming : Nat → Bool × σ),
      ∃ count, ∀ later, count ≤ later → ((tree.stands coming later).moveOn (coming later)).1 = false) ∧
    (∃ outcome last, Gathers Schema.rootPage source outcome last ∧
      Schema.entries source = (outcome.map fun records => records.toList.map SchemaEntry.ofRecord, last)) ∧
    (∀ table, ∃ outcome middle, Gathers Schema.rootPage source outcome middle ∧
      match outcome with
      | .error reason => Schema.countRows table source = (.error reason, middle)
      | .ok records =>
        match (records.toList.map SchemaEntry.ofRecord).find? fun entry => entry.isTable && entry.name == table with
        | none => Schema.countRows table source = (.ok none, middle)
        | some entry => ∃ counted last, Gathers entry.rootPage middle counted last ∧
            Schema.countRows table source = (counted.map fun records => some records.size, last)) ∧
    (∀ root cookie, ∃ rows ending last, Runs { program := Catalog.scan root cookie columns } source rows ending last) ∧
    ∀ table index cookie key,
      ∃ rows ending last, Runs { program := Catalog.lookup table index cookie key } source rows ending last := by
  refine ⟨?_, ?_, ?_, Schema.entries_gathers source, fun table => Schema.countRows_gathers table source, ?_, ?_⟩
  · intro tree motion
    cases latched : tree.failure with
    | some reason => exact motion.act_latched latched source
    | none => exact motion.act_ends latched source
  · intro root tree arises motion walk turns
    have start : (motion.start tree).root = root := by cases motion <;> exact arises.named
    exact (Walk.shaped_of_turns turns (start ▸ (motion.start tree).shaped)).acyclic
  · intro tree coming
    exact tree.finally_ended coming
  · intro root cookie
    exact (Catalog.scan_descends fits).runs source
  · intro table index cookie key
    exact Catalog.lookup_descends.runs source

/-- A scan of a page that lists itself, while another process keeps cutting the file off and
making it longer. -/
theorem traversals_end_loop :
    ["key"].length + 8 < 0x8000000000000000 ∧
      ∃ rows ending last, Runs { program := Catalog.scan 2 7 ["key"] }
        (⟨Sample.file.opened, fun asked => [.resize (512 * (asked % 4))], 0⟩ : Disturbed) rows ending last := by
  have fits : ["key"].length + 8 < 0x8000000000000000 := by decide
  exact ⟨fits, (traversals_end ["key"] fits _).2.2.2.2.2.1 2 7⟩

end SqliteReader
