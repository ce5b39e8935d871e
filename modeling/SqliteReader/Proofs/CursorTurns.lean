import SqliteReader.Machine
import SqliteReader.Proofs.WalkTurns
import SqliteReader.Schema

/-! What a cursor does, told by its turns. A search is the walk up to the first record that
is asked for, and moving on one record after the other takes the same turns. -/

namespace SqliteReader

variable {σ : Type} [Source σ]

namespace Tree

def walk (tree : Tree) (source : σ) : Walk σ := ⟨tree.frames, tree.nodes, source⟩

/-- The cursor of a tree that was left where a walk stopped. -/
structure Left {σ : Type} (root : UInt32) (last : Walk σ) (finding : Option Finding) (after : Tree) : Prop where
  root : after.root = root
  nodes : after.nodes = last.nodes
  frames : after.frames = last.frames
  failure : after.failure = finding.bind Finding.failure?
  record : ∀ record, finding = some (.record record) → after.record? = some record

/-- A search is a walk that comes to an end. -/
theorem search_ends {tree : Tree} (clear : tree.failure = none) (asked : Record → Bool) (source : σ) :
    ∃ passed finding last after, Walk.Ends asked (tree.walk source) passed finding last ∧
      tree.search asked source = ((finding.bind Finding.record?).isSome, passed.toArray, after, last.source) ∧
      Left tree.root last finding after := by
  obtain ⟨passed, ends, gathered⟩ := Walk.run_ends asked (tree.walk source) tree.shaped #[]
  simp only [search, clear, Option.isSome_none, Bool.false_eq_true, if_false]
  rw [Array.empty_append] at gathered
  refine ⟨passed, _, _, _, ends, Prod.ext rfl (Prod.ext gathered rfl), ⟨rfl, rfl, rfl, rfl, ?_⟩⟩
  intro record same
  rw [same] at ends
  exact ends.on_record.1

theorem Left.unique {σ : Type} {root : UInt32} {last : Walk σ} {finding : Option Finding} {after other : Tree}
    (first : Left root last finding after) (second : Left root last finding other) : after = other := by
  obtain ⟨_, _, _, _, _⟩ := after
  obtain ⟨_, _, _, _, _⟩ := other
  obtain ⟨rfl, rfl, rfl, rfl, _⟩ := first
  obtain ⟨rfl, rfl, rfl, rfl, _⟩ := second
  rfl

theorem next_of_ends {tree after : Tree} (clear : tree.failure = none) {source : σ} {passed : List Record}
    {finding : Option Finding} {last : Walk σ}
    (ends : Walk.Ends (fun _ => true) (tree.walk source) passed finding last) (left : Left tree.root last finding after) :
    tree.next source = ((finding.bind Finding.record?).isSome, after, last.source) := by
  obtain ⟨_, _, _, other, same, ran, stays⟩ := search_ends clear (fun _ => true) source
  obtain ⟨rfl, rfl, rfl⟩ := ends.unique same
  rw [next, ran, left.unique stays]

/-- Moving on again and again, up to the first record that is asked for or to the end. -/
inductive Seeks (asked : Record → Bool) : Tree → σ → List Record → Bool → Tree → σ → Prop
  | ended {tree after : Tree} {source last : σ} (moved : tree.next source = (false, after, last)) :
      Seeks asked tree source [] false after last
  | found {tree after : Tree} {source last : σ} {record : Record} (moved : tree.next source = (true, after, last))
      (here : after.record? = some record) (wanted : asked record = true) : Seeks asked tree source [] true after last
  | passed {tree middle after : Tree} {source between last : σ} {record : Record} {passed : List Record} {found : Bool}
      (moved : tree.next source = (true, middle, between)) (here : middle.record? = some record)
      (unwanted : asked record = false) (onward : Seeks asked middle between passed found after last) :
      Seeks asked tree source (record :: passed) found after last

theorem Seeks.congr {asked : Record → Bool} {tree other after : Tree} {source copy last : σ} {passed : List Record}
    {found : Bool} (seeks : Seeks asked tree source passed found after last) (same : other.next copy = tree.next source) :
    Seeks asked other copy passed found after last := by
  cases seeks with
  | ended moved => exact .ended (same.trans moved)
  | found moved here wanted => exact .found (same.trans moved) here wanted
  | passed moved here unwanted onward => exact .passed (same.trans moved) here unwanted onward

theorem seeks_of_ends {asked : Record → Bool} {walk last : Walk σ} {passed : List Record} {finding : Option Finding}
    (ends : Walk.Ends asked walk passed finding last) {tree after : Tree} {source : σ} (start : tree.walk source = walk)
    (clear : tree.failure = none) (left : Left tree.root last finding after) :
    Seeks asked tree source passed (finding.bind Finding.record?).isSome after last.source := by
  -- Between two moves a walk is that of a tree; a turn that comes upon nothing belongs to the
  -- move after it.
  induction ends generalizing tree source with
  | exhausted ran =>
    subst start
    exact .ended (next_of_ends clear (.exhausted ran) left)
  | failed ran =>
    subst start
    exact .ended (next_of_ends clear (.failed ran) left)
  | found ran wanted =>
    subst start
    exact .found (next_of_ends clear (.found ran rfl) left) (left.record _ rfl) wanted
  | @passed walk next last record passed finding ran unwanted rest ih =>
    subst start
    obtain ⟨_, _, _, middle, same, moved, stays⟩ := search_ends clear (fun _ => true) source
    obtain ⟨rfl, rfl, rfl⟩ := (Walk.Ends.found ran rfl).unique same
    have start : middle.walk next.source = next := by rw [Tree.walk, stays.frames, stays.nodes]
    refine .passed (next_of_ends clear (.found ran rfl) stays) (stays.record _ rfl) unwanted ?_
    exact ih start stays.failure (stays.root ▸ left)
  | @onward walk next last passed finding ran rest ih =>
    subst start
    let between : Tree :=
      { root := tree.root, nodes := next.nodes, frames := next.frames, shaped := (Walk.turned ran).shaped tree.shaped }
    have onward := @ih between next.source rfl rfl left
    obtain ⟨_, _, _, _, same, moved, stays⟩ := @search_ends σ _ between rfl (fun _ => true) next.source
    refine onward.congr ?_
    rw [next_of_ends clear (.onward ran same) stays, next_of_ends rfl same stays]

/-- A search is one move after the other. -/
theorem search_seeks (tree : Tree) (asked : Record → Bool) (source : σ) :
    ∃ found passed after last, tree.search asked source = (found, passed.toArray, after, last) ∧
      Seeks asked tree source passed found after last := by
  cases latched : tree.failure with
  | some reason =>
    refine ⟨false, [], tree, source, search_latched latched asked source, .ended ?_⟩
    rw [next, search_latched latched]
  | none =>
    obtain ⟨passed, finding, last, after, ends, ran, left⟩ := search_ends latched asked source
    exact ⟨_, passed, after, last.source, ran, seeks_of_ends ends rfl latched left⟩

theorem Seeks.unasked {tree after : Tree} {source last : σ} {passed : List Record} {found : Bool}
    (seeks : Seeks (fun _ => false) tree source passed found after last) : found = false := by
  induction seeks with
  | ended => rfl
  | found _ _ wanted => cases wanted
  | passed _ _ _ _ ih => exact ih

theorem next_found_shrinks {tree after : Tree} {source last : σ} (moved : tree.next source = (true, after, last)) :
    Relation.TransGen Shrinks after.frames tree.frames := by
  cases latched : tree.failure with
  | some reason =>
    rw [next, search_latched latched] at moved
    cases moved
  | none =>
    obtain ⟨passed, finding, ended, other, ends, ran, left⟩ := search_ends latched (fun _ => true) source
    rw [next, ran, Prod.mk.injEq, Prod.mk.injEq] at moved
    obtain ⟨found, rfl, -⟩ := moved
    cases finding with
    | none => cases found
    | some finding =>
      rw [left.frames]
      exact Walk.shrinks_of_turns ends.turned tree.shaped

theorem next_shrinks (tree : Tree) (source : σ) :
    Relation.ReflTransGen Shrinks (tree.next source).2.1.frames tree.frames := by
  cases latched : tree.failure with
  | some reason =>
    rw [next, search_latched latched]
  | none =>
    obtain ⟨passed, finding, last, after, ends, ran, left⟩ := search_ends latched (fun _ => true) source
    simp only [next, ran, left.frames]
    rcases Relation.reflTransGen_iff_eq_or_transGen.mp ends.turns with same | turns
    · rw [same]
      exact .refl
    · exact (Walk.shrinks_of_turns turns tree.shaped).to_reflTransGen

/-- One more move, over what the source has become by then. A failure may be taken before it. -/
def moveOn (coming : Bool × σ) (tree : Tree) : Bool × Tree :=
  let ready := if coming.1 then tree.takeFailure.2 else tree
  let (found, after, _) := ready.next coming.2
  (found, after)

def stands (coming : Nat → Bool × σ) (tree : Tree) : Nat → Tree
  | 0 => tree
  | count + 1 => (stands coming tree count |>.moveOn (coming count)).2

private theorem frames_ready (taking : Bool) (tree : Tree) :
    (if taking then tree.takeFailure.2 else tree).frames = tree.frames := by
  cases taking <;> rfl

theorem moveOn_shrinks (coming : Bool × σ) (tree : Tree) :
    Relation.ReflTransGen Shrinks (tree.moveOn coming).2.frames tree.frames := by
  have shrunk := next_shrinks (if coming.1 then tree.takeFailure.2 else tree) coming.2
  rwa [frames_ready] at shrunk

theorem moveOn_found_shrinks {coming : Bool × σ} {tree : Tree} (found : (tree.moveOn coming).1 = true) :
    Relation.TransGen Shrinks (tree.moveOn coming).2.frames tree.frames := by
  rcases moved : (if coming.1 then tree.takeFailure.2 else tree).next coming.2 with ⟨again, after, last⟩
  simp only [moveOn, moved] at found ⊢
  subst found
  have shrunk := next_found_shrinks moved
  rwa [frames_ready] at shrunk

theorem stands_add (coming : Nat → Bool × σ) (tree : Tree) (first count : Nat) :
    tree.stands coming (first + count) = (tree.stands coming first).stands (fun later => coming (first + later)) count := by
  induction count with
  | zero => rfl
  | succ count ih => rw [← Nat.add_assoc, stands, ih, stands]

theorem stands_shrinks (coming : Nat → Bool × σ) (tree : Tree) (count : Nat) :
    Relation.ReflTransGen Shrinks (tree.stands coming count).frames tree.frames := by
  induction count with
  | zero => exact .refl
  | succ count ih => exact (moveOn_shrinks _ _).trans ih

/-- From some move on there are no more records, whatever the source becomes between the
moves and however often failures are taken. -/
theorem finally_ended (coming : Nat → Bool × σ) (tree : Tree) :
    ∃ count, ∀ later, count ≤ later → ((tree.stands coming later).moveOn (coming later)).1 = false := by
  -- By what is left to walk, which shrinks with every record.
  induction tree using (InvImage.wf Tree.frames wellFounded_shrinks.transGen).induction generalizing coming with
  | _ tree ih =>
    by_cases more : ∃ later, ((tree.stands coming later).moveOn (coming later)).1 = true
    · obtain ⟨first, found⟩ := more
      have shrunk : Relation.TransGen Shrinks (tree.stands coming (first + 1)).frames tree.frames :=
        (moveOn_found_shrinks found).trans_left (stands_shrinks coming tree first)
      obtain ⟨count, ended⟩ := ih _ shrunk fun later => coming (first + 1 + later)
      refine ⟨first + 1 + count, ?_⟩
      intro later behind
      obtain ⟨beyond, rfl⟩ := Nat.exists_eq_add_of_le (Nat.le_of_add_right_le behind)
      rw [stands_add]
      exact ended beyond (by omega)
    · refine ⟨0, ?_⟩
      intro later _
      exact Bool.eq_false_iff.mpr fun found => more ⟨later, found⟩

end Tree

inductive Motion
  | rewind
  | next
  | seekKey (key : List Value)
  | seekRowid (rowid : Int64)

def Motion.act (tree : Tree) : Motion → σ → Bool × Tree × σ
  | .rewind => tree.reset.next
  | .next => tree.next
  | .seekKey key => tree.seekKey key
  | .seekRowid rowid => tree.seekRowid rowid

namespace Motion

/-- Where a motion begins to search. -/
def start (tree : Tree) : Motion → Tree
  | .next => tree
  | _ => tree.reset

def asks : Motion → Record → Bool
  | .rewind | .next => fun _ => true
  | .seekKey key => fun record => record.comparePrefix key != .lt
  | .seekRowid rowid => fun record => rowid ≤ record.rowid

/-- A larger rowid ends a search, but is not what was looked for. -/
def accepts : Motion → Record → Bool
  | .seekRowid rowid => (·.rowid == rowid)
  | _ => fun _ => true

variable {tree : Tree} (motion : Motion)

theorem act_latched {reason : Error} (latched : tree.failure = some reason) (source : σ) :
    motion.act tree source = (false, motion.start tree, source) := by
  have reset : tree.reset.failure = some reason := latched
  cases motion with
  | rewind => simp only [act, start, Tree.next, Tree.search_latched reset]
  | next => simp only [act, start, Tree.next, Tree.search_latched latched]
  | seekKey key => simp only [act, start, Tree.seekKey, Tree.search_latched reset]
  | seekRowid rowid => simp [act, start, Tree.seekRowid, Tree.search_latched reset]

theorem act_ends (clear : tree.failure = none) (source : σ) :
    ∃ passed finding last after, Walk.Ends motion.asks ((motion.start tree).walk source) passed finding last ∧
      motion.act tree source = ((finding.bind Finding.record?).any motion.accepts, after, last.source) ∧
      Tree.Left tree.root last finding after := by
  have began : (motion.start tree).failure = none ∧ (motion.start tree).root = tree.root := by
    cases motion <;> exact ⟨clear, rfl⟩
  obtain ⟨passed, finding, last, after, ends, ran, left⟩ := Tree.search_ends began.1 motion.asks source
  rw [began.2] at left
  refine ⟨passed, finding, last, after, ends, ?_, left⟩
  cases motion with
  | rewind | next | seekKey key =>
    simp only [asks, start] at ran
    simp only [act, Tree.next, Tree.seekKey, ran]
    cases finding.bind Finding.record? <;> rfl
  | seekRowid rowid =>
    simp only [asks, start] at ran
    simp only [act, Tree.seekRowid, ran, Prod.mk.injEq, and_true]
    cases finding with
    | none => rfl
    | some finding =>
      cases finding with
      | failure reason => rfl
      | record record => simp [Finding.record?, left.record record rfl, accepts]

/-- A motion that finds something leaves the cursor on a record, and no failure behind. -/
theorem act_found {after : Tree} {source last : σ} (ran : motion.act tree source = (true, after, last)) :
    ∃ record, after.record? = some record ∧ after.failure = none := by
  cases latched : tree.failure with
  | some reason => cases (motion.act_latched latched source).symm.trans ran
  | none =>
    obtain ⟨passed, finding, ended, other, _, acted, left⟩ := motion.act_ends latched source
    rw [acted, Prod.mk.injEq, Prod.mk.injEq] at ran
    obtain ⟨found, rfl, -⟩ := ran
    cases finding with
    | none => cases found
    | some finding =>
      cases finding with
      | failure reason => cases found
      | record record => exact ⟨record, left.record record rfl, left.failure⟩

end Motion

/-- Every record of a tree, one move after the other. -/
inductive Gathers (root : UInt32) (source : σ) : Except Error (Array Record) → σ → Prop
  | unopened {last : σ} {reason : Error} (refused : Tree.openAt root source = (.error reason, last)) :
      Gathers root source (.error reason) last
  | failed {tree after : Tree} {middle last : σ} {passed : List Record} {reason : Error}
      (opened : Tree.openAt root source = (.ok tree, middle)) (moves : tree.Seeks (fun _ => false) middle passed false after last)
      (latched : after.failure = some reason) : Gathers root source (.error reason) last
  | whole {tree after : Tree} {middle last : σ} {passed : List Record}
      (opened : Tree.openAt root source = (.ok tree, middle)) (moves : tree.Seeks (fun _ => false) middle passed false after last)
      (clear : after.failure = none) : Gathers root source (.ok passed.toArray) last

theorem readTree_gathers (root : UInt32) (source : σ) :
    ∃ outcome last, readTree root source = (outcome, last) ∧ Gathers root source outcome last := by
  rcases opened : Tree.openAt root source with ⟨_ | tree, middle⟩
  · exact ⟨_, _, by rw [readTree, opened], .unopened opened⟩
  · obtain ⟨found, passed, after, last, ran, moves⟩ := tree.search_seeks (fun _ => false) middle
    cases moves.unasked
    simp only [readTree, opened, Tree.rest, ran]
    cases latched : after.failure with
    | some reason => exact ⟨_, _, rfl, .failed opened moves latched⟩
    | none => exact ⟨_, _, rfl, .whole opened moves latched⟩

namespace Schema

theorem entries_gathers (source : σ) :
    ∃ outcome last, Gathers rootPage source outcome last ∧
      entries source = (outcome.map fun records => records.toList.map SchemaEntry.ofRecord, last) := by
  obtain ⟨outcome, last, ran, gathered⟩ := readTree_gathers rootPage source
  exact ⟨outcome, last, gathered, Using.bind_pure ran _⟩

theorem countRows_gathers (table : String) (source : σ) :
    ∃ outcome middle, Gathers rootPage source outcome middle ∧
      match outcome with
      | .error reason => countRows table source = (.error reason, middle)
      | .ok records =>
        match (records.toList.map SchemaEntry.ofRecord).find? fun entry => entry.isTable && entry.name == table with
        | none => countRows table source = (.ok none, middle)
        | some entry => ∃ counted last, Gathers entry.rootPage middle counted last ∧
            countRows table source = (counted.map fun records => some records.size, last) := by
  obtain ⟨outcome, middle, gathered, read⟩ := entries_gathers source
  refine ⟨outcome, middle, gathered, ?_⟩
  cases outcome with
  | error reason => exact Using.bind_of_error read
  | ok records =>
    have ran : countRows table source = _ := Using.bind_of_ok read
    dsimp only at ran ⊢
    cases found : (records.toList.map SchemaEntry.ofRecord).find? fun entry => entry.isTable && entry.name == table with
    | none =>
      rw [found] at ran
      exact ran
    | some entry =>
      rw [found] at ran
      obtain ⟨counted, last, walked, all⟩ := readTree_gathers entry.rootPage middle
      exact ⟨counted, last, all, ran.trans (Using.bind_pure walked _)⟩

end Schema
end SqliteReader
