import SqliteReader.Proofs.CursorTurns
import SqliteReader.Proofs.KeySearch

/-! Seeks beside the walk from the start. A seek takes the same moves as that walk and stops
at the first record it asks for, so that it lands where the walk would come through and the
rest of the walk is still to come. This holds of every source, whatever it answers; over a
file that stays as it is there is but one walk, from whatever cursor it starts. -/

namespace SqliteReader

namespace Finding

theorem find_landed {asked : Record → Bool} {before : List Record} {record : Record} (rest : List Finding)
    (passed : ∀ earlier ∈ before, asked earlier = false) (wanted : asked record = true) :
    (leading (before.map .record ++ .record record :: rest)).find? asked = some record := by
  have skipped : before.find? asked = none := by
    rw [List.find?_eq_none]
    intro earlier member
    simp [passed earlier member]
  rw [leading_append, leading, List.find?_append, skipped, List.find?_cons_of_pos wanted, Option.none_or]

end Finding

variable {σ : Type} [Source σ]

namespace Tree

variable {tree after : Tree} {source last : σ} {walk : List Finding}

/-- What a look shows is the first of the walk, and what it leaves shows the rest. -/
theorem shows_look {shown : Option (Except Error (Option Record))} (looked : tree.look source = (shown, after, last)) :
    tree.Shows source walk ↔ shown = walk.head?.map Finding.seen ∧ after.Shows last walk.tail := by
  have split (count : Nat) : (tree.looks (count + 1) source).1 = shown :: (after.looks count last).1 := by
    simp only [looks, looked]
  have spread (count : Nat) : ((List.range (count + 1)).map fun place => walk[place]?.map Finding.seen) =
      walk.head?.map Finding.seen :: (List.range count).map fun place => walk.tail[place]?.map Finding.seen := by
    rw [List.range_succ_eq_map, List.map_cons, List.map_map, List.head?_eq_getElem?]
    simp [Function.comp_def]
  constructor
  · intro shows
    have each (count : Nat) := (split count).symm.trans ((shows (count + 1)).trans (spread count))
    exact ⟨(List.cons.inj (each 0)).1, fun count => (List.cons.inj (each count)).2⟩
  · rintro ⟨first, others⟩ count
    cases count with
    | zero => rfl
    | succ count => rw [split, spread, first, others count]

theorem shows_record {record : Record} (first : some (.ok (some record)) = walk.head?.map Finding.seen) :
    ∃ later, walk = .record record :: later := by
  rcases walk with _ | ⟨_ | reason, later⟩
  · cases first
  · cases first
    exact ⟨later, rfl⟩
  · cases first

/-- A look shows the next thing on the way, or nothing once the way is at its end. -/
theorem look_finds (clear : tree.failure = none) (source : σ) :
    ∃ finding after last, tree.look source = (Option.map Finding.seen finding, after, last) ∧ after.failure = none ∧
      match finding with
      | none => after.frames = []
      | some _ => Relation.TransGen Shrinks after.frames tree.frames := by
  obtain ⟨passed, finding, stopped, after, ends, _, left⟩ := search_ends clear (fun _ => true) source
  have moved := next_of_ends clear ends left
  cases finding with
  | none =>
    refine ⟨none, after.takeFailure.2, stopped.source, ?_, rfl, left.frames.trans ends.frames_exhausted⟩
    simp [look, moved, takeFailure, left.failure]
  | some finding =>
    have shrunk : Relation.TransGen Shrinks after.frames tree.frames := by
      rw [left.frames]
      exact Walk.shrinks_of_turns ends.turned tree.shaped
    cases finding with
    | record record =>
      refine ⟨some (.record record), after, stopped.source, ?_, left.failure, shrunk⟩
      simp [look, moved, Finding.record?, left.record record rfl, Finding.seen]
    | failure reason =>
      refine ⟨some (.failure reason), after.takeFailure.2, stopped.source, ?_, rfl, shrunk⟩
      simp [look, moved, Finding.record?, takeFailure, left.failure, Finding.failure?, Finding.seen]

theorem shows_exhausted (ended : tree.frames = []) (clear : tree.failure = none) (source : σ) :
    tree.Shows source [] := by
  intro count
  induction count generalizing tree source with
  | zero => rfl
  | succ count ih =>
    obtain ⟨finding, after, last, looked, cleared, rest⟩ := look_finds clear source
    cases finding with
    | none =>
      have others := ih rest cleared last
      simp only [looks, looked, others, List.range_succ_eq_map, List.map_cons, List.map_map]
      rfl
    | some finding =>
      -- Nothing is smaller than a way without frames.
      rw [ended] at rest
      obtain ⟨_, _, impossible⟩ := Relation.TransGen.tail'_iff.mp rest
      cases impossible

theorem exists_shows (clear : tree.failure = none) (source : σ) : ∃ walk, tree.Shows source walk := by
  induction tree using (InvImage.wf Tree.frames wellFounded_shrinks.transGen).induction generalizing source with
  | _ tree ih =>
    obtain ⟨finding, after, last, looked, cleared, rest⟩ := look_finds clear source
    cases finding with
    | none => exact ⟨[], (shows_look looked).mpr ⟨rfl, shows_exhausted rest cleared last⟩⟩
    | some finding =>
      obtain ⟨walk, shown⟩ := ih after rest cleared last
      exact ⟨finding :: walk, (shows_look looked).mpr ⟨rfl, shown⟩⟩

/-- The cursor is on the record that comes in a walk behind these others, and what follows
there is what it shows from now on. -/
def Landed (after : Tree) (last : σ) (walk : List Finding) (before : List Record) (record : Record) : Prop :=
  ∃ rest, walk = before.map .record ++ .record record :: rest ∧ after.record? = some record ∧ after.failure = none ∧
    after.Shows last rest

theorem next_clear (clear : tree.failure = none) (moved : tree.next source = (true, after, last)) :
    after.failure = none := by
  obtain ⟨passed, finding, stopped, other, ends, _, left⟩ := search_ends clear (fun _ => true) source
  obtain ⟨found, same⟩ := Prod.mk.inj ((next_of_ends clear ends left).symm.trans moved)
  obtain ⟨rfl, -⟩ := Prod.mk.inj same
  rw [left.failure]
  cases finding with
  | none => rfl
  | some finding =>
    cases finding with
    | record record => rfl
    | failure reason => cases found

/-- How a search comes out beside the walk. It stops at the first record asked for that the
walk shows before any failure, and else at its first failure or its end. -/
structure Sought (walk : List Finding) (asked : Record → Bool) (passed : List Record) (found : Bool) (after : Tree)
    (last : σ) : Prop where
  unasked : ∀ earlier ∈ passed, asked earlier = false
  stops : found = ((Finding.leading walk).find? asked).isSome
  landed : ∀ record, (Finding.leading walk).find? asked = some record → after.Landed last walk passed record
  failure : after.failure = if found then none else Finding.stopping? walk

theorem Seeks.sought {asked : Record → Bool} {passed : List Record} {found : Bool}
    (seeks : Seeks asked tree source passed found after last) (clear : tree.failure = none)
    (shown : tree.Shows source walk) : Sought walk asked passed found after last := by
  induction seeks generalizing walk with
  | @ended tree after source last moved =>
    have looked : tree.look source = (after.failure.map .error, after.takeFailure.2, last) := by
      simp only [look, moved, takeFailure]
    obtain ⟨first, _⟩ := (shows_look looked).mp shown
    have stopped : Finding.leading walk = [] ∧ after.failure = Finding.stopping? walk := by
      rcases walk with _ | ⟨_ | reason, rest⟩ <;> cases failed : after.failure <;>
        simp_all [Finding.seen, Finding.leading, Finding.stopping?]
    obtain ⟨none, failure⟩ := stopped
    refine ⟨fun _ impossible => (by cases impossible), by rw [none]; rfl, ?_, failure⟩
    rw [none]
    intro record impossible
    cases impossible
  | @found tree after source last record moved here wanted =>
    have looked : tree.look source = (some (.ok (some record)), after, last) := by simp only [look, moved, here]
    obtain ⟨first, rest⟩ := (shows_look looked).mp shown
    obtain ⟨later, rfl⟩ := shows_record first
    have stops : (Finding.leading (.record record :: later)).find? asked = some record := List.find?_cons_of_pos wanted
    refine ⟨fun _ impossible => (by cases impossible), by rw [stops]; rfl, ?_, next_clear clear moved⟩
    rw [stops]
    intro other same
    cases same
    exact ⟨later, rfl, here, next_clear clear moved, rest⟩
  | @passed tree middle after source between last record passed found moved here unwanted onward ih =>
    have looked : tree.look source = (some (.ok (some record)), middle, between) := by simp only [look, moved, here]
    obtain ⟨first, rest⟩ := (shows_look looked).mp shown
    obtain ⟨later, rfl⟩ := shows_record first
    have onward : (Finding.leading (.record record :: later)).find? asked = (Finding.leading later).find? asked :=
      List.find?_cons_of_neg (by simp [unwanted])
    obtain ⟨others, found, landed, failure⟩ := ih (next_clear clear moved) rest
    refine ⟨List.forall_mem_cons.mpr ⟨unwanted, others⟩, by rw [onward]; exact found, ?_, failure⟩
    rw [onward]
    intro target stops
    obtain ⟨behind, same, landed⟩ := landed target stops
    exact ⟨behind, congrArg (Finding.record record :: ·) same, landed⟩

/-- How a seek for a key comes out beside the walk: it finds the first record that is not
below the key, or else has met the failure that the walk meets first. -/
structure KeySought (walk : List Finding) (key : List Value) (found : Bool) (after : Tree) (last : σ) : Prop where
  reaches : found = true ↔ ∃ record ∈ Finding.leading walk, record.comparePrefix key ≠ .lt
  lands : found = true → ∃ before record, after.Landed last walk before record ∧
    (∀ earlier ∈ before, earlier.comparePrefix key = .lt) ∧ record.comparePrefix key ≠ .lt
  latched : found = false → after.failure = Finding.stopping? walk

/-- How a seek for a rowid comes out: it finds the record if only smaller rowids come before
it. A larger one ends the seek before any failure behind it. -/
structure RowidSought (walk : List Finding) (rowid : Int64) (found : Bool) (after : Tree) (last : σ) : Prop where
  reaches : found = true ↔ ∃ (before : List Record) (record : Record) (rest : List Finding),
    walk = before.map .record ++ .record record :: rest ∧ (∀ earlier ∈ before, earlier.rowid < rowid) ∧
      record.rowid = rowid
  ascending : ∀ records : List Record, walk = records.map .record →
    (records.Pairwise fun first second => first.rowid < second.rowid) →
      (found = true ↔ ∃ record ∈ records, record.rowid = rowid)
  lands : found = true → ∃ before record, after.Landed last walk before record ∧
    (∀ earlier ∈ before, earlier.rowid < rowid) ∧ record.rowid = rowid
  latched : found = false → after.failure =
    if (Finding.leading walk).any fun record => rowid < record.rowid then none else Finding.stopping? walk

theorem seekKey_sought (clear : tree.failure = none) (shown : tree.reset.Shows source walk) (key : List Value) :
    ∃ found after last, tree.seekKey key source = (found, after, last) ∧ KeySought walk key found after last := by
  obtain ⟨found, passed, after, last, ran, seeks⟩ :=
    tree.reset.search_seeks (fun record => record.comparePrefix key != .lt) source
  obtain ⟨below, stops, landed, failure⟩ := seeks.sought clear shown
  refine ⟨found, after, last, by rw [seekKey, ran], ?_, ?_, ?_⟩
  · simp [stops, List.find?_isSome]
  · rintro rfl
    obtain ⟨record, stopped⟩ := Option.isSome_iff_exists.mp stops.symm
    have reached := List.find?_some stopped
    exact ⟨passed, record, landed record stopped, by simpa using below, by simpa using reached⟩
  · rintro rfl
    exact failure

theorem seekRowid_sought (clear : tree.failure = none) (shown : tree.reset.Shows source walk) (rowid : Int64) :
    ∃ found after last, tree.seekRowid rowid source = (found, after, last) ∧ RowidSought walk rowid found after last := by
  obtain ⟨stopped, passed, after, last, ran, seeks⟩ :=
    tree.reset.search_seeks (fun record => rowid ≤ record.rowid) source
  obtain ⟨below, stops, landed, failure⟩ := seeks.sought clear shown
  have lower : ∀ earlier ∈ passed, earlier.rowid < rowid := by simpa using below
  -- The search stops at the first rowid that is not smaller, whether or not it is the one.
  have found : (stopped && after.record?.any (·.rowid == rowid)) =
      ((Finding.leading walk).find? fun record => rowid ≤ record.rowid).any (·.rowid == rowid) := by
    cases here : (Finding.leading walk).find? fun record => rowid ≤ record.rowid with
    | none => simp [stops, here]
    | some record =>
      obtain ⟨_, _, on, _⟩ := landed record here
      simp [stops, here, on]
  have lands (same : (stopped && after.record?.any (·.rowid == rowid)) = true) : ∃ before record,
      after.Landed last walk before record ∧ (∀ earlier ∈ before, earlier.rowid < rowid) ∧ record.rowid = rowid := by
    rw [found, Option.any_eq_true] at same
    obtain ⟨record, here, same⟩ := same
    exact ⟨passed, record, landed record here, lower, by simpa using same⟩
  refine ⟨_, after, last, by rw [seekRowid, ran], ⟨?_, ?_⟩, ?_, lands, ?_⟩
  · intro same
    obtain ⟨before, record, ⟨rest, split, _⟩, smaller, equal⟩ := lands same
    exact ⟨before, record, rest, split, smaller, equal⟩
  · rintro ⟨before, record, rest, rfl, smaller, equal⟩
    rw [found, Finding.find_landed rest (by simpa using smaller) (by simp [equal])]
    simp [equal]
  · rintro records rfl ascending
    rw [found, Finding.leading_records]
    have filtered : (records.find? fun record => rowid ≤ record.rowid).any (·.rowid == rowid) =
        (records.find? fun record => record.rowid = rowid).isSome := by
      rw [find_rowid ascending]
      cases records.find? fun record => rowid ≤ record.rowid with
      | none => rfl
      | some record => by_cases same : record.rowid = rowid <;> simp [same]
    simp [filtered, List.find?_isSome]
  · intro missed
    rw [failure, stops]
    cases here : (Finding.leading walk).find? fun record => rowid ≤ record.rowid with
    | none =>
      have smaller := List.find?_eq_none.mp here
      have none : ((Finding.leading walk).any fun record => rowid < record.rowid) = false := by
        rw [List.any_eq_false]
        intro record member larger
        have below := smaller record member
        simp only [decide_eq_true_eq] at below larger
        exact below (Int64.le_of_lt larger)
      rw [none]
      rfl
    | some record =>
      have reached := List.find?_some here
      have member := List.mem_of_find?_eq_some here
      have other : record.rowid ≠ rowid := by simpa [found, here] using missed
      have larger : rowid < record.rowid := Int64.lt_of_le_of_ne (by simpa using reached) other.symm
      have some : ((Finding.leading walk).any fun record => rowid < record.rowid) = true :=
        List.any_eq_true.mpr ⟨record, member, by simpa using larger⟩
      rw [some]
      rfl

structure SeeksAlong (tree : Tree) (source : σ) (walk : List Finding) : Prop where
  shows : tree.reset.Shows source walk
  keys : ∀ key found after last, tree.seekKey key source = (found, after, last) → KeySought walk key found after last
  rowids : ∀ rowid found after last, tree.seekRowid rowid source = (found, after, last) →
    RowidSought walk rowid found after last

theorem seeks_along (clear : tree.failure = none) (shown : tree.reset.Shows source walk) : tree.SeeksAlong source walk where
  shows := shown
  keys key found after last ran := by
    obtain ⟨_, _, _, same, sought⟩ := seekKey_sought clear shown key
    cases same.symm.trans ran
    exact sought
  rowids rowid found after last ran := by
    obtain ⟨_, _, _, same, sought⟩ := seekRowid_sought clear shown rowid
    cases same.symm.trans ran
    exact sought

/-- Whatever a cursor reads from and wherever it is, its seeks find what its walk from the
start finds, tell an end from a failure as the walk does, and leave to come what follows in
the walk. Over a file that stays as it is the walk is the same from wherever the cursor is
and over every pager, and so is what is left of it after a seek. -/
theorem seeks_follow_walk (σ : Type) [Source σ] (image : Image) (root : UInt32) :
    (∀ (tree : Tree) (source : σ), tree.failure = none → ∃ walk, tree.SeeksAlong source walk) ∧
    ∃ walk, ∀ tree : Tree, Reached image root tree → tree.failure = none →
      (∀ pager : Pager, pager.Serves image → tree.SeeksAlong pager walk) ∧
      ∀ (pager again : Pager) (rest : List Finding), pager.Serves image → again.Serves image →
        tree.Shows pager rest → tree.Shows again rest := by
  constructor
  · intro tree source clear
    have reset : tree.reset.failure = none := clear
    obtain ⟨walk, shown⟩ := exists_shows reset source
    exact ⟨walk, seeks_along clear shown⟩
  refine ⟨image.findings [] root none, ?_⟩
  intro tree reached clear
  obtain ⟨sound, rooted⟩ := reached.sound
  constructor
  · intro pager serves
    refine seeks_along clear ?_
    rw [← rooted, ← sound.upcoming_reset]
    exact sound.reset.shows clear serves
  · intro pager again rest serves others shown
    rw [shown.unique (sound.shows clear serves)]
    exact sound.shows clear others

theorem seeks_follow_walk_loop :
    ∃ tree : Tree, Reached Sample.file 2 tree ∧ tree.failure = none ∧ Sample.file.opened.Serves Sample.file ∧
      (tree.seekRowid 5 Sample.file.opened).1 = true ∧
      (tree.seekRowid 6 Sample.file.opened).2.1.failure = some (.corrupt (.treeCycle 2)) := by
  have serves := Pager.Serves.opened Sample.file
  obtain ⟨_, after, _, ran, answer, _⟩ := Pager.alike_image.openAt 2 _ _ serves
  have decoded : Source.node 2 none Sample.file = (.ok _, Sample.file) := congrArg (·, Sample.file) Sample.loop_node
  cases (openAt_of_ok decoded).symm.trans answer
  have reached := Reached.opened serves ran
  obtain ⟨walk, along⟩ := (seeks_follow_walk Pager Sample.file 2).2
  obtain ⟨shown, _, rowids⟩ := (along _ reached rfl).1 _ serves
  obtain rfl : walk = [.record Sample.row, .failure (.corrupt (.treeCycle 2))] := by
    obtain ⟨sound, rooted⟩ := reached.sound
    have coming := sound.upcoming_reset
    rw [rooted, Sample.findings_loop] at coming
    exact shown.unique (coming ▸ sound.reset.shows rfl serves)
  refine ⟨_, reached, rfl, serves, ?_, ?_⟩
  · exact (rowids 5 _ _ _ rfl).reaches.mpr ⟨[], Sample.row, _, rfl, by simp, rfl⟩
  · refine ((rowids 6 _ _ _ rfl).latched ?_).trans rfl
    by_contra found
    obtain ⟨before, record, rest, split, _, equal⟩ := (rowids 6 _ _ _ rfl).reaches.mp (by simpa using found)
    have member : record ∈ Finding.leading [.record Sample.row, .failure (.corrupt (.treeCycle 2))] := by
      rw [split, Finding.leading_append]
      simp [Finding.leading]
    obtain rfl : record = Sample.row := by simpa [Finding.leading] using member
    exact absurd equal (by decide)

end Tree
end SqliteReader
