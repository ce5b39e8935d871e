import SqliteReader.Proofs.PageLayout
import SqliteReader.Proofs.WalkFindings

/-! The walk of a cursor, step by step. Whatever was done with a cursor before, from the
start of its tree on it shows what there is to find there, in order, and then the end. -/

namespace SqliteReader

namespace Tree

/-- The nodes that a cursor over an image keeps are those of the image. -/
def Sound (image : Image) (tree : Tree) : Prop := Faithful image tree.nodes

def upcoming (image : Image) (tree : Tree) : List Finding := pending image tree.nodes tree.frames

variable {image : Image} {tree : Tree}

theorem Sound.reset (sound : tree.Sound image) : tree.reset.Sound image := sound

theorem Sound.upcoming_reset (sound : tree.Sound image) :
    tree.reset.upcoming image = image.findings [] tree.root none := by
  obtain ⟨node, found, shown⟩ := Faithful.rooted sound tree.shaped.arena
  have whole : pending image tree.nodes (startFrames tree.root tree.nodes) = _ :=
    pending_before found shown List.not_mem_nil
  exact whole.trans (List.append_nil _)

theorem openAt_sound {root : UInt32} {after : Image} (opened : Tree.openAt root image = (.ok tree, after)) :
    tree.Sound image ∧ tree.root = root ∧ tree.failure = none ∧ tree.reset = tree ∧ after = image := by
  obtain ⟨node, asked, arena, rfl⟩ := of_openAt_ok opened
  obtain ⟨decoded, same⟩ := Prod.mk.inj asked
  exact ⟨faithful_root decoded, rfl, rfl, rfl, same.symm⟩

theorem openAt_failed {root : UInt32} {reason : Error} {after : Image}
    (refused : Tree.openAt root image = (.error reason, after)) :
    image.findings [] root none = [.failure reason] ∧ after = image := by
  rw [Image.findings, dif_neg List.not_mem_nil, Option.map_none]
  cases decoded : image.node root none with
  | error other =>
    cases (openAt_of_error (Prod.ext decoded rfl : Source.node root none image = (.error other, image))).symm.trans refused
    exact ⟨rfl, rfl⟩
  | ok node =>
    cases (openAt_of_ok (Prod.ext decoded rfl : Source.node root none image = (.ok node, image))).symm.trans refused

theorem openAt_of_records {root : UInt32} {records : List Record}
    (walk : image.findings [] root none = records.map .record) :
    root ≠ 0 ∧ ∃ tree, Tree.openAt root image = (.ok tree, image) ∧ tree.Sound image ∧ tree.root = root ∧
      tree.failure = none := by
  have whole : ∀ reason, image.findings [] root none ≠ [.failure reason] := by
    intro reason failed
    rw [walk] at failed
    obtain ⟨_, _, _, impossible, _⟩ := List.map_eq_cons_iff.mp failed
    cases impossible
  rcases opened : Tree.openAt root image with ⟨outcome, after⟩
  cases outcome with
  | error reason => exact absurd (openAt_failed opened).1 (whole reason)
  | ok tree =>
    obtain ⟨sound, same, clear, _, rfl⟩ := openAt_sound opened
    refine ⟨?_, tree, rfl, sound, same, clear⟩
    rintro rfl
    apply whole (.invalidPageNumber 0)
    rw [Image.findings, dif_neg List.not_mem_nil]
    rfl

/-- How a search ends, and what it leaves to come. -/
inductive Stops (image : Image) (asked : Record → Bool) (tree : Tree) (passed : List Record) : Bool → Tree → Prop
  | found {after : Tree} (record : Record) (here : after.record? = some record) (wanted : asked record = true)
      (clear : after.failure = none)
      (rest : tree.upcoming image = passed.map .record ++ .record record :: after.upcoming image) :
      Stops image asked tree passed true after
  | failed {after : Tree} (reason : Error) (latched : after.failure = some reason)
      (rest : tree.upcoming image = passed.map .record ++ .failure reason :: after.upcoming image) :
      Stops image asked tree passed false after
  | ended {after : Tree} (clear : after.failure = none) (emptied : after.frames = [])
      (rest : tree.upcoming image = passed.map .record) : Stops image asked tree passed false after

theorem search_stops (sound : tree.Sound image) (clear : tree.failure = none) (asked : Record → Bool) :
    ∃ found passed after, tree.search asked image = (found, passed.toArray, after, image) ∧ after.Sound image ∧
      after.root = tree.root ∧ (∀ record ∈ passed, asked record = false) ∧
      Stops image asked tree passed found after := by
  obtain ⟨passed, finding, last, after, ends, ran, left⟩ := search_ends clear asked image
  obtain ⟨source, faithful, unasked, rest⟩ := ends.accounts tree.shaped rfl sound
  rw [← left.nodes] at faithful
  rw [← left.nodes, ← left.frames] at rest
  rw [source] at ran
  refine ⟨_, passed, after, ran, faithful, left.root, unasked, ?_⟩
  have failure := left.failure
  cases finding with
  | none =>
    have emptied : after.frames = [] := left.frames.trans ends.frames_exhausted
    refine .ended failure emptied (rest.trans ?_)
    simp [emptied, pending]
  | some finding =>
    rw [List.append_assoc] at rest
    cases finding with
    | record record => exact .found record (left.record record rfl) ends.on_record.2 failure rest
    | failure reason => exact .failed reason failure rest

/-- Whatever a pager over the image is searched for, the cursor stays sound and the pager
goes on serving. -/
theorem Sound.search (sound : tree.Sound image) {pager : Pager} (serves : pager.Serves image) (asked : Record → Bool) :
    ∃ found passed after last, tree.search asked pager = (found, passed, after, last) ∧
      tree.search asked image = (found, passed, after, image) ∧ after.Sound image ∧ after.root = tree.root ∧
      last.Serves image := by
  obtain ⟨found, passed, after, last, copy, ran, same, kept⟩ := Pager.alike_image.search tree asked serves
  cases latched : tree.failure with
  | some reason =>
    cases (search_latched latched asked image).symm.trans same
    exact ⟨_, _, _, last, ran, search_latched latched asked image, sound, rfl, kept⟩
  | none =>
    obtain ⟨_, _, _, answer, stays, root, _⟩ := search_stops sound latched asked
    cases answer.symm.trans same
    exact ⟨_, _, _, last, ran, answer, stays, root, kept⟩

/-- What can become of a cursor over a file that nobody changes or locks. Each of its
motions may use a pager that has served other cursors meanwhile. -/
inductive Reached (image : Image) (root : UInt32) : Tree → Prop
  | opened {tree : Tree} {pager after : Pager} (serves : pager.Serves image)
      (ran : Tree.openAt root pager = (.ok tree, after)) : Reached image root tree
  | next {tree : Tree} {pager : Pager} (before : Reached image root tree) (serves : pager.Serves image) :
      Reached image root (tree.next pager).2.1
  | seekKey {tree : Tree} {pager : Pager} (before : Reached image root tree) (key : List Value)
      (serves : pager.Serves image) : Reached image root (tree.seekKey key pager).2.1
  | seekRowid {tree : Tree} {pager : Pager} (before : Reached image root tree) (rowid : Int64)
      (serves : pager.Serves image) : Reached image root (tree.seekRowid rowid pager).2.1
  | reset {tree : Tree} (before : Reached image root tree) : Reached image root tree.reset
  | taken {tree : Tree} (before : Reached image root tree) : Reached image root tree.takeFailure.2

theorem Reached.sound {root : UInt32} (reached : Reached image root tree) : tree.Sound image ∧ tree.root = root := by
  induction reached with
  | opened serves ran =>
    obtain ⟨_, _, last, same, answer, kept⟩ := Pager.alike_image.openAt _ _ image serves
    cases same.symm.trans ran
    obtain ⟨sound, root, _⟩ := openAt_sound answer
    exact ⟨sound, root⟩
  | next before serves ih =>
    obtain ⟨_, _, after, _, ran, _, sound, root, _⟩ := ih.1.search serves fun _ => true
    rw [Tree.next, ran]
    exact ⟨sound, root.trans ih.2⟩
  | seekKey before key serves ih =>
    obtain ⟨_, _, after, _, ran, _, sound, root, _⟩ :=
      ih.1.reset.search serves fun record => record.comparePrefix key != .lt
    rw [Tree.seekKey, ran]
    exact ⟨sound, root.trans ih.2⟩
  | seekRowid before rowid serves ih =>
    obtain ⟨_, _, after, _, ran, _, sound, root, _⟩ := ih.1.reset.search serves fun record => rowid ≤ record.rowid
    rw [Tree.seekRowid, ran]
    exact ⟨sound, root.trans ih.2⟩
  | reset before ih => exact ⟨ih.1.reset, ih.2⟩
  | taken before ih => exact ih

/-- Moves on and tells what is there: the record that the cursor is on then, the failure
that stopped it, which is taken, or nothing at all. -/
def look {σ : Type} [Source σ] (tree : Tree) (source : σ) : Option (Except Error (Option Record)) × Tree × σ :=
  match tree.next source with
  | (true, tree, source) => (some (.ok tree.record?), tree, source)
  | (false, tree, source) => (tree.takeFailure.1.map .error, tree.takeFailure.2, source)

def looks {σ : Type} [Source σ] : Nat → Tree → σ → List (Option (Except Error (Option Record))) × Tree × σ
  | 0, tree, source => ([], tree, source)
  | count + 1, tree, source =>
    let (shown, tree, source) := tree.look source
    let (others, tree, source) := looks count tree source
    (shown :: others, tree, source)

theorem next_stops (sound : tree.Sound image) (clear : tree.failure = none) :
    ∃ found after, tree.search (fun _ => true) image = (found, #[], after, image) ∧ after.Sound image ∧
      Stops image (fun _ => true) tree [] found after := by
  obtain ⟨found, passed, after, ran, stays, _, unasked, stops⟩ := search_stops sound clear fun _ => true
  have none : passed = [] := by
    apply List.eq_nil_iff_forall_not_mem.mpr
    intro record member
    cases unasked record member
  subst none
  exact ⟨found, after, ran, stays, stops⟩

/-- A move over a pager comes out as over the file. -/
theorem Sound.moves (sound : tree.Sound image) (clear : tree.failure = none) {pager : Pager} (serves : pager.Serves image) :
    ∃ found after last, tree.next pager = (found, after, last) ∧ after.Sound image ∧ last.Serves image ∧
      Stops image (fun _ => true) tree [] found after := by
  obtain ⟨found, _, after, last, ran, same, _, _, kept⟩ := sound.search serves fun _ => true
  obtain ⟨_, _, answer, stays, stops⟩ := next_stops sound clear
  cases same.symm.trans answer
  exact ⟨found, after, last, by rw [Tree.next, ran], stays, kept, stops⟩

theorem Sound.next_found (sound : tree.Sound image) (clear : tree.failure = none) {record : Record}
    {later : List Finding} (coming : tree.upcoming image = .record record :: later) :
    ∃ after, Machine.move tree.next image = (.ok (true, after), image) ∧ after.Sound image ∧ after.failure = none ∧
      after.record? = some record ∧ after.upcoming image = later := by
  obtain ⟨found, after, ran, stays, stops⟩ := next_stops sound clear
  cases stops with
  | found other here _ still rest =>
    obtain ⟨same, rfl⟩ := List.cons.inj (coming.symm.trans rest)
    cases same
    exact ⟨after, Machine.move_found (by rw [Tree.next, ran]), stays, still, here, rfl⟩
  | failed reason latched rest => cases coming.symm.trans rest
  | ended still emptied rest => cases coming.symm.trans rest

theorem Sound.next_failed (sound : tree.Sound image) (clear : tree.failure = none) {reason : Error}
    {later : List Finding} (coming : tree.upcoming image = .failure reason :: later) :
    Machine.move tree.next image = (.error reason, image) := by
  obtain ⟨found, after, ran, stays, stops⟩ := next_stops sound clear
  cases stops with
  | found other here _ still rest => cases coming.symm.trans rest
  | failed other latched rest =>
    cases coming.symm.trans rest
    exact Machine.move_failed (by rw [Tree.next, ran]) latched
  | ended still emptied rest => cases coming.symm.trans rest

theorem Sound.next_ended (sound : tree.Sound image) (clear : tree.failure = none) (coming : tree.upcoming image = []) :
    ∃ after, Machine.move tree.next image = (.ok (false, after), image) := by
  obtain ⟨found, after, ran, stays, stops⟩ := next_stops sound clear
  cases stops with
  | found other here _ still rest => cases coming.symm.trans rest
  | failed other latched rest => cases coming.symm.trans rest
  | ended still emptied rest => exact ⟨after, Machine.move_ended (by rw [Tree.next, ran]) still⟩

theorem look_shows (sound : tree.Sound image) (clear : tree.failure = none) {pager : Pager}
    (serves : pager.Serves image) :
    ∃ after last, tree.look pager = ((tree.upcoming image).head?.map Finding.seen, after, last) ∧ after.Sound image ∧
      after.failure = none ∧ after.upcoming image = (tree.upcoming image).tail ∧ last.Serves image := by
  obtain ⟨found, after, last, moved, stays, kept, stops⟩ := sound.moves clear serves
  cases stops with
  | found record here _ still rest =>
    refine ⟨after, last, ?_, stays, still, by rw [rest]; rfl, kept⟩
    rw [rest, look, moved]
    simp [here, Finding.seen]
  | failed reason latched rest =>
    refine ⟨after.takeFailure.2, last, ?_, stays, rfl, by rw [rest]; rfl, kept⟩
    rw [rest, look, moved]
    simp [takeFailure, latched, Finding.seen]
  | ended still emptied rest =>
    refine ⟨after.takeFailure.2, last, ?_, stays, rfl, ?_, kept⟩
    · rw [rest, look, moved]
      simp [takeFailure, still]
    · rw [rest, upcoming, takeFailure]
      simp [emptied, pending]

theorem looks_show (sound : tree.Sound image) (clear : tree.failure = none) {pager : Pager}
    (serves : pager.Serves image) (count : Nat) :
    ∃ after last, tree.looks count pager =
        ((List.range count).map fun place => (tree.upcoming image)[place]?.map Finding.seen, after, last) ∧
      last.Serves image := by
  induction count generalizing tree pager with
  | zero => exact ⟨tree, pager, rfl, serves⟩
  | succ count ih =>
    obtain ⟨middle, between, shown, sound, clear, rest, serves⟩ := look_shows sound clear serves
    obtain ⟨after, last, others, kept⟩ := ih sound clear serves
    refine ⟨after, last, ?_, kept⟩
    simp only [looks, shown, others, rest, List.range_succ_eq_map, List.map_cons, List.map_map, List.head?_eq_getElem?]
    simp [Function.comp_def]

/-- Moved on again and again a cursor shows these findings and then nothing more. -/
def Shows {σ : Type} [Source σ] (tree : Tree) (source : σ) (walk : List Finding) : Prop :=
  ∀ count, (tree.looks count source).1 = (List.range count).map fun place => walk[place]?.map Finding.seen

theorem Sound.shows (sound : tree.Sound image) (clear : tree.failure = none) {pager : Pager}
    (serves : pager.Serves image) : tree.Shows pager (tree.upcoming image) := by
  intro count
  obtain ⟨_, _, shown, _⟩ := looks_show sound clear serves count
  rw [shown]

theorem shows_opened {root : UInt32} {pager : Pager} {copy : Image} (opened : openAt root image = (.ok tree, copy))
    (serves : pager.Serves copy) : tree.Shows pager (image.findings [] root none) := by
  obtain ⟨sound, rfl, clear, start, rfl⟩ := openAt_sound opened
  have shown := sound.shows clear serves
  rw [← sound.upcoming_reset, start]
  exact shown

theorem Shows.unique {σ : Type} [Source σ] {source : σ} {walk other : List Finding} (shown : tree.Shows source walk)
    (again : tree.Shows source other) : walk = other := by
  have seen_inj : ∀ first second : Finding, first.seen = second.seen → first = second := by
    intro first second same
    cases first <;> cases second <;> cases same <;> rfl
  apply List.ext_getElem?
  intro place
  have same := congrArg (·[place]?) ((shown (place + 1)).symm.trans (again (place + 1)))
  simp only [List.getElem?_map, List.getElem?_range (Nat.lt_succ_self place), Option.map_some, Option.some.injEq] at same
  exact Option.map_injective seen_inj same

def Walks (pager : Pager) (root : UInt32) (records : List Record) : Prop :=
  ∃ tree opened, openAt root pager = (.ok tree, opened) ∧ tree.Shows opened (records.map .record)

theorem Walks.findings {pager : Pager} {root : UInt32} {records : List Record} (walks : Walks pager root records)
    (serves : pager.Serves image) : image.findings [] root none = records.map .record := by
  obtain ⟨tree, opened, ran, shown⟩ := walks
  obtain ⟨_, _, _, same, answer, kept⟩ := Pager.alike_image.openAt root pager image serves
  cases same.symm.trans ran
  exact (shows_opened answer kept).unique shown

theorem walks_of_findings {pager : Pager} {root : UInt32} {records : List Record} (serves : pager.Serves image)
    (found : image.findings [] root none = records.map .record) : Walks pager root records := by
  obtain ⟨_, tree, opened, _⟩ := openAt_of_records found
  obtain ⟨_, after, _, ran, answer, kept⟩ := Pager.alike_image.openAt root pager image serves
  cases opened.symm.trans answer
  exact ⟨tree, after, ran, found ▸ shows_opened opened kept⟩

/-- Whatever a cursor has been through, from the start on it shows exactly what there is to
find in its tree, in order, and then nothing more. -/
theorem reset_looks {root : UInt32} {pager : Pager} (reached : Reached image root tree) (clear : tree.failure = none)
    (serves : pager.Serves image) (count : Nat) :
    ∃ after last, tree.reset.looks count pager =
        ((List.range count).map fun place => (image.findings [] root none)[place]?.map Finding.seen, after, last) ∧
      last.Serves image := by
  obtain ⟨sound, rfl⟩ := reached.sound
  rw [← sound.upcoming_reset]
  exact looks_show sound.reset clear serves count

theorem reset_looks_loop :
    ∃ tree, Reached Sample.file 2 tree ∧ tree.failure = none ∧ Sample.file.opened.Serves Sample.file ∧
      ∃ after last, tree.reset.looks 4 Sample.file.opened =
        ([some (.ok (some Sample.row)), some (.error (.corrupt (.treeCycle 2))), none, none], after, last) := by
  have serves := Pager.Serves.opened Sample.file
  obtain ⟨_, after, _, ran, answer, _⟩ := Pager.alike_image.openAt 2 _ _ serves
  have decoded : Source.node 2 none Sample.file = (.ok _, Sample.file) := congrArg (·, Sample.file) Sample.loop_node
  cases (openAt_of_ok decoded).symm.trans answer
  have reached := ((Reached.opened serves ran).seekRowid 6 serves).taken
  obtain ⟨tree, last, shown, _⟩ := reset_looks reached rfl serves 4
  rw [Sample.findings_loop] at shown
  exact ⟨_, reached, rfl, serves, tree, last, shown⟩

end Tree
end SqliteReader
