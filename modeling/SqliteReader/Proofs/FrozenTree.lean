import SqliteReader.Proofs.KeptNodes

/-! A tree that was walked to its end without a failure. Its cursor goes on as one over the
list of the records of that walk, with no use of what it once was read from. -/

namespace SqliteReader

/-- A cursor over a list of records. -/
structure Snapshot where
  records : List Record
  current : Option Record := none
  ahead : List Record := []

inductive Request
  | reset
  | get
  | move (motion : Motion)

inductive Response
  | done
  | record (record : Option Record)
  | moved (found : Bool)

namespace Snapshot

def reset (snapshot : Snapshot) : Snapshot := { snapshot with current := none, ahead := snapshot.records }

/-- On to the first record asked for, or to the end. -/
def search (snapshot : Snapshot) (asked : Record → Bool) : Snapshot :=
  let left := snapshot.ahead.dropWhile (!asked ·)
  { snapshot with current := left.head?, ahead := left.tail }

def act (snapshot : Snapshot) : Motion → Bool × Snapshot
  | .rewind =>
    let after := snapshot.reset.search fun _ => true
    (after.current.isSome, after)
  | .next =>
    let after := snapshot.search fun _ => true
    (after.current.isSome, after)
  | .seekKey key =>
    let after := snapshot.reset.search fun record => record.comparePrefix key != .lt
    (after.current.isSome, after)
  | .seekRowid rowid =>
    let after := snapshot.reset.search fun record => rowid ≤ record.rowid
    (after.current.any (·.rowid == rowid), after)

def respond (snapshot : Snapshot) : Request → Response × Snapshot
  | .reset => (.done, snapshot.reset)
  | .get => (.record snapshot.current, snapshot)
  | .move motion => ((snapshot.act motion).map .moved id)

def responses : List Request → Snapshot → List Response
  | [], _ => []
  | request :: requests, snapshot =>
    let (response, snapshot) := snapshot.respond request
    response :: responses requests snapshot

end Snapshot

namespace Tree

section

variable {τ : Type} [Source τ]

def respond (tree : Tree) (source : τ) : Request → Response × Tree × τ
  | .reset => (.done, tree.reset, source)
  | .get => (.record tree.record?, tree, source)
  | .move motion => (motion.act tree source).map .moved id

/-- One request after the other, each over a source of its own, of which is told what the
request has left of it. -/
def responses : List (Request × τ) → Tree → List (Response × τ) × Tree
  | [], tree => ([], tree)
  | (request, source) :: requests, tree =>
    let (response, tree, source) := tree.respond source request
    let (others, tree) := responses requests tree
    ((response, source) :: others, tree)

end

/-- One walk from here to the end, with no failure on it. At each move the source may be
another one. -/
inductive Exhausts (σ : Type) [Source σ] : Tree → List Record → Tree → Prop
  | ended {tree after : Tree} {source last : σ} (moved : tree.next source = (false, after, last))
      (clear : after.failure = none) : Exhausts σ tree [] after
  | record {tree middle after : Tree} {source last : σ} {record : Record} {records : List Record}
      (moved : tree.next source = (true, middle, last)) (here : middle.record? = some record)
      (rest : Exhausts σ middle records after) : Exhausts σ tree (record :: records) after

variable {σ : Type} [Source σ] {tree after : Tree} {records : List Record} {snapshot : Snapshot}

theorem next_ends {found : Bool} {source last : σ} (moved : tree.next source = (found, after, last))
    (clear : found = false → after.failure = none) :
    ∃ passed stopped, ∃ record? : Option Record,
      Walk.Ends (fun _ => true) (tree.walk source) passed (record?.map .record) stopped ∧
      Left tree.root stopped (record?.map .record) after ∧ found = record?.isSome := by
  cases latched : tree.failure with
  | some reason =>
    rw [next, search_latched latched] at moved
    cases moved
    cases (clear rfl).symm.trans latched
  | none =>
    obtain ⟨passed, finding, stopped, other, ends, _, left⟩ := search_ends latched (fun _ => true) source
    obtain ⟨came, same⟩ := Prod.mk.inj ((next_of_ends latched ends left).symm.trans moved)
    obtain ⟨rfl, -⟩ := Prod.mk.inj same
    cases finding with
    | none => exact ⟨passed, stopped, none, ends, left, came.symm⟩
    | some finding =>
      cases finding with
      | record record => exact ⟨passed, stopped, some record, ends, left, came.symm⟩
      | failure reason => cases left.failure.symm.trans (clear came.symm)

theorem Exhausts.ends (walked : Exhausts σ tree records after) :
    after.failure = none ∧ after.frames = [] ∧ after.root = tree.root := by
  induction walked with
  | ended moved clear =>
    obtain ⟨_, stopped, record?, ends, left, found⟩ := next_ends moved fun _ => clear
    cases record? with
    | some record => cases found
    | none => exact ⟨clear, left.frames.trans ends.frames_exhausted, left.root⟩
  | record moved _ _ ih =>
    obtain ⟨clear, ended, root⟩ := ih
    obtain ⟨_, _, _, _, left, _⟩ := next_ends moved fun impossible => by cases impossible
    exact ⟨clear, ended, root.trans left.root⟩

theorem Exhausts.ahead (walked : Exhausts σ tree records after) :
    Extends tree.nodes after.nodes ∧ Ahead after.nodes tree.frames records := by
  have fine (record? : Option Record) : (record?.map Finding.record).bind Finding.failure? = none := by
    cases record? <;> rfl
  induction walked with
  | @ended tree after source last moved clear =>
    obtain ⟨passed, stopped, record?, ends, left, found⟩ := next_ends moved fun _ => clear
    cases record? with
    | some record => cases found
    | none =>
      have ahead : Ahead stopped.nodes stopped.frames [] := ends.frames_exhausted ▸ .ended
      rw [left.nodes]
      exact ends.ahead tree.shaped (fine none) (.refl _) ahead
  | @record tree middle after source last record records moved here rest ih =>
    obtain ⟨more, ahead⟩ := ih
    obtain ⟨passed, stopped, record?, ends, left, found⟩ := next_ends moved fun impossible => by cases impossible
    rw [left.nodes] at more
    rw [left.frames] at ahead
    cases record? with
    | none => cases found
    | some other =>
      cases (left.record other rfl).symm.trans here
      exact ends.ahead tree.shaped (fine (some record)) more ahead

/-- A cursor over a tree in memory, beside one over the list of its records. -/
structure Mirrors (tree : Tree) (snapshot : Snapshot) : Prop where
  clear : tree.failure = none
  whole : Ahead tree.nodes tree.reset.frames snapshot.records
  here : tree.record? = snapshot.current
  ahead : Ahead tree.nodes tree.frames snapshot.ahead

theorem Mirrors.reset (mirrors : tree.Mirrors snapshot) : tree.reset.Mirrors snapshot.reset :=
  ⟨mirrors.clear, mirrors.whole, rfl, mirrors.whole⟩

theorem Mirrors.left {asked : Record → Bool} {source : σ} {passed : List Record} {finding : Option Finding}
    {last : Walk σ} (mirrors : tree.Mirrors snapshot) (ends : Walk.Ends asked (tree.walk source) passed finding last)
    (left : Left tree.root last finding after) :
    last.source = source ∧ after.nodes = tree.nodes ∧ finding.bind Finding.record? = (snapshot.search asked).current ∧
      after.Mirrors (snapshot.search asked) := by
  obtain ⟨nodes, source, came, ahead⟩ := ends.kept mirrors.ahead
  have same : after.nodes = tree.nodes := left.nodes.trans nodes
  have restart : after.reset.frames = tree.reset.frames := by simp only [Tree.reset, left.root, same]
  have found : finding.bind Finding.record? = (snapshot.search asked).current ∧ after.failure = none ∧
      after.record? = (snapshot.search asked).current := by
    rw [left.failure, came]
    cases stop : (snapshot.ahead.dropWhile (!asked ·)).head? with
    | some record =>
      rw [stop] at came
      exact ⟨stop.symm, rfl, (left.record record came).trans stop.symm⟩
    | none =>
      rw [stop] at came
      cases came
      refine ⟨stop.symm, rfl, .trans ?_ stop.symm⟩
      rw [record?, left.frames, ends.frames_exhausted]
      rfl
  obtain ⟨found, clear, here⟩ := found
  refine ⟨source, same, found, clear, ?_, here, ?_⟩
  · rw [same, restart]
    exact mirrors.whole
  · rw [same, left.frames]
    exact ahead

theorem Mirrors.start (mirrors : tree.Mirrors snapshot) (motion : Motion) :
    ∃ base : Snapshot, (motion.start tree).Mirrors base ∧
      snapshot.act motion = ((base.search motion.asks).current.any motion.accepts, base.search motion.asks) := by
  have found (record? : Option Record) : record?.isSome = record?.any fun _ => true := by cases record? <;> rfl
  cases motion with
  | next => exact ⟨snapshot, mirrors, congrArg (·, _) (found _)⟩
  | rewind | seekKey key => exact ⟨snapshot.reset, mirrors.reset, congrArg (·, _) (found _)⟩
  | seekRowid rowid => exact ⟨snapshot.reset, mirrors.reset, rfl⟩

theorem Mirrors.respond (mirrors : tree.Mirrors snapshot) (request : Request) (source : σ) :
    ∃ after, tree.respond source request = ((snapshot.respond request).1, after, source) ∧
      after.Mirrors (snapshot.respond request).2 ∧ after.nodes = tree.nodes := by
  cases request with
  | reset => exact ⟨tree.reset, rfl, mirrors.reset, rfl⟩
  | get => exact ⟨tree, by rw [Tree.respond, mirrors.here]; rfl, mirrors, rfl⟩
  | move motion =>
    obtain ⟨passed, finding, last, after, ends, ran, left⟩ := motion.act_ends mirrors.clear source
    obtain ⟨base, mirrors, acted⟩ := mirrors.start motion
    have began : (motion.start tree).root = tree.root ∧ (motion.start tree).nodes = tree.nodes := by
      cases motion <;> exact ⟨rfl, rfl⟩
    obtain ⟨same, nodes, came, onward⟩ := mirrors.left ends (began.1 ▸ left)
    refine ⟨after, ?_, ?_, nodes.trans began.2⟩
    · rw [Tree.respond, Snapshot.respond, ran, acted, same, came]
      rfl
    · rw [Snapshot.respond, acted]
      exact onward

theorem Mirrors.responses (mirrors : tree.Mirrors snapshot) (requests : List (Request × σ)) :
    (tree.responses requests).1.map Prod.fst = snapshot.responses (requests.map Prod.fst) ∧
      (tree.responses requests).1.map Prod.snd = requests.map Prod.snd ∧
      (tree.responses requests).2.nodes = tree.nodes := by
  induction requests generalizing tree snapshot with
  | nil => exact ⟨rfl, rfl, rfl⟩
  | cons first requests ih =>
    obtain ⟨request, source⟩ := first
    obtain ⟨after, ran, onward, nodes⟩ := mirrors.respond request source
    obtain ⟨responses, sources, kept⟩ := ih onward
    simp only [Tree.responses, Snapshot.responses, ran, List.map_cons, responses, sources, kept, nodes, and_self]

theorem Exhausts.mirrors (walked : Exhausts σ tree.reset records after) : after.Mirrors { records } := by
  obtain ⟨clear, ended, named⟩ := walked.ends
  obtain ⟨more, ahead⟩ := walked.ahead
  obtain ⟨node, found, _⟩ := tree.shaped.arena.rooted
  have start : after.reset.frames = tree.reset.frames := by
    have rest : (Frame.before after.nodes 0 tree.root).rest = (Frame.before tree.nodes 0 tree.root).rest :=
      more.rest_before found
    simp only [Frame.before] at rest
    simp only [Tree.reset, startFrames, Frame.before, named, rest]
  refine ⟨clear, start ▸ ahead, ?_, ?_⟩
  · rw [record?, ended]
    rfl
  · rw [ended]
    exact .ended

/-- Over a file that stays as it is, each tree without failures is walked to its end. -/
theorem Sound.exhausts {image : Image} (sound : tree.Sound image) (clear : tree.failure = none)
    (walk : tree.upcoming image = records.map .record) {pager : Pager} (serves : pager.Serves image) :
    ∃ after, Exhausts Pager tree records after := by
  induction records generalizing tree pager with
  | nil =>
    obtain ⟨_, after, _, moved, _, _, stops⟩ := sound.moves clear serves
    cases stops with
    | found record here _ still rest => cases walk.symm.trans rest
    | failed reason latched rest => cases walk.symm.trans rest
    | ended still emptied rest => exact ⟨after, .ended moved still⟩
  | cons record records ih =>
    obtain ⟨_, after, _, moved, stays, kept, stops⟩ := sound.moves clear serves
    cases stops with
    | found other here _ still rest =>
      obtain ⟨first, coming⟩ := List.cons.inj (walk.symm.trans rest)
      cases first
      obtain ⟨ended, others⟩ := ih stays still coming.symm kept
      exact ⟨ended, .record moved here others⟩
    | failed reason latched rest => cases walk.symm.trans rest
    | ended still emptied rest => cases walk.symm.trans rest

end Tree

namespace Sample

def forkPage : List UInt8 := [5, 0, 0, 0, 1, 1, 251, 0, 0, 0, 0, 4, 1, 251] ++ List.replicate 493 0 ++ [0, 0, 0, 3, 5]

def laterPage : List UInt8 := [13, 0, 0, 0, 1, 1, 249, 0, 1, 249] ++ List.replicate 495 0 ++ [5, 9, 3, 14, 1, 107, 42]

/-- A tree on the second page, with a row on each of the two below. -/
def fork : Image := .ofPages [schemaPage, forkPage, rowPage, laterPage]

def later : Record := { row with rowid := 9 }

private theorem fork_page {number : UInt32} {page : List UInt8} (inside : number ≤ header.databaseSize)
    (found : [schemaPage, forkPage, rowPage, laterPage][number.toNat - 1]? = some page) (counted : number ≠ 0) :
    fork.page number = .ok ⟨number, ⟨page.toArray⟩⟩ :=
  Image.page_ofPages (Image.header_ofPages (by decide +kernel) (by decide +kernel)) (by decide +kernel) inside found counted

private theorem fork_node :
    fork.node 2 none =
      .ok (node 2 .tableInterior 507 #[] #[{ page := 3, key := some (.rowid 5) }, { page := 4, key := none }] none) := by
  rw [Image.node, fork_page (by decide) rfl (by decide)]
  decide +kernel

private theorem row_below :
    fork.node 3 (some (0, .tableInterior)) = .ok (node 3 .tableLeaf 505 #[row] #[] (some 0)) := by
  rw [Image.node, fork_page (by decide) rfl (by decide)]
  decide +kernel

private theorem later_below :
    fork.node 4 (some (0, .tableInterior)) = .ok (node 4 .tableLeaf 505 #[later] #[] (some 0)) := by
  rw [Image.node, fork_page (by decide) rfl (by decide)]
  decide +kernel

attribute [irreducible] fork

theorem findings_fork : fork.findings [] 2 none = [.record row, .record later] := by
  have first : fork.findings [2] 3 (some .tableInterior) = [.record row] := by
    rw [@Image.findings_of_node fork [2] 3 (some .tableInterior) _ (by decide) row_below]
    rfl
  have second : fork.findings [2] 4 (some .tableInterior) = [.record later] := by
    rw [@Image.findings_of_node fork [2] 4 (some .tableInterior) _ (by decide) later_below]
    rfl
  rw [@Image.findings_of_node fork [] 2 none _ List.not_mem_nil fork_node]
  simp [node, Node.slots, Node.childSlots, Image.slotFindings, first, second]

end Sample

namespace Tree

variable {σ : Type} [Source σ] {tree after : Tree} {records : List Record}

/-- Once a walk from the start has come to the end of a tree without a failure, however the
tree was used before and whatever its file was at each moment, the cursor gives for ever what
a cursor over the records of that walk would give. It decodes no page and leaves alone
whatever it could read from, be that another file, a locked one or none at all. -/
theorem walked_tree_frozen (walked : Exhausts σ tree.reset records after) (τ : Type) [Source τ] (requests : List (Request × τ)) :
    (after.responses requests).1.map Prod.fst = Snapshot.responses (requests.map Prod.fst) { records } ∧
      (after.responses requests).1.map Prod.snd = requests.map Prod.snd ∧
      (after.responses requests).2.nodes = after.nodes :=
  walked.mirrors.responses requests

/-- Two rows below a page, walked through once; then the pager is closed and the file is empty. -/
theorem walked_tree_frozen_fork :
    ∃ tree after : Tree, tree.Arises Pager 2 ∧ Exhausts Pager tree.reset [Sample.row, Sample.later] after ∧
      let gone : Pager := { disk := { image := ⟨#[]⟩ }, isOpen := false }
      (after.responses [(.move .rewind, gone), (.move (.seekRowid 9), gone), (.get, gone), (.move .next, gone)]).1.map
        Prod.fst = [.moved true, .moved true, .record (some Sample.later), .moved false] := by
  have walk : Sample.fork.findings [] 2 none = [Sample.row, Sample.later].map .record := Sample.findings_fork
  obtain ⟨_, tree, opened, sound, rooted, clear⟩ := openAt_of_records walk
  obtain ⟨_, middle, _, ran, answer, serves⟩ := Pager.alike_image.openAt 2 _ _ (Pager.Serves.opened Sample.fork)
  cases opened.symm.trans answer
  rw [← rooted, ← sound.upcoming_reset] at walk
  obtain ⟨after, walked⟩ := sound.reset.exhausts clear walk serves
  refine ⟨tree, after, .opened ran, walked, ?_⟩
  intro gone
  exact (walked_tree_frozen walked Pager _).1

end Tree
end SqliteReader
