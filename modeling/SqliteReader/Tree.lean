import SqliteReader.Tree.Search

/-! A cursor over one b-tree. The root is decoded when the tree is opened, everything
below it when the cursor first gets there. A page that cannot be decoded stops the
cursor until the failure is taken; the cursor has then moved past that page. -/

namespace SqliteReader

variable {σ : Type} [Source σ]

structure Tree where
  root : UInt32
  /-- Every node decoded so far, the root first. -/
  nodes : Array Node
  /-- The way down to the node that the cursor is on, innermost frame first. An exhausted
  cursor has none. -/
  frames : List Frame
  failure : Option Error := none
  shaped : Shaped root nodes frames

namespace Tree

/-- Before the first position of the root. -/
def startFrames (root : UInt32) (nodes : Array Node) : List Frame := [.before nodes 0 root]

theorem shaped_start {root : UInt32} {nodes : Array Node} (arena : Arena root nodes) :
    Shaped root nodes (startFrames root nodes) := by
  obtain ⟨node, found, page, _⟩ := arena.rooted
  exact ⟨arena, .root (Frame.stands_before found page) rfl⟩

def ofRoot {root : UInt32} {node : Node} (arena : Arena root #[node]) : Tree :=
  { root, nodes := #[node], frames := startFrames root #[node], shaped := shaped_start arena }

def openAt (root : UInt32) : Using σ Tree := fun source =>
  match read : Source.node root none source with
  | (.error reason, source) => (.error reason, source)
  | (.ok _, source) => (.ok (ofRoot (.ofRoot (Source.given read))), source)

section

variable {root : UInt32} {source last : σ}

theorem openAt_of_error {reason : Error} (refused : Source.node root none source = (.error reason, last)) :
    openAt root source = (.error reason, last) := by
  unfold openAt
  split
  next same =>
    cases same.symm.trans refused
    rfl
  next same => cases same.symm.trans refused

theorem openAt_of_ok {node : Node} (decoded : Source.node root none source = (.ok node, last)) :
    openAt root source = (.ok (ofRoot (.ofRoot (Source.given decoded))), last) := by
  unfold openAt
  split
  next same => cases same.symm.trans decoded
  next same =>
    cases same.symm.trans decoded
    rfl

theorem of_openAt_ok {tree : Tree} (opened : openAt root source = (.ok tree, last)) :
    ∃ node, Source.node root none source = (.ok node, last) ∧ ∃ arena : Arena root #[node], tree = ofRoot arena := by
  rcases read : Source.node root none source with ⟨reason | node, middle⟩
  · cases (openAt_of_error read).symm.trans opened
  · cases (openAt_of_ok read).symm.trans opened
    exact ⟨node, rfl, .ofRoot (Source.given read), rfl⟩

end

def isIndex (tree : Tree) : Bool := tree.nodes[0]?.any (!·.kind.isTable)

def reset (tree : Tree) : Tree :=
  { tree with frames := startFrames tree.root tree.nodes, shaped := shaped_start tree.shaped.arena }

def record? (tree : Tree) : Option Record := recordOf? tree.frames

/-- Moves on to the next record that is asked for, and tells whether there is one and
which records were passed over. -/
def search (tree : Tree) (asked : Record → Bool) (source : σ) : Bool × Array Record × Tree × σ :=
  if tree.failure.isSome then (false, #[], tree, source)
  else
    let stop := Walk.run asked ⟨tree.frames, tree.nodes, source⟩ tree.shaped #[]
    ((stop.finding.bind Finding.record?).isSome, stop.passed,
      { root := tree.root, nodes := stop.walk.nodes, frames := stop.walk.frames,
        failure := stop.finding.bind Finding.failure?, shaped := stop.shaped },
      stop.walk.source)

theorem search_latched {tree : Tree} {reason : Error} (latched : tree.failure = some reason) (asked : Record → Bool)
    (source : σ) : tree.search asked source = (false, #[], tree, source) := by
  simp [search, latched]

def next (tree : Tree) (source : σ) : Bool × Tree × σ :=
  let (found, _, tree, source) := tree.search (fun _ => true) source
  (found, tree, source)

/-- The first record whose leading columns are not below a key. -/
def seekKey (tree : Tree) (key : List Value) (source : σ) : Bool × Tree × σ :=
  let (found, _, tree, source) := tree.reset.search (fun record => record.comparePrefix key != .lt) source
  (found, tree, source)

/-- The record with a rowid. Rowids ascend, so that a larger one ends the search. -/
def seekRowid (tree : Tree) (rowid : Int64) (source : σ) : Bool × Tree × σ :=
  let (found, _, tree, source) := tree.reset.search (fun record => rowid ≤ record.rowid) source
  (found && tree.record?.any (·.rowid == rowid), tree, source)

def rest (tree : Tree) (source : σ) : Array Record × Tree × σ :=
  let (_, passed, tree, source) := tree.search (fun _ => false) source
  (passed, tree, source)

def takeFailure (tree : Tree) : Option Error × Tree := (tree.failure, { tree with failure := none })

end Tree

/-- Every record of a tree; a failure on the way counts for the whole. -/
def readTree (root : UInt32) : Using σ (Array Record) := fun source =>
  match Tree.openAt root source with
  | (.error reason, source) => (.error reason, source)
  | (.ok tree, source) =>
    match tree.rest source with
    | (records, tree, source) =>
      match tree.failure with
      | some reason => (.error reason, source)
      | none => (.ok records, source)

end SqliteReader
