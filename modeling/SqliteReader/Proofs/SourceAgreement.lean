import SqliteReader.Proofs.InstructionUse

/-! Sources that answer alike cannot be told apart by what uses them. A cursor, a machine
and the schema see a source only through its answers, so that related sources lead them to
the same results and stay related. -/

namespace SqliteReader

variable {σ τ α β : Type}

/-- The same result from both sources, which stay related. -/
def Similar (related : σ → τ → Prop) (act : Using σ α) (other : Using τ α) : Prop :=
  ∀ source copy, related source copy → ∃ result after last,
    act source = (result, after) ∧ other copy = (result, last) ∧ related after last

namespace Similar

variable {related : σ → τ → Prop}

theorem pure (result : α) : Similar related (pure result) (pure result) :=
  fun source copy same => ⟨.ok result, source, copy, rfl, rfl, same⟩

theorem lift (outcome : Except MachineError α) : Similar related (liftM outcome) (liftM outcome) :=
  fun source copy same => ⟨outcome.mapError .machine, source, copy, rfl, rfl, same⟩

theorem bind {act : Using σ α} {other : Using τ α} {next : α → Using σ β} {later : α → Using τ β}
    (first : Similar related act other) (rest : ∀ result, Similar related (next result) (later result)) :
    Similar related (act >>= next) (other >>= later) := by
  intro source copy same
  obtain ⟨result, after, last, ran, matching, kept⟩ := first source copy same
  cases result with
  | ok result =>
    rw [Using.bind_of_ok ran, Using.bind_of_ok matching]
    exact rest result after last kept
  | error reason =>
    rw [Using.bind_of_error ran, Using.bind_of_error matching]
    exact ⟨.error reason, after, last, rfl, rfl, kept⟩

end Similar

def SimilarMotion (related : σ → τ → Prop) (act : σ → Bool × Tree × σ) (other : τ → Bool × Tree × τ) : Prop :=
  ∀ source copy, related source copy → ∃ found tree after last,
    act source = (found, tree, after) ∧ other copy = (found, tree, last) ∧ related after last

theorem SimilarMotion.move {act : σ → Bool × Tree × σ} {other : τ → Bool × Tree × τ}
    (same : SimilarMotion related act other) : Similar related (Machine.move act) (Machine.move other) := by
  intro source copy close
  obtain ⟨found, tree, after, last, ran, matching, kept⟩ := same source copy close
  cases found with
  | true => exact ⟨_, _, _, Machine.move_found ran, Machine.move_found matching, kept⟩
  | false =>
    cases latched : tree.failure with
    | none => exact ⟨_, _, _, Machine.move_ended ran latched, Machine.move_ended matching latched, kept⟩
    | some reason => exact ⟨_, _, _, Machine.move_failed ran latched, Machine.move_failed matching latched, kept⟩

/-- Related sources give the same answers and stay related. -/
structure Alike [Source σ] [Source τ] (related : σ → τ → Prop) : Prop where
  header : Similar related Source.header Source.header
  node : ∀ page parent, Similar related (Source.node page parent) (Source.node page parent)

variable [Source σ] [Source τ] {related : σ → τ → Prop}

/-- Two walks over related sources that are at the same point. -/
structure Walk.Matches (related : σ → τ → Prop) (walk : Walk σ) (copy : Walk τ) : Prop where
  frames : walk.frames = copy.frames
  nodes : walk.nodes = copy.nodes
  source : related walk.source copy.source

namespace Alike

variable (alike : Alike related)
include alike

theorem symm : Alike fun copy source => related source copy where
  header source copy same := by
    obtain ⟨result, after, last, ran, matching, kept⟩ := alike.header copy source same
    exact ⟨result, last, after, matching, ran, kept⟩
  node page parent source copy same := by
    obtain ⟨result, after, last, ran, matching, kept⟩ := alike.node page parent copy source same
    exact ⟨result, last, after, matching, ran, kept⟩

theorem visit (nodes : Array Node) (way : List UInt32) (holder index : Nat) (page : UInt32) :
    Similar related (visit nodes way holder index page) (visit nodes way holder index page) := by
  intro source copy same
  simp only [SqliteReader.visit]
  split
  · exact ⟨_, _, _, rfl, rfl, same⟩
  split
  · exact ⟨_, _, _, rfl, rfl, same⟩
  obtain ⟨result, after, last, ran, matching, kept⟩ :=
    alike.node page (nodes[holder]?.map fun node => (holder, node.kind)) source copy same
  rw [ran, matching]
  cases result <;> exact ⟨_, _, _, rfl, rfl, kept⟩

theorem turn {walk : Walk σ} {copy : Walk τ} (same : walk.Matches related copy) :
    match walk.turn with
    | none => copy.turn = none
    | some (finding, next) => ∃ last, copy.turn = some (finding, last) ∧ next.Matches related last := by
  obtain ⟨frames, nodes, source⟩ := walk
  obtain ⟨_, _, other⟩ := copy
  obtain ⟨rfl, rfl, close⟩ := same
  cases frames with
  | nil => rfl
  | cons frame outer =>
    obtain ⟨place, number, current, rest⟩ := frame
    rcases rest with _ | ⟨record | ⟨index, page⟩, rest⟩
    · exact ⟨_, rfl, rfl, rfl, close⟩
    · exact ⟨_, rfl, rfl, rfl, close⟩
    · obtain ⟨result, after, last, ran, matching, kept⟩ :=
        alike.visit nodes (number :: pagesOf outer) place index page source other close
      simp only [Walk.turn, pagesOf_cons, ran, matching]
      cases result <;> exact ⟨_, rfl, rfl, rfl, kept⟩

theorem ends {asked : Record → Bool} {walk last : Walk σ} {copy : Walk τ} {passed : List Record}
    {finding : Option Finding} (ends : Walk.Ends asked walk passed finding last) (same : walk.Matches related copy) :
    ∃ ending, Walk.Ends asked copy passed finding ending ∧ last.Matches related ending := by
  induction ends generalizing copy with
  | exhausted ran =>
    have turned := alike.turn same
    rw [ran] at turned
    exact ⟨copy, .exhausted turned, same⟩
  | failed ran =>
    have turned := alike.turn same
    rw [ran] at turned
    obtain ⟨ending, turned, close⟩ := turned
    exact ⟨ending, .failed turned, close⟩
  | found ran wanted =>
    have turned := alike.turn same
    rw [ran] at turned
    obtain ⟨ending, turned, close⟩ := turned
    exact ⟨ending, .found turned wanted, close⟩
  | passed ran unwanted _ ih =>
    have turned := alike.turn same
    rw [ran] at turned
    obtain ⟨middle, turned, close⟩ := turned
    obtain ⟨ending, ends, kept⟩ := ih close
    exact ⟨ending, .passed turned unwanted ends, kept⟩
  | onward ran _ ih =>
    have turned := alike.turn same
    rw [ran] at turned
    obtain ⟨middle, turned, close⟩ := turned
    obtain ⟨ending, ends, kept⟩ := ih close
    exact ⟨ending, .onward turned ends, kept⟩

theorem search (tree : Tree) (asked : Record → Bool) {source : σ} {copy : τ} (same : related source copy) :
    ∃ found passed after last ending, tree.search asked source = (found, passed, after, last) ∧
      tree.search asked copy = (found, passed, after, ending) ∧ related last ending := by
  cases latched : tree.failure with
  | some reason =>
    exact ⟨_, _, _, _, _, Tree.search_latched latched asked source, Tree.search_latched latched asked copy, same⟩
  | none =>
    obtain ⟨passed, finding, last, after, ends, ran, left⟩ := Tree.search_ends latched asked source
    obtain ⟨_, _, _, other, others, matching, stays⟩ := Tree.search_ends latched asked copy
    obtain ⟨ending, again, close⟩ := alike.ends ends (⟨rfl, rfl, same⟩ : (tree.walk source).Matches related (tree.walk copy))
    obtain ⟨rfl, rfl, rfl⟩ := again.unique others
    have landed : Tree.Left tree.root ending finding after :=
      ⟨left.root, left.nodes.trans close.nodes, left.frames.trans close.frames, left.failure, left.record⟩
    cases landed.unique stays
    exact ⟨_, _, _, _, _, ran, matching, close.source⟩

theorem next (tree : Tree) : SimilarMotion related tree.next tree.next := by
  intro source copy same
  obtain ⟨found, passed, after, last, ending, ran, matching, close⟩ := alike.search tree (fun _ => true) same
  exact ⟨found, after, last, ending, by rw [Tree.next, ran], by rw [Tree.next, matching], close⟩

theorem seekKey (tree : Tree) (key : List Value) : SimilarMotion related (tree.seekKey key) (tree.seekKey key) := by
  intro source copy same
  obtain ⟨found, passed, after, last, ending, ran, matching, close⟩ :=
    alike.search tree.reset (fun record => record.comparePrefix key != .lt) same
  exact ⟨found, after, last, ending, by rw [Tree.seekKey, ran], by rw [Tree.seekKey, matching], close⟩

theorem seekRowid (tree : Tree) (rowid : Int64) :
    SimilarMotion related (tree.seekRowid rowid) (tree.seekRowid rowid) := by
  intro source copy same
  obtain ⟨found, passed, after, last, ending, ran, matching, close⟩ :=
    alike.search tree.reset (fun record => rowid ≤ record.rowid) same
  exact ⟨_, after, last, ending, by rw [Tree.seekRowid, ran], by rw [Tree.seekRowid, matching], close⟩

theorem openAt (root : UInt32) : Similar related (Tree.openAt root) (Tree.openAt root) := by
  intro source copy same
  obtain ⟨result, after, last, ran, matching, close⟩ := alike.node root none source copy same
  cases result with
  | error reason =>
    exact ⟨_, _, _, Tree.openAt_of_error ran, Tree.openAt_of_error matching, close⟩
  | ok node => exact ⟨_, _, _, Tree.openAt_of_ok ran, Tree.openAt_of_ok matching, close⟩

theorem readTree (root : UInt32) : Similar related (readTree root) (readTree root) := by
  intro source copy same
  obtain ⟨opened, after, last, ran, matching, close⟩ := alike.openAt root source copy same
  simp only [SqliteReader.readTree, ran, matching]
  cases opened with
  | error reason => exact ⟨_, _, _, rfl, rfl, close⟩
  | ok tree =>
    obtain ⟨found, passed, tree, final, ending, walked, copied, kept⟩ := alike.search tree (fun _ => false) close
    simp only [Tree.rest, walked, copied]
    cases tree.failure with
    | none => exact ⟨_, _, _, rfl, rfl, kept⟩
    | some reason => exact ⟨_, _, _, rfl, rfl, kept⟩

theorem entries : Similar related Schema.entries Schema.entries :=
  (alike.readTree Schema.rootPage).bind fun _ => .pure _

theorem countRows (table : String) : Similar related (Schema.countRows table) (Schema.countRows table) := by
  apply alike.entries.bind
  intro entries
  split
  · exact .pure none
  · apply (alike.readTree _).bind
    intro records
    exact .pure _

theorem motion (tree : Tree) (motion : Motion) : SimilarMotion related (motion.act tree) (motion.act tree) := by
  cases motion with
  | rewind => exact alike.next tree.reset
  | next => exact alike.next tree
  | seekKey key => exact alike.seekKey tree key
  | seekRowid rowid => exact alike.seekRowid tree rowid

theorem execute (machine : Machine) (instruction : Instruction) :
    Similar related (machine.execute instruction) (machine.execute instruction) := by
  obtain ⟨use, same⟩ := machine.execute_uses instruction
  rw [same σ, same τ]
  cases use with
  | none outcome => exact .lift outcome
  | header finish =>
    apply alike.header.bind
    intro header
    exact .lift (finish header)
  | opening slot root =>
    apply (alike.openAt root).bind
    intro tree
    exact .pure _
  | moving slot tree motion moves finish =>
    apply (alike.motion tree motion).move.bind
    intro moved
    exact .lift (finish moved.1 moved.2)

theorem step (machine : Machine) : Similar related machine.step machine.step := by
  unfold Machine.step
  split
  · exact .pure _
  · apply (alike.execute machine _).bind
    intro executed
    obtain ⟨effect, next⟩ := executed
    cases effect <;> exact .pure _

end Alike

end SqliteReader
