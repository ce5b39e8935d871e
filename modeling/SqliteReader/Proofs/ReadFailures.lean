import SqliteReader.Catalog
import SqliteReader.Proofs.InstructionSteps
import SqliteReader.Proofs.PageLayout
import SqliteReader.Proofs.WholeWalk

/-! Failed reads and the end of data are never taken for each other. A read that fails in a
run ends it there with that failure, and the schema and the count of a table are given out
only when every page of the trees they come from has been decoded. -/

namespace SqliteReader

variable {program : Program} {pager last : Pager}

theorem Boundary.watched {machine : Machine} (boundary : Boundary program pager machine last) :
    ∃ reads, Boundary program (⟨pager, []⟩ : Watched) machine ⟨last, reads⟩ := by
  induction boundary with
  | start => exact ⟨[], .start⟩
  | step before ran ih =>
    obtain ⟨reads, watched⟩ := ih
    obtain ⟨_, _, ⟨_, more⟩, same, matching, rfl⟩ :=
      Watched.alike_pager.symm.step _ _ _ (rfl : Watched.pager ⟨_, reads⟩ = _)
    cases same.symm.trans ran
    exact ⟨more, .step watched matching⟩

theorem Runs.watched {machine : Machine} {rows : List Row} {ending : Option Error} (ran : Runs machine pager rows ending last) :
    ∃ reads, Runs machine (⟨pager, []⟩ : Watched) rows ending ⟨last, reads⟩ := by
  obtain ⟨⟨_, reads⟩, copy, rfl⟩ := Watched.alike_pager.symm.runs ran (rfl : Watched.pager ⟨pager, []⟩ = _)
  exact ⟨reads, copy⟩

theorem readTree_watched {root : UInt32} {records : Array Record} (ran : readTree root pager = (.ok records, last)) :
    ∃ reads, readTree root (⟨pager, []⟩ : Watched) = (.ok records, ⟨last, reads⟩) ∧ Whole reads root := by
  obtain ⟨_, _, ⟨_, reads⟩, same, copy, rfl⟩ :=
    Watched.alike_pager.symm.readTree root _ _ (rfl : Watched.pager ⟨pager, []⟩ = _)
  cases same.symm.trans ran
  exact ⟨reads, copy, readTree_whole copy⟩

theorem entries_watched {entries : List SchemaEntry} (ran : Schema.entries pager = (.ok entries, last)) :
    ∃ reads, Schema.entries (⟨pager, []⟩ : Watched) = (.ok entries, ⟨last, reads⟩) ∧ Whole reads Schema.rootPage := by
  obtain ⟨records, middle, read, rest⟩ := Using.of_bind_ok ran
  cases rest
  obtain ⟨reads, copy, whole⟩ := readTree_watched read
  exact ⟨reads, Using.bind_of_ok copy, whole⟩

theorem countRows_watched {table : String} {count : Option Nat} (ran : Schema.countRows table pager = (.ok count, last)) :
    ∃ entries middle, Schema.entries pager = (.ok entries, middle) ∧
      match entries.find? fun entry => entry.isTable && entry.name == table with
      | none => count = none ∧ last = middle
      | some entry => ∃ records reads, readTree entry.rootPage (⟨middle, []⟩ : Watched) = (.ok records, ⟨last, reads⟩) ∧
          count = some records.size ∧ Whole reads entry.rootPage := by
  obtain ⟨entries, middle, read, rest⟩ := Using.of_bind_ok ran
  refine ⟨entries, middle, read, ?_⟩
  cases found : entries.find? fun entry => entry.isTable && entry.name == table with
  | none =>
    rw [found] at rest
    cases rest
    exact ⟨rfl, rfl⟩
  | some entry =>
    rw [found] at rest
    obtain ⟨records, after, walked, rest⟩ := Using.of_bind_ok rest
    cases rest
    obtain ⟨reads, copy, whole⟩ := readTree_watched walked
    exact ⟨records, reads, copy, rfl, whole⟩

theorem Boundary.unfailing {machine : Machine} (boundary : Boundary program pager machine last) :
    ∃ reads, Boundary program (⟨pager, []⟩ : Watched) machine ⟨last, reads⟩ ∧ Watched.failures ⟨last, reads⟩ = [] ∧
      ∀ reason ∈ (machine.step (⟨last, reads⟩ : Watched)).2.failures,
        ∃ final, machine.step last = (.error reason, final) := by
  obtain ⟨reads, watched⟩ := boundary.watched
  have clean : Watched.failures ⟨last, reads⟩ = [] := watched.no_failures
  refine ⟨reads, watched, clean, ?_⟩
  intro reason met
  have only := (Candid.step machine ⟨last, reads⟩).only clean reason met
  obtain ⟨outcome, after, final, ran, copy, _⟩ := Watched.alike_pager.step machine ⟨last, reads⟩ last rfl
  rw [ran] at only
  cases outcome with
  | ok result => cases only
  | error other =>
    cases only
    exact ⟨final, copy⟩

theorem Runs.after_failure {machine : Machine} {rows : List Row} {ending : Option Error} {final : Pager} {reason : Error}
    (ran : Runs machine pager rows ending last) (failed : machine.step pager = (.error reason, final)) :
    rows = [] ∧ ending = some reason := by
  obtain ⟨none, same, _⟩ := ran.unique (.failed failed)
  exact ⟨none, same⟩

/-- A cursor that keeps a failure has found nothing, and the instruction that moved it fails. -/
theorem Machine.step_latched {σ : Type} [Source σ] {machine : Machine} {instruction : Instruction} {slot : Nat}
    {tree after : Tree} {motion : Motion} {found : Bool} {source last : σ} {reason : Error}
    (here : machine.program.instructions[machine.counter]? = some instruction)
    (moves : machine.Moves instruction slot tree motion) (moved : motion.act tree source = (found, after, last))
    (latched : after.failure = some reason) : machine.step source = (.error reason, last) := by
  cases found with
  | true =>
    obtain ⟨_, _, clear⟩ := motion.act_found moved
    cases clear.symm.trans latched
  | false => exact step_refused here (moves.failed (move_failed moved latched))

/-- No failed read is taken for the end of data. When one fails in a run, the run ends with
that instruction and that failure and without another row; up to then no cursor keeps a
failure back. The schema and the count of a table come from trees read as a whole. -/
theorem failed_reads_end_runs (program : Program) (pager : Pager) :
    (∀ machine middle, Boundary program pager machine middle → machine.Unlatched ∧
      (∀ instruction slot tree motion found after last reason,
        machine.program.instructions[machine.counter]? = some instruction → machine.Moves instruction slot tree motion →
          motion.act tree middle = (found, after, last) → after.failure = some reason →
            machine.step middle = (.error reason, last) ∧
              ∀ rows ending final, Runs machine middle rows ending final → rows = [] ∧ ending = some reason) ∧
      ∃ reads, Boundary program (⟨pager, []⟩ : Watched) machine ⟨middle, reads⟩ ∧ Watched.failures ⟨middle, reads⟩ = [] ∧
        ∀ reason ∈ (machine.step (⟨middle, reads⟩ : Watched)).2.failures,
          (∃ last, machine.step middle = (.error reason, last)) ∧
            ∀ rows ending last, Runs machine middle rows ending last → rows = [] ∧ ending = some reason) ∧
    (∀ rows ending last, Runs { program } pager rows ending last →
      ∃ reads, Runs { program } (⟨pager, []⟩ : Watched) rows ending ⟨last, reads⟩ ∧
        ∀ reason ∈ Watched.failures ⟨last, reads⟩, ending = some reason) ∧
    (∀ entries last, Schema.entries pager = (.ok entries, last) →
      ∃ reads, Schema.entries (⟨pager, []⟩ : Watched) = (.ok entries, ⟨last, reads⟩) ∧ Whole reads Schema.rootPage) ∧
    ∀ table count last, Schema.countRows table pager = (.ok count, last) →
      ∃ entries middle, Schema.entries pager = (.ok entries, middle) ∧
        match entries.find? fun entry => entry.isTable && entry.name == table with
        | none => count = none ∧ last = middle
        | some entry => ∃ records reads, readTree entry.rootPage (⟨middle, []⟩ : Watched) = (.ok records, ⟨last, reads⟩) ∧
            count = some records.size ∧ Whole reads entry.rootPage := by
  refine ⟨?_, ?_, fun entries last ran => entries_watched ran, fun table count last ran => countRows_watched ran⟩
  · intro machine middle boundary
    obtain ⟨reads, watched, clean, ends⟩ := boundary.unfailing
    refine ⟨boundary.unlatched, ?_, reads, watched, clean, ?_⟩
    · intro instruction slot tree motion found after last reason here moves moved latched
      have failed := Machine.step_latched here moves moved latched
      exact ⟨failed, fun rows ending final ran => ran.after_failure failed⟩
    · intro reason met
      obtain ⟨last, failed⟩ := ends reason met
      exact ⟨⟨last, failed⟩, fun rows ending final ran => ran.after_failure failed⟩
  · intro rows ending last ran
    obtain ⟨reads, copy⟩ := ran.watched
    exact ⟨reads, copy, copy.tells.only rfl⟩

namespace Sample

def tornPage : List UInt8 := [5, 0, 0, 0, 1, 1, 251, 0, 0, 0, 0, 3, 1, 251] ++ List.replicate 493 0 ++ [0, 0, 0, 4, 5]

/-- A table on the second page whose first child is a page of an index. -/
def torn : Image := .ofPages [schemaPage, tornPage, rowPage, entryPage]

def misfit : Error := .corrupt (.parentChildMismatch 4 .tableInterior .indexLeaf)

theorem torn_header : torn.header = .ok header := Image.header_ofPages (by decide +kernel) (by decide +kernel)

private theorem torn_page {number : UInt32} {page : List UInt8} (inside : number ≤ header.databaseSize)
    (found : [schemaPage, tornPage, rowPage, entryPage][number.toNat - 1]? = some page) (counted : number ≠ 0) :
    torn.page number = .ok ⟨number, ⟨page.toArray⟩⟩ :=
  Image.page_ofPages torn_header (by decide +kernel) inside found counted

def tornRoot : Node :=
  node 2 .tableInterior 507 #[] #[{ page := 4, key := some (.rowid 5) }, { page := 3, key := none }] none

theorem torn_root : torn.node 2 none = .ok tornRoot := by
  rw [Image.node, torn_page (by decide) rfl (by decide)]
  decide +kernel

theorem torn_below : torn.node 4 (some (0, .tableInterior)) = .error misfit := by
  rw [Image.node, torn_page (by decide) rfl (by decide)]
  decide +kernel

attribute [irreducible] torn

theorem visit_torn {σ : Type} [Source σ] {source last : σ}
    (refused : Source.node 4 (some (0, .tableInterior)) source = (.error misfit, last)) :
    visit #[tornRoot] [2] 0 0 4 source = (.error misfit, last) := by
  have unknown : (listing? #[tornRoot] 0 0).bind Child.node = none := rfl
  have parent : (#[tornRoot][0]?.map fun node => ((0 : Nat), node.kind)) = some (0, .tableInterior) := rfl
  simp only [visit, unknown]
  rw [if_neg (by decide), parent, refused]

theorem rewind_torn {σ : Type} [Source σ] {source last : σ}
    (refused : Source.node 4 (some (0, .tableInterior)) source = (.error misfit, last)) (arena : Arena 2 #[tornRoot]) :
    ∃ after, Motion.rewind.act (Tree.ofRoot arena) source = (false, after, last) ∧ after.failure = some misfit := by
  have turned : Walk.turn ⟨[⟨0, 2, none, [.child 0 4, .child 1 3]⟩], #[tornRoot], source⟩ = some
      (some (.failure misfit), ⟨[⟨0, 2, some (.child 0 4), [.child 1 3]⟩], #[tornRoot], last⟩) := by
    have visited := visit_torn refused
    simp only [Walk.turn, pagesOf_cons]
    rw [show pagesOf [] = [] from rfl, visited]
    rfl
  have clear : (Tree.ofRoot arena).failure = none := rfl
  obtain ⟨_, _, _, after, ends, ran, left⟩ := Motion.rewind.act_ends clear source
  obtain ⟨_, rfl, rfl⟩ := ends.unique (.failed turned)
  exact ⟨after, ran, left.failure⟩

end Sample

/-- A scan of a table whose first page below the root cannot be decoded: the cursor keeps the
failure, and the instruction that moves it there is the last. -/
theorem failed_reads_end_torn :
    ∃ machine pager reads tree after last,
      Boundary (Catalog.scan 2 7 []) (⟨Sample.torn.opened, []⟩ : Watched) machine ⟨pager, reads⟩ ∧
      Motion.rewind.act tree pager = (false, after, last) ∧ after.failure = some Sample.misfit ∧
      machine.step pager = (.error Sample.misfit, last) ∧
      Sample.misfit ∈ (machine.step (⟨pager, reads⟩ : Watched)).2.failures ∧
      ∀ rows ending last, Runs machine pager rows ending last → rows = [] ∧ ending = some Sample.misfit := by
  obtain ⟨checked, asked, serves, _⟩ := (Pager.Serves.opened Sample.torn).header
  rw [Sample.torn_header] at asked
  obtain ⟨pager, read, serves⟩ := serves.readNode 2 none
  rw [Sample.torn_root] at read
  obtain ⟨last, refused, _⟩ := serves.readNode 4 (some (0, .tableInterior))
  rw [Sample.torn_below] at refused
  have refused : Source.node 4 (some (0, .tableInterior)) pager = (.error Sample.misfit, last) := refused
  have opened := @Tree.openAt_of_ok Pager _ 2 checked pager _ read
  have arena : Arena 2 #[Sample.tornRoot] := .ofRoot (@Source.given Pager _ 2 none checked pager _ read)
  obtain ⟨after, moved, latched⟩ := Sample.rewind_torn refused arena
  let scanning (counter : Nat) : Machine := { program := Catalog.scan 2 7 [], counter }
  have begun : Boundary (Catalog.scan 2 7 []) Sample.torn.opened (scanning 6) Sample.torn.opened := .step .start rfl
  have current : Boundary (Catalog.scan 2 7 []) Sample.torn.opened (scanning 7) checked :=
    .step begun (Machine.step_proceed rfl (Machine.execute_transaction_current _ _ (by decide) asked (by decide)))
  have back : Boundary (Catalog.scan 2 7 []) Sample.torn.opened (scanning 1) checked := .step current rfl
  have opens : (scanning 1).execute (Catalog.instruction .openRead 0 2 0 0 0) checked =
      (.ok (.proceed, { scanning 1 with cursors := #[some (Tree.ofRoot arena)] }), pager) :=
    @Machine.execute_openRead_ok Pager _ (scanning 1) checked 0 _ _ 0 2 pager (by decide) (by decide) opened
  have ready := Boundary.step back (Machine.step_proceed rfl opens)
  have moves : Machine.Moves { scanning 2 with cursors := #[some (Tree.ofRoot arena)] }
      (Catalog.instruction .rewind 0 5 0 0 0) 0 (Tree.ofRoot arena) .rewind := .rewind rfl rfl rfl
  obtain ⟨_, latches, reads, watched, clean, _⟩ := (failed_reads_end_runs (Catalog.scan 2 7 []) Sample.torn.opened).1 _ _ ready
  obtain ⟨failed, ends⟩ := latches _ _ _ _ _ _ _ _ rfl moves moved latched
  have told : Source.node 4 (some (0, .tableInterior)) (⟨pager, reads⟩ : Watched) =
      (.error Sample.misfit, ⟨last, reads ++ [.node 4 (.error Sample.misfit)]⟩) := by
    have asked : Pager.readNode 4 (some (0, .tableInterior)) pager = (.error Sample.misfit, last) := refused
    simp only [Source.node, asked]
  obtain ⟨_, copied, kept⟩ := Sample.rewind_torn told arena
  refine ⟨_, pager, reads, _, after, last, watched, moved, latched, failed, ?_, ends⟩
  rw [Machine.step_latched rfl moves copied kept, Watched.failures, List.filterMap_append]
  exact List.mem_append_right _ List.mem_cons_self

end SqliteReader
