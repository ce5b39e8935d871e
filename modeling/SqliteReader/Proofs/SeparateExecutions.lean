import SqliteReader.Proofs.CrowdedPager
import SqliteReader.Proofs.CursorWalk
import SqliteReader.Proofs.ServedRows

/-! Executions do not learn of each other. Over a file that stays as it is, a pager answers
alike whatever it has been used for and whoever uses it meanwhile, so that programs, cursors
and the schema come to the same. -/

namespace SqliteReader

variable {σ τ υ α : Type}

theorem Similar.comp {related : σ → τ → Prop} {further : τ → υ → Prop} {act : Using σ α} {middle : Using τ α}
    {other : Using υ α} (first : Similar related act middle) (second : Similar further middle other) :
    Similar (Relation.Comp related further) act other := by
  rintro source copy ⟨between, near, far⟩
  obtain ⟨result, after, last, ran, same, kept⟩ := first source between near
  obtain ⟨_, _, final, again, matching, stays⟩ := second between copy far
  cases same.symm.trans again
  exact ⟨result, after, final, ran, matching, last, kept, stays⟩

theorem Similar.outcome {related : σ → τ → Prop} {act : Using σ α} {other : Using τ α} {source : σ} {copy : τ}
    (similar : Similar related act other) (same : related source copy) : (act source).1 = (other copy).1 := by
  obtain ⟨result, after, last, ran, matching, _⟩ := similar source copy same
  rw [ran, matching]

variable [Source σ] [Source τ] [Source υ] {related : σ → τ → Prop} {source : σ} {copy : τ}

/-- Opens a tree and moves on so many times, with what there is to see each time. -/
def Tree.tour (root : UInt32) (count : Nat) : Using σ (List (Option (Except Error (Option Record)))) := fun source =>
  match Tree.openAt root source with
  | (.error reason, source) => (.error reason, source)
  | (.ok tree, source) =>
    let (shown, _, source) := tree.looks count source
    (.ok shown, source)

/-- All that can be seen of two sources is the same. -/
structure Indistinct (source : σ) (copy : τ) : Prop where
  runs : ∀ machine rows ending, (∃ last, Runs machine source rows ending last) ↔ ∃ last, Runs machine copy rows ending last
  told : ∀ machine replies, Told machine source replies ↔ Told machine copy replies
  moves : ∀ tree (motion : Motion), (motion.act tree source).1 = (motion.act tree copy).1 ∧
    (motion.act tree source).2.1 = (motion.act tree copy).2.1
  tours : ∀ root count, (Tree.tour root count source).1 = (Tree.tour root count copy).1
  schema : (Schema.entries source).1 = (Schema.entries copy).1
  tables : (Schema.tableNames source).1 = (Schema.tableNames copy).1
  counts : ∀ table, (Schema.countRows table source).1 = (Schema.countRows table copy).1

namespace Alike

theorem comp {further : τ → υ → Prop} (first : Alike related) (second : Alike further) :
    Alike (Relation.Comp related further) where
  header := first.header.comp second.header
  node page parent := (first.node page parent).comp (second.node page parent)

variable (alike : Alike related)
include alike

theorem emits {machine last : Machine} {rows : List Row} {final : σ} (emits : Emits machine source rows last final)
    (same : related source copy) : ∃ other, Emits machine copy rows last other := by
  induction emits generalizing copy with
  | here => exact ⟨copy, .here⟩
  | silent stepped _ ih =>
    obtain ⟨_, _, between, step, matching, kept⟩ := alike.step _ _ _ same
    cases stepped.symm.trans step
    obtain ⟨other, rest⟩ := ih kept
    exact ⟨other, .silent matching rest⟩
  | row stepped _ ih =>
    obtain ⟨_, _, between, step, matching, kept⟩ := alike.step _ _ _ same
    cases stepped.symm.trans step
    obtain ⟨other, rest⟩ := ih kept
    exact ⟨other, .row matching rest⟩

theorem told {machine : Machine} {replies : List Reply} (told : Told machine source replies) (same : related source copy) :
    Told machine copy replies := by
  cases told with
  | rows emits =>
    obtain ⟨other, emits⟩ := alike.emits emits same
    exact .rows emits
  | ended ran more =>
    obtain ⟨final, ran, _⟩ := alike.runs ran same
    exact .ended ran more

theorem look (tree : Tree) (same : related source copy) :
    ∃ shown after last final, tree.look source = (shown, after, last) ∧ tree.look copy = (shown, after, final) ∧
      related last final := by
  obtain ⟨found, moved, last, final, ran, matching, kept⟩ := alike.next tree _ _ same
  simp only [Tree.look, ran, matching]
  cases found <;> exact ⟨_, _, _, _, rfl, rfl, kept⟩

theorem looks (tree : Tree) (count : Nat) (same : related source copy) :
    ∃ shown after last final, tree.looks count source = (shown, after, last) ∧
      tree.looks count copy = (shown, after, final) ∧ related last final := by
  induction count generalizing tree source copy with
  | zero => exact ⟨[], tree, source, copy, rfl, rfl, same⟩
  | succ count ih =>
    obtain ⟨shown, moved, _, _, first, also, kept⟩ := alike.look tree same
    obtain ⟨others, after, last, final, rest, again, close⟩ := ih moved kept
    simp only [Tree.looks, first, also, rest, again]
    exact ⟨_, _, _, _, rfl, rfl, close⟩

theorem tour (root : UInt32) (count : Nat) : Similar related (Tree.tour root count) (Tree.tour root count) := by
  intro source copy same
  obtain ⟨opened, after, last, ran, matching, kept⟩ := alike.openAt root source copy same
  simp only [Tree.tour, ran, matching]
  cases opened with
  | error reason => exact ⟨_, _, _, rfl, rfl, kept⟩
  | ok tree =>
    obtain ⟨shown, _, last, final, looked, again, close⟩ := alike.looks tree count kept
    simp only [looked, again]
    exact ⟨_, _, _, rfl, rfl, close⟩

theorem indistinct (same : related source copy) : Indistinct source copy where
  runs machine rows ending := by
    constructor
    · rintro ⟨last, ran⟩
      obtain ⟨final, ran, _⟩ := alike.runs ran same
      exact ⟨final, ran⟩
    · rintro ⟨last, ran⟩
      obtain ⟨final, ran, _⟩ := alike.symm.runs ran same
      exact ⟨final, ran⟩
  told machine replies := ⟨fun told => alike.told told same, fun told => alike.symm.told told same⟩
  moves tree motion := by
    obtain ⟨found, after, _, _, ran, matching, _⟩ := alike.motion tree motion source copy same
    rw [ran, matching]
    exact ⟨rfl, rfl⟩
  tours root count := (alike.tour root count).outcome same
  schema := alike.entries.outcome same
  tables := (alike.entries.bind fun _ => .pure _).outcome same
  counts table := (alike.countRows table).outcome same

end Alike

namespace Alike

variable {related : Pager → Pager → Prop} (alike : Alike related) {pager other : Pager}
include alike

theorem work (execution : Execution) (same : related pager other) :
    (execution.work pager = none ∧ execution.work other = none) ∨
    ∃ next last final, execution.work pager = some (next, last) ∧ execution.work other = some (next, final) ∧
      related last final := by
  unfold Execution.work
  cases execution.worker with
  | running machine =>
    obtain ⟨result, last, final, ran, matching, kept⟩ := alike.step machine _ _ same
    simp only [ran, matching]
    rcases result with reason | ⟨event, next⟩
    · exact .inr ⟨_, _, _, rfl, rfl, kept⟩
    · cases event <;> exact .inr ⟨_, _, _, rfl, rfl, kept⟩
  | offering row machine =>
    dsimp only
    split
    · exact .inr ⟨_, _, _, rfl, rfl, same⟩
    · split
      · exact .inr ⟨_, _, _, rfl, rfl, same⟩
      · exact .inl ⟨rfl, rfl⟩
  | ended result => exact .inl ⟨rfl, rfl⟩

theorem settle (steps : Nat) (execution : Execution) (same : related pager other) :
    ∃ next last final, execution.settle steps pager = (next, last) ∧ execution.settle steps other = (next, final) ∧
      related last final := by
  induction steps generalizing execution pager other with
  | zero => exact ⟨execution, pager, other, rfl, rfl, same⟩
  | succ steps ih =>
    rcases alike.work execution same with ⟨stuck, also⟩ | ⟨next, last, final, worked, also, kept⟩
    · exact ⟨execution, pager, other, by simp only [Execution.settle, stuck], by simp only [Execution.settle, also], same⟩
    · simp only [Execution.settle, worked, also]
      exact ih next kept

theorem nextRow (steps : Nat) (execution : Execution) (same : related pager other) :
    ∃ reply next last final, execution.nextRow steps pager = (reply, next, last) ∧
      execution.nextRow steps other = (reply, next, final) ∧ related last final := by
  obtain ⟨settled, middle, between, first, also, kept⟩ := alike.settle steps execution same
  obtain ⟨next, last, final, second, again, close⟩ := alike.settle steps settled.receive.2 kept
  refine ⟨settled.receive.1, next, last, final, ?_, ?_, close⟩
  · simp only [Execution.nextRow, first, second]
  · simp only [Execution.nextRow, also, again]

theorem served {program : Program} {capacity : Nat} {execution : Execution} {last : Pager} {told : List Reply}
    (served : Served program capacity pager execution last told) (same : related pager other) :
    ∃ final, Served program capacity other execution final told ∧ related last final := by
  induction served with
  | @started steps _ _ ran =>
    obtain ⟨_, _, final, first, also, kept⟩ := alike.settle steps (.start program capacity) same
    cases ran.symm.trans first
    exact ⟨final, .started also, kept⟩
  | @waited steps execution _ _ _ _ _ ran ih =>
    obtain ⟨between, before, close⟩ := ih
    obtain ⟨_, _, _, final, first, also, kept⟩ := alike.nextRow steps execution close
    cases ran.symm.trans first
    exact ⟨final, before.waited also, kept⟩
  | @answered steps execution _ _ _ _ _ _ ran answered ih =>
    obtain ⟨between, before, close⟩ := ih
    obtain ⟨_, _, _, final, first, also, kept⟩ := alike.nextRow steps execution close
    cases ran.symm.trans first
    exact ⟨final, before.answered also answered, kept⟩

end Alike

open Relation (ReflTransGen)

variable {pager other : Pager} {image : Image}

/-- Over a file that has not changed, and with no other process in the way, the answers of a
pager have nothing to do with its past. From any two of its states programs give the same
rows and the same end, and the answers of executions, the walks of cursors and what is said
of the schema are the same. Such a state is every one that the pager has come to since it was
opened, whatever it was used for, and whatever is done with it leads to such a state again.
And none of this changes when others use the pager at the same time. -/
theorem executions_apart (first : pager.Undisturbed image) (second : other.Undisturbed image) :
    Indistinct pager other ∧
    (∀ program capacity execution told, (∃ last, Served program capacity pager execution last told) ↔
      ∃ last, Served program capacity other execution last told) ∧
    (∀ before last : Pager, (before = pager ∨ ∃ disk : Disk, disk.own = {} ∧ disk.image = image.bytes ∧ before = { disk }) →
      ReflTransGen Pager.Peaceful before last → last.disk.other.conflict? .read pendingByte = none →
      last.disk.other.conflict? .read sharedRange = none → last.Undisturbed image) ∧
    ∀ others, Indistinct pager ({ pager := other, others, theirs := other.held } : Crowded) := by
  have alike := Pager.alike_image.comp Pager.alike_image.symm
  have close : Relation.Comp Pager.Serves (fun image pager => Pager.Serves pager image) pager other :=
    ⟨image, first.serves, second.serves⟩
  have back : Relation.Comp Pager.Serves (fun image pager => Pager.Serves pager image) other pager :=
    ⟨image, second.serves, first.serves⟩
  refine ⟨alike.indistinct close, ?_, ?_, ?_⟩
  · intro program capacity execution told
    constructor
    · rintro ⟨last, served⟩
      obtain ⟨final, served, _⟩ := alike.served served close
      exact ⟨final, served⟩
    · rintro ⟨last, served⟩
      obtain ⟨final, served, _⟩ := alike.served served back
      exact ⟨final, served⟩
  · intro before last start peaceful pendingFree sharedFree
    have begun : before.Abiding image ∧ before.isOpen = true := by
      rcases start with rfl | ⟨disk, fresh, unchanged, rfl⟩
      · exact ⟨first.abiding, first.isOpen⟩
      · exact ⟨.opened fresh unchanged, rfl⟩
    obtain ⟨abiding, isOpen⟩ := begun.1.peaceful begun.2 peaceful
    exact ⟨abiding, isOpen, pendingFree, sharedFree⟩
  · intro others
    have apart : Crowded.Apart { pager := other, others, theirs := other.held } image 0 := ⟨second, rfl⟩
    exact (Pager.alike_image.comp Crowded.alike_image.symm).indistinct ⟨image, first.serves, apart⟩

/-- A page that somebody else has changes nothing about the scan of another. -/
theorem executions_apart_loop :
    ∃ pager : Pager, pager.Undisturbed Sample.file ∧ pager.held = 1 ∧ pager.level = .shared ∧
      (∃ last, Runs { program := Catalog.scan 2 7 ["key"] } pager [#[.blob [107]]] (some (.corrupt (.treeCycle 2))) last) ∧
      ∃ execution last, Served (Catalog.scan 2 7 ["key"]) 0 pager execution last
        [.row #[.blob [107]], .failed (.corrupt (.treeCycle 2))] := by
  have fresh := Pager.Undisturbed.opened Sample.file
  have used : Pager.Undisturbed (Call.run (.getPage 9) Sample.file.opened).2 Sample.file := fresh.call Call.noConfusion
  have shared := used.abiding.resting.sound.locked (by simp [Scene.held_behind])
  obtain ⟨seen, served, _⟩ := executions_apart fresh used
  have ran := @Scan.current Sample.file 7 ["key"] 2 _ (by decide) (by decide) Sample.file_header (by decide)
  rw [Sample.findings_loop] at ran
  obtain ⟨last, ran, _⟩ := Pager.alike_image.symm.runs ran fresh.serves
  have told : Told { program := Catalog.scan 2 7 ["key"] } Sample.file.opened
      [.row #[.blob [107]], .failed (.corrupt (.treeCycle 2))] :=
    @Told.ended _ _ _ _ [#[.blob [107]]] (.error (.corrupt (.treeCycle 2))) _ ran 0
  obtain ⟨execution, final, tells⟩ := @Served.exists_served _ 0 _ _ told
  exact ⟨_, used, Scene.held_behind, shared, (seen.runs _ _ _).mp ⟨last, ran⟩, execution,
    (served _ 0 execution _).mp ⟨final, tells⟩⟩

end SqliteReader
