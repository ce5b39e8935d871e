import SqliteReader.Catalog
import SqliteReader.Proofs.CursorWalk
import SqliteReader.Proofs.InstructionSteps

/-! Runs of scans. The loop of a scan projects the record its cursor is on, moves on, and
comes back for as long as there is a next record, so that the rows are the projections of
what a walk over the tree shows up to its first failure. -/

namespace SqliteReader

/-- The leading columns of a record; those it does not have are null. -/
def Record.project (record : Record) (count : Nat) : Row :=
  ((List.range count).map fun index => (record.column index).value).toArray

namespace Catalog

variable {root cookie : Int64} {columns : List String}

private theorem jump_target (count offset : Nat) : Int64.ofNat count + Int64.ofNat offset = Int64.ofNat (count + offset) :=
  (Int64.ofNat_add count offset).symm

theorem scan_size : (scan root cookie columns).instructions.size = columns.length + 8 := by
  simp [scan]

theorem scan_opening {place : Nat} (first : place < 3) :
    (scan root cookie columns).instructions[place]? =
      [instruction .init 0 (Int64.ofNat (columns.length + 6)) 0 0 0,
        instruction .openRead 0 root 0 (Int64.ofNat columns.length) 0,
        instruction .rewind 0 (Int64.ofNat (columns.length + 5)) 0 0 0][place]? := by
  simp only [scan, List.getElem?_toArray, List.append_assoc, ← jump_target]
  exact List.getElem?_append_left first

theorem scan_reading {index : Nat} (inside : index < columns.length) :
    (scan root cookie columns).instructions[3 + index]? =
      some (instruction .column 0 (Int64.ofNat index) (Int64.ofNat (index + 1)) 0 0) := by
  simp only [scan, List.getElem?_toArray, List.append_assoc]
  rw [List.getElem?_append_right (by simp), List.getElem?_append_left (by simpa using inside)]
  simp [inside]

theorem scan_closing (offset : Nat) :
    (scan root cookie columns).instructions[3 + columns.length + offset]? =
      [instruction .resultRow 1 (Int64.ofNat columns.length) 0 0 0, instruction .next 0 3 0 0 1, instruction .halt 0 0 0 0 0,
        instruction .transaction 0 0 cookie 0 1, instruction .goto 0 1 0 0 0][offset]? := by
  simp only [scan, List.getElem?_toArray]
  rw [List.getElem?_append_right (by simp; omega)]
  congr 1
  simp
  omega

end Catalog

theorem Record.project_succ (record : Record) (count : Nat) :
    record.project (count + 1) = (record.project count).push (record.column count).value := by
  simp [project, List.range_succ]

namespace Scan

variable {image : Image} {root cookie : Int64} {columns : List String} {tree : Tree} {record : Record}

def scanning (root cookie : Int64) (columns : List String) (counter : Nat) (tree : Tree) (registers : Registers)
    (row : Row) : Machine where
  program := Catalog.scan root cookie columns
  counter := counter
  cursors := #[some tree]
  registers := registers
  row := row

/-- Column by column the row comes to be the projection of the record. -/
theorem reads {σ : Type} [Source σ] {source last : σ} {rows : List Row} {ending : Option Error}
    (short : columns.length ≤ 65535) (here : tree.record? = some record) (registers : Registers)
    {read left : Nat} (all : read + left = columns.length)
    (onward : ∀ registers, Runs (scanning root cookie columns (3 + columns.length) tree registers
      (record.project columns.length)) source rows ending last) :
    Runs (scanning root cookie columns (3 + read) tree registers (record.project read)) source rows ending last := by
  induction left generalizing read registers with
  | zero =>
    cases all
    exact onward registers
  | succ left ih =>
    have inside : read < columns.length := by omega
    have rest := @ih (registers.set (read + 1) (record.column read).value) (read + 1) (by omega)
    rw [Record.project_succ] at rest
    exact .proceed (Catalog.scan_reading inside)
      (Machine.execute_column _ _ (by decide) rfl here (by omega) (by omega)) rest

theorem emits {rows : List Row} {ending : Option Error} (short : columns.length ≤ 65535)
    (here : tree.record? = some record)
    (onward : ∀ registers, Runs (scanning root cookie columns (3 + columns.length + 1) tree registers #[]) image rows
      ending image) (registers : Registers) :
    Runs (scanning root cookie columns 3 tree registers #[]) image (record.project columns.length :: rows) ending image :=
  reads short here registers (Nat.zero_add _) fun registers => .emit (Catalog.scan_closing 0) rfl (onward registers)

theorem halts (registers : Registers) (row : Row) :
    Runs (scanning root cookie columns (3 + columns.length + 2) tree registers row) image [] none image :=
  .halt (Catalog.scan_closing 2) rfl

private theorem executes_next (counter : Nat) (registers : Registers) :
    (scanning root cookie columns counter tree registers #[]).execute (Catalog.instruction .next 0 3 0 0 1) image =
      match Machine.move tree.next image with
      | (.error reason, after) => (.error reason, after)
      | (.ok (true, tree), after) => (.ok (.jump 3, scanning root cookie columns counter tree registers #[]), after)
      | (.ok (false, tree), after) => (.ok (.proceed, scanning root cookie columns counter tree registers #[]), after) := by
  have inside : 3 < (Catalog.scan root cookie columns).instructions.size := by
    rw [Catalog.scan_size]
    omega
  have isOpen : (scanning root cookie columns counter tree registers #[]).cursorAt 0 = .ok tree := rfl
  refine (@Machine.execute_next _ _ _ image 0 3 _ (.integer 0) 1 (by omega) inside (by omega) isOpen).trans ?_
  rcases Machine.move tree.next image with ⟨_ | ⟨_ | _, _⟩, _⟩ <;> rfl

private theorem executes_rewind (short : columns.length ≤ 65535) (registers : Registers) :
    (scanning root cookie columns 2 tree registers #[]).execute
        (Catalog.instruction .rewind 0 (Int64.ofNat (columns.length + 5)) 0 0 0) image =
      match Machine.move tree.reset.next image with
      | (.error reason, after) => (.error reason, after)
      | (.ok (true, tree), after) => (.ok (.proceed, scanning root cookie columns 2 tree registers #[]), after)
      | (.ok (false, tree), after) =>
        (.ok (.jump (columns.length + 5), scanning root cookie columns 2 tree registers #[]), after) := by
  have inside : columns.length + 5 < (Catalog.scan root cookie columns).instructions.size := by
    rw [Catalog.scan_size]
    omega
  have isOpen : (scanning root cookie columns 2 tree registers #[]).cursorAt 0 = .ok tree := rfl
  refine (@Machine.execute_rewind _ _ _ image 0 (columns.length + 5) _ (.integer 0) 0 (by omega) inside (by omega)
    isOpen).trans ?_
  rcases Machine.move tree.reset.next image with ⟨_ | ⟨_ | _, _⟩, _⟩ <;> rfl

theorem loops (short : columns.length ≤ 65535) (registers : Registers) (sound : tree.Sound image)
    (clear : tree.failure = none) (here : tree.record? = some record) :
    Runs (scanning root cookie columns 3 tree registers #[]) image
      ((record :: Finding.leading (tree.upcoming image)).map (·.project columns.length))
      (Finding.stopping? (tree.upcoming image)) image := by
  -- By what is still to come; cursor, record and registers are others in every round.
  generalize coming : tree.upcoming image = later
  induction later generalizing tree record registers with
  | nil =>
    apply emits short here
    intro registers
    obtain ⟨after, moved⟩ := sound.next_ended clear coming
    have next := @executes_next image root cookie columns tree (3 + columns.length + 1) registers
    rw [moved] at next
    exact .proceed (Catalog.scan_closing 1) next (halts registers #[])
  | cons first later ih =>
    apply emits short here
    intro registers
    have next := @executes_next image root cookie columns tree (3 + columns.length + 1) registers
    cases first with
    | failure reason =>
      rw [sound.next_failed clear coming] at next
      exact .refused (Catalog.scan_closing 1) next
    | record other =>
      obtain ⟨after, moved, stays, still, there, rest⟩ := sound.next_found clear coming
      rw [moved] at next
      exact .jump (Catalog.scan_closing 1) next (ih registers stays still there rest)

theorem rewinds (short : columns.length ≤ 65535) (registers : Registers) (sound : tree.Sound image)
    (clear : tree.failure = none) :
    Runs (scanning root cookie columns 2 tree registers #[]) image
      ((Finding.leading (tree.reset.upcoming image)).map (·.project columns.length))
      (Finding.stopping? (tree.reset.upcoming image)) image := by
  have here := @Catalog.scan_opening root cookie columns 2 (by omega)
  have rewind := @executes_rewind image root cookie columns tree short registers
  have start := sound.reset
  cases coming : tree.reset.upcoming image with
  | nil =>
    obtain ⟨after, moved⟩ := start.next_ended clear coming
    rw [moved] at rewind
    have closing := @halts image root cookie columns after registers #[]
    rw [show 3 + columns.length + 2 = columns.length + 5 by omega] at closing
    exact .jump here rewind closing
  | cons first later =>
    cases first with
    | failure reason =>
      rw [start.next_failed clear coming] at rewind
      exact .refused here rewind
    | record record =>
      obtain ⟨after, moved, stays, still, there, rfl⟩ := start.next_found clear coming
      rw [moved] at rewind
      exact .proceed here rewind (loops short registers stays still there)

private theorem starts {rows : List Row} {ending : Option Error} (short : columns.length ≤ 65535)
    (onward : Runs { program := Catalog.scan root cookie columns, counter := columns.length + 6 } image rows ending image) :
    Runs { program := Catalog.scan root cookie columns } image rows ending image := by
  have inside : columns.length + 6 < (Catalog.scan root cookie columns).instructions.size := by
    rw [Catalog.scan_size]
    omega
  have here := @Catalog.scan_opening root cookie columns 0 (by omega)
  have jumps := @Machine.execute_init _ _ { program := Catalog.scan root cookie columns } image (columns.length + 6)
    (.integer 0) 0 (by omega) inside (by omega)
  exact .jump here jumps onward

private theorem executes_transaction :
    Machine.execute { program := Catalog.scan root cookie columns, counter := columns.length + 6 }
        (Catalog.instruction .transaction 0 0 cookie 0 1) image =
      match image.header with
      | .error reason => (.error reason, image)
      | .ok header =>
        if cookie.toInt = header.schemaCookie.toNat then
          (.ok (.proceed, { program := Catalog.scan root cookie columns, counter := columns.length + 6 }), image)
        else (.error (.machine (.schemaMismatch cookie header.schemaCookie)), image) := by
  refine (Machine.execute_transaction _ image (by decide)).trans ?_
  have asked : Source.header image = (image.header, image) := rfl
  rw [asked]
  cases image.header <;> rfl

private theorem transaction_at : (Catalog.scan root cookie columns).instructions[columns.length + 6]? =
    some (Catalog.instruction .transaction 0 0 cookie 0 1) := by
  rw [show columns.length + 6 = 3 + columns.length + 3 by omega]
  exact Catalog.scan_closing 3

theorem unread {reason : Error} (short : columns.length ≤ 65535) (failed : image.header = .error reason) :
    Runs { program := Catalog.scan root cookie columns } image [] (some reason) image := by
  have refused := @executes_transaction image root cookie columns
  rw [failed] at refused
  exact starts short (.refused transaction_at refused)

theorem stale {header : Header} (short : columns.length ≤ 65535) (parsed : image.header = .ok header)
    (changed : cookie.toInt ≠ header.schemaCookie.toNat) :
    Runs { program := Catalog.scan root cookie columns } image []
      (some (.machine (.schemaMismatch cookie header.schemaCookie))) image := by
  have refused := @executes_transaction image root cookie columns
  rw [parsed] at refused
  simp only [if_neg changed] at refused
  exact starts short (.refused transaction_at refused)

private theorem opens {page : UInt32} (counted : page ≠ 0) (short : columns.length ≤ 65535) :
    Runs { program := Catalog.scan (.ofNat page.toNat) cookie columns, counter := 1 } image
      ((Finding.leading (image.findings [] page none)).map (·.project columns.length))
      (Finding.stopping? (image.findings [] page none)) image := by
  have here := @Catalog.scan_opening (.ofNat page.toNat) cookie columns 1 (by omega)
  have ran := @Machine.execute_openRead _ _ { program := Catalog.scan (.ofNat page.toNat) cookie columns, counter := 1 } image
    0 (.integer (.ofNat columns.length)) 0 page counted (by omega)
  rcases opened : Tree.openAt page image with ⟨outcome, after⟩
  rw [opened] at ran
  cases outcome with
  | error reason =>
    obtain ⟨found, rfl⟩ := Tree.openAt_failed opened
    rw [found]
    exact .refused here ran
  | ok tree =>
    obtain ⟨sound, rfl, clear, _, rfl⟩ := Tree.openAt_sound opened
    have rest := @rewinds _ (.ofNat tree.root.toNat) cookie columns tree short {} sound clear
    rw [sound.upcoming_reset] at rest
    exact .proceed here ran rest

theorem current {page : UInt32} {header : Header} (counted : page ≠ 0) (short : columns.length ≤ 65535)
    (parsed : image.header = .ok header) (same : cookie.toInt = header.schemaCookie.toNat) :
    Runs { program := Catalog.scan (.ofNat page.toNat) cookie columns } image
      ((Finding.leading (image.findings [] page none)).map (·.project columns.length))
      (Finding.stopping? (image.findings [] page none)) image := by
  have passed := @executes_transaction image (.ofNat page.toNat) cookie columns
  rw [parsed] at passed
  simp only [if_pos same] at passed
  have here : (Catalog.scan (.ofNat page.toNat) cookie columns).instructions[columns.length + 6 + 1]? =
      some (Catalog.instruction .goto 0 1 0 0 0) := by
    rw [show columns.length + 6 + 1 = 3 + columns.length + 4 by omega]
    exact Catalog.scan_closing 4
  have inside : 1 < (Catalog.scan (.ofNat page.toNat) cookie columns).instructions.size := by
    rw [Catalog.scan_size]
    omega
  have jumps := @Machine.execute_goto _ _
    { program := Catalog.scan (.ofNat page.toNat) cookie columns, counter := columns.length + 6 + 1 } image 1 (.integer 0) 0
    (by omega) inside
  exact starts short (.proceed transaction_at passed (.jump here jumps (opens counted short)))

end Scan

/-- A scan of a file that nobody changes or locks comes to an end. Its rows are the leading
columns of the records that a fresh walk shows before its first failure, and it ends with
that failure; a header or a root that cannot be read, or another schema, ends it before the
first row. -/
theorem scan_projects_walk {image : Image} {pager : Pager} (serves : pager.Serves image) {root : UInt32}
    (counted : root ≠ 0) (cookie : Int64) {columns : List String} (short : columns.length ≤ 65535) :
    ∃ rows ending last,
      Runs { program := Catalog.scan (.ofNat root.toNat) cookie columns } pager rows ending last ∧ last.Serves image ∧
      match image.header with
      | .error reason => rows = [] ∧ ending = some reason
      | .ok header =>
        if cookie.toInt ≠ header.schemaCookie.toNat then
          rows = [] ∧ ending = some (.machine (.schemaMismatch cookie header.schemaCookie))
        else
          match Tree.openAt root pager with
          | (.error reason, _) => rows = [] ∧ ending = some reason
          | (.ok tree, opened) =>
            let walk := image.findings [] root none
            tree.Shows opened walk ∧ rows = (Finding.leading walk).map (·.project columns.length) ∧
              ending = Finding.stopping? walk := by
  have transferred : ∀ {rows ending}, Runs { program := Catalog.scan (.ofNat root.toNat) cookie columns } image rows
      ending image → ∃ last, Runs { program := Catalog.scan (.ofNat root.toNat) cookie columns } pager rows ending last ∧
        last.Serves image := fun ran => Pager.alike_image.symm.runs ran serves
  cases parsed : image.header with
  | error reason =>
    obtain ⟨last, ran, kept⟩ := transferred (Scan.unread short parsed)
    exact ⟨_, _, last, ran, kept, rfl, rfl⟩
  | ok header =>
    by_cases current : cookie.toInt = header.schemaCookie.toNat
    · obtain ⟨last, ran, kept⟩ := transferred (Scan.current counted short parsed current)
      refine ⟨_, _, last, ran, kept, ?_⟩
      dsimp only
      rw [if_neg (not_not_intro current)]
      obtain ⟨outcome, opened, copy, same, answer, stays⟩ := Pager.alike_image.openAt root pager image serves
      rw [same]
      cases outcome with
      | error reason =>
        rw [(Tree.openAt_failed answer).1]
        exact ⟨rfl, rfl⟩
      | ok tree => exact ⟨Tree.shows_opened answer stays, rfl, rfl⟩
    · obtain ⟨last, ran, kept⟩ := transferred (Scan.stale short parsed current)
      refine ⟨_, _, last, ran, kept, ?_⟩
      dsimp only
      rw [if_pos current]
      exact ⟨rfl, rfl⟩

theorem scan_projects_loop :
    Sample.file.opened.Serves Sample.file ∧ (2 : UInt32) ≠ 0 ∧ ["key", "value"].length ≤ 65535 ∧
      ∃ last, Runs { program := Catalog.scan 2 7 ["key", "value"] } Sample.file.opened [#[.blob [107], .integer 42]]
        (some (.corrupt (.treeCycle 2))) last := by
  have serves := Pager.Serves.opened Sample.file
  have counted : (2 : UInt32) ≠ 0 := by decide
  have short : ["key", "value"].length ≤ 65535 := by decide
  obtain ⟨rows, ending, last, ran, _, result⟩ := scan_projects_walk serves counted 7 short
  obtain ⟨_, after, _, opened, answer, _⟩ := Pager.alike_image.openAt 2 _ _ serves
  have decoded : Source.node 2 none Sample.file = (.ok _, Sample.file) := congrArg (·, Sample.file) Sample.loop_node
  cases (Tree.openAt_of_ok decoded).symm.trans answer
  have current : ¬ (7 : Int64).toInt ≠ Sample.header.schemaCookie.toNat := by decide
  simp only [Sample.file_header, if_neg current, opened, Sample.findings_loop] at result
  obtain ⟨_, rfl, rfl⟩ := result
  exact ⟨serves, counted, short, last, ran⟩

end SqliteReader
