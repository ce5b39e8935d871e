import SqliteReader.Catalog
import SqliteReader.Proofs.InstructionSteps
import SqliteReader.Proofs.KeySearch

/-! Runs of lookups by key. The key is cast to a blob, the index is searched for the first
entry that is not below it, and from an entry with that key its rowid leads on to the row
of the table. -/

namespace SqliteReader.Lookup

variable {image : Image} {table index cookie : Int64} {key : String} {rows entries : Tree} {row entry : Record}

def looking (table index cookie : Int64) (key : String) (counter : Nat) (cursors : Array (Option Tree))
    (registers : Registers) : Machine where
  program := Catalog.lookup table index cookie key
  counter := counter
  cursors := cursors
  registers := registers

theorem shows_row (registers : Registers) (onRow : rows.record? = some row) (onEntry : entries.record? = some entry) :
    Runs (looking table index cookie key 9 #[some rows, some entries] registers) image
      [#[(entry.column 0).value, (row.column 1).value]] none image := by
  refine .proceed rfl (Machine.execute_column _ _ (by decide) rfl onEntry (by decide) (by decide)) ?_
  refine .proceed rfl (Machine.execute_column _ _ (by decide) rfl onRow (by decide) (by decide)) ?_
  exact .emit rfl rfl (.halt rfl rfl)

variable {records : List Record}

def dereferenced (records : List Record) (entry : Record) : List Row × Option Error :=
  match records.find? fun row => row.rowid = entry.rowid with
  | some row => ([#[(entry.column 0).value, (row.column 1).value]], none)
  | none => ([], some (.machine (.cursorNotPositioned 0)))

theorem seeks_row (sound : rows.Sound image) (clear : rows.failure = none)
    (walk : image.findings [] rows.root none = records.map .record)
    (ascending : records.Pairwise fun first second => first.rowid < second.rowid)
    (onEntry : entries.record? = some entry) (registers : Registers) :
    Runs (looking table index cookie key 8 #[some rows, some entries] registers) image (dereferenced records entry).1
      (dereferenced records entry).2 image := by
  obtain ⟨after, moved, here⟩ := sound.seekRowid_find clear walk entry.rowid ascending
  have sought := @Machine.execute_deferredSeek _ _ (looking table index cookie key 8 #[some rows, some entries] registers)
    image 0 rows entry (.integer 0) 0 1 0 (by omega) rfl (Machine.record_ok _ rfl rfl onEntry)
  rw [moved] at sought
  unfold dereferenced
  cases found : records.find? fun row => row.rowid = entry.rowid with
  | none =>
    rw [found] at sought
    exact .refused rfl sought
  | some row =>
    rw [found] at sought
    exact .proceed rfl sought (shows_row registers (here row found) onEntry)

def outcome (key : String) (records known : List Record) : List Row × Option Error :=
  match known.find? fun entry => (entry.column 0).value = .blob (Utf8.encode key) with
  | some entry => dereferenced records entry
  | none => ([], none)

private theorem keyed {registers : Registers} (wanted : registers.get 1 = .blob (Utf8.encode key)) (counter : Nat)
    (cursors : Array (Option Tree)) {opcode : Opcode} {first second : Int64} :
    (looking table index cookie key counter cursors registers).key ⟨opcode, first, second, 1, .integer 1, 0⟩ =
      .ok [.blob (Utf8.encode key)] := by
  rw [← wanted]
  exact Machine.key_single _ (by decide)

private theorem ends (registers : Registers) :
    Runs (looking table index cookie key 12 #[some rows, some entries] registers) image [] none image := .halt rfl rfl

variable {known : List Record}

theorem seeks_entry (sound : rows.Sound image) (clear : rows.failure = none)
    (walk : image.findings [] rows.root none = records.map .record)
    (ascending : records.Pairwise fun first second => first.rowid < second.rowid)
    (indexSound : entries.Sound image) (indexClear : entries.failure = none)
    (indexWalk : image.findings [] entries.root none = known.map .record)
    (ordered : known.Pairwise fun first second => (first.column 0).value.compare (second.column 0).value ≠ .gt)
    {registers : Registers} (wanted : registers.get 1 = .blob (Utf8.encode key)) :
    Runs (looking table index cookie key 6 #[some rows, some entries] registers) image (outcome key records known).1
      (outcome key records known).2 image := by
  have inside : 12 < (Catalog.lookup table index cookie key).instructions.size := (by omega : 12 < 15)
  obtain ⟨after, moved, here⟩ := indexSound.seekKey_find indexClear indexWalk [.blob (Utf8.encode key)]
  have sought := @Machine.execute_seekGE _ _ (looking table index cookie key 6 #[some rows, some entries] registers) image
    1 12 entries (.integer 1) 0 (by omega) inside 1 _ (by omega) rfl (keyed wanted _ _)
  rw [moved] at sought
  rw [outcome, find_key ordered]
  cases found : known.find? fun record => record.comparePrefix [.blob (Utf8.encode key)] != .lt with
  | none =>
    rw [found] at sought
    exact .jump rfl sought (ends registers)
  | some entry =>
    rw [found] at sought
    have onEntry := here entry found
    have reached := List.find?_some found
    have compared := @Machine.execute_idxGT _ _ (looking table index cookie key 7 #[some rows, some after] registers) image
      12 entry 1 (.integer 1) 0 (by omega) inside 1 _ (keyed wanted _ _) (Machine.record_ok _ rfl rfl onEntry)
    refine .proceed rfl sought ?_
    by_cases same : (entry.column 0).value = .blob (Utf8.encode key)
    · have equal := Value.compare_blob_eq.mpr same
      rw [Record.comparePrefix_single, equal] at compared
      rw [Option.filter_some_pos (by simpa using same)]
      exact .proceed rfl compared (seeks_row sound clear walk ascending onEntry registers)
    · rw [Option.filter_some_neg (by simpa using same)]
      rw [Record.comparePrefix_gt reached same] at compared
      exact .jump rfl compared (ends registers)

/-- The key is made a blob, and found again in its register. -/
theorem casts (registers : Registers) {rows' : List Row} {ending : Option Error}
    (onward : ∀ registers : Registers, registers.get 1 = .blob (Utf8.encode key) →
      Runs (looking table index cookie key 6 #[some rows, some entries] registers) image rows' ending image) :
    Runs (looking table index cookie key 3 #[some rows, some entries] registers) image rows' ending image := by
  obtain ⟨after, cast, wanted⟩ := @Registers.cast_set registers 1 (.text key) (.blob (Utf8.encode key)) .blob rfl
  have filled : (after.get 1).isNull = false := by
    rw [wanted]
    rfl
  refine .proceed rfl (Machine.execute_string8 _ _ (by decide) key) ?_
  refine .proceed rfl (Machine.execute_cast _ _ (by decide) rfl cast) ?_
  exact .proceed rfl (Machine.execute_isNull _ _ (by decide) filled) (onward after wanted)

theorem runs {table index : UInt32} {header : Header} (parsed : image.header = .ok header)
    (current : cookie.toInt = header.schemaCookie.toNat)
    (walk : image.findings [] table none = records.map .record)
    (ascending : records.Pairwise fun first second => first.rowid < second.rowid)
    (indexWalk : image.findings [] index none = known.map .record)
    (ordered : known.Pairwise fun first second => (first.column 0).value.compare (second.column 0).value ≠ .gt) :
    Runs { program := Catalog.lookup (.ofNat table.toNat) (.ofNat index.toNat) cookie key } image
      (outcome key records known).1 (outcome key records known).2 image := by
  obtain ⟨counted, rows, opened, sound, rfl, clear⟩ := Tree.openAt_of_records walk
  obtain ⟨indexCounted, entries, indexOpened, indexSound, rfl, indexClear⟩ := Tree.openAt_of_records indexWalk
  have asked : Source.header image = (.ok header, image) := congrArg (·, image) parsed
  have tableOpens :
      (looking (.ofNat rows.root.toNat) (.ofNat entries.root.toNat) cookie key 1 #[] {}).execute
          (Catalog.instruction .openRead 0 (.ofNat rows.root.toNat) 0 2 0) image =
        (.ok (.proceed, looking (.ofNat rows.root.toNat) (.ofNat entries.root.toNat) cookie key 1 #[some rows] {}), image) :=
    Machine.execute_openRead_ok _ image (by decide) counted opened
  have indexOpens :
      (looking (.ofNat rows.root.toNat) (.ofNat entries.root.toNat) cookie key 2 #[some rows] {}).execute
          (Catalog.instruction .openRead 1 (.ofNat entries.root.toNat) 0 2 2) image =
        (.ok (.proceed, looking (.ofNat rows.root.toNat) (.ofNat entries.root.toNat) cookie key 2
          #[some rows, some entries] {}), image) :=
    Machine.execute_openRead_ok _ image (by decide) indexCounted indexOpened
  refine .jump rfl (@Machine.execute_init _ _ _ image 13 _ _ (by omega) (by omega : 13 < 15) (by omega)) ?_
  refine .proceed rfl (Machine.execute_transaction_current _ image (by decide) asked current) ?_
  refine .jump rfl (@Machine.execute_goto _ _ _ image 1 _ _ (by omega) (by omega : 1 < 15)) ?_
  refine .proceed rfl tableOpens (.proceed rfl indexOpens ?_)
  apply casts {}
  intro registers wanted
  exact seeks_entry sound clear walk ascending indexSound indexClear indexWalk ordered wanted

end SqliteReader.Lookup

namespace SqliteReader

/-- A lookup by key over a file that nobody changes or locks comes to an end. Where the index
ascends by its first column and the table by its rowids, the first entry with the key
decides: without one there is no row, with one the row that it points to is the only one,
and an entry that points to no row ends the lookup with an error. -/
theorem lookup_dereferences {image : Image} {pager : Pager} (serves : pager.Serves image) {header : Header}
    (parsed : image.header = .ok header) {cookie : Int64} (current : cookie.toInt = header.schemaCookie.toNat)
    (key : String) {table index : UInt32} {rows entries : List Record} (tableWalk : Tree.Walks pager table rows)
    (indexWalk : Tree.Walks pager index entries)
    (ordered : entries.Pairwise fun first second => (first.column 0).value.compare (second.column 0).value ≠ .gt)
    (ascending : rows.Pairwise fun first second => first.rowid < second.rowid) :
    ∃ emitted ending last,
      Runs { program := Catalog.lookup (.ofNat table.toNat) (.ofNat index.toNat) cookie key } pager emitted ending last ∧
      last.Serves image ∧
      match entries.find? fun entry => (entry.column 0).value = .blob (Utf8.encode key) with
      | none => emitted = [] ∧ ending = none
      | some entry =>
        match rows.find? fun row => row.rowid = entry.rowid with
        | some row => emitted = [#[.blob (Utf8.encode key), (row.column 1).value]] ∧ ending = none
        | none => emitted = [] ∧ ending = some (.machine (.cursorNotPositioned 0)) := by
  have ran := @Lookup.runs _ _ key _ _ _ _ _ parsed current (tableWalk.findings serves) ascending
    (indexWalk.findings serves) ordered
  obtain ⟨last, ran, kept⟩ := Pager.alike_image.symm.runs ran serves
  refine ⟨_, _, last, ran, kept, ?_⟩
  unfold Lookup.outcome
  cases found : entries.find? fun entry => (entry.column 0).value = .blob (Utf8.encode key) with
  | none => exact ⟨rfl, rfl⟩
  | some entry =>
    have keyed : (entry.column 0).value = .blob (Utf8.encode key) := by simpa using List.find?_some found
    simp only [Lookup.dereferenced, keyed]
    cases rows.find? fun row => row.rowid = entry.rowid with
    | none => exact ⟨rfl, rfl⟩
    | some row => exact ⟨rfl, rfl⟩

theorem lookup_dereferences_row :
    Sample.file.opened.Serves Sample.file ∧ Sample.file.header = .ok Sample.header ∧
      (7 : Int64).toInt = Sample.header.schemaCookie.toNat ∧ Tree.Walks Sample.file.opened 3 [Sample.row] ∧
      Tree.Walks Sample.file.opened 4 [Sample.entry] ∧
      ∃ last, Runs { program := Catalog.lookup 3 4 7 "k" } Sample.file.opened [#[.blob [107], .integer 42]] none last := by
  have serves := Pager.Serves.opened Sample.file
  have tableWalk : Tree.Walks Sample.file.opened 3 [Sample.row] := Tree.walks_of_findings serves Sample.findings_row
  have indexWalk : Tree.Walks Sample.file.opened 4 [Sample.entry] := Tree.walks_of_findings serves Sample.findings_entry
  have current : (7 : Int64).toInt = Sample.header.schemaCookie.toNat := by decide
  obtain ⟨emitted, ending, last, ran, _, result⟩ := lookup_dereferences serves Sample.file_header current "k" tableWalk
    indexWalk (List.pairwise_singleton _ _) (List.pairwise_singleton _ _)
  have keyed : ([Sample.entry].find? fun entry => (entry.column 0).value = .blob (Utf8.encode "k")) = some Sample.entry := by
    decide
  have pointed : ([Sample.row].find? fun row => row.rowid = Sample.entry.rowid) = some Sample.row := by decide
  rw [keyed] at result
  simp only [pointed] at result
  obtain ⟨rfl, rfl⟩ := result
  exact ⟨serves, Sample.file_header, current, tableWalk, indexWalk, last, ran⟩

end SqliteReader
