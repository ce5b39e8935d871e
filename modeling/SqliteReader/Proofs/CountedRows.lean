import SqliteReader.Proofs.ServedRows

/-! A count beside a scan of the same table. Both walk over the tree from its start, one
gathering records, the other emitting rows through a program and its execution, so that they
come to the same number or to the same failure. -/

namespace SqliteReader

namespace Finding

/-- A walk is its records if nothing stops it. -/
theorem eq_records {walk : List Finding} (whole : stopping? walk = none) : walk = (leading walk).map .record := by
  induction walk with
  | nil => rfl
  | cons first walk ih =>
    cases first with
    | record record => exact congrArg (.record record :: ·) (ih whole)
    | failure reason => cases whole

/-- All records, or the failure that comes before the end. -/
def whole (walk : List Finding) : Except Error (List Record) :=
  match stopping? walk with
  | some reason => .error reason
  | none => .ok (leading walk)

theorem whole_ok_iff {walk : List Finding} {records : List Record} :
    whole walk = .ok records ↔ walk = records.map .record := by
  constructor
  · intro all
    unfold whole at all
    split at all
    · cases all
    next none =>
      cases all
      exact eq_records none
  · rintro rfl
    simp [whole]

theorem whole_error_iff {walk : List Finding} {reason : Error} :
    whole walk = .error reason ↔ stopping? walk = some reason := by
  unfold whole
  cases stopping? walk <;> simp

end Finding

theorem readTree_findings (image : Image) (root : UInt32) :
    readTree root image = ((Finding.whole (image.findings [] root none)).map List.toArray, image) := by
  rcases opened : Tree.openAt root image with ⟨outcome, after⟩
  cases outcome with
  | error reason =>
    obtain ⟨found, rfl⟩ := Tree.openAt_failed opened
    rw [readTree, opened, found]
    rfl
  | ok tree =>
    obtain ⟨sound, rfl, clear, start, rfl⟩ := Tree.openAt_sound opened
    obtain ⟨found, passed, after, ran, _, _, _, stops⟩ := Tree.search_stops sound clear fun _ => false
    have coming := sound.upcoming_reset
    rw [start] at coming
    simp only [readTree, opened, Tree.rest, ran, ← coming]
    cases stops with
    | found record here wanted => cases wanted
    | failed reason latched rest =>
      simp [rest, Finding.whole, Finding.stopping?, latched, Except.map]
    | ended still emptied rest =>
      simp [rest, Finding.whole, still, Except.map]

namespace Schema

theorem entries_findings (image : Image) :
    entries image = ((Finding.whole (image.findings [] rootPage none)).map (·.map SchemaEntry.ofRecord), image) := by
  rw [entries, Using.bind_pure (readTree_findings image rootPage)]
  cases Finding.whole (image.findings [] rootPage none) <;> rfl

theorem countRows_findings {image : Image} {entries : List SchemaEntry} {table : String} {entry : SchemaEntry}
    (listed : Schema.entries image = (.ok entries, image))
    (first : (entries.find? fun entry => entry.isTable && entry.name == table) = some entry) :
    countRows table image =
      ((Finding.whole (image.findings [] entry.rootPage none)).map fun records => some records.length, image) := by
  rw [countRows, Using.bind_of_ok listed, first]
  refine (Using.bind_pure (readTree_findings image entry.rootPage) _).trans ?_
  cases Finding.whole (image.findings [] entry.rootPage none) <;> rfl

end Schema

/-- An execution of a program hands out these rows and then this result. -/
def Delivers (program : Program) (capacity : Nat) (pager : Pager) (rows : List Row) (result : Except Error Unit) : Prop :=
  ∃ execution last, Served program capacity pager execution last (rows.map .row ++ [.ofResult result])

theorem ofResult_ne_row (result : Except Error Unit) (row : Row) : Reply.ofResult result ≠ .row row := by
  intro same
  rcases result with _ | ⟨⟨⟩⟩ <;> cases same

/-- Rows come before a result, so that a sequence with both tells them apart. -/
theorem rows_result_inj {rows others : List Row} {result other : Except Error Unit} {more : List Reply}
    (same : rows.map .row ++ [.ofResult result] = others.map .row ++ .ofResult other :: more) :
    rows = others ∧ result = other := by
  induction rows generalizing others with
  | nil =>
    cases others with
    | nil =>
      have told := (List.cons.inj same).1
      refine ⟨rfl, ?_⟩
      rcases result with _ | ⟨⟨⟩⟩ <;> rcases other with _ | ⟨⟨⟩⟩ <;> cases told <;> rfl
    | cons row others => exact absurd (List.cons.inj same).1 (ofResult_ne_row result row)
  | cons row rows ih =>
    cases others with
    | nil => exact absurd (List.cons.inj same).1.symm (ofResult_ne_row other row)
    | cons first others =>
      obtain ⟨here, rest⟩ := List.cons.inj same
      obtain ⟨rfl, rfl⟩ := ih rest
      cases here
      exact ⟨rfl, rfl⟩

/-- What an execution hands out is what its program runs through. -/
theorem delivers_iff {program : Program} {capacity : Nat} {pager : Pager} {rows : List Row} {result : Except Error Unit} :
    Delivers program capacity pager rows result ↔ ∃ last, Runs { program } pager rows (failureOf result) last := by
  constructor
  · rintro ⟨execution, last, served⟩
    have told := served.tells
    generalize same : rows.map Reply.row ++ [.ofResult result] = all at told
    cases told with
    | @rows taken =>
      have member : Reply.ofResult result ∈ taken.map Reply.row := by simp [← same]
      obtain ⟨row, _, equal⟩ := List.mem_map.mp member
      exact absurd equal.symm (ofResult_ne_row result row)
    | ended ran more =>
      obtain ⟨rfl, rfl⟩ := rows_result_inj same
      exact ⟨_, ran⟩
  · rintro ⟨last, ran⟩
    exact Served.exists_served (@Told.ended _ _ _ _ rows result last ran 0)

/-- Over a file that stays as it is, a scan with the cookie of its header hands out as many
rows as its walk has records before a failure, and then that failure or the end. -/
theorem scan_delivers {image : Image} {root : UInt32} {header : Header} {columns : List String} {pager : Pager}
    (serves : pager.Serves image) (counted : root ≠ 0) (short : columns.length ≤ 65535) (parsed : image.header = .ok header)
    (capacity : Nat) {rows : List Row} {result : Except Error Unit} :
    Delivers (Catalog.scan (.ofNat root.toNat) (.ofNat header.schemaCookie.toNat) columns) capacity pager rows result ↔
      rows = (Finding.leading (image.findings [] root none)).map (·.project columns.length) ∧
        failureOf result = Finding.stopping? (image.findings [] root none) := by
  have same : (Int64.ofNat header.schemaCookie.toNat).toInt = header.schemaCookie.toNat := by
    have small := header.schemaCookie.toNat_lt
    exact Int64.toInt_ofNat_of_lt (by omega)
  obtain ⟨last, ran, _⟩ := Pager.alike_image.symm.runs (Scan.current counted short parsed same) serves
  rw [delivers_iff]
  constructor
  · rintro ⟨_, other⟩
    obtain ⟨rfl, ending, _⟩ := other.unique ran
    exact ⟨rfl, ending⟩
  · rintro ⟨rfl, ending⟩
    exact ⟨last, ending ▸ ran⟩

/-- What opening a database leaves reads its file. -/
theorem Database.serves_of_connect {files : Database.Directory} {path : String} {pager : Pager} {image : Image}
    (opened : Database.connect files path = .ok pager)
    (steady : ∀ disk, files path = some disk → Pager.Over { disk } image) :
    pager.Serves image ∧ ∃ header, image.header = .ok header := by
  unfold Database.connect at opened
  cases found : files path with
  | none => simp [found] at opened
  | some disk =>
    have fresh : Pager.Serves { disk } image :=
      ⟨steady disk found, fun held => absurd rfl held, fun held => absurd rfl held⟩
    obtain ⟨after, ran, kept, _⟩ := fresh.header
    simp only [found, ran] at opened
    cases parsed : image.header with
    | error reason => simp [parsed] at opened
    | ok header =>
      simp only [parsed, Except.ok.injEq] at opened
      exact ⟨opened ▸ kept, header, rfl⟩

namespace Sample

def listing (rowid : Int64) (name root : UInt8) : Record :=
  ⟨rowid, [⟨23, [116, 97, 98, 108, 101]⟩, ⟨15, [name]⟩, ⟨15, [name]⟩, ⟨1, [root]⟩, ⟨0, []⟩]⟩

def listingPage : List UInt8 :=
  front ++ [13, 0, 0, 0, 2, 1, 224, 0, 1, 240, 1, 224] ++ List.replicate 368 0 ++
    [14, 2, 6, 23, 15, 15, 1, 0, 116, 97, 98, 108, 101, 117, 117, 2] ++
    [14, 1, 6, 23, 15, 15, 1, 0, 116, 97, 98, 108, 101, 116, 116, 3]

def blankPage : List UInt8 := List.replicate 512 0

/-- A table with a row, and one whose page is no page of a tree. -/
def database : Image := .ofPages [listingPage, blankPage, rowPage, entryPage]

theorem database_header : database.header = .ok header := Image.header_ofPages (by decide +kernel) (by decide +kernel)

private theorem database_page {number : UInt32} {page : List UInt8} (inside : number ≤ header.databaseSize)
    (found : [listingPage, blankPage, rowPage, entryPage][number.toNat - 1]? = some page) (counted : number ≠ 0) :
    database.page number = .ok ⟨number, ⟨page.toArray⟩⟩ :=
  Image.page_ofPages database_header (by decide +kernel) inside found counted

private theorem listing_node : database.node 1 none =
    .ok { node 1 .tableLeaf 480 #[listing 1 116 3, listing 2 117 2] #[] none with cellCount := 2 } := by
  rw [Image.node, database_page (by decide) rfl (by decide)]
  decide +kernel

private theorem blank_node : database.node 2 none = .error (.corrupt (.unknownPageType 2 0)) := by
  rw [Image.node, database_page (by decide) rfl (by decide)]
  decide +kernel

private theorem table_node : database.node 3 none = .ok (node 3 .tableLeaf 505 #[row] #[] none) := by
  rw [Image.node, database_page (by decide) rfl (by decide)]
  decide +kernel

attribute [irreducible] database

theorem findings_listing : database.findings [] 1 none = [listing 1 116 3, listing 2 117 2].map .record := by
  rw [@Image.findings_of_node database [] 1 none _ List.not_mem_nil listing_node]
  rfl

theorem findings_blank : database.findings [] 2 none = [.failure (.corrupt (.unknownPageType 2 0))] := by
  rw [Image.findings, dif_neg List.not_mem_nil, Option.map_none, blank_node]

theorem findings_table : database.findings [] 3 none = [row].map .record := by
  rw [@Image.findings_of_node database [] 3 none _ List.not_mem_nil table_node]
  rfl

def tableEntry (name : String) (root : UInt32) : SchemaEntry :=
  { kind := "table", name, tableName := name, rootPage := root, sql := none }

theorem database_entries : Schema.entries database = (.ok [tableEntry "t" 3, tableEntry "u" 2], database) := by
  have tables :
      [listing 1 116 3, listing 2 117 2].map SchemaEntry.ofRecord = [tableEntry "t" 3, tableEntry "u" 2] := by
    decide +kernel
  rw [Schema.entries_findings, Schema.rootPage, Finding.whole_ok_iff.mpr findings_listing]
  exact congrArg (fun entries => (Except.ok entries, database)) tables

end Sample

/-- On a database that opens and whose schema can be read, counting a table and scanning it
come to the same: to a number of rows, which is that of the records of its tree of either
kind, or to a failure. Either may use the database after whatever has been done with it. -/
theorem counts_match_scans {files : Database.Directory} {path : String} {pager later : Pager} {image : Image}
    {entries : List SchemaEntry} (opened : Database.connect files path = .ok pager)
    (steady : ∀ disk, files path = some disk → Pager.Over { disk } image)
    (listed : Schema.entries pager = (.ok entries, later)) :
    pager.Serves image ∧ later.Serves image ∧ ∃ header, (Pager.header pager).1 = .ok header ∧
      ∀ table entry, (entries.find? fun entry => entry.isTable && entry.name == table) = some entry →
        entry.rootPage ≠ 0 → ∀ columns : List String, columns.length ≤ 65535 →
        ∀ counting scanning : Pager, counting.Serves image → scanning.Serves image → ∀ capacity,
          let program := Catalog.scan (.ofNat entry.rootPage.toNat) (.ofNat header.schemaCookie.toNat) columns
          (∀ count, (Schema.countRows table counting).1 = .ok (some count) ↔
            ∃ rows, rows.length = count ∧ Delivers program capacity scanning rows (.ok ())) ∧
          (∀ reason, (Schema.countRows table counting).1 = .error reason ↔
            ∃ rows, Delivers program capacity scanning rows (.error reason)) ∧
          ∀ count, (Schema.countRows table counting).1 = .ok (some count) ↔
            ∃ records : List Record, image.findings [] entry.rootPage none = records.map .record ∧
              records.length = count := by
  obtain ⟨serves, header, parsed⟩ := Database.serves_of_connect opened steady
  obtain ⟨after, told, _⟩ := serves.header
  obtain ⟨_, _, copy, same, answer, kept⟩ := Pager.alike_image.entries pager image serves
  cases same.symm.trans listed
  have unchanged : image = copy := (congrArg Prod.snd (Schema.entries_findings image)).symm.trans (congrArg Prod.snd answer)
  subst unchanged
  refine ⟨serves, kept, header, by rw [told, parsed], ?_⟩
  intro table entry first counted columns short counting scanning countServes scanServes capacity program
  obtain ⟨_, _, _, ran, copied, _⟩ := Pager.alike_image.countRows table counting image countServes
  cases copied.symm.trans (Schema.countRows_findings answer first)
  have delivers {rows : List Row} {result : Except Error Unit} :
      Delivers program capacity scanning rows result ↔
        rows = (Finding.leading (image.findings [] entry.rootPage none)).map (·.project columns.length) ∧
          failureOf result = Finding.stopping? (image.findings [] entry.rootPage none) :=
    scan_delivers scanServes counted short parsed capacity
  have all (count : Nat) : (Schema.countRows table counting).1 = .ok (some count) ↔
      ∃ records : List Record, image.findings [] entry.rootPage none = records.map .record ∧ records.length = count := by
    simp only [ran, ← Finding.whole_ok_iff]
    cases Finding.whole (image.findings [] entry.rootPage none) <;> simp [Except.map]
  refine ⟨?_, ?_, all⟩
  · intro count
    rw [all]
    constructor
    · rintro ⟨records, walk, length⟩
      exact ⟨records.map (·.project columns.length), by simp [length], delivers.mpr (by simp [walk, failureOf])⟩
    · rintro ⟨rows, length, delivered⟩
      obtain ⟨rfl, none⟩ := delivers.mp delivered
      exact ⟨_, Finding.eq_records none.symm, by simpa using length⟩
  · intro reason
    have failed : (Schema.countRows table counting).1 = .error reason ↔
        Finding.stopping? (image.findings [] entry.rootPage none) = some reason := by
      rw [ran, ← Finding.whole_error_iff]
      cases Finding.whole (image.findings [] entry.rootPage none) <;> simp [Except.map]
    rw [failed]
    constructor
    · intro stopping
      exact ⟨_, delivers.mpr ⟨rfl, stopping.symm⟩⟩
    · rintro ⟨rows, delivered⟩
      exact (delivers.mp delivered).2.symm

/-- One table counts one row, and so does a scan of it; the other one fails both ways. -/
theorem counts_match_scans_tables :
    ∃ pager : Pager, pager.Serves Sample.database ∧ (Schema.countRows "t" pager).1 = .ok (some 1) ∧
      (∃ rows, rows.length = 1 ∧ Delivers (Catalog.scan 3 7 ["key"]) 0 pager rows (.ok ())) ∧
      (Schema.countRows "u" pager).1 = .error (.corrupt (.unknownPageType 2 0)) ∧
      ∃ rows, Delivers (Catalog.scan 2 7 ["key"]) 0 pager rows (.error (.corrupt (.unknownPageType 2 0))) := by
  have fresh := Pager.Serves.opened Sample.database
  obtain ⟨pager, told, serves, _⟩ := fresh.header
  rw [Sample.database_header] at told
  have opened : Database.connect (fun _ => some Sample.database.opened.disk) "" = .ok pager := by
    simp only [Database.connect]
    rw [show Pager.header { disk := Sample.database.opened.disk } = _ from told]
  have steady (disk : Disk) (found : some Sample.database.opened.disk = some disk) :
      Pager.Over { disk } Sample.database := by
    cases found
    exact fresh.toOver
  obtain ⟨_, later, _, listed, answer, _⟩ := Pager.alike_image.entries pager _ serves
  cases answer.symm.trans Sample.database_entries
  obtain ⟨_, _, header, known, counts⟩ := counts_match_scans opened steady listed
  obtain ⟨_, again, _⟩ := serves.header
  rw [again, Sample.database_header] at known
  cases known
  obtain ⟨counted, _, records⟩ :=
    counts "t" (Sample.tableEntry "t" 3) rfl (by decide) ["key"] (by decide) pager pager serves serves 0
  obtain ⟨_, failed, _⟩ :=
    counts "u" (Sample.tableEntry "u" 2) rfl (by decide) ["key"] (by decide) pager pager serves serves 0
  have one := (records 1).mpr ⟨[Sample.row], Sample.findings_table, rfl⟩
  have blank : Delivers (Catalog.scan 2 7 ["key"]) 0 pager [] (.error (.corrupt (.unknownPageType 2 0))) := by
    have delivers := @scan_delivers _ 2 _ ["key"] _ serves (by decide) (by decide) Sample.database_header 0 []
    refine delivers.mpr ?_
    rw [Sample.findings_blank]
    exact ⟨rfl, rfl⟩
  exact ⟨pager, serves, one, (counted 1).mp one, (failed _).mpr ⟨_, blank⟩, _, blank⟩

end SqliteReader
