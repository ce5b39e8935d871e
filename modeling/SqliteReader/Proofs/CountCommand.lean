import SqliteReader.CommandLine
import SqliteReader.Proofs.BalancedReads
import SqliteReader.Proofs.BlankWords
import SqliteReader.Proofs.CountedRows
import SqliteReader.Proofs.NumberTexts

/-! Counts asked for on the command line. The command is told by how it begins, and the table by
its last word, whatever stands between: the number is that of the records of this table, and it
answers the statement that was asked only if there are four words, of which the third is `from`. -/

namespace SqliteReader

/-- So many records are in the table that is the first of this name in the schema. -/
def Image.HasRows (image : Image) (table : String) (rows : Nat) : Prop :=
  ∃ (listed records : List Record) (entry : SchemaEntry),
    image.findings [] Schema.rootPage none = listed.map .record ∧
    ((listed.map SchemaEntry.ofRecord).find? fun entry => entry.isTable && entry.name == table) = some entry ∧
    image.findings [] entry.rootPage none = records.map .record ∧ records.length = rows

theorem Schema.countRows_ok_iff {image : Image} {table : String} {rows : Nat} :
    (countRows table image).1 = .ok (some rows) ↔ image.HasRows table rows := by
  have listing := entries_findings image
  constructor
  · intro counted
    cases readable : Finding.whole (image.findings [] rootPage none) with
    | error reason =>
      rw [readable] at listing
      rw [countRows, Using.bind_of_error listing] at counted
      cases counted
    | ok listed =>
      rw [readable] at listing
      cases first : (listed.map SchemaEntry.ofRecord).find? fun entry => entry.isTable && entry.name == table with
      | none =>
        rw [countRows, Using.bind_of_ok listing, first] at counted
        cases counted
      | some entry =>
        rw [countRows_findings listing first] at counted
        cases whole : Finding.whole (image.findings [] entry.rootPage none) with
        | error reason =>
          rw [whole] at counted
          cases counted
        | ok records =>
          rw [whole] at counted
          cases counted
          exact ⟨listed, records, entry, Finding.whole_ok_iff.mp readable, first, Finding.whole_ok_iff.mp whole, rfl⟩
  · rintro ⟨listed, records, entry, readable, first, whole, rfl⟩
    rw [Finding.whole_ok_iff.mpr readable] at listing
    rw [countRows_findings listing first, Finding.whole_ok_iff.mpr whole]
    rfl

theorem Disk.free_of_acquireShared {disk after : Disk} (granted : disk.acquireShared = (true, after)) :
    disk.other.conflict? .read pendingByte = none ∧ disk.other.conflict? .read sharedRange = none := by
  have settled := congrArg Prod.fst granted
  by_cases pending : disk.other.conflict? .read pendingByte = none
  · refine ⟨pending, ?_⟩
    apply Classical.byContradiction
    intro shared
    have refused := Option.isSome_iff_ne_none.mpr shared
    simp [acquireShared, Acquisition.step, lockOwn, unlockOwn, pending, refused] at settled
  · have refused := Option.isSome_iff_ne_none.mpr pending
    simp [acquireShared, Acquisition.step, lockOwn, refused] at settled

theorem Pager.over_of_header {disk : Disk} {header : Header} {after : Pager}
    (told : Pager.header { disk } = (.ok header, after)) : Pager.Over { disk } ⟨disk.image⟩ := by
  rcases taken : disk.acquireShared with ⟨_ | _, locked⟩
  · simp [Pager.header, ensureShared, acquireShared, taken] at told
  · obtain ⟨pending, shared⟩ := Disk.free_of_acquireShared taken
    exact ⟨rfl, rfl, pending, shared⟩

theorem Database.serves_found {files : Directory} {path : String} {pager : Pager} (opened : connect files path = .ok pager) :
    ∃ disk, files path = some disk ∧ pager.Serves ⟨disk.image⟩ := by
  have known := opened
  unfold connect at known
  cases found : files path with
  | none => simp [found] at known
  | some disk =>
    rcases told : Pager.header { disk } with ⟨reason | header, after⟩
    · simp [found, told] at known
    · refine ⟨disk, rfl, (serves_of_connect opened ?_).1⟩
      intro other same
      cases found.symm.trans same
      exact Pager.over_of_header told

namespace Sample

theorem exists_opened : ∃ pager : Pager,
    Database.connect (fun _ => some database.opened.disk) "test.db" = .ok pager ∧ pager.Serves database := by
  have fresh := Pager.Serves.opened database
  obtain ⟨pager, told, serves, _⟩ := fresh.header
  rw [database_header] at told
  refine ⟨pager, ?_, serves⟩
  simp only [Database.connect]
  rw [show Pager.header { disk := database.opened.disk } = _ from told]

theorem database_rows : database.HasRows "t" 1 :=
  ⟨_, [row], tableEntry "t" 3, findings_listing, by decide +kernel, findings_table, rfl⟩

end Sample

namespace CommandLine

variable {files : Database.Directory} {path command : String} {pager : Pager}

/-- The one statement that is answered by a count, in letters of either case: four words, of
which the last names the table. -/
def CountStatement (command table : String) : Prop :=
  ∃ select count source, Text.words command = [select, count, source, table] ∧
    Text.folded select = "select".toList ∧ Text.folded count = "count(*)".toList ∧ Text.folded source = "from".toList

theorem words_of_count (counting : isCount command = true) :
    ∃ select count source rest, Text.words command = select :: count :: source :: rest ∧
      Text.folded select = "select".toList ∧ Text.folded count = "count(*)".toList ∧
      "from".toList <+: Text.folded source := by
  obtain ⟨tail, begins⟩ := List.isPrefixOf_iff_prefix.mp counting
  have spaced : Text.folded command = "select".toList ++ ' ' :: ("count(*)".toList ++ ' ' :: ("from".toList ++ tail)) :=
    begins.symm
  have words := Text.words_folded command
  have first : Text.wordsFrom [] "select".toList = ["select".toList] := by decide
  have second : Text.wordsFrom [] "count(*)".toList = ["count(*)".toList] := by decide
  have third : Text.wordsFrom [] ("from".toList ++ tail) =
      ("from".toList ++ tail.takeWhile fun character => !Text.isBlank character) ::
        Text.wordsFrom [] (tail.dropWhile fun character => !Text.isBlank character) :=
    Text.wordsFrom_begun (List.cons_ne_nil 'm' ['o', 'r', 'f']) tail
  rw [spaced, Text.wordsFrom_append_blank (by decide), Text.wordsFrom_append_blank (by decide), first, second, third]
    at words
  simp only [List.singleton_append, List.map_eq_cons_iff] at words
  obtain ⟨select, _, split, selects, count, _, rfl, counts, source, rest, rfl, sources, _⟩ := words
  exact ⟨select, count, source, rest, split, selects, counts, _, sources.symm⟩

theorem command_of_count (counting : isCount command = true) (arguments : List String) (pager : Pager) :
    CommandLine.command command arguments pager = count command pager := by
  have other (name : String) (different : isCount name = false) : command ≠ name := by
    rintro rfl
    rw [different] at counting
    cases counting
  simp only [CommandLine.command, if_neg (other _ (by decide : isCount ".dbinfo" = false)),
    if_neg (other _ (by decide : isCount ".tables" = false)), if_neg (other _ (by decide : isCount "header" = false)),
    if_neg (other _ (by decide : isCount "locks" = false)), if_neg (other _ (by decide : isCount "explain" = false)),
    if_neg (other _ (by decide : isCount "query" = false)), if_pos counting]

def Outcome.ofRows (table : String) : Except Error (Option Nat) → Outcome
  | .error reason => { failure := some (.ofError reason) }
  | .ok none => .failed ("Table not found: " ++ table)
  | .ok (some rows) => { printed := rows.repr ++ "\n" }

theorem count_of_last {table : String} (last : (Text.words command).getLast? = some table) (pager : Pager) :
    count command pager = (.ofRows table (Schema.countRows table pager).1, (Schema.countRows table pager).2) := by
  unfold count
  rw [last]
  dsimp only
  split <;> rename_i counted <;> rw [counted] <;> rfl

/-- A database that was opened for a count can be closed after it, so that nothing else is
reported than what the count came to. -/
theorem run_of_count {table : String} (opened : Database.connect files path = .ok pager)
    (counting : isCount command = true) (last : (Text.words command).getLast? = some table) (arguments : List String) :
    run files (path :: command :: arguments) = .ofRows table (Schema.countRows table pager).1 := by
  rcases counted : Schema.countRows table pager with ⟨result, after⟩
  have even := Pager.lasts_even.uses (Database.even_of_connect opened) (.counts counted)
  obtain ⟨closed, done⟩ := even.closes
  simp only [run, opened, command_of_count counting, count_of_last last, counted, done, ite_self]

theorem ofRows_iff {image : Image} {table : String} (serves : pager.Serves image) :
    (∀ rows : Nat, Outcome.ofRows table (Schema.countRows table pager).1 = { printed := rows.repr ++ "\n" } ↔
      image.HasRows table rows) ∧
    ((∀ rows, ¬ image.HasRows table rows) →
      (Outcome.ofRows table (Schema.countRows table pager).1).printed = "" ∧
        (Outcome.ofRows table (Schema.countRows table pager).1).code = 1) := by
  obtain ⟨result, after, _, ran, copied, _⟩ := Pager.alike_image.countRows table pager image serves
  have same (rows : Nat) : result = .ok (some rows) ↔ image.HasRows table rows := by
    rw [← Schema.countRows_ok_iff, copied]
  simp only [← same, ran]
  rcases result with reason | _ | counted
  · simp [Outcome.ofRows, Outcome.code]
  · simp [Outcome.ofRows, Outcome.code, Outcome.failed]
  · simp [Outcome.ofRows, repr_injective.eq_iff]

theorem countStatement_iff {select count source : String} {rest : List String}
    (split : Text.words command = select :: count :: source :: rest) (selects : Text.folded select = "select".toList)
    (counts : Text.folded count = "count(*)".toList) (table : String) :
    CountStatement command table ↔ Text.folded source = "from".toList ∧ rest = [table] := by
  constructor
  · rintro ⟨_, _, _, words, _, _, sources⟩
    cases split.symm.trans words
    exact ⟨sources, rfl⟩
  · rintro ⟨sources, rfl⟩
    exact ⟨select, count, source, split, selects, counts, sources⟩

theorem counts_between (between : String) {table : String} (word : Text.words table = [table]) :
    isCount ("select count(*) from" ++ between ++ " " ++ table) = true ∧
      (Text.words ("select count(*) from" ++ between ++ " " ++ table)).getLast? = some table := by
  constructor
  · rw [isCount, List.isPrefixOf_iff_prefix]
    refine ⟨(between ++ " " ++ table).toList.map Char.toLower, ?_⟩
    simp only [String.toList_append, List.map_append, List.append_assoc]
    rfl
  · rw [Text.words_append_blank, word, List.getLast?_concat]

/-- What a command prints that begins like a count. The number is that of the records of the
table that its last word names, and there is none if there is no such table or it cannot be
read. Of the words before the last one only the beginning is looked at, so that the command is
the statement that counts are for just if the third word ends there and one more follows. With
anything between, the last word is counted all the same. -/
theorem counts_follow_last_word (opened : Database.connect files path = .ok pager) :
    ∃ disk, files path = some disk ∧
      (∀ command arguments, isCount command = true →
        ∃ select count source rest table, Text.words command = select :: count :: source :: rest ∧
          Text.folded select = "select".toList ∧ Text.folded count = "count(*)".toList ∧
          "from".toList <+: Text.folded source ∧ (source :: rest).getLast? = some table ∧
          (∀ rows : Nat, run files (path :: command :: arguments) = { printed := rows.repr ++ "\n" } ↔
            Image.HasRows ⟨disk.image⟩ table rows) ∧
          ((∀ rows, ¬ Image.HasRows ⟨disk.image⟩ table rows) →
            (run files (path :: command :: arguments)).printed = "" ∧
              (run files (path :: command :: arguments)).code = 1) ∧
          ∀ named, CountStatement command named ↔ Text.folded source = "from".toList ∧ rest = [named]) ∧
      ∀ between table arguments (rows : Nat), Text.words table = [table] → Image.HasRows ⟨disk.image⟩ table rows →
        run files (path :: ("select count(*) from" ++ between ++ " " ++ table) :: arguments) =
          { printed := rows.repr ++ "\n" } := by
  obtain ⟨disk, found, serves⟩ := Database.serves_found opened
  refine ⟨disk, found, ?_, ?_⟩
  · intro command arguments counting
    obtain ⟨select, count, source, rest, split, selects, counts, sources⟩ := words_of_count counting
    obtain ⟨table, last⟩ : ∃ table, (source :: rest).getLast? = some table :=
      ⟨_, List.getLast?_eq_getLast_of_ne_nil (List.cons_ne_nil _ _)⟩
    have ends : (Text.words command).getLast? = some table := by
      rw [split, List.getLast?_cons_cons, List.getLast?_cons_cons]
      exact last
    obtain ⟨rows, unread⟩ := @ofRows_iff pager ⟨disk.image⟩ table serves
    rw [← run_of_count opened counting ends arguments] at unread
    refine ⟨select, count, source, rest, table, split, selects, counts, sources, last, ?_, unread,
      countStatement_iff split selects counts⟩
    intro number
    rw [run_of_count opened counting ends]
    exact rows number
  · intro between table arguments rows word held
    obtain ⟨counting, last⟩ := counts_between between word
    rw [run_of_count opened counting last]
    exact ((ofRows_iff serves).1 rows).mpr held

theorem counts_follow_last_word_capitals :
    CountStatement "SELECT COUNT(*) FROM t" "t" ∧
      run (fun _ => some Sample.database.opened.disk) ["test.db", "SELECT COUNT(*) FROM t"] = { printed := "1\n" } := by
  obtain ⟨pager, opened, _⟩ := Sample.exists_opened
  obtain ⟨disk, found, counts, _⟩ := counts_follow_last_word opened
  cases found
  obtain ⟨select, count, source, rest, table, split, _, _, _, last, rows, _, statement⟩ :=
    counts "SELECT COUNT(*) FROM t" [] (by decide +kernel)
  have words : Text.words "SELECT COUNT(*) FROM t" = ["SELECT", "COUNT(*)", "FROM", "t"] := by decide +kernel
  cases split.symm.trans words
  cases last
  exact ⟨(statement "t").mpr ⟨by decide +kernel, rfl⟩, (rows 1).mpr Sample.database_rows⟩

/-- Two tables are no statement that is supported, and a number is printed, that of the rows of
the second one. -/
theorem counts_unasked :
    ¬ ∀ files path command arguments (rows : Nat), isCount command = true →
      run files (path :: command :: arguments) = { printed := rows.repr ++ "\n" } →
      ∃ table, CountStatement command table := by
  intro asked
  obtain ⟨pager, opened, serves⟩ := Sample.exists_opened
  obtain ⟨counting, last⟩ := counts_between " u," (by decide +kernel : Text.words "t" = ["t"])
  have printed := (ofRows_iff serves).1 1 |>.mpr Sample.database_rows
  rw [← run_of_count opened counting last []] at printed
  obtain ⟨table, statement⟩ := asked _ _ _ [] 1 counting printed
  have words : Text.words ("select count(*) from" ++ " u," ++ " " ++ "t") = ["select", "count(*)", "from", "u,", "t"] := by
    decide +kernel
  obtain ⟨_, _, _, four, _⟩ := statement
  cases words.symm.trans four

end CommandLine
end SqliteReader
