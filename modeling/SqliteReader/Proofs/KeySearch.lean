import SqliteReader.Proofs.CursorWalk

/-! Searches in trees that can be walked without a failure. A search stops at the first
record that is asked for; where the records ascend, the first one that is not below a key
is the first one with that key, if there is any. -/

namespace SqliteReader

theorem Value.compare_blob_eq {value : Value} {bytes : List UInt8} :
    value.compare (.blob bytes) = .eq ↔ value = .blob bytes := by
  cases value with
  | blob other =>
    rw [Value.blob.injEq]
    exact Std.compare_eq_iff_eq
  | null | integer | real | text =>
    constructor
    · intro equal
      cases equal
    · intro same
      cases same

theorem Record.comparePrefix_single (record : Record) (wanted : Value) :
    record.comparePrefix [wanted] = (record.column 0).value.compare wanted := by
  obtain ⟨rowid, columns⟩ := record
  cases columns with
  | nil => exact Ordering.then_eq
  | cons first rest => exact Ordering.then_eq

theorem Record.comparePrefix_gt {record : Record} {bytes : List UInt8}
    (reached : (record.comparePrefix [.blob bytes] != .lt) = true) (other : (record.column 0).value ≠ .blob bytes) :
    record.comparePrefix [.blob bytes] = .gt := by
  rw [Record.comparePrefix_single] at reached ⊢
  cases order : (record.column 0).value.compare (.blob bytes) with
  | lt =>
    rw [order] at reached
    cases reached
  | eq => exact absurd (Value.compare_blob_eq.mp order) other
  | gt => rfl

section

variable {records : List Record} {bytes : List UInt8}

/-- Nothing with the key comes before the first record that is not below it, and nothing
behind one that is above it. -/
theorem find_key (ascending : records.Pairwise fun first second =>
      (first.column 0).value.compare (second.column 0).value ≠ .gt) :
    (records.find? fun record => (record.column 0).value = .blob bytes) =
      (records.find? fun record => record.comparePrefix [.blob bytes] != .lt).filter
        fun record => (record.column 0).value = .blob bytes := by
  induction records with
  | nil => rfl
  | cons first rest ih =>
    obtain ⟨above, ascending⟩ := List.pairwise_cons.mp ascending
    by_cases same : (first.column 0).value = .blob bytes
    · have order := Value.compare_blob_eq.mpr same
      rw [List.find?_cons_of_pos (by simpa using same), List.find?_cons_of_pos (by rw [Record.comparePrefix_single, order]; rfl),
        Option.filter_some_pos (by simpa using same)]
    rw [List.find?_cons_of_neg (by simpa using same)]
    cases order : (first.column 0).value.compare (.blob bytes) with
    | eq => exact absurd (Value.compare_blob_eq.mp order) same
    | lt =>
      rw [List.find?_cons_of_neg (by rw [Record.comparePrefix_single, order]; decide)]
      exact ih ascending
    | gt =>
      rw [List.find?_cons_of_pos (by rw [Record.comparePrefix_single, order]; rfl),
        Option.filter_some_neg (by simpa using same), List.find?_eq_none]
      intro record member equal
      have misplaced := above record member
      rw [of_decide_eq_true equal] at misplaced
      exact misplaced order

theorem find_rowid {rowid : Int64} (ascending : records.Pairwise fun first second => first.rowid < second.rowid) :
    (records.find? fun record => record.rowid = rowid) =
      (records.find? fun record => rowid ≤ record.rowid).filter fun record => record.rowid = rowid := by
  induction records with
  | nil => rfl
  | cons first rest ih =>
    obtain ⟨above, ascending⟩ := List.pairwise_cons.mp ascending
    by_cases same : first.rowid = rowid
    · rw [List.find?_cons_of_pos (by simpa using same), List.find?_cons_of_pos (by simp [same]),
        Option.filter_some_pos (by simpa using same)]
    rw [List.find?_cons_of_neg (by simpa using same)]
    by_cases below : rowid ≤ first.rowid
    · rw [List.find?_cons_of_pos (by simpa using below), Option.filter_some_neg (by simpa using same), List.find?_eq_none]
      intro record member equal
      have further := above record member
      rw [of_decide_eq_true equal] at further
      exact Int64.lt_irrefl (Int64.lt_of_le_of_lt below further)
    · rw [List.find?_cons_of_neg (by simpa using below)]
      exact ih ascending

end

namespace Tree

variable {image : Image} {tree : Tree}

/-- Over a tree without failures a search is one over the list of its records. -/
theorem Sound.search_find (sound : tree.Sound image) (clear : tree.failure = none) {records : List Record}
    (walk : tree.upcoming image = records.map .record) (asked : Record → Bool) :
    ∃ passed after, tree.search asked image = ((records.find? asked).isSome, passed, after, image) ∧
      after.failure = none ∧ ∀ record, records.find? asked = some record → after.record? = some record := by
  obtain ⟨found, passed, after, ran, stays, _, unasked, stops⟩ := search_stops sound clear asked
  have injective : ∀ first second, Finding.record first = .record second → first = second :=
    fun _ _ same => Finding.record.inj same
  have skipped : passed.find? asked = none := by
    rw [List.find?_eq_none]
    intro record member
    simp [unasked record member]
  cases stops with
  | found record here wanted still rest =>
    obtain ⟨before, behind, rfl, same, ends⟩ := List.map_eq_append_iff.mp (walk.symm.trans rest)
    obtain ⟨_, later, rfl, same', _⟩ := List.map_eq_cons_iff.mp ends
    cases (List.map_inj_right injective).mp same
    cases same'
    have stopped : (passed ++ record :: later).find? asked = some record := by
      rw [List.find?_append, skipped, List.find?_cons_of_pos wanted, Option.none_or]
    rw [stopped]
    refine ⟨_, after, ran, still, ?_⟩
    intro other same
    cases same
    exact here
  | failed reason latched rest =>
    have strange : Finding.failure reason ∈ records.map Finding.record := by
      rw [← walk, rest]
      simp
    obtain ⟨_, _, impossible⟩ := List.mem_map.mp strange
    cases impossible
  | ended still emptied rest =>
    cases (List.map_inj_right injective).mp (walk.symm.trans rest)
    rw [skipped]
    refine ⟨_, after, ran, still, ?_⟩
    intro record impossible
    cases impossible

private theorem move_clear {act : Image → Bool × Tree × Image} {found : Bool} {after : Tree}
    (ran : act image = (found, after, image)) (clear : after.failure = none) :
    Machine.move act image = (.ok (found, after), image) := by
  cases found with
  | true => exact Machine.move_found ran
  | false => exact Machine.move_ended ran clear

variable {records : List Record} (sound : tree.Sound image) (clear : tree.failure = none)
  (walk : image.findings [] tree.root none = records.map .record)
include sound clear walk

theorem Sound.seekKey_find (key : List Value) :
    ∃ after, Machine.move (tree.seekKey key) image =
        (.ok ((records.find? fun record => record.comparePrefix key != .lt).isSome, after), image) ∧
      ∀ record, (records.find? fun record => record.comparePrefix key != .lt) = some record →
        after.record? = some record := by
  obtain ⟨passed, after, ran, still, here⟩ := sound.reset.search_find clear (sound.upcoming_reset.trans walk)
    fun record => record.comparePrefix key != .lt
  exact ⟨after, move_clear (by rw [seekKey, ran]) still, here⟩

theorem Sound.seekRowid_find (rowid : Int64)
    (ascending : records.Pairwise fun first second => first.rowid < second.rowid) :
    ∃ after, Machine.move (tree.seekRowid rowid) image =
        (.ok ((records.find? fun record => record.rowid = rowid).isSome, after), image) ∧
      ∀ record, (records.find? fun record => record.rowid = rowid) = some record → after.record? = some record := by
  obtain ⟨passed, after, ran, still, here⟩ := sound.reset.search_find clear (sound.upcoming_reset.trans walk)
    fun record => rowid ≤ record.rowid
  -- The search stops at the first rowid that is not smaller, whether or not it is the one.
  rw [find_rowid ascending]
  cases found : records.find? fun record => rowid ≤ record.rowid with
  | none =>
    rw [found] at ran
    refine ⟨after, move_clear (by rw [seekRowid, ran]; rfl) still, ?_⟩
    intro record impossible
    cases impossible
  | some record =>
    rw [found] at ran
    have there := here record found
    refine ⟨after, move_clear ?_ still, ?_⟩
    · rw [seekRowid, ran]
      by_cases same : record.rowid = rowid <;> simp [there, same]
    · intro other same
      rw [← (Option.filter_eq_some_iff.mp same).1]
      exact there

end Tree
end SqliteReader
