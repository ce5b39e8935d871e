import SqliteReader.Proofs.ColumnContents
import SqliteReader.Proofs.LossyText
import SqliteReader.Proofs.RegisterHistory

/-! Texts as blobs and blobs as texts. A text comes back from its blob, a blob from its text only
if it was text, and what is read leniently once is never changed by reading it again. Columns
show the same text. -/

namespace SqliteReader

theorem Utf8.encode_lossy_iff {bytes : List UInt8} : encode (lossy bytes) = bytes ↔ isValid bytes = true := by
  rw [isValid_iff]
  constructor
  · exact fun same => ⟨_, same⟩
  · rintro ⟨text, rfl⟩
    rw [lossy_encode]

/-- The blob of a text is cast to that text. -/
theorem Value.cast_encoded (words : String) : (Value.blob (Utf8.encode words)).cast? .text = some (.text words) := by
  rw [Value.cast?, Utf8.lossy_encode]

theorem Column.shown_of_large (column : Column) (large : 10 ≤ column.serialType.toNat) :
    column.value.shown = Utf8.lossy column.content := by
  have shows := column.shows
  generalize column.value = value at shows
  cases shows with
  | blob | text => rfl
  | null | stored | real | zero | one => omega

namespace Registers

variable {registers : Registers} {index : Nat}

theorem set_set (registers : Registers) (index : Nat) (value last : Value) :
    (registers.set index value).set index last = registers.set index last := by
  apply ext_get
  · rw [size_set, if_pos (lt_size_set registers index value), size_set, size_set]
  · intro other
    rw [get_set, get_set, get_set]
    split <;> rfl

theorem lt_size_of_get {value : Value} (held : registers.get index = value) (filled : value ≠ .null) :
    index < registers.size := by
  apply Nat.lt_of_not_le
  intro outside
  exact filled (held.symm.trans (get_of_size_le outside))

theorem cast_of_get {value cast : Value} {target : Affinity} (held : registers.get index = value)
    (filled : value ≠ .null) (known : value.cast? target = some cast) :
    registers.cast index target = .ok (registers.set index cast) := by
  rw [cast_eq, if_neg (Nat.not_le_of_lt (lt_size_of_get held filled)), held, known]

/-- A register that is cast away and set to what it held is what it was. -/
theorem set_restored {value : Value} (held : registers.get index = value) (filled : value ≠ .null) (other : Value) :
    (registers.set index other).set index value = registers := by
  rw [set_set, ← held, set_get (lt_size_of_get held filled)]

theorem get_set_same (registers : Registers) (index : Nat) (value : Value) :
    (registers.set index value).get index = value := by
  rw [get_set, if_pos rfl]

/-- A text that is cast to a blob and back leaves all registers as they were. A blob that is
cast to a text becomes the characters that its bytes stand for, always a text, which columns
with these bytes show too. It comes back from there just if the bytes are those of a text, and
whether or not they are, casting what came back gives the same text again. -/
theorem text_and_blob_casts (registers : Registers) (index : Nat) :
    (∀ words, registers.get index = .text words →
      ∃ blob, registers.cast index .blob = .ok blob ∧ blob.get index = .blob (Utf8.encode words) ∧
        blob.cast index .text = .ok registers) ∧
    (∀ bytes, registers.get index = .blob bytes →
      ∃ text back words, registers.cast index .text = .ok text ∧ text.get index = .text words ∧
        Utf8.Decodes bytes words.toList ∧ Utf8.isValid (Utf8.encode words) = true ∧
        (∀ column : Column, 10 ≤ column.serialType.toNat → column.content = bytes → column.value.shown = words) ∧
        text.cast index .blob = .ok back ∧ (back.get index = .blob bytes ↔ Utf8.isValid bytes = true) ∧
        back.cast index .text = .ok text) ∧
    ∀ bytes, Utf8.isValid bytes = true ↔ ∃ words : String, Utf8.encode words = bytes := by
  refine ⟨?_, ?_, fun _ => Utf8.isValid_iff⟩
  · intro words held
    have stored := get_set_same registers index (.blob (Utf8.encode words))
    refine ⟨_, cast_of_get held (by simp) rfl, stored, ?_⟩
    have back := cast_of_get stored (by simp) (Value.cast_encoded words)
    rwa [set_restored held (by simp)] at back
  · intro bytes held
    have asText := get_set_same registers index (.text (Utf8.lossy bytes))
    have again := get_set_same (registers.set index (.text (Utf8.lossy bytes))) index
      (.blob (Utf8.encode (Utf8.lossy bytes)))
    refine ⟨_, _, Utf8.lossy bytes, cast_of_get held (by simp) rfl, asText, Utf8.decodes_iff.mpr rfl,
      Utf8.isValid_iff.mpr ⟨_, rfl⟩, ?_, cast_of_get asText (by simp) rfl, ?_, ?_⟩
    · rintro column large rfl
      exact column.shown_of_large large
    · rw [again, Value.blob.injEq]
      exact Utf8.encode_lossy_iff
    · have back := cast_of_get again (by simp) (Value.cast_encoded _)
      rwa [set_restored asText (by simp)] at back

/-- A text, and a blob that ends a character too early. -/
theorem text_and_blob_casts_cut :
    (∃ blob, (({} : Registers).set 0 (.text "k")).cast 0 .blob = .ok blob ∧
      blob.cast 0 .text = .ok (({} : Registers).set 0 (.text "k"))) ∧
    ∃ text back words, (({} : Registers).set 1 (.blob [0xE2, 0x82, 0x41])).cast 1 .text = .ok text ∧
      text.get 1 = .text words ∧ words.toList = ['\uFFFD', 'A'] ∧ text.cast 1 .blob = .ok back ∧
      back.get 1 ≠ .blob [0xE2, 0x82, 0x41] ∧ back.cast 1 .text = .ok text := by
  constructor
  · obtain ⟨texts, _⟩ := text_and_blob_casts (({} : Registers).set 0 (.text "k")) 0
    obtain ⟨blob, cast, _, back⟩ := texts "k" (get_set_same _ _ _)
    exact ⟨blob, cast, back⟩
  · obtain ⟨_, blobs, _⟩ := text_and_blob_casts (({} : Registers).set 1 (.blob [0xE2, 0x82, 0x41])) 1
    obtain ⟨text, back, words, cast, held, decodes, _, _, returned, same, again⟩ := blobs _ (get_set_same _ _ _)
    have read := Utf8.decodes_iff.mp decodes
    have invalid : Utf8.isValid [0xE2, 0x82, 0x41] = false := by decide
    refine ⟨text, back, words, cast, held, ?_, returned, ?_, again⟩
    · rw [← read, Utf8.lossy, String.toList_ofList]
      decide
    · rw [ne_eq, same, invalid]
      exact Bool.false_ne_true

end Registers
end SqliteReader
