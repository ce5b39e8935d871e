import Mathlib.Data.List.TakeWhile
import SqliteReader.Text.Blank

/-! Words between blanks. The words of two texts with a blank between them are those of the one
and then those of the other, and a stretch without blanks is a word. Capital letters and small
ones divide a text alike. -/

namespace SqliteReader.Text

/-- A text in small letters, as far as these are letters of ASCII. -/
def folded (text : String) : List Char := text.toList.map Char.toLower

theorem not_blank_of_letter {character : Char} (low : 65 ≤ character.toNat) (high : character.toNat ≤ 122) :
    isBlank character = false := by
  have apart : ∀ range ∈ blankRanges, range.2 < 65 ∨ 122 < range.1 := by decide
  apply Bool.eq_false_iff.mpr
  intro blank
  obtain ⟨range, listed, inside⟩ := List.any_eq_true.mp blank
  rw [Bool.and_eq_true, decide_eq_true_eq, decide_eq_true_eq] at inside
  have outside := apart range listed
  omega

theorem isBlank_toLower (character : Char) : isBlank character.toLower = isBlank character := by
  by_cases capital : 'A'.val ≤ character.val ∧ character.val ≤ 'Z'.val
  · have low : 65 ≤ character.toNat := UInt32.le_iff_toNat_le.mp capital.1
    have high : character.toNat ≤ 90 := UInt32.le_iff_toNat_le.mp capital.2
    have lower : character.toLower.toNat = character.toNat + 32 := by
      have moved : character.toLower.val = character.val + 32 := congrArg Char.val (dif_pos capital)
      rw [Char.toNat, moved, UInt32.toNat_add]
      exact Nat.mod_eq_of_lt (Nat.lt_of_le_of_lt (Nat.add_le_add_right high 32) (by decide))
    rw [not_blank_of_letter low (by omega), not_blank_of_letter (by omega) (by omega)]
  · exact congrArg isBlank (dif_neg capital)

section wordsFrom

variable {word : List Char}

theorem wordsFrom_append_blank {blank : Char} (divides : isBlank blank = true) (word front rest : List Char) :
    wordsFrom word (front ++ blank :: rest) = wordsFrom word front ++ wordsFrom [] rest := by
  induction front generalizing word with
  | nil =>
    simp only [List.nil_append, wordsFrom, if_pos divides]
    split <;> rfl
  | cons character front ih =>
    simp only [List.cons_append, wordsFrom, ih]
    split
    · split <;> rfl
    · rfl

/-- A word that has begun goes on to the next blank. -/
theorem wordsFrom_begun (begun : word ≠ []) (characters : List Char) :
    wordsFrom word characters = (word.reverse ++ characters.takeWhile fun character => !isBlank character) ::
      wordsFrom [] (characters.dropWhile fun character => !isBlank character) := by
  have filled : ¬ word.isEmpty = true := by simp [begun]
  induction characters generalizing word with
  | nil => simp [wordsFrom, begun]
  | cons character characters ih =>
    by_cases blank : isBlank character = true
    · simp [wordsFrom, blank, begun]
    · have more := ih (List.cons_ne_nil character word) (by simp)
      simp [wordsFrom, blank, more]

theorem wordsFrom_toLower (word characters : List Char) :
    (wordsFrom word characters).map (List.map Char.toLower) =
      wordsFrom (word.map Char.toLower) (characters.map Char.toLower) := by
  induction characters generalizing word with
  | nil =>
    simp only [wordsFrom, List.map_nil, List.isEmpty_map]
    split
    · rfl
    · simp
  | cons character characters ih =>
    simp only [wordsFrom, List.map_cons, isBlank_toLower, List.isEmpty_map]
    split
    · split
      · exact ih []
      · simp [ih]
    · exact ih (character :: word)

end wordsFrom

/-- Small letters make the same words. -/
theorem words_folded (text : String) : (words text).map folded = wordsFrom [] (folded text) := by
  have each : folded ∘ String.ofList = List.map Char.toLower := by
    funext characters
    exact congrArg (List.map Char.toLower) (String.toList_ofList)
  rw [words, List.map_map, each, wordsFrom_toLower]
  rfl

/-- What comes before a blank makes no difference to the words behind it. -/
theorem words_append_blank (front rest : String) : words (front ++ " " ++ rest) = words front ++ words rest := by
  have apart : (front ++ " " ++ rest).toList = front.toList ++ ' ' :: rest.toList := by simp
  rw [words, apart, wordsFrom_append_blank (by decide), List.map_append]
  rfl

end SqliteReader.Text
