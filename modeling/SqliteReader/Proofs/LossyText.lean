import SqliteReader.Proofs.Utf8Forms

/-! Bytes that are no text, read leniently. Where no character stands, the longest stretch that
could have been the beginning of one is given up, or a single byte, and stands as one
replacement character; reading goes on behind it. This settles the text of any bytes. -/

namespace SqliteReader.Utf8

private theorem later_range : (0x80 : UInt8) ≤ 0xBF := by decide

/-- The bytes are the beginning of some character or all of it. -/
def Begins (bytes : List UInt8) : Prop := ∃ character : Char, bytes <+: String.utf8EncodeChar character

/-- The stretch that is given up in front of other bytes. -/
structure Cut (bad rest : List UInt8) : Prop where
  filled : bad ≠ []
  foreign : ∀ character : Char, ¬ String.utf8EncodeChar character <+: bad ++ rest
  begins : Begins bad ∨ ∃ byte, bad = [byte]
  longest : ∀ byte more, rest = byte :: more → ¬ Begins (bad ++ [byte])

/-- The characters that bytes stand for, one for each stretch that is given up. -/
inductive Decodes : List UInt8 → List Char → Prop
  | nil : Decodes [] []
  | char (character : Char) {rest : List UInt8} {words : List Char} (onward : Decodes rest words) :
      Decodes (String.utf8EncodeChar character ++ rest) (character :: words)
  | cut {bad rest : List UInt8} {words : List Char} (cut : Cut bad rest) (onward : Decodes rest words) :
      Decodes (bad ++ rest) ('\uFFFD' :: words)

inductive Leads : List UInt8 → Unfinished → Prop
  | first {byte : UInt8} {unfinished : Unfinished} (wide : ¬ byte < 0x80) (lead : lead? byte = some unfinished) :
      Leads [byte] unfinished
  | more {front : List UInt8} {unfinished : Unfinished} {byte : UInt8} {owed : Nat} (leads : Leads front unfinished)
      (owes : unfinished.owed = owed + 2) (low : unfinished.low ≤ byte) (high : byte ≤ unfinished.high) :
      Leads (front ++ [byte]) { value := unfinished.value * 64 + byte.toNat % 64, owed := owed + 1 }

theorem piecesOn_char (character : Char) (rest : List UInt8) :
    piecesOn none (String.utf8EncodeChar character ++ rest) = .char character :: piecesOn none rest := by
  have read := piecesOn_encoded [character] rest
  rwa [List.flatMap_singleton] at read

namespace Leads

variable {front bytes : List UInt8} {unfinished : Unfinished}

theorem pieces (leads : Leads front unfinished) (bytes : List UInt8) :
    piecesOn none (front ++ bytes) = piecesOn (some unfinished) bytes := by
  induction leads generalizing bytes with
  | first wide lead => simp [piecesOn_cons, step, start, wide, lead]
  | more _ owes low high ih =>
    rw [List.append_assoc, ih, List.singleton_append, piecesOn_cons]
    simp [step, low, high, owes]

theorem wide_range (leads : Leads front unfinished) : unfinished.low ≤ unfinished.high := by
  cases leads with
  | first wide lead =>
    unfold lead? at lead
    grind
  | more => exact later_range

theorem owes (leads : Leads front unfinished) : ∃ owed, unfinished.owed = owed + 1 := by
  cases leads with
  | first wide lead => exact exists_owed lead
  | more => exact ⟨_, rfl⟩

theorem encoded (leads : Leads front unfinished) {tail : List UInt8} {number : Nat}
    (continues : Continues unfinished tail number) :
    ∃ character : Char, String.utf8EncodeChar character = front ++ tail := by
  induction leads generalizing tail with
  | first wide lead => exact exists_encoded lead continues
  | more _ owes low high ih =>
    obtain ⟨character, same⟩ := ih (.more owes low high continues)
    exact ⟨character, by rw [same, List.append_assoc]; rfl⟩

end Leads

theorem exists_finish {unfinished : Unfinished} {owed : Nat} (owes : unfinished.owed = owed + 1)
    (range : unfinished.low ≤ unfinished.high) : ∃ tail number, Continues unfinished tail number := by
  induction owed generalizing unfinished with
  | zero => exact ⟨_, _, .last owes (UInt8.le_refl _) range rfl⟩
  | succ owed ih =>
    obtain ⟨tail, number, continues⟩ :=
      @ih { value := unfinished.value * 64 + unfinished.low.toNat % 64, owed := owed + 1 } rfl later_range
    exact ⟨_, number, .more owes (UInt8.le_refl _) range continues⟩

/-- The bytes of a character begin with no stretch that is given up. -/
theorem char_pieces {character : Char} {bytes : List UInt8} {pieces : List Piece}
    (starts : String.utf8EncodeChar character <+: bytes) (read : piecesOn none bytes = .invalid :: pieces) : False := by
  obtain ⟨rest, rfl⟩ := starts
  rw [piecesOn_char] at read
  cases read

namespace Leads

variable {front : List UInt8} {unfinished : Unfinished}

theorem begins (leads : Leads front unfinished) : Begins front := by
  obtain ⟨owed, owes⟩ := leads.owes
  obtain ⟨tail, number, continues⟩ := exists_finish owes leads.wide_range
  obtain ⟨character, same⟩ := leads.encoded continues
  exact ⟨character, tail, same.symm⟩

theorem in_range {byte : UInt8} (leads : Leads front unfinished) (begins : Begins (front ++ [byte])) :
    unfinished.low ≤ byte ∧ byte ≤ unfinished.high := by
  apply Classical.byContradiction
  intro outside
  obtain ⟨character, more, same⟩ := begins
  have read := leads.pieces (byte :: more)
  rw [piecesOn_cons, step, if_neg outside] at read
  have whole : String.utf8EncodeChar character <+: front ++ byte :: more := ⟨[], by simp [← same]⟩
  exact char_pieces whole read

/-- With no byte in range to follow, what is unfinished is given up. -/
theorem cut {rest : List UInt8} (leads : Leads front unfinished)
    (outside : ∀ byte more, rest = byte :: more → ¬ (unfinished.low ≤ byte ∧ byte ≤ unfinished.high)) :
    piecesOn none (front ++ rest) = .invalid :: piecesOn none rest ∧ Cut front rest := by
  have read : piecesOn none (front ++ rest) = .invalid :: piecesOn none rest := by
    rw [leads.pieces]
    cases rest with
    | nil => rfl
    | cons byte more =>
      have left : step (some unfinished) byte = (.invalid :: (start byte).1, (start byte).2) :=
        if_neg (outside byte more rfl)
      rw [piecesOn_cons, piecesOn_cons, left]
      rfl
  refine ⟨read, ?_, fun character starts => char_pieces starts read, .inl leads.begins, ?_⟩
  · cases leads <;> simp
  · intro byte more same begins
    exact outside byte more same (leads.in_range begins)

theorem finished_or_cut (leads : Leads front unfinished) (bytes : List UInt8) :
    (∃ character rest, front ++ bytes = String.utf8EncodeChar character ++ rest) ∨
      ∃ bad rest, front ++ bytes = bad ++ rest ∧ Cut bad rest ∧
        piecesOn none (front ++ bytes) = .invalid :: piecesOn none rest := by
  induction bytes generalizing front unfinished with
  | nil =>
    have outside : ∀ byte more, [] = byte :: more → ¬ (unfinished.low ≤ byte ∧ byte ≤ unfinished.high) := by simp
    obtain ⟨read, cut⟩ := leads.cut outside
    exact .inr ⟨front, [], rfl, cut, read⟩
  | cons byte bytes ih =>
    by_cases inside : unfinished.low ≤ byte ∧ byte ≤ unfinished.high
    · obtain ⟨owed, owes⟩ := leads.owes
      cases owed with
      | zero =>
        obtain ⟨character, same⟩ := leads.encoded (.last owes inside.1 inside.2 rfl)
        exact .inl ⟨character, bytes, by rw [same, List.append_assoc]; rfl⟩
      | succ owed =>
        rw [List.append_cons]
        exact ih (leads.more owes inside.1 inside.2)
    · have outside : ∀ other more, byte :: bytes = other :: more →
          ¬ (unfinished.low ≤ other ∧ other ≤ unfinished.high) := by
        intro other more same
        cases same
        exact inside
      obtain ⟨read, cut⟩ := leads.cut outside
      exact .inr ⟨front, byte :: bytes, rfl, cut, read⟩

end Leads

theorem char_or_cut (byte : UInt8) (bytes : List UInt8) :
    (∃ character rest, byte :: bytes = String.utf8EncodeChar character ++ rest) ∨
      ∃ bad rest, byte :: bytes = bad ++ rest ∧ Cut bad rest ∧
        piecesOn none (byte :: bytes) = .invalid :: piecesOn none rest := by
  by_cases ascii : byte < 0x80
  · obtain ⟨character, same⟩ := exists_encoded_ascii ascii
    exact .inl ⟨character, bytes, by rw [same]; rfl⟩
  · cases lead : lead? byte with
    | some unfinished => exact (Leads.first ascii lead).finished_or_cut bytes
    | none =>
      have read (more : List UInt8) : piecesOn none (byte :: more) = .invalid :: piecesOn none more := by
        simp [piecesOn_cons, step, start, ascii, lead]
      refine .inr ⟨[byte], bytes, rfl, ⟨by simp, ?_, .inr ⟨byte, rfl⟩, ?_⟩, read bytes⟩
      · intro character starts
        exact char_pieces starts (read bytes)
      · rintro next more _ ⟨character, rest, same⟩
        have whole : String.utf8EncodeChar character <+: byte :: next :: rest := ⟨[], by simp [← same]⟩
        exact char_pieces whole (read _)

/-- No less is given up than could be. -/
theorem Cut.not_shorter {bad rest other more : List UInt8} (cut : Cut bad rest) (longer : Cut other more)
    (same : bad ++ rest = other ++ more) : other.length ≤ bad.length := by
  apply Nat.le_of_not_lt
  intro short
  have start : bad <+: other := List.prefix_of_prefix_length_le (List.prefix_append bad rest)
    (same ▸ List.prefix_append other more) (by omega)
  obtain ⟨tail, rfl⟩ := start
  cases tail with
  | nil => simp at short
  | cons byte tail =>
    rw [List.append_assoc, List.append_cancel_left_eq] at same
    rcases longer.begins with ⟨character, begins⟩ | ⟨single, alone⟩
    · apply cut.longest byte _ same
      rw [List.append_cons] at begins
      exact ⟨character, (List.prefix_append _ tail).trans begins⟩
    · have filled := List.length_pos_iff.mpr cut.filled
      have counted := congrArg List.length alone
      simp at counted
      omega

theorem Cut.unique {bad rest other more : List UInt8} (cut : Cut bad rest) (twin : Cut other more)
    (same : bad ++ rest = other ++ more) : bad = other ∧ rest = more :=
  List.append_inj same (Nat.le_antisymm (twin.not_shorter cut same.symm) (cut.not_shorter twin same))

theorem Cut.pieces {bad rest : List UInt8} (cut : Cut bad rest) :
    piecesOn none (bad ++ rest) = .invalid :: piecesOn none rest := by
  obtain ⟨byte, tail, rfl⟩ := List.exists_cons_of_ne_nil cut.filled
  rcases char_or_cut byte (tail ++ rest) with ⟨character, more, same⟩ | ⟨other, more, same, twin, read⟩
  · exact absurd ⟨more, same.symm⟩ (cut.foreign character)
  · obtain ⟨_, rfl⟩ := cut.unique twin same
    exact read

theorem lossy_eq (bytes : List UInt8) : (lossy bytes).toList = (piecesOn none bytes).map Piece.shown := by
  rw [lossy, String.toList_ofList]
  rfl

/-- Bytes stand for the characters of the text that they are read as, and for no others. -/
theorem decodes_iff {bytes : List UInt8} {words : List Char} : Decodes bytes words ↔ (lossy bytes).toList = words := by
  constructor
  · intro decodes
    rw [lossy_eq]
    induction decodes with
    | nil => rfl
    | char character _ ih => rw [piecesOn_char, List.map_cons, ih]; rfl
    | cut cut _ ih => rw [cut.pieces, List.map_cons, ih]; rfl
  · rintro rfl
    rw [lossy_eq]
    induction counted : bytes.length using Nat.strongRecOn generalizing bytes with
    | ind size ih =>
      cases bytes with
      | nil => exact .nil
      | cons byte bytes =>
        rcases char_or_cut byte bytes with ⟨character, rest, same⟩ | ⟨bad, rest, same, cut, read⟩
        · have filled : 0 < (String.utf8EncodeChar character).length := by
            rw [String.length_utf8EncodeChar]
            exact Char.utf8Size_pos character
          have shorter : rest.length < size := by
            rw [← counted, same, List.length_append]
            omega
          rw [same, piecesOn_char]
          exact .char character (ih _ shorter rfl)
        · have filled := List.length_pos_iff.mpr cut.filled
          have shorter : rest.length < size := by
            rw [← counted, same, List.length_append]
            omega
          rw [same, cut.pieces]
          exact .cut cut (ih _ shorter rfl)

end SqliteReader.Utf8
