import SqliteReader.Text.Utf8

/-! Bytes that are text. Strict reading accepts just the bytes of texts, and lenient reading
gives back each text from its bytes. -/

namespace SqliteReader.Utf8

/-- The pieces of bytes that are read on from a state. -/
def piecesOn (state : Option Unfinished) (bytes : List UInt8) : List Piece := piecesFrom [] state bytes

theorem piecesFrom_eq (found : List Piece) (state : Option Unfinished) (bytes : List UInt8) :
    piecesFrom found state bytes = found.reverse ++ piecesOn state bytes := by
  unfold piecesOn
  induction bytes generalizing found state with
  | nil => cases state <;> simp [piecesFrom]
  | cons byte rest ih =>
    simp only [piecesFrom]
    rw [ih, ih ((step state byte).1.reverse ++ [])]
    simp

theorem piecesOn_cons (state : Option Unfinished) (byte : UInt8) (rest : List UInt8) :
    piecesOn state (byte :: rest) = (step state byte).1 ++ piecesOn (step state byte).2 rest := by
  simp only [piecesOn, piecesFrom]
  rw [piecesFrom_eq]
  simp [piecesOn]

/-- The bytes that an unfinished character is owed, and the number of the character. -/
inductive Continues : Unfinished → List UInt8 → Nat → Prop
  | last {unfinished : Unfinished} {byte : UInt8} {number : Nat} (owes : unfinished.owed = 1)
      (low : unfinished.low ≤ byte) (high : byte ≤ unfinished.high)
      (same : unfinished.value * 64 + byte.toNat % 64 = number) : Continues unfinished [byte] number
  | more {unfinished : Unfinished} {byte : UInt8} {tail : List UInt8} {owed number : Nat}
      (owes : unfinished.owed = owed + 2) (low : unfinished.low ≤ byte) (high : byte ≤ unfinished.high)
      (rest : Continues { value := unfinished.value * 64 + byte.toNat % 64, owed := owed + 1 } tail number) :
      Continues unfinished (byte :: tail) number

theorem Continues.pieces {unfinished : Unfinished} {tail : List UInt8} {number : Nat}
    (continues : Continues unfinished tail number) (rest : List UInt8) :
    piecesOn (some unfinished) (tail ++ rest) = .char (Char.ofNat number) :: piecesOn none rest := by
  induction continues with
  | last owes low high same =>
    rw [List.singleton_append, piecesOn_cons]
    simp [step, low, high, owes, same]
  | more owes low high _ ih =>
    rw [List.cons_append, piecesOn_cons]
    simp [step, low, high, owes, ih]

theorem exists_continues {unfinished : Unfinished} {bytes : List UInt8} {owed : Nat} (owes : unfinished.owed = owed + 1)
    (valid : .invalid ∉ piecesOn (some unfinished) bytes) :
    ∃ tail rest number, bytes = tail ++ rest ∧ Continues unfinished tail number ∧ .invalid ∉ piecesOn none rest := by
  induction owed generalizing unfinished bytes with
  | zero =>
    cases bytes with
    | nil => exact absurd List.mem_cons_self valid
    | cons byte rest =>
      rw [piecesOn_cons, step] at valid
      split at valid
      next inside =>
        simp only [owes, Nat.le_refl, if_true, List.singleton_append, List.mem_cons, not_or] at valid
        exact ⟨[byte], rest, _, rfl, .last owes inside.1 inside.2 rfl, valid.2⟩
      next => simp at valid
  | succ owed ih =>
    cases bytes with
    | nil => exact absurd List.mem_cons_self valid
    | cons byte rest =>
      rw [piecesOn_cons, step] at valid
      split at valid
      next inside =>
        have unfilled : ¬ unfinished.owed ≤ 1 := by omega
        rw [if_neg unfilled, owes] at valid
        obtain ⟨tail, rest, number, rfl, continues, valid⟩ := ih rfl valid
        exact ⟨byte :: tail, rest, number, rfl, .more owes inside.1 inside.2 continues, valid⟩
      next => simp at valid

/-- The first bytes of characters as numbers. -/
theorem lead?_ofNat {number : Nat} (byte : number < 256) :
    lead? (UInt8.ofNat number) =
      if number < 0xC2 then none
      else if number < 0xE0 then some { value := number - 0xC0, owed := 1 }
      else if number = 0xE0 then some { value := 0, owed := 2, low := 0xA0 }
      else if number = 0xED then some { value := 0xD, owed := 2, high := 0x9F }
      else if number < 0xF0 then some { value := number - 0xE0, owed := 2 }
      else if number = 0xF0 then some { value := 0, owed := 3, low := 0x90 }
      else if number < 0xF4 then some { value := number - 0xF0, owed := 3 }
      else if number = 0xF4 then some { value := 4, owed := 3, high := 0x8F }
      else none := by
  simp [lead?, UInt8.lt_iff_toNat_lt, ← UInt8.toNat_inj, Nat.mod_eq_of_lt byte]

section

variable {low high : UInt8} {number : Nat}

theorem le_ofNat_iff (byte : number < 256) : low ≤ UInt8.ofNat number ↔ low.toNat ≤ number := by
  rw [UInt8.le_iff_toNat_le, UInt8.toNat_ofNat_of_lt' byte]

theorem ofNat_le_iff (byte : number < 256) : UInt8.ofNat number ≤ high ↔ number ≤ high.toNat := by
  rw [UInt8.le_iff_toNat_le, UInt8.toNat_ofNat_of_lt' byte]

theorem sixes_of_ofNat (bits : Nat) : (UInt8.ofNat (bits % 64 + 128)).toNat % 64 = bits % 64 := by
  rw [UInt8.toNat_ofNat']
  omega

theorem Continues.last_six {unfinished : Unfinished} (bits : Nat) (owes : unfinished.owed = 1)
    (low : unfinished.low.toNat ≤ bits % 64 + 128) (high : bits % 64 + 128 ≤ unfinished.high.toNat)
    (same : unfinished.value * 64 + bits % 64 = number) :
    Continues unfinished [UInt8.ofNat (bits % 64 + 128)] number := by
  have byte : bits % 64 + 128 < 256 := by omega
  exact .last owes ((le_ofNat_iff byte).mpr low) ((ofNat_le_iff byte).mpr high) (by rw [sixes_of_ofNat, same])

theorem Continues.more_six {unfinished : Unfinished} {tail : List UInt8} {owed : Nat} (bits : Nat)
    (owes : unfinished.owed = owed + 2) (low : unfinished.low.toNat ≤ bits % 64 + 128)
    (high : bits % 64 + 128 ≤ unfinished.high.toNat)
    (rest : Continues { value := unfinished.value * 64 + bits % 64, owed := owed + 1 } tail number) :
    Continues unfinished (UInt8.ofNat (bits % 64 + 128) :: tail) number := by
  have byte : bits % 64 + 128 < 256 := by omega
  exact .more owes ((le_ofNat_iff byte).mpr low) ((ofNat_le_iff byte).mpr high) (by rwa [sixes_of_ofNat])

theorem Continues.two_six {unfinished : Unfinished} (bits : Nat) (owes : unfinished.owed = 2)
    (low : unfinished.low.toNat ≤ bits / 64 % 64 + 128) (high : bits / 64 % 64 + 128 ≤ unfinished.high.toNat)
    (same : (unfinished.value * 64 + bits / 64 % 64) * 64 + bits % 64 = number) :
    Continues unfinished [UInt8.ofNat (bits / 64 % 64 + 128), UInt8.ofNat (bits % 64 + 128)] number := by
  refine .more_six (bits / 64) owes low high (.last_six bits rfl ?_ ?_ same)
  · exact Nat.le_add_left 128 (bits % 64)
  · exact Nat.add_le_add_right (Nat.le_of_lt_succ (Nat.mod_lt bits (by decide))) 128

theorem Continues.three_six {unfinished : Unfinished} (bits : Nat) (owes : unfinished.owed = 3)
    (low : unfinished.low.toNat ≤ bits / 4096 % 64 + 128) (high : bits / 4096 % 64 + 128 ≤ unfinished.high.toNat)
    (same : ((unfinished.value * 64 + bits / 4096 % 64) * 64 + bits / 64 % 64) * 64 + bits % 64 = number) :
    Continues unfinished
      [UInt8.ofNat (bits / 4096 % 64 + 128), UInt8.ofNat (bits / 64 % 64 + 128), UInt8.ofNat (bits % 64 + 128)] number := by
  refine .more_six (bits / 4096) owes low high (.two_six bits rfl ?_ ?_ same)
  · exact Nat.le_add_left 128 (bits / 64 % 64)
  · exact Nat.add_le_add_right (Nat.le_of_lt_succ (Nat.mod_lt (bits / 64) (by decide))) 128

end

section

variable {bits : Nat}

/-- What a first byte leaves open, for characters of two, three and four bytes. -/
theorem lead_two (low : 127 < bits) (high : bits ≤ 2047) :
    ∃ unfinished, lead? (UInt8.ofNat (bits / 64 % 32 + 192)) = some unfinished ∧
      Continues unfinished [UInt8.ofNat (bits % 64 + 128)] bits := by
  refine ⟨{ value := bits / 64 % 32, owed := 1 }, ?_, ?_⟩
  · rw [lead?_ofNat (by omega), if_neg (by omega), if_pos (by omega), Nat.add_sub_cancel]
  · exact .last_six bits rfl (by simp) (by simp; omega) (by simp; omega)

theorem lead_three (low : 2047 < bits) (high : bits ≤ 65535) (scalar : bits.isValidChar) :
    ∃ unfinished, lead? (UInt8.ofNat (bits / 4096 % 16 + 224)) = some unfinished ∧
      Continues unfinished [UInt8.ofNat (bits / 64 % 64 + 128), UInt8.ofNat (bits % 64 + 128)] bits := by
  rw [lead?_ofNat (by omega), if_neg (by omega), if_neg (by omega)]
  by_cases least : bits / 4096 % 16 + 224 = 0xE0
  · rw [if_pos least]
    refine ⟨_, rfl, .two_six bits rfl ?_ ?_ ?_⟩ <;> simp <;> omega
  rw [if_neg least]
  by_cases surrogates : bits / 4096 % 16 + 224 = 0xED
  · rw [if_pos surrogates]
    refine ⟨_, rfl, .two_six bits rfl ?_ ?_ ?_⟩ <;> simp <;> omega
  · rw [if_neg surrogates, if_pos (by omega)]
    refine ⟨_, rfl, .two_six bits rfl ?_ ?_ ?_⟩ <;> simp <;> omega

theorem lead_four (low : 65535 < bits) (scalar : bits.isValidChar) :
    ∃ unfinished, lead? (UInt8.ofNat (bits / 262144 % 8 + 240)) = some unfinished ∧
      Continues unfinished
        [UInt8.ofNat (bits / 4096 % 64 + 128), UInt8.ofNat (bits / 64 % 64 + 128), UInt8.ofNat (bits % 64 + 128)] bits := by
  rw [lead?_ofNat (by omega), if_neg (by omega), if_neg (by omega), if_neg (by omega), if_neg (by omega),
    if_neg (by omega)]
  by_cases least : bits / 262144 % 8 + 240 = 0xF0
  · rw [if_pos least]
    refine ⟨_, rfl, .three_six bits rfl ?_ ?_ ?_⟩ <;> simp <;> omega
  rw [if_neg least]
  by_cases greatest : bits / 262144 % 8 + 240 = 0xF4
  · rw [if_neg (by omega), if_pos greatest]
    refine ⟨_, rfl, .three_six bits rfl ?_ ?_ ?_⟩ <;> simp <;> omega
  · rw [if_pos (by omega)]
    refine ⟨_, rfl, .three_six bits rfl ?_ ?_ ?_⟩ <;> simp <;> omega

end

/-- The bytes of the character with a number. -/
def encodedNumber (number : Nat) : List UInt8 :=
  if number ≤ 127 then [UInt8.ofNat number]
  else if number ≤ 2047 then [UInt8.ofNat (number / 64 % 32 + 192), UInt8.ofNat (number % 64 + 128)]
  else if number ≤ 65535 then
    [UInt8.ofNat (number / 4096 % 16 + 224), UInt8.ofNat (number / 64 % 64 + 128), UInt8.ofNat (number % 64 + 128)]
  else
    [UInt8.ofNat (number / 262144 % 8 + 240), UInt8.ofNat (number / 4096 % 64 + 128),
      UInt8.ofNat (number / 64 % 64 + 128), UInt8.ofNat (number % 64 + 128)]

theorem utf8EncodeChar_eq (character : Char) : String.utf8EncodeChar character = encodedNumber character.toNat := rfl

/-- A character is one byte of seven bits, or a first byte and what that one is owed. -/
theorem encoded_cases (character : Char) :
    (∃ byte : UInt8, String.utf8EncodeChar character = [byte] ∧ byte < 0x80 ∧ Char.ofNat byte.toNat = character) ∨
    ∃ byte tail, String.utf8EncodeChar character = byte :: tail ∧ ¬ byte < 0x80 ∧
      ∃ unfinished, lead? byte = some unfinished ∧ Continues unfinished tail character.toNat := by
  have scalar : character.toNat.isValidChar := character.valid
  rw [utf8EncodeChar_eq, encodedNumber]
  split
  next one =>
    have byte : character.toNat < 256 := by omega
    refine .inl ⟨_, rfl, ?_, ?_⟩
    · rw [← UInt8.not_le, le_ofNat_iff byte]
      simp
      omega
    · rw [UInt8.toNat_ofNat_of_lt' byte, Char.ofNat_toNat]
  next two =>
    right
    split
    next three =>
      refine ⟨_, _, rfl, ?_, lead_two (by omega) three⟩
      rw [UInt8.not_lt, le_ofNat_iff (by omega)]
      simp
    next three =>
      split
      next four =>
        refine ⟨_, _, rfl, ?_, lead_three (by omega) four scalar⟩
        rw [UInt8.not_lt, le_ofNat_iff (by omega)]
        simp
      next four =>
        refine ⟨_, _, rfl, ?_, lead_four (by omega) scalar⟩
        rw [UInt8.not_lt, le_ofNat_iff (by omega)]
        simp

theorem exists_char (number : Nat) (scalar : number.isValidChar) : ∃ character : Char, character.toNat = number :=
  ⟨Char.ofNatAux number scalar, rfl⟩

section

variable {unfinished : Unfinished} {tail : List UInt8} {number : Nat}

theorem Continues.of_one (continues : Continues unfinished tail number) (owes : unfinished.owed = 1) :
    ∃ byte, tail = [byte] ∧ unfinished.low.toNat ≤ byte.toNat ∧ byte.toNat ≤ unfinished.high.toNat ∧
      number = unfinished.value * 64 + byte.toNat % 64 := by
  cases continues with
  | last _ low high same => exact ⟨_, rfl, UInt8.le_iff_toNat_le.mp low, UInt8.le_iff_toNat_le.mp high, same.symm⟩
  | more more => omega

theorem Continues.of_more (continues : Continues unfinished tail number) {owed : Nat}
    (owes : unfinished.owed = owed + 2) :
    ∃ byte rest, tail = byte :: rest ∧ unfinished.low.toNat ≤ byte.toNat ∧ byte.toNat ≤ unfinished.high.toNat ∧
      Continues { value := unfinished.value * 64 + byte.toNat % 64, owed := owed + 1 } rest number := by
  cases continues with
  | last one => omega
  | more more low high rest =>
    obtain rfl := Nat.add_right_cancel (owes.symm.trans more)
    exact ⟨_, _, rfl, UInt8.le_iff_toNat_le.mp low, UInt8.le_iff_toNat_le.mp high, rest⟩

theorem Continues.of_two (continues : Continues unfinished tail number) (owes : unfinished.owed = 2) :
    ∃ second third, tail = [second, third] ∧ unfinished.low.toNat ≤ second.toNat ∧
      second.toNat ≤ unfinished.high.toNat ∧ (0x80 ≤ third.toNat ∧ third.toNat ≤ 0xBF) ∧
      number = (unfinished.value * 64 + second.toNat % 64) * 64 + third.toNat % 64 := by
  obtain ⟨second, _, rfl, low, high, rest⟩ := continues.of_more owes
  obtain ⟨third, rfl, least, most, same⟩ := rest.of_one rfl
  exact ⟨second, third, rfl, low, high, ⟨least, most⟩, same⟩

theorem Continues.of_three (continues : Continues unfinished tail number) (owes : unfinished.owed = 3) :
    ∃ second third fourth, tail = [second, third, fourth] ∧ unfinished.low.toNat ≤ second.toNat ∧
      second.toNat ≤ unfinished.high.toNat ∧ (0x80 ≤ third.toNat ∧ third.toNat ≤ 0xBF) ∧
      (0x80 ≤ fourth.toNat ∧ fourth.toNat ≤ 0xBF) ∧
      number = ((unfinished.value * 64 + second.toNat % 64) * 64 + third.toNat % 64) * 64 + fourth.toNat % 64 := by
  obtain ⟨second, _, rfl, low, high, rest⟩ := continues.of_more owes
  obtain ⟨third, fourth, rfl, least, most, last, same⟩ := rest.of_two rfl
  exact ⟨second, third, fourth, rfl, low, high, ⟨least, most⟩, last, same⟩

end

theorem eq_ofNat (byte : UInt8) {number : Nat} (same : byte.toNat = number) : byte = UInt8.ofNat number := by
  rw [← same, UInt8.ofNat_toNat]

section

variable {first second third fourth : UInt8} {number : Nat}

theorem exists_encoded_ascii (ascii : first < 0x80) :
    ∃ character : Char, String.utf8EncodeChar character = [first] := by
  rw [UInt8.lt_iff_toNat_lt] at ascii
  have low : first.toNat < 0x80 := ascii
  obtain ⟨character, same⟩ := exists_char first.toNat (by omega)
  refine ⟨character, ?_⟩
  rw [utf8EncodeChar_eq, same, encodedNumber, if_pos (by omega), UInt8.ofNat_toNat]

theorem encodedNumber_two (lead : 0xC2 ≤ first.toNat ∧ first.toNat < 0xE0)
    (six : 0x80 ≤ second.toNat ∧ second.toNat ≤ 0xBF)
    (same : number = (first.toNat - 0xC0) * 64 + second.toNat % 64) :
    number.isValidChar ∧ encodedNumber number = [first, second] := by
  refine ⟨by omega, ?_⟩
  rw [encodedNumber, if_neg (by omega), if_pos (by omega), eq_ofNat first, eq_ofNat second] <;>
    omega

theorem encodedNumber_three (lead : 0xE0 ≤ first.toNat ∧ first.toNat < 0xF0)
    (six : 0x80 ≤ second.toNat ∧ second.toNat ≤ 0xBF) (last : 0x80 ≤ third.toNat ∧ third.toNat ≤ 0xBF)
    (least : first.toNat = 0xE0 → 0xA0 ≤ second.toNat) (surrogates : first.toNat = 0xED → second.toNat ≤ 0x9F)
    (same : number = ((first.toNat - 0xE0) * 64 + second.toNat % 64) * 64 + third.toNat % 64) :
    number.isValidChar ∧ encodedNumber number = [first, second, third] := by
  refine ⟨by omega, ?_⟩
  rw [encodedNumber, if_neg (by omega), if_neg (by omega), if_pos (by omega), eq_ofNat first,
    eq_ofNat second, eq_ofNat third] <;> omega

theorem encodedNumber_four (lead : 0xF0 ≤ first.toNat ∧ first.toNat ≤ 0xF4)
    (six : 0x80 ≤ second.toNat ∧ second.toNat ≤ 0xBF) (next : 0x80 ≤ third.toNat ∧ third.toNat ≤ 0xBF)
    (last : 0x80 ≤ fourth.toNat ∧ fourth.toNat ≤ 0xBF)
    (least : first.toNat = 0xF0 → 0x90 ≤ second.toNat) (greatest : first.toNat = 0xF4 → second.toNat ≤ 0x8F)
    (same : number =
      (((first.toNat - 0xF0) * 64 + second.toNat % 64) * 64 + third.toNat % 64) * 64 + fourth.toNat % 64) :
    number.isValidChar ∧ encodedNumber number = [first, second, third, fourth] := by
  refine ⟨by omega, ?_⟩
  rw [encodedNumber, if_neg (by omega), if_neg (by omega), if_neg (by omega), eq_ofNat first,
    eq_ofNat second, eq_ofNat third, eq_ofNat fourth] <;> omega

end

theorem exists_encoded {byte : UInt8} {tail : List UInt8} {unfinished : Unfinished} {number : Nat}
    (lead : lead? byte = some unfinished) (continues : Continues unfinished tail number) :
    ∃ character : Char, String.utf8EncodeChar character = byte :: tail := by
  suffices scalar : number.isValidChar ∧ encodedNumber number = byte :: tail by
    obtain ⟨character, rfl⟩ := exists_char number scalar.1
    exact ⟨character, scalar.2⟩
  have bounded := byte.toNat_lt
  rw [← UInt8.ofNat_toNat (x := byte), lead?_ofNat bounded] at lead
  split at lead
  · cases lead
  split at lead
  next =>
    obtain rfl := Option.some.inj lead
    obtain ⟨second, rfl, low, high, same⟩ := continues.of_one rfl
    exact encodedNumber_two (by omega) ⟨low, high⟩ same
  split at lead
  next least =>
    obtain rfl := Option.some.inj lead
    obtain ⟨second, third, rfl, low, high, last, same⟩ := continues.of_two rfl
    have low : 0xA0 ≤ second.toNat := low
    exact encodedNumber_three (by omega) ⟨by omega, high⟩ last (fun _ => low) (by omega) (by simpa [least] using same)
  split at lead
  next surrogates =>
    obtain rfl := Option.some.inj lead
    obtain ⟨second, third, rfl, low, high, last, same⟩ := continues.of_two rfl
    have high : second.toNat ≤ 0x9F := high
    exact encodedNumber_three (by omega) ⟨low, by omega⟩ last (by omega) (fun _ => high)
      (by simpa [surrogates] using same)
  split at lead
  next =>
    obtain rfl := Option.some.inj lead
    obtain ⟨second, third, rfl, low, high, last, same⟩ := continues.of_two rfl
    exact encodedNumber_three (by omega) ⟨low, high⟩ last (by omega) (by omega) same
  split at lead
  next least =>
    obtain rfl := Option.some.inj lead
    obtain ⟨second, third, fourth, rfl, low, high, next, last, same⟩ := continues.of_three rfl
    have low : 0x90 ≤ second.toNat := low
    exact encodedNumber_four (by omega) ⟨by omega, high⟩ next last (fun _ => low) (by omega)
      (by simpa [least] using same)
  split at lead
  next =>
    obtain rfl := Option.some.inj lead
    obtain ⟨second, third, fourth, rfl, low, high, next, last, same⟩ := continues.of_three rfl
    exact encodedNumber_four (by omega) ⟨low, high⟩ next last (by omega) (by omega) same
  split at lead
  next greatest =>
    obtain rfl := Option.some.inj lead
    obtain ⟨second, third, fourth, rfl, low, high, next, last, same⟩ := continues.of_three rfl
    have high : second.toNat ≤ 0x8F := high
    exact encodedNumber_four (by omega) ⟨low, by omega⟩ next last (by omega) (fun _ => high)
      (by simpa [greatest] using same)
  · cases lead

/-- The bytes of a text read as its characters. -/
theorem piecesOn_encoded (characters : List Char) (rest : List UInt8) :
    piecesOn none (characters.flatMap String.utf8EncodeChar ++ rest) = characters.map .char ++ piecesOn none rest := by
  induction characters with
  | nil => rfl
  | cons character characters ih =>
    rw [List.flatMap_cons, List.append_assoc]
    rcases encoded_cases character with ⟨byte, same, ascii, shown⟩ | ⟨byte, tail, same, wide, unfinished, lead, continues⟩
    · rw [same, List.singleton_append, piecesOn_cons]
      simp [step, start, ascii, shown, ih]
    · rw [same, List.cons_append, piecesOn_cons]
      simp [step, start, wide, lead, continues.pieces, ih, Char.ofNat_toNat]

theorem exists_owed {byte : UInt8} {unfinished : Unfinished} (lead : lead? byte = some unfinished) :
    ∃ owed, unfinished.owed = owed + 1 := by
  refine Nat.exists_eq_add_one.mpr ?_
  unfold lead? at lead
  grind

/-- Bytes without a stretch that is no character are those of some characters. -/
theorem exists_characters {bytes : List UInt8} (valid : .invalid ∉ piecesOn none bytes) :
    ∃ characters : List Char, bytes = characters.flatMap String.utf8EncodeChar := by
  induction counted : bytes.length using Nat.strongRecOn generalizing bytes with
  | ind size ih =>
    cases bytes with
    | nil => exact ⟨[], rfl⟩
    | cons byte rest =>
      rw [piecesOn_cons, step, start] at valid
      split at valid
      next ascii =>
        simp only [List.singleton_append, List.mem_cons, not_or] at valid
        obtain ⟨characters, rfl⟩ := ih rest.length (by simp [← counted]) valid.2 rfl
        obtain ⟨character, same⟩ := exists_encoded_ascii ascii
        exact ⟨character :: characters, by simp [same]⟩
      next wide =>
        split at valid
        next => simp at valid
        next unfinished lead =>
          obtain ⟨owed, owes⟩ := exists_owed lead
          obtain ⟨tail, rest, number, rfl, continues, valid⟩ := exists_continues owes (by simpa using valid)
          have shorter : rest.length < size := by
            rw [← counted, List.length_cons, List.length_append]
            omega
          obtain ⟨characters, rfl⟩ := ih rest.length shorter valid rfl
          obtain ⟨character, same⟩ := exists_encoded lead continues
          exact ⟨character :: characters, by simp [same]⟩

theorem encode_eq (text : String) : encode text = text.toList.flatMap String.utf8EncodeChar := by
  obtain ⟨characters, rfl⟩ : ∃ characters, text = String.ofList characters := ⟨text.toList, (String.ofList_toList).symm⟩
  rw [encode, String.toUTF8_eq_toByteArray, String.toByteArray_ofList, String.toList_ofList, List.utf8Encode]
  simp

theorem isValid_iff {bytes : List UInt8} : isValid bytes = true ↔ ∃ text : String, encode text = bytes := by
  have pieced : isValid bytes = true ↔ .invalid ∉ piecesOn none bytes := by
    simp only [isValid, List.all_eq_true, bne_iff_ne]
    constructor
    · exact fun all member => all _ member rfl
    · rintro clear piece member rfl
      exact clear member
  rw [pieced]
  constructor
  · intro valid
    obtain ⟨characters, rfl⟩ := exists_characters valid
    exact ⟨String.ofList characters, by rw [encode_eq, String.toList_ofList]⟩
  · rintro ⟨text, rfl⟩
    have read := piecesOn_encoded text.toList []
    rw [List.append_nil, ← encode_eq] at read
    rw [read]
    simp [piecesOn, piecesFrom]

end SqliteReader.Utf8
