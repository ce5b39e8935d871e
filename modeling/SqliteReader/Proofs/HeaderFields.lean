import Mathlib.Tactic.IntervalCases
import SqliteReader.Proofs.PageLayout

/-! The header told by its bytes. The conditions on them stand in one list, in the order in
which they count: parsing succeeds when all of them hold, and otherwise reports the first
that does not. What was parsed can be written back, and nothing but the bytes that hold
fields settles it. -/

namespace SqliteReader.Header

/-- A condition, and the error that reports that it does not hold. -/
structure Check where
  holds : Prop
  reason : HeaderError
  [decides : Decidable holds]

attribute [instance] Check.decides

def byteAt (bytes : List UInt8) (offset : Nat) : UInt8 := UInt8.ofNat (numberAt bytes offset 1)

def wordAt (bytes : List UInt8) (offset : Nat) : UInt32 := UInt32.ofNat (numberAt bytes offset 4)

/-- All that is asked of the bytes of a header, in this order. -/
def checks (bytes : List UInt8) : List Check :=
  [{ holds := 100 ≤ bytes.length
     reason := .truncated bytes.length },
   { holds := bytes.take 16 = magic
     reason := .badMagic (bytes.take 16) },
   { holds := numberAt bytes 16 2 = 1 ∨
       (numberAt bytes 16 2).isPowerOfTwo ∧ 512 ≤ numberAt bytes 16 2 ∧ numberAt bytes 16 2 ≤ 32768
     reason := .invalidPageSize (numberAt bytes 16 2) },
   { holds := byteAt bytes 18 = 2 ∧ byteAt bytes 19 = 2
     reason := .notWal (byteAt bytes 18) (byteAt bytes 19) },
   { holds := wordAt bytes 56 = 1
     reason := .unsupportedEncoding (wordAt bytes 56) },
   { holds := wordAt bytes 24 = wordAt bytes 92
     reason := .stalePageCount (wordAt bytes 24) (wordAt bytes 92) },
   { holds := wordAt bytes 44 = 4
     reason := .unsupportedSchemaFormat (wordAt bytes 44) },
   { holds := byteAt bytes 20 = 0
     reason := .reservedBytes (byteAt bytes 20) }]

def verdict (header : Header) : List Check → Except HeaderError Header
  | [] => .ok header
  | check :: later => if check.holds then verdict header later else .error check.reason

section

variable {header result : Header} {checks : List Check} {reason : HeaderError}

theorem verdict_ok_iff :
    verdict header checks = .ok result ↔ (∀ check ∈ checks, check.holds) ∧ result = header := by
  induction checks with
  | nil =>
    rw [verdict, Except.ok.injEq, eq_comm]
    simp
  | cons check later ih =>
    rw [verdict, List.forall_mem_cons]
    by_cases holds : check.holds
    · rw [if_pos holds, ih]
      simp [holds]
    · rw [if_neg holds]
      simp [holds]

theorem verdict_error_iff :
    verdict header checks = .error reason ↔
      ∃ passed failed later, checks = passed ++ failed :: later ∧ (∀ check ∈ passed, check.holds) ∧
        ¬ failed.holds ∧ failed.reason = reason := by
  induction checks with
  | nil =>
    constructor
    · intro impossible
      cases impossible
    · rintro ⟨passed, failed, later, parts, -⟩
      simp at parts
  | cons check later ih =>
    rw [verdict]
    constructor
    · intro failed
      split at failed
      next holds =>
        obtain ⟨passed, violated, behind, rfl, all, reported⟩ := ih.mp failed
        exact ⟨check :: passed, violated, behind, rfl, List.forall_mem_cons.mpr ⟨holds, all⟩, reported⟩
      next violated =>
        cases failed
        exact ⟨[], check, later, rfl, List.forall_mem_nil _, violated, rfl⟩
    · rintro ⟨passed, failed, behind, parts, all, violated⟩
      cases passed with
      | nil =>
        cases parts
        rw [if_neg violated.1, violated.2]
      | cons first passed =>
        cases parts
        obtain ⟨holds, all⟩ := List.forall_mem_cons.mp all
        rw [if_pos holds]
        exact ih.mpr ⟨passed, failed, behind, rfl, all, violated⟩

end

variable {bytes other : List UInt8} {offset width : Nat}

theorem numberAt_lt (bytes : List UInt8) (offset width : Nat) : numberAt bytes offset width < BigEndian.span width :=
  Nat.lt_of_lt_of_le (BigEndian.read_lt _) (Nat.pow_le_pow_right (by decide) (List.length_take_le _ _))

/-- The page sizes are the powers of two from 512 to 65536, the last of which is stored as 1. -/
theorem expandPageSize_mem_iff {stored : Nat} (small : stored < 65536) :
    expandPageSize stored ∈ pageSizes ↔
      stored = 1 ∨ stored.isPowerOfTwo ∧ 512 ≤ stored ∧ stored ≤ 32768 := by
  by_cases expanded : stored = 1
  · subst expanded
    simp [expandPageSize, pageSizes]
  rw [expandPageSize, if_neg expanded, or_iff_right expanded]
  constructor
  · intro listed
    have stored_once : stored ≠ 65536 := Nat.ne_of_lt small
    simp only [pageSizes, List.mem_cons, List.not_mem_nil, or_false, stored_once] at listed
    obtain rfl | rfl | rfl | rfl | rfl | rfl | rfl := listed
    all_goals decide
  · rintro ⟨⟨power, rfl⟩, least, most⟩
    have above : 8 < power := (Nat.pow_lt_pow_iff_right (Nat.one_lt_two)).mp (Nat.lt_of_lt_of_le (by decide) least)
    have below : power < 16 := (Nat.pow_lt_pow_iff_right (Nat.one_lt_two)).mp (Nat.lt_of_le_of_lt most (by decide))
    interval_cases power <;> decide

theorem objection?_elim (bytes : List UInt8) :
    (decode bytes).objection?.elim (.ok (decode bytes)) .error =
      verdict (decode bytes) ((checks bytes).drop 3) := by
  let result (objection : Option HeaderError) : Except HeaderError Header :=
    objection.elim (.ok (decode bytes)) .error
  change result (decode bytes).objection? = _
  simp only [objection?, ne_eq, ← not_and_or, ite_not, apply_ite result]
  rfl

theorem parse_eq_verdict (bytes : List UInt8) : parse bytes = verdict (decode bytes) (checks bytes) := by
  have sizes : expandPageSize (storedPageSize bytes) ∈ pageSizes ↔ _ :=
    expandPageSize_mem_iff (numberAt_lt bytes 16 2)
  unfold parse
  simp only [sizes, size, ← Nat.not_le, ne_eq, ite_not]
  change _ = ite _ (ite _ (ite _ (verdict (decode bytes) ((checks bytes).drop 3)) _) _) _
  rw [← objection?_elim]
  cases (decode bytes).objection? <;> rfl

theorem write_numberAt (inside : offset + width ≤ bytes.length) :
    BigEndian.write width (numberAt bytes offset width) = (bytes.drop offset).take width := by
  have whole : ((bytes.drop offset).take width).length = width := by
    rw [List.length_take, List.length_drop]
    omega
  have again := BigEndian.write_read ((bytes.drop offset).take width)
  rwa [whole] at again

theorem write_byteAt (inside : offset + 1 ≤ bytes.length) :
    BigEndian.write 1 (byteAt bytes offset).toNat = (bytes.drop offset).take 1 := by
  have kept : (byteAt bytes offset).toNat = numberAt bytes offset 1 :=
    UInt8.toNat_ofNat_of_lt (numberAt_lt bytes offset 1)
  rw [kept, write_numberAt inside]

theorem write_wordAt (inside : offset + 4 ≤ bytes.length) :
    BigEndian.write 4 (wordAt bytes offset).toNat = (bytes.drop offset).take 4 := by
  have kept : (wordAt bytes offset).toNat = numberAt bytes offset 4 :=
    UInt32.toNat_ofNat_of_lt (numberAt_lt bytes offset 4)
  rw [kept, write_numberAt inside]

theorem write_pageSize (long : 100 ≤ bytes.length) :
    BigEndian.write 2 (if (decode bytes).pageSize = 65536 then 1 else (decode bytes).pageSize) =
      (bytes.drop 16).take 2 := by
  have small := numberAt_lt bytes 16 2
  rw [← write_numberAt (show 16 + 2 ≤ bytes.length by omega)]
  congr 1
  change (if expandPageSize (numberAt bytes 16 2) = 65536 then 1 else expandPageSize (numberAt bytes 16 2)) = _
  have small : numberAt bytes 16 2 < 65536 := small
  grind [expandPageSize]

theorem front_decode (long : 100 ≤ bytes.length) (magical : bytes.take 16 = magic) :
    (decode bytes).front = bytes.take 72 := by
  have byte (offset : Nat) (inside : offset < 72) :
      BigEndian.write 1 (UInt8.ofNat (numberAt bytes offset 1)).toNat = (bytes.drop offset).take 1 :=
    write_byteAt (by omega)
  have word (offset : Nat) (inside : offset < 72) :
      BigEndian.write 4 (UInt32.ofNat (numberAt bytes offset 4)).toNat = (bytes.drop offset).take 4 :=
    write_wordAt (by omega)
  have stored := write_pageSize long
  unfold front
  rw [stored, ← magical]
  simp (disch := decide) only [decode, byte, word, ← List.take_add]

theorem back_decode (long : 100 ≤ bytes.length) : (decode bytes).back = (bytes.drop 92).take 8 := by
  have before : BigEndian.write 4 (decode bytes).versionValidFor.toNat = (bytes.drop 92).take 4 :=
    write_wordAt (by omega)
  have behind : BigEndian.write 4 (decode bytes).writerVersion.toNat = (bytes.drop 96).take 4 :=
    write_wordAt (by omega)
  rw [back, before, behind, ← List.drop_drop (i := 4) (j := 92), ← List.take_add]

/-- The bytes that hold a field or the magic text; those in between are unused. -/
def used (bytes : List UInt8) : List UInt8 := bytes.take 72 ++ (bytes.drop 92).take 8

section

variable (long : 100 ≤ bytes.length)

include long

theorem numberAt_front (inside : offset + width ≤ 72) :
    numberAt bytes offset width = numberAt (used bytes) offset width := by
  have length : (bytes.take 72).length = 72 := List.length_take_of_le (by omega)
  rw [numberAt, numberAt, used, List.drop_append_of_le_length (by omega),
    List.take_append_of_le_length (by rw [List.length_drop]; omega), List.drop_take, List.take_take,
    Nat.min_eq_left (by omega)]

theorem numberAt_back (behind : 92 ≤ offset) (inside : offset + width ≤ 100) :
    numberAt bytes offset width = numberAt (used bytes) (offset - 20) width := by
  have length : (bytes.take 72).length = 72 := List.length_take_of_le (by omega)
  have nothing : (bytes.take 72).drop (offset - 20) = [] := List.drop_eq_nil_of_le (by omega)
  have skipped : 92 + (offset - 20 - 72) = offset := by omega
  rw [numberAt, numberAt, used, List.drop_append, nothing, List.nil_append, length, List.drop_take, List.drop_drop,
    List.take_take, skipped, Nat.min_eq_left (by omega)]

variable (other_long : 100 ≤ other.length) (same : used other = used bytes)

include other_long same

theorem decode_congr : decode other = decode bytes := by
  have front_same {offset width : Nat} (inside : offset + width ≤ 72) :
      numberAt other offset width = numberAt bytes offset width := by
    rw [numberAt_front other_long inside, same, numberAt_front long inside]
  have back_same {offset width : Nat} (behind : 92 ≤ offset) (inside : offset + width ≤ 100) :
      numberAt other offset width = numberAt bytes offset width := by
    rw [numberAt_back other_long behind inside, same, numberAt_back long behind inside]
  simp (disch := decide) only [decode, storedPageSize, front_same, back_same]

/-- What is asked of long enough bytes and what is read of them is read off those used. -/
theorem parse_congr : parse other = parse bytes := by
  have lengths : (other.take 72).length = (bytes.take 72).length := by
    rw [List.length_take_of_le (by omega), List.length_take_of_le (by omega)]
  have magical : other.take 16 = bytes.take 16 := by
    have front : (other.take 72).take 16 = (bytes.take 72).take 16 := congrArg _ (List.append_inj_left same lengths)
    rwa [List.take_take, List.take_take] at front
  have stored : storedPageSize other = storedPageSize bytes := by
    rw [storedPageSize, numberAt_front other_long (by decide), same, ← numberAt_front long (by decide),
      storedPageSize]
  have (bytes : List UInt8) (long : 100 ≤ bytes.length) : ¬ bytes.length < size := long.not_gt
  rw [parse, parse, if_neg (this other other_long), if_neg (this bytes long), magical, stored,
    decode_congr long other_long same]

end

/-- What was parsed is written back to the bytes it came from. -/
theorem fields_of_parse {header : Header} (parsed : parse bytes = .ok header) :
    100 ≤ bytes.length ∧ header.front = bytes.take 72 ∧ header.back = (bytes.drop 92).take 8 := by
  rw [parse_eq_verdict, verdict_ok_iff] at parsed
  obtain ⟨held, rfl⟩ := parsed
  have long : 100 ≤ bytes.length := held _ (.head _)
  have magical : bytes.take 16 = magic := held _ (.tail _ (.head _))
  exact ⟨long, front_decode long magical, back_decode long⟩

/-- Parsing succeeds when all checks hold and reports the first that does not. It loses
none of the used bytes, and what lies between or behind them changes nothing. -/
theorem parse_exact (bytes : List UInt8) :
    ((∃ header, parse bytes = .ok header) ↔ ∀ check ∈ checks bytes, check.holds) ∧
      (∀ reason, parse bytes = .error reason ↔
        ∃ passed failed later, checks bytes = passed ++ failed :: later ∧ (∀ check ∈ passed, check.holds) ∧
          ¬ failed.holds ∧ failed.reason = reason) ∧
      (∀ header, parse bytes = .ok header →
        header.front = bytes.take 72 ∧ header.back = (bytes.drop 92).take 8 ∧
          ∀ other, parse other = .ok header ↔ 100 ≤ other.length ∧ used other = used bytes) ∧
      ∀ other, 100 ≤ bytes.length → 100 ≤ other.length → used other = used bytes → parse other = parse bytes := by
  refine ⟨?accepted, ?refused, ?lossless, fun other long other_long => parse_congr long other_long⟩
  case accepted =>
    simp only [parse_eq_verdict, verdict_ok_iff, exists_and_left, exists_eq, and_true]
  case refused =>
    intro reason
    rw [parse_eq_verdict, verdict_error_iff]
  case lossless =>
    intro header parsed
    obtain ⟨long, front_kept, back_kept⟩ := fields_of_parse parsed
    refine ⟨front_kept, back_kept, fun other => ⟨?_, ?_⟩⟩
    · intro other_parsed
      obtain ⟨other_long, other_front, other_back⟩ := fields_of_parse other_parsed
      exact ⟨other_long, by rw [used, used, ← front_kept, ← back_kept, other_front, other_back]⟩
    · rintro ⟨other_long, same⟩
      rw [parse_congr long other_long same, parsed]

/-- Other bytes in the gap are the same header; of two failures the one asked about first
is reported. -/
theorem parse_exact_gap :
    parse Sample.front = .ok Sample.header ∧
      parse (Sample.header.front ++ List.replicate 20 1 ++ Sample.header.back) = .ok Sample.header ∧
      parse ((Sample.front.set 19 1).set 20 8) = .error (.notWal 2 1) := by
  have parsed : parse Sample.front = .ok Sample.header := by decide +kernel
  obtain ⟨-, -, lossless, -⟩ := parse_exact Sample.front
  obtain ⟨-, refused, -⟩ := parse_exact ((Sample.front.set 19 1).set 20 8)
  refine ⟨parsed, ((lossless _ parsed).2.2 _).mpr ⟨by decide, by decide⟩, (refused _).mpr ?_⟩
  exact ⟨(checks _).take 3, _, (checks _).drop 4, rfl, by decide, by decide, rfl⟩

end SqliteReader.Header
