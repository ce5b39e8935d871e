import SqliteReader.Proofs.CellForms
import SqliteReader.Proofs.RecordForms

/-! What becomes of the bytes at a cell's place. A cell starts with fields that say how long
its payload is: where they do not all stand on the page there is no cell, where the payload
is longer than what the page keeps to itself it is refused, and everything else is a cell.
None of the offsets and sizes on the way leaves a machine word. -/

namespace SqliteReader

/-- If this fails, then for the reason given. -/
def FailsOnly {ε α : Type} (result : Except ε α) (reason : ε) : Prop :=
  ∀ other, result = .error other → other = reason

theorem failsOnly_ok {ε α : Type} (value : α) (reason : ε) : FailsOnly (.ok value) reason := by
  intro other impossible
  cases impossible

theorem map_error_iff {ε α β : Type} {result : Except ε α} {convert : α → β} {reason : ε} :
    convert <$> result = .error reason ↔ result = .error reason := by
  cases result with
  | error other => simp [Functor.map, Except.map]
  | ok value => simp [Functor.map, Except.map]

theorem failsOnly_bind {ε α β : Type} {first : Except ε α} {next : α → Except ε β} {reason : ε}
    (begins : FailsOnly first reason) (goes : ∀ middle, FailsOnly (next middle) reason) :
    FailsOnly (first >>= next) reason := by
  cases first with
  | error other =>
    intro _ failed
    cases failed
    exact begins other rfl
  | ok middle => exact goes middle

namespace Cell

section reading

variable {page : Page} {kind : PageKind} {offset start : Nat} {size : UInt64} {lead : Lead} {reason : CorruptError}

theorem readChild_fails (page : Page) (cell offset : Nat) :
    FailsOnly (readChild page cell offset) (.cellOutOfBounds page.number cell) := by
  intro other failed
  rw [readChild] at failed
  split at failed
  next =>
    cases failed
    rfl
  next => cases failed

theorem readVarint_fails (page : Page) (cell offset : Nat) :
    FailsOnly (readVarint page cell offset) (.cellOutOfBounds page.number cell) := by
  intro other failed
  rw [readVarint] at failed
  split at failed
  next =>
    cases failed
    rfl
  next => cases failed

theorem readPayload_error_iff :
    readPayload page kind start size = .error reason ↔
      ¬ (size.toNat ≤ maxLocal kind page.size ∧ start + size.toNat ≤ page.size) ∧
        reason = .payloadOverflow page.number start size := by
  rw [readPayload, Page.slice?]
  by_cases fits : size.toNat ≤ maxLocal kind page.size
  · rw [if_neg (Nat.not_lt.mpr fits)]
    by_cases inside : start + size.toNat ≤ page.size
    · rw [if_pos ⟨Nat.le_add_right _ _, inside⟩]
      simp [fits, inside]
    · rw [if_neg (fun within => inside within.2)]
      simp [fits, inside, eq_comm]
  · rw [if_pos (Nat.not_le.mp fits)]
    simp [fits, eq_comm]

theorem readLead_fails (page : Page) (kind : PageKind) (offset : Nat) :
    FailsOnly (readLead page kind offset) (.cellOutOfBounds page.number offset) := by
  cases kind with
  | tableLeaf =>
    refine failsOnly_bind (readVarint_fails _ _ _) fun size => ?_
    exact failsOnly_bind (readVarint_fails _ _ _) fun rowid => failsOnly_ok _ _
  | tableInterior =>
    refine failsOnly_bind (readChild_fails _ _ _) fun child => ?_
    exact failsOnly_bind (readVarint_fails _ _ _) fun key => failsOnly_ok _ _
  | indexLeaf => exact failsOnly_bind (readVarint_fails _ _ _) fun size => failsOnly_ok _ _
  | indexInterior =>
    refine failsOnly_bind (readChild_fails _ _ _) fun child => ?_
    exact failsOnly_bind (readVarint_fails _ _ _) fun size => failsOnly_ok _ _

theorem parse_of_stands (stands : lead.Stands page kind offset start) :
    parse page kind offset = lead.cell <$> readPayload page lead.kind start lead.size := by
  rw [parse_eq, readLead_ok_iff.mpr stands, stands.1]
  rfl

theorem parse_of_absent (absent : ¬ ∃ (lead : Lead) (start : Nat), lead.Stands page kind offset start) :
    parse page kind offset = .error (.cellOutOfBounds page.number offset) := by
  rw [parse_eq]
  cases found : readLead page kind offset with
  | error other =>
    rw [readLead_fails page kind offset other found]
    rfl
  | ok found_lead => exact absurd ⟨_, _, readLead_ok_iff.mp found⟩ absent

theorem parse_error_iff :
    parse page kind offset = .error reason ↔
      (¬ (∃ (lead : Lead) (start : Nat), lead.Stands page kind offset start) ∧
        reason = .cellOutOfBounds page.number offset) ∨
      ∃ (lead : Lead) (start : Nat), lead.Stands page kind offset start ∧ ¬ lead.Fits page start ∧
        reason = .payloadOverflow page.number start lead.size := by
  constructor
  · intro failed
    by_cases present : ∃ (lead : Lead) (start : Nat), lead.Stands page kind offset start
    · obtain ⟨lead, start, stands⟩ := present
      rw [parse_of_stands stands, map_error_iff, readPayload_error_iff] at failed
      exact .inr ⟨lead, start, stands, failed⟩
    · rw [parse_of_absent present] at failed
      cases failed
      exact .inl ⟨present, rfl⟩
  · rintro (⟨absent, rfl⟩ | ⟨lead, start, stands, overflows⟩)
    · exact parse_of_absent absent
    · rw [parse_of_stands stands, map_error_iff, readPayload_error_iff]
      exact overflows

end reading

/-! The same with every sum, difference and product made in 64-bit words. -/

open Record (wordSum? wordSum?_eq)

/-- The difference, unless it is negative. -/
def wordDifference? (left right : Nat) : Option Nat := if right ≤ left then some (left - right) else none

/-- The product, unless a 64-bit word is too small for it. -/
def wordProduct? (left right : Nat) : Option Nat :=
  if left * right < 0x10000000000000000 then some (left * right) else none

def maxLocalInWords (kind : PageKind) (usable : Nat) : Option Nat :=
  if kind.isTable then wordDifference? usable 35
  else do
    let bytes ← wordDifference? usable 12
    let scaled ← wordProduct? bytes 64
    wordDifference? (scaled / 255) 23

/-- The sum is where the child ends and the next field starts. -/
def readChildInWords (page : Page) (cell offset : Nat) : ExceptT CorruptError Option UInt32 :=
  .mk ((wordSum? offset 4).map fun _ => readChild page cell offset)

def readVarintInWords (page : Page) (cell offset : Nat) : ExceptT CorruptError Option (UInt64 × Nat) :=
  .mk (match page.varint? offset with
    | none => some (.error (.cellOutOfBounds page.number cell))
    | some (value, taken) => (wordSum? offset taken).map fun behind => .ok (value, behind))

def readPayloadInWords (page : Page) (kind : PageKind) (offset : Nat) (size : UInt64) :
    ExceptT CorruptError Option (List UInt8) :=
  .mk ((maxLocalInWords kind page.size).bind fun most =>
    if most < size.toNat then some (.error (.payloadOverflow page.number offset size))
    else (wordSum? offset size.toNat).map fun stop =>
      match page.slice? offset stop with
      | none => .error (.payloadOverflow page.number offset size)
      | some payload => .ok payload)

/-- Like `parse`, but gives up where a word does not hold what is computed. -/
def parseInWords (page : Page) (kind : PageKind) (offset : Nat) : ExceptT CorruptError Option Cell :=
  match kind with
  | .tableLeaf => do
    let (size, behind) ← readVarintInWords page offset offset
    let (rowid, behind) ← readVarintInWords page offset behind
    let payload ← readPayloadInWords page kind behind size
    return .tableLeaf rowid.toInt64 payload
  | .tableInterior => do
    let child ← readChildInWords page offset offset
    let (key, _) ← readVarintInWords page offset (offset + 4)
    return .tableInterior child key.toInt64
  | .indexLeaf => do
    let (size, behind) ← readVarintInWords page offset offset
    return .indexLeaf (← readPayloadInWords page kind behind size)
  | .indexInterior => do
    let child ← readChildInWords page offset offset
    let (size, behind) ← readVarintInWords page offset (offset + 4)
    return .indexInterior child (← readPayloadInWords page kind behind size)

section words

variable {page : Page} {kind : PageKind} {cell offset start : Nat} {size : UInt64}

theorem words_bind {ε α β : Type} {first : Except ε α} {next : α → ExceptT ε Option β}
    {exact : α → Except ε β}
    (goes : ∀ middle, first = .ok middle → next middle = .mk (some (exact middle))) :
    (ExceptT.mk (some first) >>= next : ExceptT ε Option β) = .mk (some (first >>= exact)) := by
  cases first with
  | error reason => rfl
  | ok middle => exact goes middle rfl

theorem readChildInWords_eq (near : offset ≤ 65535) :
    readChildInWords page cell offset = .mk (some (readChild page cell offset)) := by
  rw [readChildInWords, wordSum?_eq (by omega)]
  rfl

variable (small : page.size < 0x8000000000000000)

include small

theorem readVarintInWords_eq : readVarintInWords page cell offset = .mk (some (readVarint page cell offset)) := by
  rw [readVarintInWords, readVarint]
  cases found : page.varint? offset with
  | none => rfl
  | some taken =>
    obtain ⟨form, holds, counted, -⟩ := Page.varint?_eq_some_iff.mp found
    have inside := holds.inside
    dsimp only
    rw [wordSum?_eq (by omega)]
    rfl

variable (large : 104 ≤ page.size)

include large

theorem maxLocal_lt : maxLocal kind page.size < page.size := by
  rw [maxLocal]
  split
  all_goals omega

variable (scales : kind.isTable ∨ (page.size - 12) * 64 < 0x10000000000000000)

include scales

/-- A page of 104 bytes is just large enough for the bound not to be negative. -/
theorem maxLocalInWords_eq : maxLocalInWords kind page.size = some (maxLocal kind page.size) := by
  rw [maxLocalInWords, maxLocal]
  split
  next => exact if_pos (by omega)
  next other =>
    have product := scales.resolve_left other
    have scaled : 23 ≤ (page.size - 12) * 64 / 255 := by omega
    have fewer : wordDifference? page.size 12 = some (page.size - 12) := if_pos (by omega)
    have times : wordProduct? (page.size - 12) 64 = some ((page.size - 12) * 64) := if_pos product
    rw [fewer, Option.bind_eq_bind, Option.bind_some, times, Option.bind_some]
    exact if_pos scaled

theorem readPayloadInWords_eq (inside : start ≤ page.size) :
    readPayloadInWords page kind start size = .mk (some (readPayload page kind start size)) := by
  have bound : maxLocal kind page.size < page.size := maxLocal_lt small large
  rw [readPayloadInWords, maxLocalInWords_eq small large scales, Option.bind_some, readPayload]
  split
  next => rfl
  next fits =>
    rw [wordSum?_eq (by omega)]
    rfl

theorem parseInWords_eq (near : offset ≤ 65535) :
    parseInWords page kind offset = .mk (some (parse page kind offset)) := by
  have inside {start behind : Nat} {value : UInt64} (read : readVarint page offset start = .ok (value, behind)) :
      behind ≤ page.size := by
    obtain ⟨form, holds, -, rfl⟩ := readVarint_ok_iff.mp read
    exact holds.inside
  cases kind with
  | tableLeaf =>
    rw [parseInWords, parse, readVarintInWords_eq small]
    refine words_bind fun taken _ => ?_
    obtain ⟨size, behind⟩ := taken
    dsimp only
    rw [readVarintInWords_eq small]
    refine words_bind fun taken found => ?_
    obtain ⟨rowid, behind⟩ := taken
    dsimp only
    rw [readPayloadInWords_eq small large scales (inside found)]
    exact words_bind fun payload _ => rfl
  | tableInterior =>
    rw [parseInWords, parse, readChildInWords_eq near]
    refine words_bind fun child _ => ?_
    rw [readVarintInWords_eq small]
    exact words_bind fun found _ => rfl
  | indexLeaf =>
    rw [parseInWords, parse, readVarintInWords_eq small]
    refine words_bind fun taken found => ?_
    obtain ⟨size, behind⟩ := taken
    dsimp only
    rw [readPayloadInWords_eq small large scales (inside found)]
    exact words_bind fun payload _ => rfl
  | indexInterior =>
    rw [parseInWords, parse, readChildInWords_eq near]
    refine words_bind fun child _ => ?_
    rw [readVarintInWords_eq small]
    refine words_bind fun taken found => ?_
    obtain ⟨size, behind⟩ := taken
    dsimp only
    rw [readPayloadInWords_eq small large scales (inside found)]
    exact words_bind fun payload _ => rfl

end words

/-- What stands at the offset is a cell when its fields do and its payload fits. Otherwise
the error tells which of the two fails. On a page that a memory holds, nothing that is
computed on the way leaves its word. -/
theorem parse_classifies {page : Page} {offset : Nat} (kind : PageKind) (large : 104 ≤ page.size)
    (near : offset ≤ 65535) :
    (∀ cell, parse page kind offset = .ok cell ↔
      ∃ (lead : Lead) (start : Nat) (payload : List UInt8), lead.Stands page kind offset start ∧
        lead.Fits page start ∧ page.Holds start payload ∧ payload.length = lead.size.toNat ∧
        cell = lead.cell payload) ∧
      (∀ reason, parse page kind offset = .error reason ↔
        (¬ (∃ (lead : Lead) (start : Nat), lead.Stands page kind offset start) ∧
          reason = .cellOutOfBounds page.number offset) ∨
        ∃ (lead : Lead) (start : Nat), lead.Stands page kind offset start ∧ ¬ lead.Fits page start ∧
          reason = .payloadOverflow page.number start lead.size) ∧
      (page.size < 0x8000000000000000 → kind.isTable ∨ (page.size - 12) * 64 < 0x10000000000000000 →
        (parseInWords page kind offset).run = some (parse page kind offset)) :=
  ⟨fun _ => parse_ok_iff_lead, fun _ => parse_error_iff, fun small scales => parseInWords_eq small large scales near⟩

/-- The smallest page with a bound for payloads, and a cell at its end. -/
def smallestPage : Page :=
  let bytes : List UInt8 := List.replicate 97 0 ++ [5, 5, 3, 14, 1, 107, 42]
  ⟨3, ⟨bytes.toArray⟩⟩

/-- On an index page of this size no payload fits, and behind the page stands nothing. -/
theorem parse_classifies_smallest :
    (∃ (lead : Lead) (start : Nat), lead.Stands smallestPage .tableLeaf 97 start ∧ lead.Fits smallestPage start) ∧
      parse smallestPage .indexLeaf 97 = .error (.payloadOverflow 3 98 5) ∧
      (∀ (lead : Lead) (start : Nat), ¬ lead.Stands smallestPage .tableInterior 103 start) ∧
      (parseInWords smallestPage .indexLeaf 97).run = some (.error (.payloadOverflow 3 98 5)) := by
  have large : 104 ≤ smallestPage.size := by decide +kernel
  obtain ⟨accepted, -, -⟩ := parse_classifies .tableLeaf large (show 97 ≤ 65535 by decide)
  obtain ⟨-, refused, computed⟩ := parse_classifies .indexLeaf large (show 97 ≤ 65535 by decide)
  obtain ⟨-, outside, -⟩ := parse_classifies .tableInterior large (show 103 ≤ 65535 by decide)
  have row : parse smallestPage .tableLeaf 97 = .ok (.tableLeaf 5 [3, 14, 1, 107, 42]) := by decide +kernel
  have long : ¬ Lead.Fits (.indexLeaf 5) smallestPage 98 := fun fits => absurd fits.1 (by decide)
  have entry : parse smallestPage .indexLeaf 97 = .error (.payloadOverflow 3 98 5) :=
    (refused _).mpr (.inr ⟨.indexLeaf 5, 98, readLead_ok_iff.mp (by decide +kernel), long, rfl⟩)
  have behind : parse smallestPage .tableInterior 103 = .error (.cellOutOfBounds 3 103) := by decide +kernel
  obtain ⟨lead, start, _, stands, fits, -⟩ := (accepted _).mp row
  have words := computed (by decide +kernel) (.inr (by decide +kernel))
  refine ⟨⟨lead, start, stands, fits⟩, entry, ?_, entry ▸ words⟩
  obtain ⟨absent, -⟩ | ⟨_, _, _, _, impossible⟩ := (outside _).mp behind
  · exact fun lead start stands => absent ⟨lead, start, stands⟩
  · cases impossible

end Cell
end SqliteReader
