/-! Integers of one to nine bytes. Each of the first eight bytes carries seven bits and
a mark that more follows; a ninth byte carries eight bits and no mark, so that every
64-bit number has a form. Writing picks the shortest form, reading takes any. -/

namespace SqliteReader.Varint

def maxLength : Nat := 9

/-- Continues a form of which `taken` bytes gave `value`. -/
def decodeFrom (value taken : Nat) : List UInt8 → Option (Nat × Nat)
  | [] => none
  | byte :: rest =>
    if taken + 1 = maxLength then some (value * 256 + byte.toNat, maxLength)
    else if byte < 0x80 then some (value * 128 + byte.toNat, taken + 1)
    else decodeFrom (value * 128 + byte.toNat % 128) (taken + 1) rest

/-- The number at the front and the count of its bytes, unless the bytes end first. -/
def decode (bytes : List UInt8) : Option (UInt64 × Nat) :=
  (decodeFrom 0 0 bytes).map fun (value, taken) => (UInt64.ofNat value, taken)

/-- Eight marked bytes hold 56 bits; seven bits a byte suffice below that. -/
def encodedLength (value : UInt64) : Nat :=
  if value.toNat < 0x100000000000000 then value.toNat.log2 / 7 + 1 else maxLength

/-- The low `count` groups of seven bits, all marked. -/
def groups : Nat → Nat → List UInt8
  | 0, _ => []
  | count + 1, value => groups count (value / 128) ++ [UInt8.ofNat (value % 128 + 128)]

def encode (value : UInt64) : List UInt8 :=
  let length := encodedLength value
  if length = maxLength then groups 8 (value.toNat / 256) ++ [UInt8.ofNat value.toNat]
  else groups (length - 1) (value.toNat / 128) ++ [UInt8.ofNat (value.toNat % 128)]

private theorem decodeFrom_taken {value taken : Nat} {bytes : List UInt8} {result : Nat × Nat}
    (read : decodeFrom value taken bytes = some result) (begun : taken < maxLength) :
    taken < result.2 ∧ result.2 ≤ taken + bytes.length ∧ result.2 ≤ maxLength := by
  induction bytes generalizing value taken with
  | nil => simp [decodeFrom] at read
  | cons byte rest ih =>
    rw [List.length_cons]
    by_cases last : taken + 1 = maxLength
    · simp only [decodeFrom, if_pos last, Option.some.injEq] at read
      subst read
      dsimp only
      omega
    · simp only [decodeFrom, if_neg last] at read
      split at read
      · cases read
        dsimp only
        omega
      · have inner := ih read (by omega)
        omega

theorem decode_taken {bytes : List UInt8} {value : UInt64} {taken : Nat} (read : decode bytes = some (value, taken)) :
    0 < taken ∧ taken ≤ bytes.length ∧ taken ≤ maxLength := by
  simp only [decode, Option.map_eq_some_iff] at read
  obtain ⟨result, found, same⟩ := read
  cases same
  simpa using decodeFrom_taken found (by decide)

end SqliteReader.Varint
