import SqliteReader.Error

/-! The registers of a machine. A register that was never set holds null. There are
always as many as the smallest power of two that covers every register set so far. -/

namespace SqliteReader

inductive Affinity
  | blob
  | text
  | integer
  | real
  deriving DecidableEq, Repr

namespace Affinity

/-- Programs write affinities as capital letters. There is none for the letter C. -/
def ofCode (code : Int64) : Except MachineError Affinity :=
  if code = 65 then .ok .blob
  else if code = 66 then .ok .text
  else if code = 68 then .ok .integer
  else if code = 69 then .ok .real
  else .error (.unknownAffinity code)

def storage : Affinity → StorageClass
  | .blob => .blob
  | .text => .text
  | .integer => .integer
  | .real => .real

end Affinity

/-- Null stays null, and a value that is of the class already stays as it is. Numbers do
not become blobs, and texts and blobs do not become numbers. -/
def Value.cast? : Value → Affinity → Option Value
  | .null, _ => some .null
  | .integer number, .integer => some (.integer number)
  | .integer number, .real => some (.real (.ofInt64 number))
  | .integer number, .text => some (.text number.toInt.repr)
  | .real number, .real => some (.real number)
  | .real number, .integer => some (.integer number.toInt64)
  | .real number, .text => some (.text number.castText)
  | .text words, .text => some (.text words)
  | .text words, .blob => some (.blob (Utf8.encode words))
  | .blob bytes, .blob => some (.blob bytes)
  | .blob bytes, .text => some (.text (Utf8.lossy bytes))
  | _, _ => none

structure Registers where
  slots : Array Value := #[]
  deriving DecidableEq

namespace Registers

def size (registers : Registers) : Nat := registers.slots.size

def get (registers : Registers) (index : Nat) : Value := registers.slots.getD index .null

/-- The least power of two above an index. -/
def covering (index : Nat) : Nat := if index = 0 then 1 else 1 <<< (index.log2 + 1)

def grow (registers : Registers) (index : Nat) : Registers :=
  if index < registers.size then registers
  else ⟨registers.slots ++ Array.replicate (covering index - registers.size) .null⟩

def set (registers : Registers) (index : Nat) (value : Value) : Registers :=
  ⟨(registers.grow index).slots.setIfInBounds index value⟩

def cast (registers : Registers) (index : Nat) (target : Affinity) : Except MachineError Registers :=
  match registers.slots[index]? with
  | none => .error (.unknownRegister index)
  | some value =>
    match value.cast? target with
    | none => .error (.unsupportedCast index value.storage target.storage)
    | some cast => .ok ⟨registers.slots.setIfInBounds index cast⟩

theorem lt_covering (index : Nat) : index < covering index := by
  by_cases first : index = 0
  · simp [covering, first]
  · rw [covering, if_neg first, Nat.one_shiftLeft]
    exact Nat.lt_log2_self

theorem covering_le {index power : Nat} (above : index < 1 <<< power) : covering index ≤ 1 <<< power := by
  rw [Nat.one_shiftLeft] at above ⊢
  by_cases first : index = 0
  · rw [covering, if_pos first]
    exact Nat.one_le_two_pow
  · rw [covering, if_neg first, Nat.one_shiftLeft]
    exact Nat.pow_le_pow_right (by decide) ((Nat.log2_lt first).mpr above)

theorem lt_size_grow (registers : Registers) (index : Nat) : index < (registers.grow index).size := by
  by_cases inside : index < registers.size
  · rw [grow, if_pos inside]
    exact inside
  · have above := lt_covering index
    rw [grow, if_neg inside]
    simp only [size, Array.size_append, Array.size_replicate] at inside ⊢
    omega

@[simp] theorem get_grow (registers : Registers) (index other : Nat) :
    (registers.grow index).get other = registers.get other := by
  by_cases inside : index < registers.size
  · rw [grow, if_pos inside]
  · rw [grow, if_neg inside]
    simp only [get, Array.getD_eq_getD_getElem?, Array.getElem?_append, Array.getElem?_replicate]
    by_cases old : other < registers.slots.size
    · rw [if_pos old]
    · rw [if_neg old, Array.getElem?_eq_none (Nat.le_of_not_lt old)]
      split <;> rfl

theorem get_set (registers : Registers) (index other : Nat) (value : Value) :
    (registers.set index value).get other = if index = other then value else registers.get other := by
  have inside : index < (registers.grow index).slots.size := lt_size_grow registers index
  by_cases same : index = other
  · subst same
    simp [get, set, Array.getD_eq_getD_getElem?, inside]
  · rw [if_neg same, ← get_grow registers index other]
    simp [get, set, Array.getD_eq_getD_getElem?, same]

theorem cast_set (registers : Registers) (index : Nat) {value cast : Value} {target : Affinity}
    (known : value.cast? target = some cast) :
    ∃ after, (registers.set index value).cast index target = .ok after ∧ after.get index = cast := by
  have inside : index < (registers.grow index).slots.size := lt_size_grow registers index
  have here : (registers.set index value).slots[index]? = some value := by simp [set, inside]
  refine ⟨⟨(registers.set index value).slots.setIfInBounds index cast⟩, ?_, ?_⟩
  · simp only [Registers.cast, here, known]
  · simp [get, set, Array.getD_eq_getD_getElem?, inside]

end Registers
end SqliteReader
