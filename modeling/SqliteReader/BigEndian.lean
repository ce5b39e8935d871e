/-! Numbers in base 256, most significant byte first: the only byte order of the file
format. Signed numbers are in two's complement over the bytes given, however many. -/

namespace SqliteReader.BigEndian

def read (bytes : List UInt8) : Nat := bytes.foldl (fun number byte => number * 256 + byte.toNat) 0

/-- How many numbers there are of `width` bytes. -/
def span (width : Nat) : Nat := Nat.pow 256 width

/-- The low `width` bytes of a number. -/
def write : Nat → Nat → List UInt8
  | 0, _ => []
  | width + 1, number => UInt8.ofNat (number / span width) :: write width number

/-- No bytes read as zero; otherwise the first bit counts negatively. -/
def readSigned (bytes : List UInt8) : Int :=
  match bytes with
  | [] => 0
  | first :: _ =>
    if first < 0x80 then read bytes else (read bytes : Int) - span bytes.length

/-- The low `width` bytes of a number in two's complement. -/
def writeSigned (width : Nat) (number : Int) : List UInt8 :=
  write width (number % span width).toNat

@[simp] theorem span_zero : span 0 = 1 := rfl

theorem span_succ (width : Nat) : span (width + 1) = span width * 256 := rfl

@[simp] theorem length_write (width number : Nat) : (write width number).length = width := by
  induction width with
  | zero => rfl
  | succ width ih => simp [write, ih]

private theorem foldl_read (start : Nat) (bytes : List UInt8) :
    bytes.foldl (fun number byte => number * 256 + byte.toNat) start = start * span bytes.length + read bytes := by
  unfold read
  induction bytes generalizing start with
  | nil => simp
  | cons byte bytes ih =>
    simp only [List.foldl_cons, List.length_cons, Nat.zero_mul, Nat.zero_add]
    rw [ih (start * 256 + byte.toNat), ih byte.toNat, span_succ, Nat.add_mul, Nat.mul_assoc, Nat.mul_comm 256]
    omega

@[simp] theorem read_nil : read [] = 0 := rfl

@[simp] theorem read_cons (byte : UInt8) (bytes : List UInt8) :
    read (byte :: bytes) = byte.toNat * span bytes.length + read bytes := by
  rw [read, List.foldl_cons, foldl_read]
  simp

theorem read_lt (bytes : List UInt8) : read bytes < span bytes.length := by
  induction bytes with
  | nil => simp
  | cons byte bytes ih =>
    have small := byte.toNat_lt
    rw [read_cons, List.length_cons, span_succ]
    have bound : byte.toNat * span bytes.length ≤ 255 * span bytes.length := Nat.mul_le_mul_right _ (by omega)
    omega

theorem read_write (width number : Nat) : read (write width number) = number % span width := by
  induction width with
  | zero => simp [write, Nat.mod_one]
  | succ width ih =>
    rw [write, read_cons, length_write, ih, UInt8.toNat_ofNat', span_succ, Nat.mod_mul, Nat.mul_comm (span width),
      Nat.add_comm]

/-- What lies above the width is not written. -/
theorem write_add_mul (width number more : Nat) : write width (number + more * span width) = write width number := by
  induction width generalizing more with
  | zero => rfl
  | succ width ih =>
    have whole : more * span (width + 1) = more * 256 * span width := by
      rw [span_succ, Nat.mul_comm (span width), Nat.mul_assoc]
    have positive : 0 < span width := Nat.pow_pos (by decide)
    have first : UInt8.ofNat (number / span width + more * 256) = UInt8.ofNat (number / span width) := by
      rw [← UInt8.toNat_inj, UInt8.toNat_ofNat', UInt8.toNat_ofNat']
      omega
    rw [write, write, whole, ih, Nat.add_mul_div_right _ _ positive, first]

theorem write_read (bytes : List UInt8) : write bytes.length (read bytes) = bytes := by
  induction bytes with
  | nil => rfl
  | cons byte bytes ih =>
    have positive : 0 < span bytes.length := Nat.pow_pos (by decide)
    have first : (read bytes + byte.toNat * span bytes.length) / span bytes.length = byte.toNat := by
      rw [Nat.add_mul_div_right _ _ positive, Nat.div_eq_of_lt (read_lt bytes), Nat.zero_add]
    rw [List.length_cons, write, read_cons, Nat.add_comm, first, write_add_mul, ih, UInt8.ofNat_toNat]

end SqliteReader.BigEndian
