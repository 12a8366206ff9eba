import Chip8.Diagnostic
import Chip8.Font

/-!
# Memory

A byte array of fixed size.  Addresses are checked and never wrapped: an access that leaves the
memory fails and changes nothing.  The report of such an access names its length, so an access whose
length has too many digits fails for that reason (`Memory.refusal`).

Reading is through single bytes (`Memory.byte`), and writing puts bytes in place of a range
(`Memory.overwrite`).  That no range is ever replaced by a shorter or a
longer one, and so the size stays, is what the checks are for (`size_of_write`, `size_of_load`).

Loading a program builds the whole image anew: the font at the start, the program from `0x200` on,
zeros everywhere else.
-/

namespace Chip8

structure Memory where
  bytes : Array UInt8
deriving DecidableEq, Repr

/-- An access to `length` bytes from `address` that leaves the memory. -/
structure OutOfBounds where
  address : Int
  length : Int
deriving DecidableEq, Repr

def OutOfBounds.diagnostic (o : OutOfBounds) : Diagnostic :=
  .address o.address o.length

/-- The ways in which an operation on memory fails. -/
inductive MemoryError where
  /-- A memory of a negative size was asked for. -/
  | negativeSize
  /-- A value to be written does not fit in a byte. -/
  | notAByte
  | outOfBounds (access : OutOfBounds)
  /-- An access leaves the memory, and its length has too many digits to be named. -/
  | tooManyDigits (e : Numeral.TooManyDigits)
  /-- A program has more bytes than there is room for. -/
  | romTooLarge (length : Nat) (room : Int)
  /-- A dump with no bytes in a line was asked for. -/
  | zeroWidth
deriving DecidableEq, Repr

namespace MemoryError

open Numeral

/-- The diagnostic for a program that does not fit. -/
def tooLarge (length : Nat) (room : Int) : Diagnostic :=
  .configuration
    ("ROM too large: " ++ decimal length ++ " bytes, at most " ++ decimal room ++ " fit")

/-- The failure as a diagnostic, if it is one of the console's own. -/
def diagnostic? : MemoryError → Option Diagnostic
  | outOfBounds access => some access.diagnostic
  | romTooLarge length room => some (tooLarge length room)
  | negativeSize | notAByte | tooManyDigits _ | zeroWidth => none

def message : MemoryError → String
  | negativeSize => "negative count"
  | notAByte => "bytes must be in range(0, 256)"
  | outOfBounds access => access.diagnostic.text
  | tooManyDigits e => e.message
  | romTooLarge length room => (tooLarge length room).text
  | zeroWidth => "range() arg 3 must not be zero"

end MemoryError

namespace Memory

/-! ## Size and bytes -/

/-- The size of the standard memory. -/
def standardSize : Nat := 4096

/-- The address of the first byte of a program. -/
def programStart : Nat := 0x200

/-- A memory of `size` zeros. -/
def blank (size : Nat) : Memory :=
  ⟨Array.replicate size 0⟩

/-- A memory of `size` zeros, for any number. -/
def ofSize (size : Int) : Except MemoryError Memory :=
  if size < 0 then .error .negativeSize else .ok (blank size.toNat)

def size (m : Memory) : Nat :=
  m.bytes.size

/-- The byte at an address, zero beyond the end. -/
def byte (m : Memory) (a : Nat) : UInt8 :=
  m.bytes.getD a 0

/-- The memory with the given bytes in place of as many bytes from an address on.  Where there are
not as many, the memory changes its size. -/
def overwrite (m : Memory) (a : Nat) (bs : List UInt8) : Memory :=
  ⟨m.bytes.extract 0 a ++ bs.toArray ++ m.bytes.extract (a + bs.length) m.size⟩

/-- The bytes from an address on. -/
def slice (m : Memory) (a length : Nat) : List UInt8 :=
  (List.range length).map fun k => m.byte (a + k)

@[simp] theorem size_blank (n : Nat) : (blank n).size = n := by
  simp [blank, size]

@[simp] theorem byte_blank (n k : Nat) : (blank n).byte k = 0 := by
  by_cases h : k < n <;> simp [blank, byte, Array.getD_eq_getD_getElem?, h]

/-- A memory is its size and its bytes. -/
theorem ext_byte {m m' : Memory} (hsize : m'.size = m.size)
    (hbyte : ∀ k, m'.byte k = m.byte k) : m' = m := by
  obtain ⟨bytes⟩ := m
  obtain ⟨bytes'⟩ := m'
  congr 1
  apply Array.ext
  · exact hsize
  · intro k hk' hk
    have hsame := hbyte k
    unfold byte at hsame
    rwa [Array.getD_eq_getD_getElem?, Array.getD_eq_getD_getElem?, Array.getElem?_eq_getElem hk',
      Array.getElem?_eq_getElem hk] at hsame

@[simp] theorem length_slice (m : Memory) (a length : Nat) :
    (m.slice a length).length = length := by
  simp [slice]

theorem getD_slice (m : Memory) (a : Nat) {k length : Nat} (h : k < length) :
    (m.slice a length).getD k 0 = m.byte (a + k) := by
  simp [slice, h]

theorem size_overwrite {m : Memory} {a : Nat} {bs : List UInt8} (h : a + bs.length ≤ m.size) :
    (m.overwrite a bs).size = m.size := by
  simp only [overwrite, size, Array.size_append, Array.size_extract, List.size_toArray] at h ⊢
  omega

/-- Inside the written range there are the new bytes, and outside it the old ones. -/
theorem byte_overwrite {m : Memory} {a : Nat} {bs : List UInt8} (h : a + bs.length ≤ m.size)
    (k : Nat) :
    (m.overwrite a bs).byte k =
      if a ≤ k ∧ k < a + bs.length then bs.getD (k - a) 0 else m.byte k := by
  unfold size at h
  have hstart : (m.bytes.extract 0 a).size = a := by
    rw [Array.size_extract]
    omega
  have hmiddle : (m.bytes.extract 0 a ++ bs.toArray).size = a + bs.length := by
    rw [Array.size_append, hstart, List.size_toArray]
  unfold overwrite byte size
  rw [Array.getD_eq_getD_getElem?, Array.getD_eq_getD_getElem?, Array.getElem?_append, hmiddle]
  by_cases hend : k < a + bs.length
  · rw [if_pos hend, Array.getElem?_append, hstart]
    by_cases hlow : k < a
    · rw [if_pos hlow, if_neg (by omega), Array.getElem?_extract, if_pos (by omega), Nat.zero_add]
    · rw [if_neg hlow, if_pos (by omega), List.getElem?_toArray, List.getD_eq_getElem?_getD]
  · rw [if_neg hend, if_neg (by omega), Array.getElem?_extract]
    by_cases hsize : k < m.bytes.size
    · rw [if_pos (by omega), Nat.add_sub_cancel' (by omega)]
    · rw [if_neg (by omega), Array.getElem?_eq_none (by omega)]

/-! ## Checked access -/

/-- Whether `length` bytes from `address` lie inside the memory. -/
def InBounds (m : Memory) (address length : Int) : Prop :=
  0 ≤ address ∧ 0 ≤ length ∧ address + length ≤ m.size

instance (m : Memory) (address length : Int) : Decidable (m.InBounds address length) :=
  inferInstanceAs (Decidable (_ ∧ _ ∧ _))

theorem not_inBounds_iff (m : Memory) (address : Int) (length : Nat) :
    ¬ m.InBounds address length ↔ address < 0 ∨ (m.size : Int) < address + length := by
  unfold InBounds
  omega

theorem InBounds.add_le {m : Memory} {address : Int} {length : Nat}
    (h : m.InBounds address length) :
    address.toNat + length ≤ m.size := by
  obtain ⟨haddress, -, hend⟩ := h
  omega

/-- Only the size of a memory decides which ranges lie inside it. -/
theorem inBounds_congr {m m' : Memory} (h : m'.size = m.size) (address length : Int) :
    m'.InBounds address length ↔ m.InBounds address length := by
  unfold InBounds
  rw [h]

/-- The error for an access that leaves the memory. -/
def refusal (address length : Int) : MemoryError :=
  if Numeral.Writable length then .outOfBounds ⟨address, length⟩ else .tooManyDigits ⟨length⟩

theorem refusal_of_lt (address : Int) {length : Nat} (h : length < Numeral.digitLimit) :
    refusal address length = .outOfBounds ⟨address, length⟩ :=
  if_pos (Numeral.writable_of_lt h)

/-- The bytes of a range. -/
def read (m : Memory) (address length : Int) : Except MemoryError (List UInt8) :=
  if m.InBounds address length then .ok (m.slice address.toNat length.toNat)
  else .error (refusal address length)

/-- A range of some thousand bytes at most is read, or refused by its name. -/
theorem read_of_lt (m : Memory) (address : Int) {length : Nat}
    (h : length < Numeral.digitLimit) :
    m.read address length =
      if m.InBounds address length then .ok (m.slice address.toNat length)
      else .error (.outOfBounds ⟨address, length⟩) := by
  rw [read, refusal_of_lt address h, Int.toNat_natCast]

def readByte (m : Memory) (address : Int) : Except OutOfBounds UInt8 :=
  if m.InBounds address 1 then .ok (m.byte address.toNat) else .error ⟨address, 1⟩

/-- The 16-bit word at an address, high byte first. -/
def readWord (m : Memory) (address : Int) : Except OutOfBounds UInt16 :=
  if m.InBounds address 2 then
    .ok (UInt16.ofNat (256 * (m.byte address.toNat).toNat + (m.byte (address.toNat + 1)).toNat))
  else .error ⟨address, 2⟩

/-- Puts bytes from an address on. -/
def store (m : Memory) (address : Int) (values : List UInt8) : Except OutOfBounds Memory :=
  if m.InBounds address values.length then .ok (m.overwrite address.toNat values)
  else .error ⟨address, values.length⟩

/-- A number that fits in a byte is the byte's. -/
theorem toNat_ofInt_byte {a : Int} (h : 0 ≤ a ∧ a < 256) : ((UInt8.ofInt a).toNat : Int) = a := by
  rw [UInt8.ofInt, UInt8.toNat_ofNat']
  omega

/-- Puts numbers from an address on.  Numbers that are no bytes are refused before the address is
looked at. -/
def write (m : Memory) (address : Int) (values : List Int) : Except MemoryError Memory :=
  if values.all fun v => 0 ≤ v && v < 256 then
    (m.store address (values.map UInt8.ofInt)).mapError .outOfBounds
  else .error .notAByte

theorem size_of_write {m written : Memory} {address : Int} {values : List Int}
    (h : m.write address values = .ok written) : written.size = m.size := by
  unfold write store at h
  split at h
  · split at h
    next hrange =>
      cases h
      exact size_overwrite hrange.add_le
    next => cases h
  · cases h

/-! ## Programs -/

/-- The image of a program in a memory of a given size. -/
def image (size : Nat) (rom : List UInt8) : Memory :=
  ((blank size).overwrite 0 font).overwrite programStart rom

/-- A memory that has room for a program has room for the font. -/
theorem size_font {size : Nat} (h : programStart ≤ size) :
    ((blank size).overwrite 0 font).size = size := by
  have hfont : 0 + font.length ≤ (blank size).size := by
    have : font.length ≤ programStart := by decide
    rw [size_blank]
    omega
  rw [size_overwrite hfont, size_blank]

theorem size_image {size : Nat} {rom : List UInt8} (h : programStart + rom.length ≤ size) :
    (image size rom).size = size := by
  have hfont : ((blank size).overwrite 0 font).size = size := size_font (by omega)
  rw [image, size_overwrite (by omega), hfont]

/-- The program stands in its image from its start on. -/
theorem byte_image {size : Nat} {rom : List UInt8} (h : programStart + rom.length ≤ size) {k : Nat}
    (hk : k < rom.length) : (image size rom).byte (programStart + k) = rom.getD k 0 := by
  have hfont : ((blank size).overwrite 0 font).size = size := size_font (by omega)
  rw [image, byte_overwrite (by omega), if_pos (by omega), Nat.add_sub_cancel_left]

theorem slice_image {size : Nat} {rom : List UInt8} (h : programStart + rom.length ≤ size) :
    (image size rom).slice programStart rom.length = rom := by
  apply List.ext_getElem
  · exact length_slice _ _ _
  · intro k hk hrom
    have hbyte := byte_image h hrom
    simp only [slice, List.getElem_map, List.getElem_range, hbyte, List.getD_eq_getElem?_getD,
      List.getElem?_eq_getElem hrom, Option.getD_some]

/-- Replaces the whole contents by the image of a program.  Nothing of an earlier program stays. -/
def load (m : Memory) (rom : List UInt8) : Except MemoryError Memory :=
  if programStart + rom.length ≤ m.size then .ok (image m.size rom)
  else .error (.romTooLarge rom.length (m.size - programStart))

variable {m loaded : Memory} {size : Nat} {rom : List UInt8}

theorem load_eq_ok_iff :
    m.load rom = .ok loaded ↔
      programStart + rom.length ≤ m.size ∧ loaded = image m.size rom := by
  rw [load]
  split
  next hroom => simp [hroom, eq_comm]
  next hroom => simp [hroom]

theorem load_eq_error_iff {e : MemoryError} :
    m.load rom = .error e ↔
      m.size < programStart + rom.length ∧
        e = .romTooLarge rom.length (m.size - programStart) := by
  rw [load]
  split
  next hroom => simp [Nat.not_lt_of_le hroom]
  next hroom => simp [Nat.lt_of_not_le hroom, eq_comm]

theorem load_blank (h : programStart + rom.length ≤ size) :
    (blank size).load rom = .ok (image size rom) := by
  rw [load_eq_ok_iff, size_blank]
  exact ⟨h, rfl⟩

theorem size_of_load (h : m.load rom = .ok loaded) : loaded.size = m.size := by
  obtain ⟨hroom, rfl⟩ := load_eq_ok_iff.mp h
  exact size_image hroom

end Memory

end Chip8
