import Chip8.Memory.Basic
import Mathlib.Data.List.GetD

/-!
# Loading programs

Loading makes a memory anew: zeros everywhere, over them the font, over that the program.  Each of
the three takes the place of a range, and a range past the end would change the size of the memory.
A single check of the room for the program keeps all three inside, because a memory that has this
room has room for the font as well.

What is there afterwards is the font, the program and zeros, and nothing else
(`Memory.HoldsProgram`).  That leaves no byte open, so of what the memory has held before, from
earlier programs or from writes, there is no trace.

The main result is `Memory.load_builds_image`.
-/

namespace Chip8

/-- The operations that put bytes into a memory. -/
inductive Filling where
  | load (rom : List UInt8)
  | write (address : Int) (values : List Int)
deriving DecidableEq, Repr

namespace Memory

variable {m before loaded : Memory} {size : Nat} {rom : List UInt8}

/-! ## The loaded image -/

/-- The byte of a loaded program at an address: the font at the start, the program from its own
start on, zeros everywhere else. -/
def loadedByte (rom : List UInt8) (a : Nat) : UInt8 :=
  if a < 80 then font.getD a 0
  else if a < programStart then 0
  else rom.getD (a - programStart) 0

theorem byte_of_load (h : before.load rom = .ok loaded) (a : Nat) :
    loaded.byte a = loadedByte rom a := by
  obtain ⟨hroom, rfl⟩ := load_eq_ok_iff.mp h
  have hsize : ((blank before.size).overwrite 0 font).size = before.size :=
    size_font (by omega)
  have hfont : font.length = 80 := rfl
  have hstart : programStart = 512 := rfl
  rw [image, byte_overwrite (by omega), byte_overwrite (by rw [size_blank]; omega), byte_blank,
    loadedByte, hfont]
  by_cases hlow : a < 80
  · rw [if_neg (by omega), if_pos (by omega), if_pos hlow, Nat.sub_zero]
  · rw [if_neg hlow]
    by_cases hgap : a < programStart
    · rw [if_neg (by omega), if_neg (by omega), if_pos hgap]
    · rw [if_neg hgap]
      by_cases hend : a < programStart + rom.length
      · rw [if_pos (by omega)]
      · rw [if_neg (by omega), if_neg (by omega), List.getD_eq_default _ _ (by omega)]

/-! ## Memories that hold a program -/

/-- A memory of `size` bytes that holds the font, a program and nothing else. -/
structure HoldsProgram (size : Nat) (rom : List UInt8) (m : Memory) : Prop where
  size_eq : m.size = size
  glyphs : m.slice 0 80 = font
  program : m.slice programStart rom.length = rom
  elsewhere : ∀ a : Nat, 80 ≤ a → a < programStart ∨ programStart + rom.length ≤ a → m.byte a = 0

theorem HoldsProgram.of_load (h : before.load rom = .ok loaded) :
    HoldsProgram before.size rom loaded where
  size_eq := size_of_load h
  glyphs := by
    have hbytes : loaded.slice 0 80 = (List.range 80).map fun k => font.getD k 0 := by
      apply List.map_congr_left
      intro k hk
      rw [Nat.zero_add, byte_of_load h, loadedByte, if_pos (List.mem_range.mp hk)]
    rw [hbytes]
    decide
  program := by
    obtain ⟨hroom, rfl⟩ := load_eq_ok_iff.mp h
    exact slice_image hroom
  elsewhere := by
    intro a ha hoff
    rw [byte_of_load h, loadedByte, if_neg (by omega)]
    rcases hoff with hgap | hend
    · rw [if_pos hgap]
    · rw [if_neg (by omega), List.getD_eq_default _ _ (by omega)]

theorem HoldsProgram.byte_program (h : HoldsProgram size rom m) {k : Nat} (hk : k < rom.length) :
    m.byte (programStart + k) = rom.getD k 0 := by
  rw [← getD_slice m programStart hk, h.program]

/-- Font, program and zeros leave no byte open. -/
theorem HoldsProgram.byte_eq (h : HoldsProgram size rom m) (a : Nat) :
    m.byte a = loadedByte rom a := by
  rw [loadedByte]
  split
  next hlow =>
    have hglyph := getD_slice m 0 hlow
    rw [h.glyphs, Nat.zero_add] at hglyph
    exact hglyph.symm
  next hlow =>
    split
    next hgap => exact h.elsewhere a (by omega) (.inl hgap)
    next hgap =>
      by_cases hend : a < programStart + rom.length
      · rw [← h.byte_program (by omega), Nat.add_sub_cancel' (by omega)]
      · rw [h.elsewhere a (by omega) (.inr (by omega)), List.getD_eq_default _ _ (by omega)]

/-- There is one memory of each size that holds a program. -/
theorem HoldsProgram.unique {m' : Memory} (h : HoldsProgram size rom m)
    (h' : HoldsProgram size rom m') : m' = m := by
  apply ext_byte
  · rw [h.size_eq, h'.size_eq]
  · intro a
    rw [h.byte_eq, h'.byte_eq]

/-- The words of the program stand in memory one after the other, high byte first. -/
theorem HoldsProgram.readWord (h : HoldsProgram size rom m)
    (hroom : programStart + rom.length ≤ size) {k : Nat} {high low : UInt8}
    (hhigh : rom[2 * k]? = some high) (hlow : rom[2 * k + 1]? = some low) :
    m.readWord (programStart + 2 * k : Nat) =
      .ok (UInt16.ofNat (256 * high.toNat + low.toNat)) := by
  obtain ⟨hk, -⟩ := List.getElem?_eq_some_iff.mp hlow
  have hrange : m.InBounds (programStart + 2 * k : Nat) 2 := by
    unfold InBounds
    rw [h.size_eq]
    omega
  have hhigh' : m.byte (programStart + 2 * k) = high := by
    rw [h.byte_program (by omega), List.getD_eq_getElem?_getD, hhigh, Option.getD_some]
  have hlow' : m.byte (programStart + 2 * k + 1) = low := by
    rw [Nat.add_assoc, h.byte_program hk, List.getD_eq_getElem?_getD, hlow, Option.getD_some]
  rw [Memory.readWord, if_pos hrange, Int.toNat_natCast, hhigh', hlow']

/-! ## Fillings -/

/-- The memory with a filling in it. -/
def put (m : Memory) : Filling → Except MemoryError Memory
  | .load rom => m.load rom
  | .write address values => m.write address values

/-- Performs a filling: the memory that it leaves behind, and why it was refused, if it was. -/
def fill (m : Memory) (filling : Filling) : Memory × Except MemoryError Unit :=
  match m.put filling with
  | .ok filled => (filled, .ok ())
  | .error e => (m, .error e)

/-- The memory after some fillings, whether they are refused or not. -/
def filled (m : Memory) (fillings : List Filling) : Memory :=
  fillings.foldl (fun m filling => (m.fill filling).1) m

theorem fill_of_ok (filling : Filling) (h : m.put filling = .ok loaded) :
    m.fill filling = (loaded, .ok ()) := by
  rw [fill, h]

theorem fill_of_error (filling : Filling) {e : MemoryError} (h : m.put filling = .error e) :
    m.fill filling = (m, .error e) := by
  rw [fill, h]

theorem size_fill (m : Memory) (filling : Filling) : (m.fill filling).1.size = m.size := by
  cases hput : m.put filling with
  | error e => rw [fill_of_error filling hput]
  | ok filled =>
    rw [fill_of_ok filling hput]
    cases filling with
    | load rom => exact size_of_load hput
    | write address values => exact size_of_write hput

theorem size_filled (m : Memory) (fillings : List Filling) : (m.filled fillings).size = m.size := by
  induction fillings generalizing m with
  | nil => rfl
  | cons filling fillings ih =>
    show ((m.fill filling).1.filled fillings).size = m.size
    rw [ih, size_fill]

/-- Where there is room, a program is loaded into the image for that size. -/
theorem fill_load (h : programStart + rom.length ≤ m.size) :
    m.fill (.load rom) = (image m.size rom, .ok ()) :=
  fill_of_ok (.load rom) (load_eq_ok_iff.mpr ⟨h, rfl⟩)

/-- **Loading builds the image of a program, or changes nothing.**  A program is refused, with a
diagnostic, if and only if it has more bytes than there is room for, and then the memory stays as it
is.  Otherwise the memory keeps its size and holds the font, the program and nothing else, and its
words are those of the program.  There is only one such memory, the same for all that have been
filled in any way before and for a fresh one. -/
theorem load_builds_image (m : Memory) (rom : List UInt8) :
    (∀ e, (m.fill (.load rom)).2 = .error e ↔
      m.size < programStart + rom.length ∧
        e = .romTooLarge rom.length (m.size - programStart)) ∧
    (∀ e, (m.fill (.load rom)).2 = .error e →
      (m.fill (.load rom)).1 = m ∧ ∃ text, e.diagnostic? = some (.configuration text)) ∧
    (programStart + rom.length ≤ m.size → ∃ loaded,
      m.fill (.load rom) = (loaded, .ok ()) ∧
      HoldsProgram m.size rom loaded ∧
      (∀ other, HoldsProgram m.size rom other → other = loaded) ∧
      (∀ (k : Nat) (high low : UInt8),
        rom[2 * k]? = some high → rom[2 * k + 1]? = some low →
        ∃ word, loaded.readWord (programStart + 2 * k : Nat) = .ok word ∧
          word.toNat = 256 * high.toNat + low.toNat) ∧
      (∀ fillings, (m.filled fillings).fill (.load rom) = (loaded, .ok ())) ∧
      (blank m.size).fill (.load rom) = (loaded, .ok ())) := by
  refine ⟨?_, ?_, ?_⟩
  · intro e
    rw [← load_eq_error_iff]
    cases hload : m.load rom with
    | ok loaded => simp [fill_of_ok (.load rom) hload]
    | error e' => simp [fill_of_error (.load rom) hload]
  · intro e he
    cases hload : m.load rom with
    | ok loaded =>
      rw [fill_of_ok (.load rom) hload] at he
      cases he
    | error e' =>
      rw [fill_of_error (.load rom) hload] at he ⊢
      cases he
      obtain ⟨-, rfl⟩ := load_eq_error_iff.mp hload
      exact ⟨rfl, _, rfl⟩
  · intro hroom
    have hholds : HoldsProgram m.size rom (image m.size rom) :=
      .of_load (load_eq_ok_iff.mpr ⟨hroom, rfl⟩)
    refine ⟨image m.size rom, fill_load hroom, hholds, fun _ => hholds.unique, ?_, ?_, ?_⟩
    · intro k high low hhigh hlow
      have hhigh' := high.toNat_lt
      have hlow' := low.toNat_lt
      refine ⟨_, hholds.readWord hroom hhigh hlow, ?_⟩
      rw [UInt16.toNat_ofNat', Nat.mod_eq_of_lt (by omega)]
    · intro fillings
      rw [fill_load (by rw [size_filled]; exact hroom), size_filled]
    · rw [fill_load (by rw [size_blank]; exact hroom), size_blank]

end Memory

end Chip8
