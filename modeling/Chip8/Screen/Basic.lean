/-!
# The screen

A monochrome screen of any size.  Sprites are eight pixels wide, one byte to a row with the highest
bit on the left, and are combined with the screen by exclusive or.  Positions wrap around both
edges: `Screen.lit` reads the screen as if it filled the plane periodically.

On a screen narrower than eight pixels several columns of a sprite fall together.  Each row of a
sprite is computed from the row of the screen as it was before, and the right-most of the columns
that fall together counts.
-/

namespace Chip8

structure Screen where
  width : Nat
  height : Nat
  width_pos : 0 < width
  height_pos : 0 < height
  /-- The pixels, line by line from the top. -/
  rows : Vector (Vector Bool width) height
  /-- Whether the pixels may have changed since the screen was last shown. -/
  dirty : Bool
deriving DecidableEq, Repr

/-- The ways in which a screen or a picture of it cannot be made. -/
inductive ScreenError where
  | negativeSize
  | negativeScale
deriving DecidableEq, Repr

def ScreenError.message : ScreenError → String
  | negativeSize | negativeScale => "negative dimensions are not allowed"

/-- A horizontal sprite position that is no signed 64-bit word. -/
structure FarPosition where
  x : Int
deriving DecidableEq, Repr

namespace Screen

/-! ## Making screens -/

def standardWidth : Nat := 64

def standardHeight : Nat := 32

/-- A dark screen.  It has not been shown yet, so it counts as changed. -/
def blank (width height : Nat) (hw : 0 < width) (hh : 0 < height) : Screen where
  width := width
  height := height
  width_pos := hw
  height_pos := hh
  rows := Vector.replicate height (Vector.replicate width false)
  dirty := true

/-- The dark screen of the usual size. -/
def standard : Screen :=
  blank standardWidth standardHeight (by decide) (by decide)

/-- A dark screen of a given size, in which there is no zero. -/
def ofSize (width height : Int) (hw : width ≠ 0) (hh : height ≠ 0) : Except ScreenError Screen :=
  if h : width < 0 ∨ height < 0 then .error .negativeSize
  else .ok (blank width.toNat height.toNat (by omega) (by omega))

/-- There is a dark screen of each size that is not negative. -/
theorem ofSize_natCast {width height : Nat} (hw : (width : Int) ≠ 0) (hh : (height : Int) ≠ 0) :
    ofSize width height hw hh = .ok (blank width height (by omega) (by omega)) := by
  have hsize : ¬ ((width : Int) < 0 ∨ (height : Int) < 0) := by omega
  rw [ofSize, dif_neg hsize]
  rfl

/-! ## Positions -/

/-- A position on a circle of `n` places. -/
def wrap (n : Nat) (pos : 0 < n) (p : Int) : Fin n :=
  ⟨(p % n).toNat, by
    have h₀ := Int.emod_nonneg p (b := n) (by omega)
    have h₁ := Int.emod_lt_of_pos p (b := n) (by omega)
    omega⟩

theorem wrap_natCast {n k : Nat} (pos : 0 < n) (h : k < n) : wrap n pos k = ⟨k, h⟩ := by
  apply Fin.ext
  simp only [wrap]
  rw [Int.emod_eq_of_lt (by omega) (by omega), Int.toNat_natCast]

/-- The column of a horizontal position. -/
def column (s : Screen) (x : Int) : Fin s.width :=
  wrap s.width s.width_pos x

/-- The line of a vertical position. -/
def line (s : Screen) (y : Int) : Fin s.height :=
  wrap s.height s.height_pos y

/-- The column on which pixel `j` of a sprite row at `x` falls.  Horizontal sprite positions are
signed 64-bit words. -/
def spriteColumn (s : Screen) (x : Int) (j : Nat) : Fin s.width :=
  s.column ((x + j).bmod 0x10000000000000000)

/-- Whether the pixel at a position of the plane is lit. -/
def lit (s : Screen) (x y : Int) : Bool :=
  s.rows[s.line y][s.column x]

theorem lit_natCast {s : Screen} {c r : Nat} (hc : c < s.width) (hr : r < s.height) :
    s.lit c r = s.rows[r][c] := by
  simp only [lit, column, line, wrap_natCast s.width_pos hc, wrap_natCast s.height_pos hr,
    Fin.getElem_fin]

/-- The number of lit pixels. -/
def litCount (s : Screen) : Nat :=
  (s.rows.toList.flatMap fun row => row.toList).count true

/-! ## Drawing -/

/-- The screen with all pixels dark. -/
def clear (s : Screen) : Screen :=
  { s with rows := Vector.replicate s.height (Vector.replicate s.width false), dirty := true }

theorem lit_clear (s : Screen) (x y : Int) : s.clear.lit x y = false := by
  have hrow : (Vector.replicate s.height (Vector.replicate s.width false))[s.line y] =
      Vector.replicate s.width false := by
    simp
  have hpixel : (Vector.replicate s.width false)[s.column x] = false := by
    simp
  exact (congrArg (fun row : Vector Bool s.width => row[s.column x]) hrow).trans hpixel

/-- The screen marked as shown. -/
def markShown (s : Screen) : Screen :=
  { s with dirty := false }

/-- The number of pixels in a sprite row. -/
def spriteWidth : Nat := 8

/-- Pixel `j` of a sprite row, counted from the left. -/
def spriteBit (bits : UInt8) (j : Nat) : Bool :=
  bits.toNat.testBit (7 - j)

/-- Whether a sprite row meets a lit pixel of the screen. -/
def rowHits (s : Screen) (x y : Int) (bits : UInt8) : Bool :=
  let row := s.rows[s.line y]
  (List.range spriteWidth).any fun j => row[s.spriteColumn x j] && spriteBit bits j

/-- Draws one sprite row.  The columns are written from left to right, each from the row as it was
before. -/
def drawRow (s : Screen) (x y : Int) (bits : UInt8) : Screen :=
  let row := s.rows[s.line y]
  let drawn := (List.range spriteWidth).foldl
    (fun (r : Vector Bool s.width) j =>
      let c := s.spriteColumn x j
      r.set c (row[c] ^^ spriteBit bits j))
    row
  { s with rows := s.rows.set (s.line y) drawn }

/-- Draws sprite rows from a position downwards, and tells whether one of them met a lit pixel. -/
def drawRows (s : Screen) (x y : Int) : List UInt8 → Screen × Bool
  | [] => (s, false)
  | bits :: rest =>
    let (drawn, hit) := (s.drawRow x y bits).drawRows x (y + 1) rest
    (drawn, s.rowHits x y bits || hit)

/-- Draws a sprite, and tells whether it turned a lit pixel off on the way.  The screen counts as
changed even if the sprite has no rows. -/
def draw (s : Screen) (x y : Int) (sprite : List UInt8) : Screen × Bool :=
  let (drawn, hit) := s.drawRows x y sprite
  ({ drawn with dirty := true }, hit)

theorem size_drawRows (s : Screen) (x y : Int) (sprite : List UInt8) :
    (s.drawRows x y sprite).1.width = s.width ∧ (s.drawRows x y sprite).1.height = s.height := by
  induction sprite generalizing s y with
  | nil => exact ⟨rfl, rfl⟩
  | cons bits rest ih => exact ih (s.drawRow x y bits) (y + 1)

/-- Drawing keeps the size of the screen. -/
theorem size_draw (s : Screen) (x y : Int) (sprite : List UInt8) :
    (s.draw x y sprite).1.width = s.width ∧ (s.draw x y sprite).1.height = s.height :=
  s.size_drawRows x y sprite

/-- Draws a sprite at a position whose horizontal part is checked first. -/
def place (s : Screen) (x y : Int) (sprite : List UInt8) : Except FarPosition (Screen × Bool) :=
  if -0x8000000000000000 ≤ x ∧ x < 0x8000000000000000 then .ok (s.draw x y sprite)
  else .error ⟨x⟩

theorem size_of_place {s drawn : Screen} {x y : Int} {sprite : List UInt8} {hit : Bool}
    (h : s.place x y sprite = .ok (drawn, hit)) :
    drawn.width = s.width ∧ drawn.height = s.height := by
  unfold place at h
  split at h
  next =>
    have hsize := s.size_draw x y sprite
    rw [Except.ok.inj h] at hsize
    exact hsize
  next => cases h

/-- A byte is never too far off as a position. -/
theorem place_byte (s : Screen) (b : UInt8) (y : Int) (sprite : List UInt8) :
    s.place b.toNat y sprite = .ok (s.draw b.toNat y sprite) := by
  have := b.toNat_lt
  rw [place, if_pos (by omega)]

/-! ## Text -/

/-- The lines of the screen from the top, a hash mark for each lit pixel and a point for each dark
one. -/
def textLines (s : Screen) : List String :=
  s.rows.toList.map fun row => String.ofList (row.toList.map fun p => if p then '#' else '.')

/-- The screen as text, its lines separated by line feeds. -/
def text (s : Screen) : String :=
  "\n".intercalate s.textLines

end Screen

end Chip8
