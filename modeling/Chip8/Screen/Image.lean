import Chip8.Screen.Basic

/-!
# Pictures of the screen

A picture has four bytes to a pixel and its bottom row first.  Each pixel of the screen becomes a
square whose side is the scale, white if it is lit and black otherwise, and always opaque.
-/

namespace Chip8

/-- A pixel of a picture: red, green, blue and opacity. -/
structure Pixel where
  red : UInt8
  green : UInt8
  blue : UInt8
  alpha : UInt8
deriving DecidableEq, Repr

namespace Pixel

def white : Pixel := ⟨255, 255, 255, 255⟩

def black : Pixel := ⟨0, 0, 0, 255⟩

/-- The colour of a screen pixel. -/
def ofLit (lit : Bool) : Pixel :=
  if lit then white else black

def bytes (p : Pixel) : List UInt8 :=
  [p.red, p.green, p.blue, p.alpha]

end Pixel

/-- A picture, bottom row first. -/
structure Image where
  width : Nat
  height : Nat
  rows : List (List Pixel)
deriving DecidableEq, Repr

namespace Image

/-- The number of bytes of a pixel. -/
def channels : Nat := 4

/-- The number of bytes of a row. -/
def pitch (i : Image) : Nat :=
  i.width * channels

/-- All rows of the picture, byte by byte. -/
def bytes (i : Image) : List UInt8 :=
  i.rows.flatMap fun row => row.flatMap Pixel.bytes

/-- Makes each pixel a square with a side of `scale` pixels. -/
def enlarge (scale : Nat) (i : Image) : Image where
  width := i.width * scale
  height := i.height * scale
  rows := i.rows.flatMap fun row => List.replicate scale (row.flatMap (List.replicate scale))

end Image

namespace Screen

/-- The picture with one pixel for each pixel of the screen. -/
def smallImage (s : Screen) : Image where
  width := s.width
  height := s.height
  rows := s.rows.toList.reverse.map fun row => row.toList.map Pixel.ofLit

/-- The picture at a scale. -/
def imageAt (s : Screen) (scale : Nat) : Image :=
  if scale = 1 then s.smallImage else s.smallImage.enlarge scale

/-- The picture at a scale given as any number. -/
def image (s : Screen) (scale : Int) : Except ScreenError Image :=
  if scale < 0 then .error .negativeScale else .ok (s.imageAt scale.toNat)

end Screen

end Chip8
