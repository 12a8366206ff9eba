import Chip8.Screen.Basic
import Mathlib.Algebra.Ring.Parity
import Mathlib.Data.List.Induction

/-!
# The effect of a sprite

A sprite flips pixels, and which it flips depends on the sprite, its position and the size of the
screen, but not on what the screen shows (`Screen.flips`).  A column of the screen takes part
through one pixel of each sprite row, the right-most that falls on it (`Screen.topPixel?`): on a
screen narrower than a sprite the others that fall there are overwritten.  A line of the screen
takes part once for each sprite row that falls on it (`Screen.litRows`): on a screen lower than the
sprite a line is met several times, and only an odd number of flips shows.

The collision is not of that kind, as it depends on the screen that the earlier rows have left.  The
main result says both exactly (`Screen.place_effect`).
-/

namespace Chip8.Screen

variable {s : Screen} {x y c r : Int}

/-! ## Which pixels are flipped -/

/-- The pixel of a sprite row at `x` that counts for column `c`: the right-most that falls on it. -/
def topPixel? (width : Nat) (x c : Int) : Option Nat :=
  (List.range spriteWidth).reverse.find? fun j =>
    (x + j).bmod 0x10000000000000000 % width = c % width

/-- The number of sprite rows that fall on line `r`, if the first is at `y`, and have pixel `j`
lit. -/
def litRows (height : Nat) (y r : Int) (sprite : List UInt8) (j : Nat) : Nat :=
  (List.finRange sprite.length).countP fun i =>
    (y + i.val) % height = r % height ∧ spriteBit sprite[i] j

/-- Whether a sprite at a position flips a pixel of the screen. -/
def flips (width height : Nat) (x y : Int) (sprite : List UInt8) (c r : Int) : Bool :=
  (topPixel? width x c).any fun j => Odd (litRows height y r sprite j)

theorem litRows_nil (height : Nat) (y r : Int) (j : Nat) : litRows height y r [] j = 0 := rfl

theorem litRows_cons (height : Nat) (y r : Int) (bits : UInt8) (rest : List UInt8) (j : Nat) :
    litRows height y r (bits :: rest) j =
      litRows height (y + 1) r rest j +
        if y % height = r % height ∧ spriteBit bits j then 1 else 0 := by
  have hnext : ∀ i : Nat, y + (i + 1) = y + 1 + i := by
    intro i
    omega
  simp only [litRows, List.length_cons, List.finRange_succ, List.countP_cons, List.countP_map]
  simp [Function.comp_def, hnext]

/-! ## Positions -/

theorem wrap_eq_wrap_iff {n : Nat} (pos : 0 < n) (p q : Int) :
    wrap n pos p = wrap n pos q ↔ p % n = q % n := by
  have hp := Int.emod_nonneg p (b := n) (by omega)
  have hq := Int.emod_nonneg q (b := n) (by omega)
  simp only [wrap, Fin.mk.injEq]
  omega

theorem line_eq_line_iff (s : Screen) (y r : Int) :
    s.line y = s.line r ↔ y % s.height = r % s.height :=
  wrap_eq_wrap_iff s.height_pos y r

theorem lit_congr_line (h : s.line y = s.line r) (c : Int) : s.lit c y = s.lit c r := by
  simp only [lit, h]

/-- A place shows the same however many screens away it is counted from. -/
theorem lit_congr {c' r' : Int} (hc : c % s.width = c' % s.width)
    (hr : r % s.height = r' % s.height) : s.lit c r = s.lit c' r' := by
  simp only [lit, column, line, (wrap_eq_wrap_iff s.width_pos c c').mpr hc,
    (wrap_eq_wrap_iff s.height_pos r r').mpr hr]

theorem spriteColumn_eq_column_iff (s : Screen) (x c : Int) (j : Nat) :
    s.spriteColumn x j = s.column c ↔
      (x + j).bmod 0x10000000000000000 % s.width = c % s.width :=
  wrap_eq_wrap_iff s.width_pos _ c

/-! ## One row -/

/-- Where several values are put into one cell, the last of them stays. -/
theorem getElem_foldl_set {n : Nat} (cell : Nat → Fin n) (value : Nat → Bool) (row : Vector Bool n)
    (js : List Nat) (k : Fin n) :
    (js.foldl (fun r j => r.set (cell j) (value j)) row)[k] =
      ((js.reverse.find? fun j => cell j = k).map value).getD row[k] := by
  induction js using List.reverseRecOn with
  | nil => simp
  | append_singleton js j ih =>
    rw [List.foldl_append, List.reverse_concat, List.find?_cons]
    simp only [List.foldl_cons, List.foldl_nil, Fin.getElem_fin, Vector.getElem_set, ← Fin.ext_iff]
    by_cases hj : cell j = k
    · simp [hj]
    · simpa [hj] using ih

theorem lit_drawRow_of_ne (h : s.line y ≠ s.line r) (x : Int) (bits : UInt8) (c : Int) :
    (s.drawRow x y bits).lit c r = s.lit c r := by
  have hline : ∀ drawn : Vector Bool s.width,
      (s.rows.set (s.line y) drawn)[s.line r] = s.rows[s.line r] := by
    intro drawn
    rw [Ne, Fin.ext_iff] at h
    simp [Vector.getElem_set_ne, h]
  change (s.rows.set (s.line y) _)[s.line r][s.column c] = _
  rw [hline]
  rfl

theorem lit_drawRow_self (s : Screen) (x y : Int) (bits : UInt8) (c : Int) :
    (s.drawRow x y bits).lit c y =
      (s.lit c y ^^ (topPixel? s.width x c).any fun j => spriteBit bits j) := by
  have hline : ∀ drawn : Vector Bool s.width,
      (s.rows.set (s.line y) drawn)[s.line y] = drawn := by
    intro drawn
    simp
  have hfold := getElem_foldl_set (s.spriteColumn x)
    (fun j => s.rows[s.line y][s.spriteColumn x j] ^^ spriteBit bits j) s.rows[s.line y]
    (List.range spriteWidth) (s.column c)
  change (s.rows.set (s.line y) _)[s.line y][s.column c] = _
  rw [hline, hfold]
  cases hfind : (List.range spriteWidth).reverse.find? fun j => s.spriteColumn x j = s.column c with
  | none =>
    simp only [spriteColumn_eq_column_iff] at hfind
    rw [topPixel?, hfind]
    simp [lit]
  | some j =>
    have hj : s.spriteColumn x j = s.column c := by simpa using List.find?_some hfind
    simp only [spriteColumn_eq_column_iff] at hfind
    rw [topPixel?, hfind]
    simp [lit, hj]

/-- A sprite row flips the pixels of its line at which the pixel that counts is lit. -/
theorem lit_drawRow (s : Screen) (x y : Int) (bits : UInt8) (c r : Int) :
    (s.drawRow x y bits).lit c r =
      (s.lit c r ^^ (topPixel? s.width x c).any fun j =>
        y % s.height = r % s.height ∧ spriteBit bits j) := by
  by_cases hline : s.line y = s.line r
  · have hmod := (s.line_eq_line_iff y r).mp hline
    have hdrawn : (s.drawRow x y bits).lit c y = (s.drawRow x y bits).lit c r :=
      lit_congr_line (s := s.drawRow x y bits) hline c
    rw [← hdrawn, ← lit_congr_line hline c, lit_drawRow_self]
    simp [hmod]
  · have hmod := mt (s.line_eq_line_iff y r).mpr hline
    rw [lit_drawRow_of_ne hline]
    simp [hmod]

/-! ## Whole sprites -/

/-- A sprite flips the pixels at which an odd number of its rows have a lit pixel that counts. -/
theorem lit_drawRows (s : Screen) (x y : Int) (sprite : List UInt8) (c r : Int) :
    (s.drawRows x y sprite).1.lit c r =
      (s.lit c r ^^ flips s.width s.height x y sprite c r) := by
  induction sprite generalizing s y with
  | nil =>
    cases hpixel : topPixel? s.width x c <;> simp [drawRows, flips, litRows_nil, hpixel]
  | cons bits rest ih =>
    have hrest : ((s.drawRow x y bits).drawRows x (y + 1) rest).1.lit c r =
        ((s.drawRow x y bits).lit c r ^^ flips s.width s.height x (y + 1) rest c r) :=
      ih (s.drawRow x y bits) (y + 1)
    change ((s.drawRow x y bits).drawRows x (y + 1) rest).1.lit c r = _
    rw [hrest, lit_drawRow, flips, flips]
    cases hpixel : topPixel? s.width x c with
    | none => simp
    | some j =>
      simp only [Option.any_some, litRows_cons]
      by_cases hrow : y % s.height = r % s.height ∧ spriteBit bits j = true
      · simp only [hrow, and_self, decide_true, if_true, Nat.odd_add_one, decide_not]
        cases s.lit c r <;> simp
      · simp [hrow]

theorem lit_draw (s : Screen) (x y : Int) (sprite : List UInt8) (c r : Int) :
    (s.draw x y sprite).1.lit c r = (s.lit c r ^^ flips s.width s.height x y sprite c r) :=
  s.lit_drawRows x y sprite c r

/-! ## Collisions -/

/-- Sprites meet a lit pixel if one of their rows does, on the screen that the rows before it have
left. -/
theorem drawRows_hits_iff (s : Screen) (x y : Int) (sprite : List UInt8) :
    (s.drawRows x y sprite).2 = true ↔
      ∃ i : Fin sprite.length,
        (s.drawRows x y (sprite.take i)).1.rowHits x (y + i) sprite[i] = true := by
  induction sprite generalizing s y with
  | nil => simp [drawRows]
  | cons bits rest ih =>
    have hsplit : (s.drawRows x y (bits :: rest)).2 = true ↔
        s.rowHits x y bits = true ∨ ((s.drawRow x y bits).drawRows x (y + 1) rest).2 = true := by
      change (s.rowHits x y bits || ((s.drawRow x y bits).drawRows x (y + 1) rest).2) = true ↔ _
      rw [Bool.or_eq_true]
    have hfirst : (s.drawRows x y ((bits :: rest).take 0)).1.rowHits x (y + (0 : Nat)) bits =
        s.rowHits x y bits := by
      simp [drawRows]
    have hlater : ∀ i : Fin rest.length,
        (s.drawRows x y ((bits :: rest).take i.succ)).1.rowHits x (y + i.succ.val)
            (bits :: rest)[i.succ] =
          ((s.drawRow x y bits).drawRows x (y + 1) (rest.take i)).1.rowHits x (y + 1 + i)
            rest[i] := by
      intro i
      have hline : y + 1 + (i.val : Int) = y + (i.succ.val : Int) := by
        rw [Fin.val_succ]
        omega
      rw [hline]
      rfl
    rw [hsplit, ih]
    constructor
    · rintro (h | ⟨i, h⟩)
      · refine ⟨⟨0, Nat.zero_lt_succ _⟩, ?_⟩
        rw [← hfirst] at h
        exact h
      · refine ⟨i.succ, ?_⟩
        rw [hlater]
        exact h
    · rintro ⟨i, h⟩
      cases i using Fin.cases with
      | zero =>
        refine .inl ?_
        rw [← hfirst]
        exact h
      | succ i =>
        refine .inr ⟨i, ?_⟩
        rw [← hlater]
        exact h

/-! ## Positions in range -/

/-- In the range of 64-bit words, the pixels of a sprite row stand side by side. -/
theorem position_eq (hlow : -0x8000000000000000 ≤ x) (hhigh : x + 7 < 0x8000000000000000) {j : Nat}
    (hj : j < 8) : (x + j).bmod 0x10000000000000000 = x + j :=
  Int.bmod_eq_of_le (by omega) (by omega)

/-- The pixel that counts for a column is the last that falls on it. -/
theorem find?_reverse_range {p : Nat → Bool} {n j : Nat} (hj : j < n) (hp : p j = true)
    (hlast : ∀ k, j < k → k < n → p k = false) : (List.range n).reverse.find? p = some j := by
  induction n with
  | zero => omega
  | succ n ih =>
    rw [List.range_succ, List.reverse_concat, List.find?_cons]
    by_cases hjn : j = n
    · rw [← hjn, hp]
    · rw [hlast n (by omega) (Nat.lt_succ_self n)]
      exact ih (by omega) fun k hjk hkn => hlast k hjk (by omega)

theorem topPixel?_eq_some (hlow : -0x8000000000000000 ≤ x) (hhigh : x + 7 < 0x8000000000000000)
    {width j : Nat} (hj : j < 8) (hfalls : (x + j) % width = c % width)
    (hlast : ∀ k : Nat, j < k → k < 8 → (x + k) % width ≠ c % width) :
    topPixel? width x c = some j := by
  refine find?_reverse_range hj ?_ ?_
  · rw [position_eq hlow hhigh hj]
    simpa using hfalls
  · intro k hjk hk
    rw [position_eq hlow hhigh hk]
    simpa using hlast k hjk hk

theorem topPixel?_eq_none (hlow : -0x8000000000000000 ≤ x) (hhigh : x + 7 < 0x8000000000000000)
    {width : Nat} (hmiss : ∀ j : Nat, j < 8 → (x + j) % width ≠ c % width) :
    topPixel? width x c = none := by
  rw [topPixel?, List.find?_eq_none]
  intro j hj
  have hj8 : j < 8 := by simpa [spriteWidth] using hj
  rw [position_eq hlow hhigh hj8]
  simpa using hmiss j hj8

theorem rowHits_iff (hlow : -0x8000000000000000 ≤ x) (hhigh : x + 7 < 0x8000000000000000)
    (s : Screen) (y : Int) (bits : UInt8) :
    s.rowHits x y bits = true ↔
      ∃ j : Nat, j < 8 ∧ s.lit (x + j) y = true ∧ spriteBit bits j = true := by
  simp only [rowHits, List.any_eq_true, List.mem_range, Bool.and_eq_true]
  refine exists_congr fun j => and_congr_right fun hj => ?_
  have hcolumn : s.spriteColumn x j = s.column (x + j) := by
    rw [spriteColumn, position_eq hlow hhigh hj]
  simp only [lit, hcolumn]

/-- **The effect of a sprite.**  At a position where all its columns are 64-bit words, a sprite can
be placed on any screen.  A pixel takes part through the right-most sprite column that falls on it,
and is flipped if an odd number of sprite rows fall on it with that column lit; a pixel that no
sprite column falls on stays.  A collision is reported if some row has a pixel lit where the screen
is lit too, as the rows before it have left it.  Lines and columns are counted from any whole number
of screens away. -/
theorem place_effect (s : Screen) (x y : Int) (sprite : List UInt8)
    (hlow : -0x8000000000000000 ≤ x) (hhigh : x + 7 < 0x8000000000000000) :
    ∃ drawn hit, s.place x y sprite = .ok (drawn, hit) ∧
      (drawn.width = s.width ∧ drawn.height = s.height ∧ drawn.dirty = true) ∧
      (∀ (c r : Int) (j : Nat), j < 8 → (x + j) % s.width = c % s.width →
        (∀ k : Nat, j < k → k < 8 → (x + k) % s.width ≠ c % s.width) →
        drawn.lit c r = (s.lit c r ^^ decide (Odd (litRows s.height y r sprite j)))) ∧
      (∀ c r : Int, (∀ j : Nat, j < 8 → (x + j) % s.width ≠ c % s.width) →
        drawn.lit c r = s.lit c r) ∧
      (hit = true ↔ ∃ (i : Fin sprite.length) (j : Nat), j < 8 ∧
        (s.draw x y (sprite.take i)).1.lit (x + j) (y + i) = true ∧
        spriteBit sprite[i] j = true) := by
  refine ⟨(s.draw x y sprite).1, (s.draw x y sprite).2, ?_, ?_, ?_, ?_, ?_⟩
  · rw [place, if_pos (by omega)]
  · obtain ⟨hwidth, hheight⟩ := s.size_draw x y sprite
    exact ⟨hwidth, hheight, rfl⟩
  · intro c r j hj hfalls hlast
    rw [lit_draw, flips, topPixel?_eq_some hlow hhigh hj hfalls hlast, Option.any_some]
  · intro c r hmiss
    rw [lit_draw, flips, topPixel?_eq_none hlow hhigh hmiss, Option.any_none, Bool.xor_false]
  · change (s.drawRows x y sprite).2 = true ↔ _
    rw [drawRows_hits_iff]
    refine exists_congr fun i => ?_
    exact rowHits_iff hlow hhigh _ (y + i) sprite[i]

/-- A screen of three columns and two lines, on which sprites overlap themselves. -/
def tiny : Screen :=
  blank 3 2 (by decide) (by decide)

/-- Two rows of this sprite flip the pixel at the bottom left, and the second one meets what the
first has lit. -/
theorem tiny_place_effect :
    (-0x8000000000000000 ≤ (-2 : Int) ∧ (-2 : Int) + 7 < 0x8000000000000000) ∧
      ∃ drawn hit, tiny.place (-2) (-1) [0x04, 0xFF, 0x84] = .ok (drawn, hit) ∧
        drawn.lit 0 1 = false ∧ drawn.lit 0 0 = true ∧ hit = true := by
  obtain ⟨drawn, hit, hplace, -, hlit, -, hhit⟩ :=
    place_effect tiny (-2) (-1) [0x04, 0xFF, 0x84] (by decide) (by decide)
  have hlast : ∀ k : Nat, 5 < k → k < 8 → (-2 + (k : Int)) % tiny.width ≠ 0 % tiny.width := by
    intro k hlow hhigh
    change (-2 + (k : Int)) % 3 ≠ 0 % 3
    omega
  refine ⟨by decide, drawn, hit, hplace, ?_, ?_, ?_⟩
  · rw [hlit 0 1 5 (by decide) (by decide) hlast]
    decide
  · rw [hlit 0 0 5 (by decide) (by decide) hlast]
    decide
  · exact hhit.mpr ⟨2, 5, by decide, by decide, by decide⟩

end Chip8.Screen
