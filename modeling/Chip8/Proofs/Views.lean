import Chip8.Proofs.Compositing
import Chip8.Screen.Image

/-!
# Three views of the screen

A screen can be asked for one place of the plane (`Screen.lit`), written as text (`Screen.text`) and
made into a picture (`Screen.image`).  The text and the picture are tables, so that each is compared
with the first view by saying which table it is (`Grid.ofFn`).  What is done to a table on the way
to a picture (turning it upside down, making each cell a square) is then a change of the index.

A picture of a scale other than zero shows the whole screen: `Image.screen?` reads it back.

The main result is `Screen.views_agree`.
-/

namespace Chip8

/-! ## Tables -/

namespace Grid

variable {α β : Type} {height width : Nat} {f : Nat → Nat → α}

/-- The table with the cell `f r c` in row `r` and column `c`. -/
def ofFn (height width : Nat) (f : Nat → Nat → α) : List (List α) :=
  (List.range height).map fun r => (List.range width).map (f r)

/-- The cell of a table in a row and a column. -/
def cell? (rows : List (List α)) (r c : Nat) : Option α :=
  rows[r]?.bind fun row => row[c]?

/-- A table has a height, a width and the cell `f r c` in row `r` and column `c`. -/
structure Shows (rows : List (List α)) (height width : Nat) (f : Nat → Nat → α) : Prop where
  length_rows : rows.length = height
  length_row : ∀ row ∈ rows, row.length = width
  cell_eq : ∀ r < height, ∀ c < width, cell? rows r c = some (f r c)

theorem shows_ofFn (height width : Nat) (f : Nat → Nat → α) :
    Shows (ofFn height width f) height width f where
  length_rows := by simp [ofFn]
  length_row := by
    intro row hrow
    obtain ⟨r, -, rfl⟩ := List.mem_map.mp hrow
    simp
  cell_eq := by
    intro r hr c hc
    simp [cell?, ofFn, hr, hc]

theorem map_ofFn (h : α → β) :
    (ofFn height width f).map (List.map h) = ofFn height width fun r c => h (f r c) := by
  simp only [ofFn, List.map_map, Function.comp_def]

theorem reverse_map_range (n : Nat) (f : Nat → α) :
    ((List.range n).map f).reverse = (List.range n).map fun i => f (n - 1 - i) := by
  apply List.ext_getElem
  · simp
  · intro i h₁ h₂
    simp [List.getElem_reverse]

theorem reverse_ofFn :
    (ofFn height width f).reverse = ofFn height width fun r c => f (height - 1 - r) c :=
  reverse_map_range height _

/-- A list in which each member is written `k` times has its member `i / k` in place `i`. -/
theorem flatMap_replicate_map_range (n k : Nat) (f : Nat → α) :
    ((List.range n).map f).flatMap (List.replicate k) =
      (List.range (n * k)).map fun i => f (i / k) := by
  induction n with
  | zero => simp
  | succ n ih =>
    have hlast : (List.range k).map (fun i => f ((n * k + i) / k)) = List.replicate k (f n) := by
      apply List.eq_replicate_iff.mpr
      refine ⟨by simp, ?_⟩
      intro a ha
      obtain ⟨i, hi, rfl⟩ := List.mem_map.mp ha
      have hik := List.mem_range.mp hi
      rw [Nat.mul_comm n k, Nat.mul_add_div (by omega), Nat.div_eq_of_lt hik, Nat.add_zero]
    rw [List.range_succ, List.map_append, List.flatMap_append, ih, Nat.succ_mul, List.range_add,
      List.map_append, List.map_map]
    simp only [List.map_cons, List.map_nil, List.flatMap_cons, List.flatMap_nil, List.append_nil]
    exact congrArg _ hlast.symm

theorem flatMap_ofFn (k : Nat) :
    ((ofFn height width f).flatMap fun row =>
        List.replicate k (row.flatMap (List.replicate k))) =
      ofFn (height * k) (width * k) fun r c => f (r / k) (c / k) := by
  have hrow : ∀ r, ((List.range width).map (f r)).flatMap (List.replicate k) =
      (List.range (width * k)).map fun c => f r (c / k) :=
    fun r => flatMap_replicate_map_range width k (f r)
  rw [ofFn, List.flatMap_map]
  simp only [hrow]
  rw [← List.flatMap_map, flatMap_replicate_map_range]
  rfl

theorem length_flatMap_of_forall {n : Nat} {l : List α} {f : α → List β}
    (h : ∀ a ∈ l, (f a).length = n) : (l.flatMap f).length = l.length * n := by
  induction l with
  | nil => simp
  | cons a l ih =>
    have hhead := h a List.mem_cons_self
    have htail := ih fun b hb => h b (List.mem_cons_of_mem a hb)
    rw [List.flatMap_cons, List.length_append, hhead, htail, List.length_cons, Nat.succ_mul,
      Nat.add_comm]

end Grid

/-! ## Pictures -/

namespace Image

/-- Whether the square of a picture that belongs to a pixel of the screen is white. -/
def squareLit (scale : Nat) (i : Image) (x y : Nat) : Bool :=
  Grid.cell? i.rows (i.height - (y + 1) * scale) (x * scale) == some .white

/-- The screen that a picture of a scale shows. -/
def screen? (scale : Nat) (i : Image) : Option Screen :=
  if h : 0 < i.width / scale ∧ 0 < i.height / scale then
    some {
      width := i.width / scale
      height := i.height / scale
      width_pos := h.1
      height_pos := h.2
      rows := Vector.ofFn fun y => Vector.ofFn fun x => i.squareLit scale x y
      dirty := false }
  else none

theorem enlarge_one (i : Image) : i.enlarge 1 = i := by
  have hone : (List.replicate 1 : Pixel → List Pixel) = fun p => [p] := rfl
  simp [enlarge, hone]

end Image

namespace Screen

open Grid

theorem image_natCast (s : Screen) (scale : Nat) :
    s.image scale = .ok (s.smallImage.enlarge scale) := by
  have himage : s.imageAt scale = s.smallImage.enlarge scale := by
    unfold imageAt
    split
    next h => rw [h, Image.enlarge_one]
    next => rfl
  rw [image, if_neg (by omega), Int.toNat_natCast, himage]

theorem rows_eq_ofFn (s : Screen) :
    s.rows.toList.map (·.toList) = ofFn s.height s.width fun r c => s.lit c r := by
  apply List.ext_getElem
  · simp [ofFn]
  · intro r hr _
    have hheight : r < s.height := by simpa using hr
    apply List.ext_getElem
    · simp [ofFn]
    · intro c hc _
      have hwidth : c < s.width := by simpa using hc
      simp [ofFn, lit_natCast hwidth hheight]

theorem rows_enlarge (s : Screen) (scale : Nat) :
    (s.smallImage.enlarge scale).rows =
      ofFn (s.height * scale) (s.width * scale) fun r c =>
        .ofLit (s.lit (c / scale : Nat) (s.height - 1 - r / scale : Nat)) := by
  have hsmall : s.smallImage.rows =
      ofFn s.height s.width fun r c => .ofLit (s.lit c (s.height - 1 - r : Nat)) := by
    calc s.smallImage.rows
        = ((s.rows.toList.map (·.toList)).reverse).map (List.map Pixel.ofLit) := by
          simp [smallImage, ← List.map_reverse]
      _ = _ := by rw [rows_eq_ofFn, reverse_ofFn, map_ofFn]
  rw [Image.enlarge, hsmall]
  exact flatMap_ofFn scale

theorem shows_enlarge (s : Screen) (scale : Nat) :
    Shows (s.smallImage.enlarge scale).rows (s.height * scale) (s.width * scale) fun r c =>
      .ofLit (s.lit (c / scale : Nat) (s.height - 1 - r / scale : Nat)) := by
  rw [rows_enlarge]
  exact shows_ofFn _ _ _

/-- The bottom row of the square of a pixel lies in the picture, and so does its left column. -/
theorem squareLit_enlarge (s : Screen) {scale x y : Nat} (hscale : 0 < scale) (hx : x < s.width)
    (hy : y < s.height) : (s.smallImage.enlarge scale).squareLit scale x y = s.lit x y := by
  have hrow : s.height * scale - (y + 1) * scale = (s.height - 1 - y) * scale := by
    rw [← Nat.sub_mul]
    congr 1
    omega
  have hr : (s.height - 1 - y) * scale < s.height * scale :=
    Nat.mul_lt_mul_of_pos_right (by omega) hscale
  have hc : x * scale < s.width * scale := Nat.mul_lt_mul_of_pos_right hx hscale
  have hback : s.height - 1 - (s.height - 1 - y) = y := by omega
  have hcell := (s.shows_enlarge scale).cell_eq _ hr _ hc
  rw [Nat.mul_div_cancel _ hscale, Nat.mul_div_cancel _ hscale, hback] at hcell
  show (cell? (s.smallImage.enlarge scale).rows (s.height * scale - (y + 1) * scale)
    (x * scale) == some .white) = s.lit x y
  rw [hrow, hcell]
  cases s.lit x y <;> decide

theorem screen?_enlarge (s : Screen) {scale : Nat} (hscale : 0 < scale) :
    (s.smallImage.enlarge scale).screen? scale = some s.markShown := by
  have hwidth : (s.smallImage.enlarge scale).width / scale = s.width :=
    Nat.mul_div_cancel _ hscale
  have hheight : (s.smallImage.enlarge scale).height / scale = s.height :=
    Nat.mul_div_cancel _ hscale
  have hsize : 0 < (s.smallImage.enlarge scale).width / scale ∧
      0 < (s.smallImage.enlarge scale).height / scale := by
    rw [hwidth, hheight]
    exact ⟨s.width_pos, s.height_pos⟩
  rw [Image.screen?, dif_pos hsize]
  apply congrArg some
  refine eq_of_pixels hwidth hheight rfl ?_
  intro c r hc hr
  rw [lit_natCast hc hr]
  show (Vector.ofFn fun y => Vector.ofFn fun x =>
    (s.smallImage.enlarge scale).squareLit scale x y)[r][c] = s.lit c r
  rw [Vector.getElem_ofFn, Vector.getElem_ofFn]
  exact s.squareLit_enlarge hscale (hwidth ▸ hc) (hheight ▸ hr)

theorem length_bytes_enlarge (s : Screen) (scale : Nat) :
    (s.smallImage.enlarge scale).bytes.length =
      s.height * scale * (s.smallImage.enlarge scale).pitch := by
  have hshows := s.shows_enlarge scale
  rw [← hshows.length_rows]
  apply length_flatMap_of_forall
  intro row hrow
  have hlength : (row.flatMap Pixel.bytes).length = row.length * Image.channels :=
    length_flatMap_of_forall fun _ _ => rfl
  rw [hlength, hshows.length_row row hrow]
  rfl

/-! ## Text -/

theorem splitOn_text (s : Screen) :
    s.text.toList.splitOn '\n' =
      ofFn s.height s.width fun r c => if s.lit c r then '#' else '.' := by
  have hlines : s.textLines.map String.toList =
      ofFn s.height s.width fun r c => if s.lit c r then '#' else '.' := by
    calc s.textLines.map String.toList
        = (s.rows.toList.map (·.toList)).map (List.map fun p => if p then '#' else '.') := by
          simp [textLines]
      _ = _ := by rw [rows_eq_ofFn, map_ofFn]
  rw [text, String.toList_intercalate, hlines]
  apply List.splitOn_intercalate
  · intro line hline hbreak
    obtain ⟨r, -, rfl⟩ := List.mem_map.mp hline
    obtain ⟨c, -, hc⟩ := List.mem_map.mp hbreak
    dsimp only at hc
    split at hc <;> cases hc
  · have hpos := s.height_pos
    simp only [ofFn, ne_eq, List.map_eq_nil_iff, List.range_eq_nil]
    omega

theorem lit_periodic (s : Screen) (x y a b : Int) :
    s.lit (x + a * s.width) (y + b * s.height) = s.lit x y :=
  lit_congr (Int.add_mul_emod_self_right x a s.width) (Int.add_mul_emod_self_right y b s.height)

/-! ## The views agree -/

/-- A picture shows a screen at a scale: its size is that of the screen times the scale, it has four
bytes to a pixel, and each pixel of the screen is a white or a black square, the top line of the
screen last. -/
structure Pictured (s : Screen) (scale : Nat) (picture : Image) : Prop where
  width_eq : picture.width = s.width * scale
  height_eq : picture.height = s.height * scale
  pitch_eq : picture.pitch = 4 * (s.width * scale)
  length_bytes : picture.bytes.length = s.height * scale * picture.pitch
  squares : Shows picture.rows (s.height * scale) (s.width * scale) fun r c =>
    if s.lit (c / scale : Nat) (s.height - 1 - (r / scale : Nat)) then ⟨255, 255, 255, 255⟩
    else ⟨0, 0, 0, 255⟩

theorem pictured_enlarge (s : Screen) (scale : Nat) :
    s.Pictured scale (s.smallImage.enlarge scale) where
  width_eq := rfl
  height_eq := rfl
  pitch_eq := Nat.mul_comm _ 4
  length_bytes := s.length_bytes_enlarge scale
  squares := by
    have hshows := s.shows_enlarge scale
    refine ⟨hshows.length_rows, hshows.length_row, ?_⟩
    intro r hr c hc
    have hline : r / scale < s.height := Nat.div_lt_of_lt_mul (Nat.mul_comm _ scale ▸ hr)
    have hcast : ((s.height - 1 - r / scale : Nat) : Int) = s.height - 1 - (r / scale : Nat) := by
      omega
    rw [hshows.cell_eq r hr c hc, hcast]
    rfl

/-- **The views agree.**  A screen shows the same place by place, as a picture of any scale and as
text.  The picture with one pixel for each pixel of the screen is the one that the general rule
makes, the screen can be read back from each picture of a scale above zero, and the plane repeats
the screen in both directions. -/
theorem views_agree (s : Screen) :
    (∀ scale : Nat, ∃ picture, s.image scale = .ok picture ∧ s.Pictured scale picture ∧
      picture = s.smallImage.enlarge scale ∧
      (0 < scale → picture.screen? scale = some s.markShown)) ∧
    (Shows (s.text.toList.splitOn '\n') s.height s.width fun y x =>
      if s.lit x y then '#' else '.') ∧
    ∀ x y a b : Int, s.lit (x + a * s.width) (y + b * s.height) = s.lit x y := by
  refine ⟨?_, ?_, s.lit_periodic⟩
  · intro scale
    exact ⟨s.smallImage.enlarge scale, s.image_natCast scale, s.pictured_enlarge scale, rfl,
      s.screen?_enlarge⟩
  · rw [splitOn_text]
    exact shows_ofFn _ _ _

end Screen

end Chip8
