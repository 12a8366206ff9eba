import Chip8.Proofs.Drawing
import Mathlib.Data.List.Perm.Basic

/-!
# Screens as sums of sprites

Since the pixels that a sprite flips do not depend on what the screen shows, sprites add up: what
the screen shows is the exclusive or of what each sprite since the latest clearing shows alone on a
dark screen (`Screen.lit_paintedAll`).  So the order of the sprites plays no role, and a sprite
drawn twice leaves no trace, however many others are drawn in between, and also where a sprite wraps
around the screen or overlaps itself.

The main result is `Screen.screen_is_xor_of_sprites`.
-/

namespace Chip8

/-- A sprite and its position. -/
structure Sprite where
  x : Int
  y : Int
  rows : List UInt8
deriving DecidableEq, Repr

/-- What can be done to a screen. -/
inductive ScreenOp where
  | clear
  | draw (sprite : Sprite)
deriving DecidableEq, Repr

/-- Whether all columns of a sprite are signed 64-bit words. -/
def Sprite.InRange (p : Sprite) : Prop :=
  -0x8000000000000000 ≤ p.x ∧ p.x + 7 < 0x8000000000000000

instance (p : Sprite) : Decidable p.InRange :=
  inferInstanceAs (Decidable (_ ∧ _))

def ScreenOp.InRange : ScreenOp → Prop
  | clear => True
  | draw p => p.InRange

instance : (op : ScreenOp) → Decidable op.InRange
  | .clear => inferInstanceAs (Decidable True)
  | .draw p => inferInstanceAs (Decidable p.InRange)

/-- The sprites that are drawn after the last clearing, in their order. -/
def ScreenOp.sinceClear : List ScreenOp → List Sprite
  | [] => []
  | .clear :: ops => sinceClear ops
  | .draw p :: ops => if .clear ∈ ops then sinceClear ops else p :: sinceClear ops

/-- The screen that a sprite alone makes of a dark screen. -/
def Sprite.alone (p : Sprite) (width height : Nat) (hw : 0 < width) (hh : 0 < height) : Screen :=
  ((Screen.blank width height hw hh).draw p.x p.y p.rows).1

namespace Screen

open ScreenOp

/-- Clears the screen or draws a sprite. -/
def paint (s : Screen) : ScreenOp → Except FarPosition Screen
  | .clear => .ok s.clear
  | .draw p => (s.place p.x p.y p.rows).map Prod.fst

/-- Clears the screen and draws sprites, one after the other. -/
def paintAll (s : Screen) (ops : List ScreenOp) : Except FarPosition Screen :=
  ops.foldlM paint s

variable {s t : Screen} {width height : Nat} {ops : List ScreenOp} {p : Sprite} {c r : Int}

/-! ## Equal screens -/

/-- Screens of one size with the same pixels are equal. -/
theorem eq_of_pixels (hwidth : s.width = t.width) (hheight : s.height = t.height)
    (hdirty : s.dirty = t.dirty)
    (hlit : ∀ c r : Nat, c < s.width → r < s.height → s.lit c r = t.lit c r) : s = t := by
  obtain ⟨w, h, hw, hh, rows, dirty⟩ := s
  obtain ⟨w', h', hw', hh', rows', dirty'⟩ := t
  simp only at hwidth hheight hdirty
  subst hwidth hheight hdirty
  have hrows : rows = rows' := by
    apply Vector.ext
    intro r hr
    apply Vector.ext
    intro c hc
    have hpixel := hlit c r hc hr
    simpa [lit, line, column, wrap_natCast hw hc, wrap_natCast hh hr] using hpixel
  rw [hrows]

/-- Screens of one size that show the same are equal. -/
theorem eq_of_lit (hwidth : s.width = t.width) (hheight : s.height = t.height)
    (hdirty : s.dirty = t.dirty) (hlit : ∀ c r, s.lit c r = t.lit c r) : s = t :=
  eq_of_pixels hwidth hheight hdirty fun c r _ _ => hlit c r

/-! ## Painting in range -/

/-- Clears the screen or draws a sprite whose position is in range. -/
def painted (s : Screen) : ScreenOp → Screen
  | .clear => s.clear
  | .draw p => (s.draw p.x p.y p.rows).1

/-- The screen after some operations in range. -/
def paintedAll (s : Screen) (ops : List ScreenOp) : Screen :=
  ops.foldl painted s

theorem paint_eq {op : ScreenOp} (h : op.InRange) (s : Screen) :
    s.paint op = .ok (s.painted op) := by
  cases op with
  | clear => rfl
  | draw p =>
    obtain ⟨hlow, hhigh⟩ := h
    rw [paint, place, if_pos (by omega)]
    rfl

theorem paintAll_eq (h : ∀ op ∈ ops, op.InRange) (s : Screen) :
    s.paintAll ops = .ok (s.paintedAll ops) := by
  induction ops generalizing s with
  | nil => rfl
  | cons op ops ih =>
    rw [List.forall_mem_cons] at h
    rw [paintAll, List.foldlM_cons, paint_eq h.1]
    exact ih h.2 (s.painted op)

theorem paintedAll_append (s : Screen) (ops ops' : List ScreenOp) :
    s.paintedAll (ops ++ ops') = (s.paintedAll ops).paintedAll ops' :=
  List.foldl_append

theorem size_painted (s : Screen) (op : ScreenOp) :
    (s.painted op).width = s.width ∧ (s.painted op).height = s.height := by
  cases op with
  | clear => exact ⟨rfl, rfl⟩
  | draw p => exact s.size_draw p.x p.y p.rows

theorem size_paintedAll (s : Screen) (ops : List ScreenOp) :
    (s.paintedAll ops).width = s.width ∧ (s.paintedAll ops).height = s.height := by
  induction ops generalizing s with
  | nil => exact ⟨rfl, rfl⟩
  | cons op ops ih =>
    obtain ⟨hwidth, hheight⟩ := ih (s.painted op)
    obtain ⟨hwidth', hheight'⟩ := s.size_painted op
    exact ⟨hwidth.trans hwidth', hheight.trans hheight'⟩

/-- Whatever is painted, the screen counts as changed. -/
theorem dirty_paintedAll (hdirty : s.dirty = true) (ops : List ScreenOp) :
    (s.paintedAll ops).dirty = true := by
  induction ops generalizing s with
  | nil => exact hdirty
  | cons op ops ih =>
    have hop : (s.painted op).dirty = true := by cases op <;> rfl
    exact ih hop

/-! ## Sprites add up -/

/-- Whether a pixel is flipped by an odd number of the given sprites. -/
def flipsAll (width height : Nat) (ps : List Sprite) (c r : Int) : Bool :=
  (ps.map fun p => flips width height p.x p.y p.rows c r).foldr xor false

theorem flipsAll_cons (width height : Nat) (p : Sprite) (ps : List Sprite) (c r : Int) :
    flipsAll width height (p :: ps) c r =
      (flips width height p.x p.y p.rows c r ^^ flipsAll width height ps c r) :=
  rfl

theorem flipsAll_perm {ps qs : List Sprite} (h : ps.Perm qs) (width height : Nat) (c r : Int) :
    flipsAll width height ps c r = flipsAll width height qs c r := by
  have : LeftCommutative xor := ⟨Bool.xor_left_comm⟩
  exact (h.map _).foldr_eq false

/-- What a screen shows is what it has shown before, unless it has been cleared, with the sprites
since the last clearing added. -/
theorem lit_paintedAll (s : Screen) (ops : List ScreenOp) (c r : Int) :
    (s.paintedAll ops).lit c r =
      ((if .clear ∈ ops then false else s.lit c r) ^^
        flipsAll s.width s.height (sinceClear ops) c r) := by
  induction ops generalizing s with
  | nil => simp [paintedAll, sinceClear, flipsAll]
  | cons op ops ih =>
    have hrest := ih (s.painted op)
    obtain ⟨hwidth, hheight⟩ := s.size_painted op
    rw [hwidth, hheight] at hrest
    change ((s.painted op).paintedAll ops).lit c r = _
    rw [hrest]
    cases op with
    | clear => simp [sinceClear, painted, lit_clear]
    | draw p =>
      by_cases hclear : .clear ∈ ops
      · simp [sinceClear, hclear]
      · simp [sinceClear, hclear, painted, lit_draw, flipsAll_cons]

theorem lit_alone (p : Sprite) (hw : 0 < width) (hh : 0 < height) (c r : Int) :
    (p.alone width height hw hh).lit c r = flips width height p.x p.y p.rows c r := by
  have hdark : (blank width height hw hh).lit c r = false :=
    lit_clear (blank width height hw hh) c r
  rw [Sprite.alone, lit_draw, hdark, Bool.false_xor]
  rfl

theorem mem_of_mem_sinceClear (h : p ∈ sinceClear ops) : .draw p ∈ ops := by
  induction ops with
  | nil => cases h
  | cons op ops ih =>
    cases op with
    | clear => exact List.mem_cons_of_mem _ (ih h)
    | draw q =>
      rw [sinceClear] at h
      split at h
      · exact List.mem_cons_of_mem _ (ih h)
      · rcases List.mem_cons.mp h with rfl | h
        · exact List.mem_cons_self
        · exact List.mem_cons_of_mem _ (ih h)

/-! ## Sprites without a clearing between them -/

theorem lit_paintedAll_draws (s : Screen) (ps : List Sprite) (c r : Int) :
    (s.paintedAll (ps.map .draw)).lit c r = (s.lit c r ^^ flipsAll s.width s.height ps c r) := by
  have hsince : sinceClear (ps.map .draw) = ps := by
    induction ps with
    | nil => rfl
    | cons p ps ih => simp [sinceClear, ih]
  rw [lit_paintedAll, hsince]
  simp

/-- The order of sprites plays no role. -/
theorem paintedAll_perm {ps qs : List Sprite} (h : ps.Perm qs) (hdirty : s.dirty = true) :
    s.paintedAll (ps.map .draw) = s.paintedAll (qs.map .draw) := by
  obtain ⟨hwidth, hheight⟩ := s.size_paintedAll (ps.map .draw)
  obtain ⟨hwidth', hheight'⟩ := s.size_paintedAll (qs.map .draw)
  apply eq_of_lit (hwidth.trans hwidth'.symm) (hheight.trans hheight'.symm)
  · rw [dirty_paintedAll hdirty, dirty_paintedAll hdirty]
  · intro c r
    rw [lit_paintedAll_draws, lit_paintedAll_draws, flipsAll_perm h]

/-- A sprite that is drawn twice leaves no trace. -/
theorem paintedAll_twice (p : Sprite) (between : List Sprite) (hdirty : s.dirty = true) :
    s.paintedAll ((p :: between ++ [p]).map .draw) = s.paintedAll (between.map .draw) := by
  have hlast : (p :: between ++ [p]).Perm (p :: p :: between) :=
    (List.perm_append_singleton p between).cons p
  rw [paintedAll_perm hlast hdirty]
  obtain ⟨hwidth, hheight⟩ := s.size_paintedAll ((p :: p :: between).map .draw)
  obtain ⟨hwidth', hheight'⟩ := s.size_paintedAll (between.map .draw)
  apply eq_of_lit (hwidth.trans hwidth'.symm) (hheight.trans hheight'.symm)
  · rw [dirty_paintedAll hdirty, dirty_paintedAll hdirty]
  · intro c r
    have hcancel : flipsAll s.width s.height (p :: p :: between) c r =
        flipsAll s.width s.height between c r := by
      rw [flipsAll_cons, flipsAll_cons, ← Bool.xor_assoc, Bool.xor_self, Bool.false_xor]
    rw [lit_paintedAll_draws, lit_paintedAll_draws, hcancel]

/-- **A screen shows the sum of its sprites.**  On a screen that starts dark, each sequence of
clearings and sprites in range can be carried out, and shows the exclusive or of the pictures that
the sprites since the last clearing make alone.  Sprites with no clearing between them may change
places, and two equal ones cancel, whatever comes before, between and after them. -/
theorem screen_is_xor_of_sprites (width height : Nat) (hw : 0 < width) (hh : 0 < height)
    (ops : List ScreenOp) (hrange : ∀ op ∈ ops, op.InRange) :
    ∃ final, (blank width height hw hh).paintAll ops = .ok final ∧
      (final.width = width ∧ final.height = height) ∧
      (∀ p ∈ sinceClear ops,
        (blank width height hw hh).paintAll [.draw p] = .ok (p.alone width height hw hh)) ∧
      (∀ c r : Int, final.lit c r =
        ((sinceClear ops).map fun p => (p.alone width height hw hh).lit c r).foldr xor false) ∧
      (∀ (before after : List ScreenOp) (ps qs : List Sprite), ps.Perm qs →
        ops = before ++ ps.map .draw ++ after →
        (blank width height hw hh).paintAll (before ++ qs.map .draw ++ after) = .ok final) ∧
      (∀ (before after : List ScreenOp) (p : Sprite) (between : List Sprite),
        ops = before ++ (p :: between ++ [p]).map .draw ++ after →
        (blank width height hw hh).paintAll (before ++ between.map .draw ++ after) =
          .ok final) := by
  have hdirty : (blank width height hw hh).dirty = true := rfl
  refine ⟨(blank width height hw hh).paintedAll ops, paintAll_eq hrange _, size_paintedAll _ ops,
    ?_, ?_, ?_, ?_⟩
  · intro p hp
    refine paintAll_eq ?_ _
    intro op hop
    rw [List.mem_singleton.mp hop]
    exact hrange _ (mem_of_mem_sinceClear hp)
  · intro c r
    have hdark : (blank width height hw hh).lit c r = false :=
      lit_clear (blank width height hw hh) c r
    rw [lit_paintedAll, hdark, ite_self, Bool.false_xor]
    simp only [lit_alone]
    rfl
  · rintro before after ps qs hperm rfl
    have hrange' : ∀ op ∈ before ++ qs.map .draw ++ after, op.InRange := by
      intro op hop
      refine hrange op ?_
      simpa only [List.mem_append, (hperm.map ScreenOp.draw).mem_iff] using hop
    rw [paintAll_eq hrange', paintedAll_append, paintedAll_append, paintedAll_append,
      paintedAll_append, paintedAll_perm hperm (dirty_paintedAll hdirty before)]
  · rintro before after p between rfl
    have hrange' : ∀ op ∈ before ++ between.map .draw ++ after, op.InRange := by
      intro op hop
      refine hrange op ?_
      simp only [List.mem_append, List.map_append, List.map_cons, List.mem_cons] at hop ⊢
      tauto
    rw [paintAll_eq hrange', paintedAll_append, paintedAll_append, paintedAll_append,
      paintedAll_append, paintedAll_twice p between (dirty_paintedAll hdirty before)]

/-- The sprites of a sequence on a screen of three columns and two lines: one that is cleared away,
one that overlaps itself in both directions, and one that is drawn twice. -/
def tinyOps : List ScreenOp :=
  [.draw ⟨0, 0, [0xFF]⟩, .clear, .draw ⟨2, 1, [0x80]⟩, .draw ⟨-2, -1, [0x04, 0xFF, 0x84]⟩,
    .draw ⟨2, 1, [0x80]⟩]

theorem tinyOps_is_xor :
    (0 < 3 ∧ 0 < 2 ∧ ∀ op ∈ tinyOps, op.InRange) ∧
      ∃ final, tiny.paintAll tinyOps = .ok final ∧
        tiny.paintAll [.draw ⟨0, 0, [0xFF]⟩, .clear, .draw ⟨-2, -1, [0x04, 0xFF, 0x84]⟩] =
          .ok final ∧
        final.lit 0 0 = true ∧ final.lit 0 1 = false := by
  have hrange : ∀ op ∈ tinyOps, op.InRange := by decide
  obtain ⟨final, hall, -, -, hlit, -, htwice⟩ :=
    screen_is_xor_of_sprites 3 2 (by decide) (by decide) tinyOps hrange
  refine ⟨⟨by decide, by decide, hrange⟩, final, hall, ?_, ?_, ?_⟩
  · exact htwice [.draw ⟨0, 0, [0xFF]⟩, .clear] [] ⟨2, 1, [0x80]⟩
      [⟨-2, -1, [0x04, 0xFF, 0x84]⟩] rfl
  · rw [hlit]
    decide
  · rw [hlit]
    decide

end Screen

end Chip8
