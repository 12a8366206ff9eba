import Chip8.Proofs.Drawing
import Mathlib.Algebra.BigOperators.Fin
import Mathlib.Algebra.Order.Group.Unbundled.Int
import Mathlib.Data.Finset.Prod

/-!
# Counting pixels

On a screen that is at least as wide as a sprite and has a line for each of its rows, no two pixels
of the sprite fall together, wherever it is placed and also where it wraps around both edges
(`Screen.landing_injective`).  So each set pixel of the sprite flips one pixel of the screen, and
pixels can be counted: those of the sprite that meet a lit pixel turn it off, the others turn one
on.  The rows cannot disturb each other either, so the collision, which is noted row by row on a
screen that changes meanwhile, tells what can be seen by a look at the screen before and after.

The main result is `Screen.place_accounts`.
-/

namespace Chip8.Screen

variable {s t : Screen} {x y c r : Int} {sprite : List UInt8}

/-! ## Sets of pixels -/

/-- The places of a screen, each by its column and its line. -/
def places (s : Screen) : Finset (ℕ × ℕ) :=
  Finset.range s.width ×ˢ Finset.range s.height

/-- The places at which a screen is lit. -/
def litPlaces (s : Screen) : Finset (ℕ × ℕ) :=
  s.places.filter fun p => s.lit p.1 p.2 = true

/-- The places of a screen at which another one differs. -/
def changedPlaces (s t : Screen) : Finset (ℕ × ℕ) :=
  s.places.filter fun p => t.lit p.1 p.2 ≠ s.lit p.1 p.2

/-- The pixels of a sprite that are set, each by its row and its place in the row. -/
def setPixels (sprite : List UInt8) : Finset (Fin sprite.length × Fin 8) :=
  Finset.univ.filter fun b => spriteBit (sprite.get b.1) b.2 = true

/-- The set pixels of a sprite that fall on a lit pixel of the screen. -/
def meeting (s : Screen) (x y : Int) (sprite : List UInt8) : Finset (Fin sprite.length × Fin 8) :=
  (setPixels sprite).filter fun b => s.lit (x + b.2.val) (y + b.1.val) = true

theorem mem_places {p : ℕ × ℕ} : p ∈ s.places ↔ p.1 < s.width ∧ p.2 < s.height := by
  simp [places]

theorem mem_setPixels {b : Fin sprite.length × Fin 8} :
    b ∈ setPixels sprite ↔ spriteBit (sprite.get b.1) b.2 = true := by
  simp [setPixels]

theorem mem_meeting {b : Fin sprite.length × Fin 8} :
    b ∈ s.meeting x y sprite ↔
      b ∈ setPixels sprite ∧ s.lit (x + b.2.val) (y + b.1.val) = true := by
  simp [meeting]

theorem countP_finRange {n : ℕ} (p : Fin n → Bool) :
    (List.finRange n).countP p = (Finset.univ.filter fun k => p k = true).card := by
  rw [List.countP_eq_length_filter]
  simp [Finset.card, Finset.filter, Finset.univ, Fintype.elems]

theorem toList_eq_map_finRange {α : Type} {n : ℕ} (v : Vector α n) :
    v.toList = (List.finRange n).map v.get := by
  apply List.ext_getElem
  · simp
  · intro k _ _
    rw [Vector.getElem_toList, List.getElem_map, List.getElem_finRange]
    rfl

/-- The lit pixels are counted line by line. -/
theorem litCount_eq_card (s : Screen) : s.litCount = s.litPlaces.card := by
  have hrow : ∀ r : Fin s.height, s.rows[r].toList.count true =
      ∑ c : Fin s.width, if s.lit c.val r.val = true then 1 else 0 := by
    intro r
    rw [← Finset.card_filter, ← countP_finRange, toList_eq_map_finRange, List.count_eq_countP,
      List.countP_map]
    congr 1
    funext c
    simp [lit_natCast c.isLt r.isLt]
    rfl
  rw [litCount, List.count_flatMap, toList_eq_map_finRange, List.map_map, ← List.ofFn_eq_map,
    List.sum_ofFn, litPlaces, places, Finset.card_filter, Finset.sum_product_right,
    Finset.sum_range]
  simp only [Finset.sum_range, ← hrow]
  rfl

/-! ## Where the pixels of a sprite fall -/

/-- Positions less than a whole turn apart fall on different places. -/
theorem eq_of_emod_eq {n a b : ℕ} (ha : a < n) (hb : b < n) {p : Int}
    (h : (p + a) % n = (p + b) % n) : a = b := by
  have hdvd : (n : Int) ∣ (p + a) - (p + b) :=
    Int.dvd_of_emod_eq_zero (Int.emod_eq_emod_iff_emod_sub_eq_zero.mp h)
  have hlt : |(p + a) - (p + b)| < (n : Int) := by
    rw [abs_lt]
    omega
  have := Int.eq_zero_of_abs_lt_dvd hdvd hlt
  omega

/-- The place on which a pixel of a sprite falls. -/
def landing (s : Screen) (x y : Int) (b : Fin sprite.length × Fin 8) : ℕ × ℕ :=
  (s.column (x + b.2.val), s.line (y + b.1.val))

theorem landing_eq_iff {b : Fin sprite.length × Fin 8} {p : ℕ × ℕ} (hp : p ∈ s.places) :
    s.landing x y b = p ↔
      (x + b.2.val) % s.width = p.1 % s.width ∧ (y + b.1.val) % s.height = p.2 % s.height := by
  obtain ⟨hc, hr⟩ := mem_places.mp hp
  rw [← wrap_eq_wrap_iff s.width_pos, ← wrap_eq_wrap_iff s.height_pos,
    wrap_natCast s.width_pos hc, wrap_natCast s.height_pos hr, Fin.ext_iff, Fin.ext_iff]
  exact Prod.ext_iff

theorem landing_mem (b : Fin sprite.length × Fin 8) : s.landing x y b ∈ s.places :=
  mem_places.mpr ⟨(s.column (x + b.2.val)).isLt, (s.line (y + b.1.val)).isLt⟩

theorem lit_landing (s : Screen) (x y : Int) (b : Fin sprite.length × Fin 8) :
    s.lit (s.landing x y b).1 (s.landing x y b).2 = s.lit (x + b.2.val) (y + b.1.val) := by
  obtain ⟨hc, hr⟩ := (landing_eq_iff (landing_mem b)).mp (rfl : s.landing x y b = s.landing x y b)
  exact (lit_congr hc hr).symm

/-- No two pixels of a sprite fall together. -/
theorem landing_injective (hwidth : 8 ≤ s.width) (hheight : sprite.length ≤ s.height) (x y : Int) :
    Function.Injective (s.landing x y : Fin sprite.length × Fin 8 → ℕ × ℕ) := by
  rintro ⟨i, j⟩ ⟨i', j'⟩ h
  simp only [landing, Prod.mk.injEq, ← Fin.ext_iff, column, line, wrap_eq_wrap_iff] at h
  have hi := eq_of_emod_eq (by omega) (by omega) h.2
  have hj := eq_of_emod_eq (by omega) (by omega) h.1
  rw [Fin.ext hi, Fin.ext hj]

theorem odd_litRows_iff {height : ℕ} (hheight : sprite.length ≤ height) (y r : Int) (j : ℕ) :
    Odd (litRows height y r sprite j) ↔
      ∃ i : Fin sprite.length, (y + i.val) % height = r % height ∧
        spriteBit (sprite.get i) j = true := by
  rw [litRows, countP_finRange]
  set rows := Finset.univ.filter fun i : Fin sprite.length =>
    decide ((y + i.val) % height = r % height ∧ spriteBit sprite[i] j = true) = true with hrows
  have hmem : ∀ i, i ∈ rows ↔ (y + i.val) % height = r % height ∧
      spriteBit (sprite.get i) j = true := by
    intro i
    simp [hrows]
  have hle : rows.card ≤ 1 := by
    rw [Finset.card_le_one]
    intro i hi k hk
    have hsame := ((hmem i).mp hi).1.trans ((hmem k).mp hk).1.symm
    exact Fin.ext (eq_of_emod_eq (by omega) (by omega) hsame)
  have hodd : Odd rows.card ↔ 0 < rows.card := by
    rw [Nat.odd_iff]
    omega
  rw [hodd, Finset.card_pos]
  exact exists_congr hmem

/-- On a screen that it fits on, a sprite flips the pixels that its set pixels fall on. -/
theorem flips_iff {width height : ℕ} (hwidth : 8 ≤ width) (hheight : sprite.length ≤ height)
    (hlow : -0x8000000000000000 ≤ x) (hhigh : x + 7 < 0x8000000000000000) :
    flips width height x y sprite c r = true ↔ ∃ b ∈ setPixels sprite,
      (x + b.2.val) % width = c % width ∧ (y + b.1.val) % height = r % height := by
  rw [flips]
  by_cases hfalls : ∃ j : ℕ, j < 8 ∧ (x + j) % width = c % width
  · obtain ⟨j, hj, hcolumn⟩ := hfalls
    have honly : ∀ k : ℕ, k < 8 → (x + k) % width = c % width → k = j := by
      intro k hk hc
      exact eq_of_emod_eq (by omega) (by omega) (hc.trans hcolumn.symm)
    have hlast : ∀ k : ℕ, j < k → k < 8 → (x + k) % width ≠ c % width := by
      intro k hjk hk hc
      have := honly k hk hc
      omega
    rw [topPixel?_eq_some hlow hhigh hj hcolumn hlast, Option.any_some, decide_eq_true_eq,
      odd_litRows_iff hheight]
    constructor
    · rintro ⟨i, hline, hbit⟩
      exact ⟨(i, ⟨j, hj⟩), mem_setPixels.mpr hbit, hcolumn, hline⟩
    · rintro ⟨⟨i, k⟩, hset, hc, hline⟩
      have hbit := mem_setPixels.mp hset
      simp only [honly k k.isLt hc] at hbit
      exact ⟨i, hline, hbit⟩
  · have hmiss : ∀ j : ℕ, j < 8 → (x + j) % width ≠ c % width := by
      intro j hj hc
      exact hfalls ⟨j, hj, hc⟩
    rw [topPixel?_eq_none hlow hhigh hmiss, Option.any_none]
    constructor
    · intro h
      cases h
    · rintro ⟨b, -, hc, -⟩
      exact absurd hc (hmiss b.2 b.2.isLt)

/-! ## What a sprite changes -/

/-- The places at which another screen of the same size differs are those that it has turned off and
those that it has turned on. -/
theorem litCount_add (hwidth : t.width = s.width) (hheight : t.height = s.height) :
    t.litCount + 2 * (s.litPlaces ∩ s.changedPlaces t).card =
      s.litCount + (s.changedPlaces t).card := by
  have hlit : t.litPlaces = s.litPlaces \ s.changedPlaces t ∪ s.changedPlaces t \ s.litPlaces := by
    ext p
    have hplaces : p ∈ t.places ↔ p ∈ s.places := by
      rw [mem_places, mem_places, hwidth, hheight]
    simp only [litPlaces, changedPlaces, Finset.mem_union, Finset.mem_sdiff, Finset.mem_filter,
      hplaces]
    cases s.lit p.1 p.2 <;> cases t.lit p.1 p.2 <;> simp
  have hdisjoint : Disjoint (s.litPlaces \ s.changedPlaces t) (s.changedPlaces t \ s.litPlaces) :=
    disjoint_sdiff_sdiff
  have hoff := Finset.card_sdiff_add_card_inter s.litPlaces (s.changedPlaces t)
  have hon := Finset.card_sdiff_add_card_inter (s.changedPlaces t) s.litPlaces
  rw [Finset.inter_comm] at hon
  rw [litCount_eq_card, litCount_eq_card, hlit, Finset.card_union_of_disjoint hdisjoint]
  omega

section

variable (hwidth : 8 ≤ s.width) (hheight : sprite.length ≤ s.height)
  (hlow : -0x8000000000000000 ≤ x) (hhigh : x + 7 < 0x8000000000000000)

include hwidth hheight hlow hhigh

theorem changedPlaces_draw :
    s.changedPlaces (s.draw x y sprite).1 = (setPixels sprite).image (s.landing x y) := by
  ext p
  rw [changedPlaces, Finset.mem_filter, Finset.mem_image, lit_draw]
  constructor
  · rintro ⟨hp, hne⟩
    have hflips : flips s.width s.height x y sprite p.1 p.2 = true := by
      by_contra hnot
      rw [Bool.not_eq_true] at hnot
      rw [hnot, Bool.xor_false] at hne
      exact hne rfl
    obtain ⟨b, hb, hfalls⟩ := (flips_iff hwidth hheight hlow hhigh).mp hflips
    exact ⟨b, hb, (landing_eq_iff hp).mpr hfalls⟩
  · rintro ⟨b, hb, rfl⟩
    have hp : s.landing x y b ∈ s.places := landing_mem b
    have hflips := (flips_iff hwidth hheight hlow hhigh).mpr ⟨b, hb, (landing_eq_iff hp).mp rfl⟩
    simp [hp, hflips]

theorem card_changedPlaces_draw :
    (s.changedPlaces (s.draw x y sprite).1).card = (setPixels sprite).card := by
  rw [changedPlaces_draw hwidth hheight hlow hhigh]
  exact Finset.card_image_of_injective _ (landing_injective hwidth hheight x y)

theorem card_lit_changedPlaces_draw :
    (s.litPlaces ∩ s.changedPlaces (s.draw x y sprite).1).card =
      (s.meeting x y sprite).card := by
  have himage : s.litPlaces ∩ (setPixels sprite).image (s.landing x y) =
      (s.meeting x y sprite).image (s.landing x y) := by
    ext p
    simp only [Finset.mem_inter, Finset.mem_image, litPlaces, Finset.mem_filter]
    constructor
    · rintro ⟨⟨-, hlit⟩, b, hb, rfl⟩
      rw [lit_landing] at hlit
      exact ⟨b, mem_meeting.mpr ⟨hb, hlit⟩, rfl⟩
    · rintro ⟨b, hb, rfl⟩
      obtain ⟨hset, hlit⟩ := mem_meeting.mp hb
      rw [lit_landing]
      exact ⟨⟨landing_mem b, hlit⟩, b, hset, rfl⟩
  rw [changedPlaces_draw hwidth hheight hlow hhigh, himage]
  exact Finset.card_image_of_injective _ (landing_injective hwidth hheight x y)

/-- A set pixel flips the pixel that it falls on. -/
theorem lit_draw_of_set {b : Fin sprite.length × Fin 8} (hb : b ∈ setPixels sprite) :
    (s.draw x y sprite).1.lit (x + b.2.val) (y + b.1.val) =
      !s.lit (x + b.2.val) (y + b.1.val) := by
  have hflips : flips s.width s.height x y sprite (x + b.2.val) (y + b.1.val) = true :=
    (flips_iff hwidth hheight hlow hhigh).mpr ⟨b, hb, rfl, rfl⟩
  rw [lit_draw, hflips, Bool.xor_true]

/-- The rows above leave the line of a row as it was. -/
theorem lit_drawRows_take (i : Fin sprite.length) (c : Int) :
    (s.drawRows x y (sprite.take i)).1.lit c (y + i.val) = s.lit c (y + i.val) := by
  have hlength : (sprite.take i).length = i := by
    rw [List.length_take, min_eq_left i.isLt.le]
  have hnot : flips s.width s.height x y (sprite.take i) c (y + i.val) = false := by
    rw [← Bool.not_eq_true, flips_iff hwidth (by omega) hlow hhigh]
    rintro ⟨b, -, -, hline⟩
    have hrow := b.1.isLt
    have := eq_of_emod_eq (by omega) (by omega) hline
    omega
  rw [lit_drawRows, hnot, Bool.xor_false]

/-- A collision is reported if a set pixel falls on one that was lit before the sprite was drawn. -/
theorem draw_hits_iff :
    (s.draw x y sprite).2 = true ↔ (s.meeting x y sprite).Nonempty := by
  show (s.drawRows x y sprite).2 = true ↔ _
  simp only [drawRows_hits_iff, rowHits_iff hlow hhigh,
    lit_drawRows_take hwidth hheight hlow hhigh]
  constructor
  · rintro ⟨i, j, hj, hlit, hbit⟩
    exact ⟨(i, ⟨j, hj⟩), mem_meeting.mpr ⟨mem_setPixels.mpr hbit, hlit⟩⟩
  · rintro ⟨b, hb⟩
    obtain ⟨hset, hlit⟩ := mem_meeting.mp hb
    exact ⟨b.1, b.2, b.2.isLt, hlit, mem_setPixels.mp hset⟩

/-- A collision can be seen: it turns a pixel off. -/
theorem draw_hits_iff_off :
    (s.draw x y sprite).2 = true ↔
      ∃ c r, s.lit c r = true ∧ (s.draw x y sprite).1.lit c r = false := by
  rw [draw_hits_iff hwidth hheight hlow hhigh]
  constructor
  · rintro ⟨b, hb⟩
    obtain ⟨hset, hlit⟩ := mem_meeting.mp hb
    refine ⟨x + b.2.val, y + b.1.val, hlit, ?_⟩
    rw [lit_draw_of_set hwidth hheight hlow hhigh hset, hlit, Bool.not_true]
  · rintro ⟨c, r, hlit, hoff⟩
    rw [lit_draw, hlit, Bool.true_xor, Bool.not_eq_false'] at hoff
    obtain ⟨b, hset, hc, hr⟩ := (flips_iff hwidth hheight hlow hhigh).mp hoff
    refine ⟨b, mem_meeting.mpr ⟨hset, ?_⟩⟩
    rw [lit_congr hc hr, hlit]

/-- If no set pixel falls on a lit one, then all do when the sprite is drawn again. -/
theorem meeting_draw (hnone : (s.draw x y sprite).2 = false) :
    (s.draw x y sprite).1.meeting x y sprite = setPixels sprite := by
  rw [meeting, Finset.filter_eq_self]
  intro b hb
  have hdark : s.lit (x + b.2.val) (y + b.1.val) = false := by
    by_contra hlit
    rw [Bool.not_eq_false] at hlit
    have hhit := (draw_hits_iff hwidth hheight hlow hhigh).mpr ⟨b, mem_meeting.mpr ⟨hb, hlit⟩⟩
    rw [hnone] at hhit
    cases hhit
  rw [lit_draw_of_set hwidth hheight hlow hhigh hb, hdark, Bool.not_false]

end

/-- How the pixels of a sprite and of the screens before and after it are related, and what its
collision tells of them. -/
structure Accounts (s : Screen) (x y : Int) (sprite : List UInt8) (drawn : Screen) (hit : Bool) :
    Prop where
  changed : (s.changedPlaces drawn).card = (setPixels sprite).card
  lit : drawn.litCount + 2 * (s.meeting x y sprite).card = s.litCount + (setPixels sprite).card
  hit_iff_meeting : hit = true ↔ 0 < (s.meeting x y sprite).card
  hit_iff_off : hit = true ↔ ∃ c r, s.lit c r = true ∧ drawn.lit c r = false

theorem accounts_draw (hwidth : 8 ≤ s.width) (hheight : sprite.length ≤ s.height)
    (hlow : -0x8000000000000000 ≤ x) (hhigh : x + 7 < 0x8000000000000000) :
    Accounts s x y sprite (s.draw x y sprite).1 (s.draw x y sprite).2 where
  changed := card_changedPlaces_draw hwidth hheight hlow hhigh
  lit := by
    obtain ⟨hwidth', hheight'⟩ := s.size_draw x y sprite
    have hcount := litCount_add hwidth' hheight'
    rwa [card_lit_changedPlaces_draw hwidth hheight hlow hhigh,
      card_changedPlaces_draw hwidth hheight hlow hhigh] at hcount
  hit_iff_meeting := by
    rw [draw_hits_iff hwidth hheight hlow hhigh, Finset.card_pos]
  hit_iff_off := draw_hits_iff_off hwidth hheight hlow hhigh

/-- **Pixels can be counted.**  On a screen at least as wide as a sprite and with a line for each of
its rows, a sprite changes as many pixels as it has set, those that meet a lit pixel turn it off and
the others turn one on, and a collision is reported if and only if there are some of the first kind,
which is if and only if a pixel that was lit is off afterwards.  If the sprite has a set pixel and is
drawn twice at one position, one of the two drawings collides, and if the first does not, then the
second does. -/
theorem place_accounts (s : Screen) (x y : Int) (sprite : List UInt8) (hwidth : 8 ≤ s.width)
    (hheight : sprite.length ≤ s.height) (hlow : -0x8000000000000000 ≤ x)
    (hhigh : x + 7 < 0x8000000000000000) :
    ∃ drawn hit again hitAgain,
      s.place x y sprite = .ok (drawn, hit) ∧ drawn.place x y sprite = .ok (again, hitAgain) ∧
      Accounts s x y sprite drawn hit ∧
      (0 < (setPixels sprite).card →
        (hit = true ∨ hitAgain = true) ∧ (hit = false → hitAgain = true)) := by
  obtain ⟨hwidth', hheight'⟩ := s.size_draw x y sprite
  have hplace : ∀ u : Screen, u.place x y sprite = .ok (u.draw x y sprite) := by
    intro u
    exact if_pos (by omega)
  refine ⟨(s.draw x y sprite).1, (s.draw x y sprite).2, _, _, hplace s, hplace _,
    accounts_draw hwidth hheight hlow hhigh, ?_⟩
  intro hset
  have hsecond : (s.draw x y sprite).2 = false →
      ((s.draw x y sprite).1.draw x y sprite).2 = true := by
    intro hnone
    rw [draw_hits_iff (by omega) (by omega) hlow hhigh,
      meeting_draw hwidth hheight hlow hhigh hnone]
    exact Finset.card_pos.mp hset
  refine ⟨?_, hsecond⟩
  cases hhit : (s.draw x y sprite).2 with
  | false => exact .inr (hsecond hhit)
  | true => exact .inl rfl

/-- A screen of eight columns and two lines, with both ends of the upper line lit. -/
def lowScreen : Screen :=
  ((blank spriteWidth 2 (by decide) Nat.two_pos).draw 0 0 [0x81]).1

/-- A sprite that wraps around both edges of that screen turns both pixels off and one on. -/
theorem lowScreen_accounts :
    (8 ≤ lowScreen.width ∧ [0x80, 0xC0].length ≤ lowScreen.height ∧
      -0x8000000000000000 ≤ (-1 : Int) ∧ (-1 : Int) + 7 < 0x8000000000000000) ∧
      ∃ drawn, lowScreen.place (-1) 1 [0x80, 0xC0] = .ok (drawn, true) ∧ drawn.litCount = 1 := by
  obtain ⟨drawn, hit, -, -, hplace, -, haccounts, -⟩ :=
    place_accounts lowScreen (-1) 1 [0x80, 0xC0] (by decide) (by decide) (by decide) (by decide)
  have hmeeting : (lowScreen.meeting (-1) 1 [0x80, 0xC0]).card = 2 := by decide
  have hset : (setPixels [0x80, 0xC0]).card = 3 := by decide
  have hbefore : lowScreen.litCount = 2 := by decide
  have hhit : hit = true := haccounts.hit_iff_meeting.mpr (by omega)
  have hlit := haccounts.lit
  refine ⟨by decide, drawn, ?_, by omega⟩
  rw [hplace, hhit]

end Chip8.Screen
