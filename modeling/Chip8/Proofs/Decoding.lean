import Chip8.Instruction.Table
import Mathlib.Data.Nat.Bitwise

/-!
# Decoding

What a decoded word looks like.  The rows of the opcode table exclude each other, so the first row
that accepts a word is the only one (`Instruction.mnemonic_eq_some_iff`), and the position of a row
in the table plays no role.  The masks of the table fix the topmost nibble and some of the lowest
bits; what they leave open are the operands, so a word is the pattern of its row with the operands
added (`Instruction.toNat_of_mnemonic`), and the operands can be read back from it.
-/

namespace Chip8

/-! ## Rows -/

/-- Rows that accept a common word agree where both of them fix a bit. -/
theorem Row.pattern_and_mask {r s : Row} {w : UInt16} (hr : r.accepts w) (hs : s.accepts w) :
    r.pattern &&& s.mask = s.pattern &&& r.mask := by
  rw [accepts, beq_iff_eq] at hr hs
  rw [← hr, ← hs, UInt16.and_assoc, UInt16.and_assoc, UInt16.and_comm r.mask]

/-- A mask of the topmost nibble and the lowest `k` bits. -/
theorem and_mask {n k : Nat} (hn : n < 65536) (hk : k ≤ 12) :
    n &&& (0xF000 + (2 ^ k - 1)) = 4096 * (n / 4096) + n % 2 ^ k := by
  have hpow : 2 ^ k ≤ 2 ^ 12 := Nat.pow_le_pow_right (by decide) hk
  have hpos : 0 < 2 ^ k := Nat.two_pow_pos k
  have hdiv : (n &&& (0xF000 + (2 ^ k - 1))) / 2 ^ 12 = n / 4096 := by
    rw [Nat.and_div_two_pow, show (0xF000 + (2 ^ k - 1)) / 2 ^ 12 = 2 ^ 4 - 1 by omega,
      Nat.and_two_pow_sub_one_eq_mod]
    omega
  have hmod : (n &&& (0xF000 + (2 ^ k - 1))) % 2 ^ 12 = n % 2 ^ k := by
    rw [Nat.and_mod_two_pow, show (0xF000 + (2 ^ k - 1)) % 2 ^ 12 = 2 ^ k - 1 by omega,
      Nat.and_two_pow_sub_one_eq_mod, Nat.mod_mod_of_dvd _ (Nat.pow_dvd_pow 2 hk)]
  omega

/-- A row whose mask fixes the topmost nibble and the lowest `k` bits. -/
theorem Row.accepts_iff {r : Row} {w : UInt16} {k : Nat} (hk : k ≤ 12)
    (hmask : r.mask.toNat = 0xF000 + (2 ^ k - 1)) :
    r.accepts w ↔ 4096 * (w.toNat / 4096) + w.toNat % 2 ^ k = r.pattern.toNat := by
  rw [accepts, beq_iff_eq, ← UInt16.toNat_inj, UInt16.toNat_and, hmask, and_mask w.toNat_lt hk]

namespace Instruction

/-! ## The table -/

set_option maxRecDepth 10000 in
/-- No two rows of the table have a word in common. -/
theorem table_disjoint : ∀ r ∈ table, ∀ s ∈ table,
    r.pattern &&& s.mask = s.pattern &&& r.mask → r = s := by
  decide

set_option maxRecDepth 10000 in
theorem table_mnemonic_inj : ∀ r ∈ table, ∀ s ∈ table, r.mnemonic = s.mnemonic → r = s := by
  decide

theorem exists_row {w : UInt16} {mnemonic : Mnemonic} (h : (ofWord w).mnemonic = some mnemonic) :
    ∃ r ∈ table, r.mnemonic = mnemonic ∧ r.accepts w := by
  obtain ⟨r, hfind, hr⟩ := Option.map_eq_some_iff.1 h
  have haccepts : r.accepts w := List.find?_some (p := fun r : Row => r.accepts w) hfind
  exact ⟨r, List.mem_of_find?_eq_some hfind, hr, haccepts⟩

/-- A word has the mnemonic of a row if and only if the row accepts it, wherever in the table the
row stands. -/
theorem mnemonic_eq_some_iff {r : Row} (hr : r ∈ table) {w : UInt16} :
    (ofWord w).mnemonic = some r.mnemonic ↔ r.accepts w := by
  constructor
  · intro h
    obtain ⟨s, hs, hmnemonic, haccepts⟩ := exists_row h
    rwa [← table_mnemonic_inj s hs r hr hmnemonic]
  · intro h
    cases hfind : table.find? (·.accepts w) with
    | none => exact absurd h (List.find?_eq_none.1 hfind r hr)
    | some s =>
      have haccepts : s.accepts w := List.find?_some (p := fun r : Row => r.accepts w) hfind
      have hs : s = r := table_disjoint s (List.mem_of_find?_eq_some hfind) r hr
        (Row.pattern_and_mask haccepts h)
      rw [ofWord, ofWordBy, hfind, hs]
      rfl

/-- Where the mask of a row fixes the topmost nibble and the lowest `k` bits, a word of the row is
the pattern with the bits between them added. -/
theorem toNat_of_mnemonic {r : Row} (hr : r ∈ table) {k : Nat} (hk : k ≤ 12)
    (hmask : r.mask.toNat = 0xF000 + (2 ^ k - 1)) {w : UInt16}
    (h : (ofWord w).mnemonic = some r.mnemonic) :
    w.toNat = r.pattern.toNat + (w.toNat % 4096 - w.toNat % 2 ^ k) := by
  have haccepts := (Row.accepts_iff hk hmask).1 ((mnemonic_eq_some_iff hr).1 h)
  have hle : w.toNat % 2 ^ k ≤ w.toNat % 4096 := by
    rw [← Nat.mod_mod_of_dvd w.toNat (show 2 ^ k ∣ 4096 from Nat.pow_dvd_pow 2 hk)]
    exact Nat.mod_le _ _
  omega

/-! ## Words and their operands

One lemma for each layout of operands.  The masks `F000`, `F00F`, `F0FF` and `FFFF` leave open
twelve, eight, four and no bits of a word. -/

variable {p w : UInt16} {mnemonic : Mnemonic}

theorem toNat_eq_add_nnn (hr : ⟨0xF000, p, mnemonic⟩ ∈ table)
    (h : (ofWord w).mnemonic = some mnemonic) : w.toNat = p.toNat + (ofWord w).nnn := by
  have hw := toNat_of_mnemonic (k := 0) hr (by decide) rfl h
  simp only [nnn, ofWord, ofWordBy] at hw ⊢
  omega

theorem toNat_eq_add_x_kk (hr : ⟨0xF000, p, mnemonic⟩ ∈ table)
    (h : (ofWord w).mnemonic = some mnemonic) :
    w.toNat = p.toNat + 0x100 * (ofWord w).x + (ofWord w).kk.toNat := by
  have hw := toNat_of_mnemonic (k := 0) hr (by decide) rfl h
  simp only [x, kk, UInt8.toNat_ofNat', ofWord, ofWordBy] at hw ⊢
  omega

theorem toNat_eq_add_x_y_n (hr : ⟨0xF000, p, mnemonic⟩ ∈ table)
    (h : (ofWord w).mnemonic = some mnemonic) :
    w.toNat = p.toNat + 0x100 * (ofWord w).x + 0x10 * (ofWord w).y + (ofWord w).n := by
  have hw := toNat_of_mnemonic (k := 0) hr (by decide) rfl h
  simp only [x, y, n, ofWord, ofWordBy] at hw ⊢
  omega

theorem toNat_eq_add_x_y (hr : ⟨0xF00F, p, mnemonic⟩ ∈ table)
    (h : (ofWord w).mnemonic = some mnemonic) :
    w.toNat = p.toNat + 0x100 * (ofWord w).x + 0x10 * (ofWord w).y := by
  have hw := toNat_of_mnemonic (k := 4) hr (by decide) rfl h
  simp only [x, y, ofWord, ofWordBy] at hw ⊢
  omega

theorem toNat_eq_add_x (hr : ⟨0xF0FF, p, mnemonic⟩ ∈ table)
    (h : (ofWord w).mnemonic = some mnemonic) : w.toNat = p.toNat + 0x100 * (ofWord w).x := by
  have hw := toNat_of_mnemonic (k := 8) hr (by decide) rfl h
  simp only [x, ofWord, ofWordBy] at hw ⊢
  omega

theorem toNat_eq_pattern (hr : ⟨0xFFFF, p, mnemonic⟩ ∈ table)
    (h : (ofWord w).mnemonic = some mnemonic) : w.toNat = p.toNat := by
  have hw : w.toNat = p.toNat + (w.toNat % 4096 - w.toNat % 2 ^ 12) :=
    toNat_of_mnemonic (k := 12) hr (by decide) rfl h
  omega

/-! ## Words put together from operands -/

theorem ofWord_x_kk (hp : p.toNat % 4096 = 0) (hr : ⟨0xF000, p, mnemonic⟩ ∈ table)
    (a : Fin 16) (b : UInt8) (hw : w.toNat = p.toNat + 0x100 * a + b.toNat) :
    (ofWord w).mnemonic = some mnemonic ∧ (ofWord w).x = a ∧ (ofWord w).kk = b := by
  have hb := b.toNat_lt
  refine ⟨?_, ?_, ?_⟩
  · apply (mnemonic_eq_some_iff hr).2
    apply (Row.accepts_iff (k := 0) (by decide) rfl).2
    show 4096 * (w.toNat / 4096) + w.toNat % 2 ^ 0 = p.toNat
    omega
  · apply Fin.ext
    simp only [x, ofWord, ofWordBy]
    omega
  · rw [← UInt8.toNat_inj]
    simp only [kk, UInt8.toNat_ofNat', ofWord, ofWordBy]
    omega

theorem ofWord_x_y (hp : p.toNat % 4096 = 0) (hr : ⟨0xF00F, p, mnemonic⟩ ∈ table)
    (a b : Fin 16) (hw : w.toNat = p.toNat + 0x100 * a + 0x10 * b) :
    (ofWord w).mnemonic = some mnemonic ∧ (ofWord w).x = a ∧ (ofWord w).y = b := by
  refine ⟨?_, ?_, ?_⟩
  · apply (mnemonic_eq_some_iff hr).2
    apply (Row.accepts_iff (k := 4) (by decide) rfl).2
    show 4096 * (w.toNat / 4096) + w.toNat % 2 ^ 4 = p.toNat
    omega
  · apply Fin.ext
    simp only [x, ofWord, ofWordBy]
    omega
  · apply Fin.ext
    simp only [y, ofWord, ofWordBy]
    omega

/-! ## Numbers as words -/

/-- Decoding looks at the lowest sixteen bits of a number. -/
theorem decode_natCast (n : Nat) : decode n = ofWord (UInt16.ofNat n) := by
  have hmod : ((n : Int) % 2 ^ 16).toNat = n % 2 ^ 16 := by omega
  rw [decode, UInt16.ofInt, hmod]
  congr 1
  rw [← UInt16.toNat_inj, UInt16.toNat_ofNat', UInt16.toNat_ofNat', Nat.mod_mod]

theorem ofInt_eq_iff (a b : Int) : UInt16.ofInt a = UInt16.ofInt b ↔ a % 65536 = b % 65536 := by
  rw [← UInt16.toNat_inj, UInt16.ofInt, UInt16.ofInt, UInt16.toNat_ofNat', UInt16.toNat_ofNat']
  omega

end Instruction

end Chip8
