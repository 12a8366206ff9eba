import Chip8.Proofs.Decoding

/-!
# The opcode grammar

The instruction set can be told without a table, from the digits of a word alone: the topmost digit
selects a family, and in some of the families the lowest digits have to be among a few
(`Instruction.Meaningful`).  The table accepts just these words, and it accepts none of them twice,
so the order of its rows plays no role.

The main result is `Instruction.decoding_follows_grammar`.
-/

namespace Chip8.Instruction

variable {w : UInt16}

/-! ## One row at most -/

theorem table_nodup : table.Nodup := by
  decide

/-- Rows of the table that accept a common word are the same. -/
theorem eq_of_accepts {r s : Row} (hr : r ∈ table) (hs : s ∈ table) (hrw : r.accepts w)
    (hsw : s.accepts w) : r = s :=
  table_disjoint r hr s hs (Row.pattern_and_mask hrw hsw)

theorem length_accepting_le (w : UInt16) : (table.filter (·.accepts w)).length ≤ 1 := by
  have hnodup : (table.filter (·.accepts w)).Nodup := table_nodup.filter _
  have hsame : ∀ r ∈ table.filter (·.accepts w), ∀ s ∈ table.filter (·.accepts w), r = s := by
    intro r hr s hs
    obtain ⟨hrt, hrw⟩ := List.mem_filter.mp hr
    obtain ⟨hst, hsw⟩ := List.mem_filter.mp hs
    exact eq_of_accepts hrt hst hrw hsw
  generalize table.filter (·.accepts w) = rows at hnodup hsame ⊢
  rcases rows with _ | ⟨r, _ | ⟨s, rest⟩⟩
  · exact Nat.zero_le 1
  · exact Nat.le_refl 1
  · have hne : r ≠ s := by
      rintro rfl
      simp at hnodup
    exact absurd (hsame r (by simp) s (by simp)) hne

/-- The first row that accepts a word is the one that accepts it, in any order of the rows. -/
theorem find?_eq_some_iff {rows : List Row} (h : rows.Perm table) {r : Row} :
    rows.find? (·.accepts w) = some r ↔ r ∈ table ∧ r.accepts w := by
  constructor
  · intro hfind
    have hrw : r.accepts w := List.find?_some (p := fun r : Row => r.accepts w) hfind
    exact ⟨h.mem_iff.mp (List.mem_of_find?_eq_some hfind), hrw⟩
  · rintro ⟨hr, hrw⟩
    cases hfind : rows.find? (·.accepts w) with
    | none => exact absurd hrw (List.find?_eq_none.mp hfind r (h.mem_iff.mpr hr))
    | some s =>
      have hs : s ∈ table := h.mem_iff.mp (List.mem_of_find?_eq_some hfind)
      have hsw : s.accepts w := List.find?_some (p := fun r : Row => r.accepts w) hfind
      rw [eq_of_accepts hs hr hsw hrw]

theorem ofWordBy_of_perm {rows : List Row} (h : rows.Perm table) (w : UInt16) :
    ofWordBy rows w = ofWord w := by
  have hfind : rows.find? (·.accepts w) = table.find? (·.accepts w) := by
    apply Option.ext
    intro r
    rw [find?_eq_some_iff h, find?_eq_some_iff (List.Perm.refl table)]
  rw [ofWord, ofWordBy, ofWordBy, hfind]

/-! ## Fields -/

theorem kk_toNat (ins : Instruction) : ins.kk.toNat = ins.opcode.toNat % 256 := by
  rw [kk, UInt8.toNat_ofNat']
  omega

/-- A word is put together from its fields again. -/
theorem opcode_eq_family_nnn (ins : Instruction) :
    ins.opcode.toNat = ins.family * 4096 + ins.nnn := by
  simp only [family, nnn]
  omega

theorem nnn_eq_x_kk (ins : Instruction) : ins.nnn.val = 256 * ins.x + ins.kk.toNat := by
  rw [kk_toNat]
  simp only [nnn, x]
  omega

theorem kk_eq_y_n (ins : Instruction) : ins.kk.toNat = 16 * ins.y + ins.n := by
  rw [kk_toNat]
  simp only [y, n]
  omega

/-! ## Meaningful words -/

/-- Whether an instruction is in the instruction set, by the digits of its word. -/
def Meaningful (ins : Instruction) : Prop :=
  ins.opcode.toNat ∈ [0x00E0, 0x00EE] ∨
  ins.family.val ∈ [0x1, 0x2, 0x3, 0x4, 0x6, 0x7, 0xA, 0xB, 0xC, 0xD] ∨
  ins.family.val ∈ [0x5, 0x9] ∧ ins.n.val = 0x0 ∨
  ins.family.val = 0x8 ∧ ins.n.val ∈ [0x0, 0x1, 0x2, 0x3, 0x4, 0x5, 0x6, 0x7, 0xE] ∨
  ins.family.val = 0xE ∧ ins.kk.toNat ∈ [0x9E, 0xA1] ∨
  ins.family.val = 0xF ∧
    ins.kk.toNat ∈ [0x07, 0x0A, 0x15, 0x18, 0x1E, 0x29, 0x33, 0x55, 0x65]

instance (ins : Instruction) : Decidable ins.Meaningful :=
  inferInstanceAs (Decidable (_ ∨ _ ∨ _ ∨ _ ∨ _ ∨ _))

/-! ## Rows by their masks

A row selects the topmost digit and some of the lowest bits.  For each of the masks that occur, the
patterns of the rows with this mask are one line of the grammar. -/

/-- The masks of the table. -/
def masks : List UInt16 :=
  [0xFFFF, 0xF000, 0xF00F, 0xF0FF]

/-- The patterns of the rows with a mask. -/
def patterns (mask : UInt16) : List Nat :=
  (table.filter (·.mask = mask)).map (·.pattern.toNat)

theorem mask_mem_masks : ∀ r ∈ table, r.mask ∈ masks := by
  decide

theorem accepts_iff_mem_patterns :
    (∃ r ∈ table, r.accepts w) ↔ ∃ mask ∈ masks, (w &&& mask).toNat ∈ patterns mask := by
  constructor
  · rintro ⟨r, hr, hrw⟩
    rw [Row.accepts, beq_iff_eq] at hrw
    refine ⟨r.mask, mask_mem_masks r hr, ?_⟩
    rw [hrw]
    exact List.mem_map_of_mem (List.mem_filter.mpr ⟨hr, by simp⟩)
  · rintro ⟨mask, -, hmem⟩
    obtain ⟨r, hr, hpattern⟩ := List.mem_map.mp hmem
    obtain ⟨hrt, hmask⟩ := List.mem_filter.mp hr
    rw [decide_eq_true_iff] at hmask
    refine ⟨r, hrt, ?_⟩
    rw [Row.accepts, beq_iff_eq, hmask]
    exact (UInt16.toNat_inj.mp hpattern).symm

/-- What a mask of the topmost digit and the lowest `k` bits leaves of a word. -/
theorem toNat_and_mask {mask : UInt16} {k : Nat} (hk : k ≤ 12)
    (hmask : mask.toNat = 0xF000 + (2 ^ k - 1)) :
    (w &&& mask).toNat = 4096 * (ofWord w).family + w.toNat % 2 ^ k := by
  rw [UInt16.toNat_and, hmask, and_mask w.toNat_lt hk]
  rfl

theorem mem_patterns_whole :
    (w &&& 0xFFFF).toNat ∈ patterns 0xFFFF ↔ (ofWord w).opcode.toNat ∈ [0x00E0, 0x00EE] := by
  have hpatterns : patterns 0xFFFF = [0x00E0, 0x00EE] := by decide
  have hword : (w &&& 0xFFFF).toNat = (ofWord w).opcode.toNat := by
    rw [toNat_and_mask (k := 12) (by decide) rfl, opcode_eq_family_nnn, Nat.mul_comm]
    rfl
  rw [hpatterns, hword]

theorem mem_patterns_family :
    (w &&& 0xF000).toNat ∈ patterns 0xF000 ↔
      (ofWord w).family.val ∈ [0x1, 0x2, 0x3, 0x4, 0x6, 0x7, 0xA, 0xB, 0xC, 0xD] := by
  have hpatterns : patterns 0xF000 =
      [0x1000, 0x2000, 0x3000, 0x4000, 0x6000, 0x7000, 0xA000, 0xB000, 0xC000, 0xD000] := by decide
  rw [toNat_and_mask (k := 0) (by decide) rfl, hpatterns]
  simp only [List.mem_cons, List.not_mem_nil, or_false]
  omega

/-- A pattern of a family has the digit of the family on top. -/
theorem mem_map_family_iff {t r f : Nat} {ds : List Nat} (hr : r < 4096)
    (hds : ∀ d ∈ ds, d < 4096) : 4096 * t + r ∈ ds.map (4096 * f + ·) ↔ t = f ∧ r ∈ ds := by
  rw [List.mem_map]
  constructor
  · rintro ⟨d, hd, heq⟩
    have hlt := hds d hd
    obtain ⟨rfl, rfl⟩ : t = f ∧ r = d := by omega
    exact ⟨rfl, hd⟩
  · rintro ⟨rfl, hmem⟩
    exact ⟨r, hmem, rfl⟩

theorem mem_patterns_n :
    (w &&& 0xF00F).toNat ∈ patterns 0xF00F ↔
      (ofWord w).family.val ∈ [0x5, 0x9] ∧ (ofWord w).n.val = 0x0 ∨
      (ofWord w).family.val = 0x8 ∧
        (ofWord w).n.val ∈ [0x0, 0x1, 0x2, 0x3, 0x4, 0x5, 0x6, 0x7, 0xE] := by
  have hpatterns : patterns 0xF00F = [0x0].map (4096 * 0x5 + ·) ++
      [0x0, 0x1, 0x2, 0x3, 0x4, 0x5, 0x6, 0x7, 0xE].map (4096 * 0x8 + ·) ++
        [0x0].map (4096 * 0x9 + ·) := by decide
  have hn : w.toNat % 2 ^ 4 = (ofWord w).n := rfl
  have hlt : (ofWord w).n.val < 4096 := by omega
  have hfamily : (ofWord w).family.val ∈ [0x5, 0x9] ↔
      (ofWord w).family.val = 0x5 ∨ (ofWord w).family.val = 0x9 := by simp
  rw [toNat_and_mask (k := 4) (by decide) rfl, hpatterns, hn, List.mem_append, List.mem_append,
    mem_map_family_iff hlt (by decide), mem_map_family_iff hlt (by decide),
    mem_map_family_iff hlt (by decide), List.mem_singleton, or_right_comm, ← or_and_right,
    hfamily]

theorem mem_patterns_kk :
    (w &&& 0xF0FF).toNat ∈ patterns 0xF0FF ↔
      (ofWord w).family.val = 0xE ∧ (ofWord w).kk.toNat ∈ [0x9E, 0xA1] ∨
      (ofWord w).family.val = 0xF ∧
        (ofWord w).kk.toNat ∈ [0x07, 0x0A, 0x15, 0x18, 0x1E, 0x29, 0x33, 0x55, 0x65] := by
  have hpatterns : patterns 0xF0FF = [0x9E, 0xA1].map (4096 * 0xE + ·) ++
      [0x07, 0x0A, 0x15, 0x18, 0x1E, 0x29, 0x33, 0x55, 0x65].map (4096 * 0xF + ·) := by decide
  have hkk : w.toNat % 2 ^ 8 = (ofWord w).kk.toNat := (kk_toNat (ofWord w)).symm
  have hlt : (ofWord w).kk.toNat < 4096 := by omega
  rw [toNat_and_mask (k := 8) (by decide) rfl, hpatterns, hkk, List.mem_append,
    mem_map_family_iff hlt (by decide), mem_map_family_iff hlt (by decide)]

/-! ## The grammar -/

theorem mnemonic_eq_none_iff :
    (ofWord w).mnemonic = none ↔ ¬ ∃ r ∈ table, r.accepts w := by
  rw [ofWord, ofWordBy, Option.map_eq_none_iff, List.find?_eq_none]
  push Not
  rfl

/-- The table accepts the words of the grammar. -/
theorem exists_accepts_iff_meaningful :
    (∃ r ∈ table, r.accepts w) ↔ (ofWord w).Meaningful := by
  rw [accepts_iff_mem_patterns]
  simp only [masks, List.mem_cons, List.not_mem_nil, or_false, exists_eq_or_imp, exists_eq_left,
    mem_patterns_whole, mem_patterns_family, mem_patterns_n, mem_patterns_kk, Meaningful, or_assoc]

theorem toNat_opcode_decode (number : Int) :
    ((decode number).opcode.toNat : Int) = number % 65536 := by
  show ((UInt16.ofInt number).toNat : Int) = number % 65536
  rw [UInt16.ofInt, UInt16.toNat_ofNat']
  omega

/-- **Decoding follows the opcode grammar.**  Of any number the lowest sixteen bits are decoded, and
they are put together from the fields of the instruction.  At most one row of the table accepts
them, so the rows give the same instruction in any order, and a word is unknown if and only if its
digits are not those of the grammar. -/
theorem decoding_follows_grammar (number : Int) :
    (table.filter (·.accepts (UInt16.ofInt number))).length ≤ 1 ∧
    (∀ rows : List Row, rows.Perm table → ofWordBy rows (UInt16.ofInt number) = decode number) ∧
    ((decode number).mnemonic = none ↔ ¬ (decode number).Meaningful) ∧
    ((decode number).opcode.toNat : Int) = number % 65536 ∧
    (decode number).opcode.toNat = (decode number).family * 4096 + (decode number).nnn ∧
    (decode number).nnn.val = 256 * (decode number).x + (decode number).kk.toNat ∧
    (decode number).kk.toNat = 16 * (decode number).y + (decode number).n := by
  refine ⟨length_accepting_le _, fun rows hrows => ofWordBy_of_perm hrows _, ?_,
    toNat_opcode_decode number, opcode_eq_family_nnn _, nnn_eq_x_kk _, kk_eq_y_n _⟩
  rw [decode, mnemonic_eq_none_iff, exists_accepts_iff_meaningful]

end Chip8.Instruction
