import Chip8.Instruction.Assembly
import Chip8.Proofs.Decoding
import Chip8.Proofs.Hexadecimal

/-!
# Disassembly is unambiguous

The text of an instruction is a keyword and some operands, as the template of its operation says
(`Assembly.template`).  The text can be taken apart again: no keyword has a blank, no operand has a
comma, and each operand shows what kind it is of and what it stands for (`Operand.read`).  No two
operations share a keyword and the kinds of their operands, so the text tells the operation.

The operation fixes the bits of the word that the mask of its row selects.  The operands show all
others (`Assembly.all_bits_known`), with two exceptions: the shifts work on one register, and the
nibble that would name a second one is free.

The main result is `Instruction.text_eq_iff`.
-/

namespace Chip8

namespace Assembly

open Numeral Instruction

/-! ## Operands -/

/-- The operands that have a name of their own. -/
inductive Place where
  | address | delay | sound | key | glyph | digits | atAddress
deriving DecidableEq, Repr

def Place.name : Place → String
  | address => "I"
  | delay => "DT"
  | sound => "ST"
  | key => "K"
  | glyph => "F"
  | digits => "B"
  | atAddress => "[I]"

inductive Operand where
  | register (r : Fin 16)
  | byte (b : UInt8)
  | address (a : Fin 4096)
  | word (w : UInt16)
  | rows (n : Fin 16)
  | place (p : Place)
deriving DecidableEq, Repr

/-- What an operand is, apart from what it stands for. -/
inductive Kind where
  | register | byte | address | word | rows
  | place (p : Place)
deriving DecidableEq, Repr

namespace Operand

def kind : Operand → Kind
  | register _ => .register
  | byte _ => .byte
  | address _ => .address
  | word _ => .word
  | rows _ => .rows
  | place p => .place p

def number : Operand → Nat
  | register r => r.val
  | byte b => b.toNat
  | address a => a.val
  | word w => w.toNat
  | rows n => n.val
  | place _ => 0

/-- The text of an operand. -/
def chars : Operand → List Char
  | register r => 'V' :: hexChars .upper 1 r.val
  | byte b => '0' :: 'x' :: hexChars .lower 2 b.toNat
  | address a => '0' :: 'x' :: hexChars .lower 3 a.val
  | word w => '0' :: 'x' :: hexChars .lower 4 w.toNat
  | rows n => decimalChars n.val
  | place p => p.name.toList

/-- All places. -/
def places : List Place :=
  [.address, .delay, .sound, .key, .glyph, .digits, .atAddress]

/-- What the text of an operand shows: its kind, and the number that it stands for. -/
def read : List Char → Kind × Nat
  | 'V' :: ds => (.register, hexValue ds)
  | '0' :: 'x' :: ds =>
    (if ds.length = 2 then .byte else if ds.length = 3 then .address else .word, hexValue ds)
  | cs =>
    match places.find? (·.name.toList == cs) with
    | some p => (.place p, 0)
    | none => (.rows, value 10 (cs.map charValue))

variable {o o' : Operand}

theorem eq_of_kind_of_number (hkind : o.kind = o'.kind) (hnumber : o.number = o'.number) :
    o = o' := by
  cases o <;> cases o' <;> cases hkind <;>
    simp_all [number, Fin.ext_iff, ← UInt8.toNat_inj, ← UInt16.toNat_inj]

/-- A number of rows has one or two digits. -/
theorem decimalChars_rows (n : Fin 16) :
    decimalChars n.val =
      if n.val < 10 then [digitChar .lower n.val] else ['1', digitChar .lower (n.val - 10)] := by
  have hn := n.isLt
  rw [decimalChars_of_nonneg (by omega), Int.natAbs_natCast, natChars, digits]
  by_cases h : n.val < 10
  · rw [if_pos (.inl h), if_pos h]
    rfl
  · have htens : n.val / 10 = 1 := by omega
    have hones : n.val % 10 = n.val - 10 := by omega
    rw [if_neg (by omega), if_neg h, htens, hones, digits, if_pos (by omega)]
    rfl

/-- The text of an operand shows its kind and its number. -/
theorem read_chars (o : Operand) : read o.chars = (o.kind, o.number) := by
  cases o with
  | register r => simp only [chars, read, hexValue_hexChars, kind, number]
  | byte b =>
    have hlength := length_hexChars .lower (show 0 < 2 by omega) b.toNat_lt
    simp only [chars, read, hexValue_hexChars, hlength, kind, number, if_true]
  | address a =>
    have hlength := length_hexChars .lower (show 0 < 3 by omega) a.isLt
    simp [chars, read, hexValue_hexChars, hlength, kind, number]
  | word w =>
    have hlength := length_hexChars .lower (show 0 < 4 by omega) w.toNat_lt
    simp [chars, read, hexValue_hexChars, hlength, kind, number]
  | rows n =>
    rw [chars, decimalChars_rows]
    revert n
    decide
  | place p => cases p <;> decide

theorem eq_of_chars (h : o.chars = o'.chars) : o = o' := by
  have hread := congrArg read h
  rw [read_chars, read_chars] at hread
  exact eq_of_kind_of_number (congrArg Prod.fst hread) (congrArg Prod.snd hread)

theorem comma_not_mem_chars (o : Operand) : ',' ∉ o.chars := by
  have hupper : ∀ d < 16, ',' ≠ digitChar .upper d := by decide
  have hlower : ∀ d < 16, ',' ≠ digitChar .lower d := by decide
  cases o with
  | register r => simp [chars, not_mem_hexChars _ hupper]
  | byte b => simp [chars, not_mem_hexChars _ hlower]
  | address a => simp [chars, not_mem_hexChars _ hlower]
  | word w => simp [chars, not_mem_hexChars _ hlower]
  | rows n =>
    have hdecimal : ∀ d < 10, ',' ≠ digitChar .lower d := by decide
    exact not_mem_decimalChars (by decide) hdecimal n.val
  | place p => cases p <;> decide

end Operand

/-! ## Lines -/

/-- Operands one after the other, each behind a blank, with commas between them. -/
def operandChars (os : List Operand) : List Char :=
  [','].intercalate (os.map fun o => ' ' :: o.chars)

/-- A keyword and its operands. -/
def lineChars (keyword : List Char) (os : List Operand) : List Char :=
  keyword ++ operandChars os

variable {keyword keyword' : List Char} {os os' : List Operand}

theorem exists_operandChars_cons (o : Operand) (os : List Operand) :
    ∃ rest, operandChars (o :: os) = ' ' :: rest := by
  cases os with
  | nil => exact ⟨o.chars, by simp [operandChars]⟩
  | cons next os =>
    rw [operandChars, List.map_cons, List.map_cons, List.intercalate_cons_cons]
    exact ⟨_, rfl⟩

/-- The commas tell where the operands end. -/
theorem splitOn_operandChars (hne : os ≠ []) :
    (operandChars os).splitOn ',' = os.map fun o => ' ' :: o.chars := by
  refine List.splitOn_intercalate ',' ?_ (by simpa using hne)
  simp [Operand.comma_not_mem_chars]

theorem eq_of_operandChars (h : operandChars os = operandChars os') : os = os' := by
  have hinjective : Function.Injective fun o : Operand => ' ' :: o.chars := by
    intro o o' ho
    exact Operand.eq_of_chars (List.cons.inj ho).2
  cases os with
  | nil =>
    cases os' with
    | nil => rfl
    | cons o' os' =>
      obtain ⟨rest, hrest⟩ := exists_operandChars_cons o' os'
      rw [hrest] at h
      cases h
  | cons o os =>
    cases os' with
    | nil =>
      obtain ⟨rest, hrest⟩ := exists_operandChars_cons o os
      rw [hrest] at h
      cases h
    | cons o' os' =>
      apply (List.map_inj_right hinjective).mp
      rw [← splitOn_operandChars (List.cons_ne_nil o os), h]
      exact splitOn_operandChars (List.cons_ne_nil o' os')

/-- The keyword ends at the first blank. -/
theorem takeWhile_lineChars (h : ' ' ∉ keyword) (os : List Operand) :
    (lineChars keyword os).takeWhile (· ≠ ' ') = keyword := by
  have hkeyword : ∀ c ∈ keyword, decide (c ≠ ' ') = true := by
    intro c hc
    rw [decide_eq_true_eq]
    rintro rfl
    exact h hc
  rw [lineChars, List.takeWhile_append_of_pos hkeyword]
  cases os with
  | nil => simp [operandChars]
  | cons o os =>
    obtain ⟨rest, hrest⟩ := exists_operandChars_cons o os
    simp [hrest]

/-- The keyword and the operands can be read back from a line. -/
theorem eq_of_lineChars (hkeyword : ' ' ∉ keyword) (hkeyword' : ' ' ∉ keyword')
    (h : lineChars keyword os = lineChars keyword' os') : keyword = keyword' ∧ os = os' := by
  have hsame : keyword = keyword' := by
    rw [← takeWhile_lineChars hkeyword os, h, takeWhile_lineChars hkeyword' os']
  subst hsame
  exact ⟨rfl, eq_of_operandChars (List.append_cancel_left h)⟩

/-! ## Templates -/

/-- What stands in place of an operand in a template: a field of the word, or a fixed operand. -/
inductive Slot where
  | x | y | n | kk | nnn | opcode
  | registerZero
  | place (p : Place)
deriving DecidableEq, Repr

namespace Slot

/-- The operand that an instruction has in the slot. -/
def operand (ins : Instruction) : Slot → Operand
  | x => .register ins.x
  | y => .register ins.y
  | n => .rows ins.n
  | kk => .byte ins.kk
  | nnn => .address ins.nnn
  | opcode => .word ins.opcode
  | registerZero => .register ⟨0, Nat.zero_lt_succ 15⟩
  | place p => .place p

def kind : Slot → Kind
  | x | y | registerZero => .register
  | n => .rows
  | kk => .byte
  | nnn => .address
  | opcode => .word
  | place p => .place p

/-- The position of the lowest bit of the field. -/
def shift : Slot → Nat
  | x => 8
  | y => 4
  | _ => 0

/-- The number of bits of the field.  A fixed operand shows none. -/
def width : Slot → Nat
  | x | y | n => 4
  | kk => 8
  | nnn => 12
  | opcode => 16
  | registerZero | place _ => 0

/-- The bits of the word that the slot shows. -/
def mask (slot : Slot) : Nat :=
  (2 ^ slot.width - 1) <<< slot.shift

theorem kind_operand (ins : Instruction) (slot : Slot) : (slot.operand ins).kind = slot.kind := by
  cases slot <;> rfl

theorem number_operand (ins : Instruction) (slot : Slot) :
    (slot.operand ins).number = ins.opcode.toNat >>> slot.shift % 2 ^ slot.width := by
  have hlt := ins.opcode.toNat_lt
  cases slot with
  | kk =>
    simp only [operand, Operand.number, Instruction.kk, UInt8.toNat_ofNat', shift, width,
      Nat.shiftRight_zero]
    omega
  | opcode => exact (Nat.mod_eq_of_lt hlt).symm
  | registerZero | place p => exact (Nat.mod_one _).symm
  | x | y =>
    rw [Nat.shiftRight_eq_div_pow]
    rfl
  | n | nnn => rfl

/-- The bits of a number that a shifted mask selects. -/
theorem and_shifted_mask (n shift width : Nat) :
    n &&& (2 ^ width - 1) <<< shift = (n >>> shift % 2 ^ width) <<< shift := by
  apply Nat.eq_of_testBit_eq
  intro k
  simp only [Nat.testBit_and, Nat.testBit_shiftLeft, Nat.testBit_two_pow_sub_one,
    Nat.testBit_mod_two_pow, Nat.testBit_shiftRight]
  by_cases hk : shift ≤ k
  · simp [hk, Nat.add_sub_cancel' hk, Bool.and_comm]
  · simp [hk]

/-- Instructions that show the same in a slot agree in the bits that it shows. -/
theorem and_mask_eq {ins ins' : Instruction} {slot : Slot}
    (h : slot.operand ins = slot.operand ins') :
    ins.opcode.toNat &&& slot.mask = ins'.opcode.toNat &&& slot.mask := by
  rw [mask, and_shifted_mask, and_shifted_mask, ← number_operand, ← number_operand, h]

end Slot

/-- A keyword with slots for operands. -/
structure Template where
  keyword : String
  slots : List Slot
deriving DecidableEq, Repr

/-- How the text of an operation is made. -/
def template : Option Mnemonic → Template
  | none => ⟨"???", [.opcode]⟩
  | some .cls => ⟨"CLS", []⟩
  | some .ret => ⟨"RET", []⟩
  | some .jp => ⟨"JP", [.nnn]⟩
  | some .call => ⟨"CALL", [.nnn]⟩
  | some .seByte => ⟨"SE", [.x, .kk]⟩
  | some .sneByte => ⟨"SNE", [.x, .kk]⟩
  | some .seReg => ⟨"SE", [.x, .y]⟩
  | some .ldByte => ⟨"LD", [.x, .kk]⟩
  | some .addByte => ⟨"ADD", [.x, .kk]⟩
  | some .ldReg => ⟨"LD", [.x, .y]⟩
  | some .or => ⟨"OR", [.x, .y]⟩
  | some .and => ⟨"AND", [.x, .y]⟩
  | some .xor => ⟨"XOR", [.x, .y]⟩
  | some .addReg => ⟨"ADD", [.x, .y]⟩
  | some .sub => ⟨"SUB", [.x, .y]⟩
  | some .shr => ⟨"SHR", [.x]⟩
  | some .subn => ⟨"SUBN", [.x, .y]⟩
  | some .shl => ⟨"SHL", [.x]⟩
  | some .sneReg => ⟨"SNE", [.x, .y]⟩
  | some .ldI => ⟨"LD", [.place .address, .nnn]⟩
  | some .jpV0 => ⟨"JP", [.registerZero, .nnn]⟩
  | some .rnd => ⟨"RND", [.x, .kk]⟩
  | some .drw => ⟨"DRW", [.x, .y, .n]⟩
  | some .skp => ⟨"SKP", [.x]⟩
  | some .sknp => ⟨"SKNP", [.x]⟩
  | some .ldFromDelay => ⟨"LD", [.x, .place .delay]⟩
  | some .waitKey => ⟨"LD", [.x, .place .key]⟩
  | some .ldDelay => ⟨"LD", [.place .delay, .x]⟩
  | some .ldSound => ⟨"LD", [.place .sound, .x]⟩
  | some .addI => ⟨"ADD", [.place .address, .x]⟩
  | some .ldGlyph => ⟨"LD", [.place .glyph, .x]⟩
  | some .ldDigits => ⟨"LD", [.place .digits, .x]⟩
  | some .store => ⟨"LD", [.place .atAddress, .x]⟩
  | some .load => ⟨"LD", [.x, .place .atAddress]⟩

/-- The operands that the text of an instruction shows. -/
def operands (ins : Instruction) : List Operand :=
  (template ins.mnemonic).slots.map (·.operand ins)

/-- The text of an instruction is its template filled in. -/
theorem toList_text (ins : Instruction) :
    ins.text.toList = lineChars (template ins.mnemonic).keyword.toList (operands ins) := by
  obtain ⟨opcode, mnemonic⟩ := ins
  have hzero : hexChars .upper 1 0 = ['0'] := by
    simp [hexChars, natChars, digits, digitChar]
  cases mnemonic with
  | none =>
    simp [text, template, operands, lineChars, operandChars, Slot.operand, Operand.chars]
  | some mnemonic =>
    cases mnemonic <;>
      simp [text, template, operands, lineChars, operandChars, Slot.operand, Operand.chars,
        Place.name, registerText, decimal, hzero, List.intercalate_cons_cons]

/-! ## Operations -/

/-- An operation, or none, and the bits of a word that it fixes. -/
structure Layout where
  mnemonic : Option Mnemonic
  fixed : Nat
deriving DecidableEq, Repr

/-- All operations.  Where there is none, nothing is fixed. -/
def layouts : List Layout :=
  ⟨none, 0⟩ :: table.map fun r => ⟨some r.mnemonic, r.mask.toNat⟩

/-- The bits of a word that some slots show. -/
def shownBits (slots : List Slot) : Nat :=
  slots.foldr (fun slot bits => slot.mask ||| bits) 0

theorem blank_not_mem_keyword :
    ∀ l ∈ layouts, ' ' ∉ (template l.mnemonic).keyword.toList := by
  decide

set_option maxRecDepth 10000 in
/-- No two operations share a keyword and the kinds of their operands. -/
theorem layout_inj : ∀ l ∈ layouts, ∀ l' ∈ layouts,
    (template l.mnemonic).keyword = (template l'.mnemonic).keyword →
      (template l.mnemonic).slots.map Slot.kind = (template l'.mnemonic).slots.map Slot.kind →
        l = l' := by
  decide +kernel

/-- What an operation does not fix of its words is shown, but for one nibble of the shifts. -/
theorem all_bits_known : ∀ l ∈ layouts, l.mnemonic ≠ some .shr → l.mnemonic ≠ some .shl →
    l.fixed ||| shownBits (template l.mnemonic).slots = 2 ^ 16 - 1 := by
  decide

variable {v w : UInt16} {l : Layout}

theorem exists_layout (w : UInt16) : ∃ l ∈ layouts, (ofWord w).mnemonic = l.mnemonic := by
  cases hmnemonic : (ofWord w).mnemonic with
  | none => exact ⟨_, List.mem_cons_self, rfl⟩
  | some mnemonic =>
    obtain ⟨r, hr, rfl, -⟩ := exists_row hmnemonic
    exact ⟨_, List.mem_cons_of_mem _ (List.mem_map_of_mem hr), rfl⟩

/-- Words of the same operation agree in the bits that it fixes. -/
theorem and_fixed_eq (hl : l ∈ layouts) (hv : (ofWord v).mnemonic = l.mnemonic)
    (hw : (ofWord w).mnemonic = l.mnemonic) : v.toNat &&& l.fixed = w.toNat &&& l.fixed := by
  obtain rfl | hrow := List.mem_cons.mp hl
  · rw [Nat.and_zero, Nat.and_zero]
  · obtain ⟨r, hr, rfl⟩ := List.mem_map.mp hrow
    have haccepts := (mnemonic_eq_some_iff hr).mp hv
    have haccepts' := (mnemonic_eq_some_iff hr).mp hw
    rw [Row.accepts, beq_iff_eq] at haccepts haccepts'
    rw [← UInt16.toNat_and, ← UInt16.toNat_and, haccepts, haccepts']

/-- Instructions that show the same in some slots agree in the bits that these show. -/
theorem and_shownBits_eq {ins ins' : Instruction} {slots : List Slot}
    (h : slots.map (·.operand ins) = slots.map (·.operand ins')) :
    ins.opcode.toNat &&& shownBits slots = ins'.opcode.toNat &&& shownBits slots := by
  induction slots with
  | nil => rw [shownBits, List.foldr_nil, Nat.and_zero, Nat.and_zero]
  | cons slot slots ih =>
    obtain ⟨hfirst, hrest⟩ := List.cons.inj h
    rw [shownBits, List.foldr_cons, Nat.and_or_distrib_left, Nat.and_or_distrib_left,
      Slot.and_mask_eq hfirst]
    exact congrArg _ (ih hrest)

/-- The text of a word tells its operation and its operands. -/
theorem eq_of_text (h : (ofWord v).text = (ofWord w).text) :
    (ofWord v).mnemonic = (ofWord w).mnemonic ∧ operands (ofWord v) = operands (ofWord w) := by
  obtain ⟨l, hl, hv⟩ := exists_layout v
  obtain ⟨l', hl', hw⟩ := exists_layout w
  have hline := congrArg String.toList h
  rw [toList_text, toList_text, hv, hw] at hline
  obtain ⟨hkeyword, hoperands⟩ :=
    eq_of_lineChars (blank_not_mem_keyword l hl) (blank_not_mem_keyword l' hl') hline
  refine ⟨?_, hoperands⟩
  have hkinds := congrArg (List.map Operand.kind) hoperands
  simp only [operands, hv, hw, List.map_map, Function.comp_def, Slot.kind_operand] at hkinds
  rw [hv, hw, layout_inj l hl l' hl' (String.toList_inj.mp hkeyword) hkinds]

/-- The operation and the operands tell the word, unless it is a shift. -/
theorem eq_of_operands (hmnemonic : (ofWord v).mnemonic = (ofWord w).mnemonic)
    (hoperands : operands (ofWord v) = operands (ofWord w))
    (hshr : (ofWord w).mnemonic ≠ some .shr) (hshl : (ofWord w).mnemonic ≠ some .shl) : v = w := by
  obtain ⟨l, hl, hw⟩ := exists_layout w
  have hv := hmnemonic.trans hw
  rw [operands, operands, hv, hw] at hoperands
  rw [hw] at hshr hshl
  have hall : ∀ n < 2 ^ 16, n = n &&& l.fixed ||| n &&& shownBits (template l.mnemonic).slots := by
    intro n hn
    rw [← Nat.and_or_distrib_left, all_bits_known l hl hshr hshl, Nat.and_two_pow_sub_one_eq_mod,
      Nat.mod_eq_of_lt hn]
  rw [← UInt16.toNat_inj, hall v.toNat v.toNat_lt, hall w.toNat w.toNat_lt, and_fixed_eq hl hv hw]
  exact congrArg _ (and_shownBits_eq hoperands)

end Assembly

namespace Instruction

open Assembly

/-- The text of a shift shows its first register and nothing else. -/
theorem operands_shift_eq_iff {ins ins' : Instruction} (hmnemonic : ins.mnemonic = ins'.mnemonic)
    (hshift : ins'.mnemonic = some .shr ∨ ins'.mnemonic = some .shl) :
    operands ins = operands ins' ↔ ins.x = ins'.x := by
  rw [operands, operands, hmnemonic]
  rcases hshift with hshift | hshift <;> simp [hshift, template, Slot.operand]

theorem text_shift_eq {ins ins' : Instruction} (hmnemonic : ins.mnemonic = ins'.mnemonic)
    (hshift : ins'.mnemonic = some .shr ∨ ins'.mnemonic = some .shl) (hx : ins.x = ins'.x) :
    ins.text = ins'.text := by
  rw [← String.toList_inj, toList_text, toList_text, hmnemonic,
    (operands_shift_eq_iff hmnemonic hshift).mpr hx]

/-- **Disassembly is unambiguous.**  Two numbers are decoded to instructions with the same text if
and only if they agree in their lowest sixteen bits, or both stand for a shift to the right of the
same register, or both for a shift to the left of the same register. -/
theorem text_eq_iff (a b : Int) :
    (decode a).text = (decode b).text ↔
      a % 65536 = b % 65536 ∨
      ((decode a).mnemonic = some .shr ∧ (decode b).mnemonic = some .shr ∧
        (decode a).x = (decode b).x) ∨
      ((decode a).mnemonic = some .shl ∧ (decode b).mnemonic = some .shl ∧
        (decode a).x = (decode b).x) := by
  constructor
  · intro h
    obtain ⟨hmnemonic, hoperands⟩ := eq_of_text h
    by_cases hshift : (decode b).mnemonic = some .shr ∨ (decode b).mnemonic = some .shl
    · right
      have hx := (operands_shift_eq_iff hmnemonic hshift).mp hoperands
      rcases hshift with hshr | hshl
      · exact .inl ⟨hmnemonic.trans hshr, hshr, hx⟩
      · exact .inr ⟨hmnemonic.trans hshl, hshl, hx⟩
    · left
      rw [not_or] at hshift
      exact (ofInt_eq_iff a b).mp (eq_of_operands hmnemonic hoperands hshift.1 hshift.2)
  · rintro (hsame | ⟨ha, hb, hx⟩ | ⟨ha, hb, hx⟩)
    · rw [decode, decode, (ofInt_eq_iff a b).mpr hsame]
    · exact text_shift_eq (ha.trans hb.symm) (.inl hb) hx
    · exact text_shift_eq (ha.trans hb.symm) (.inr hb) hx

end Instruction

end Chip8
