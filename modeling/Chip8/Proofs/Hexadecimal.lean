import Chip8.Proofs.Numerals

/-!
# Hexadecimal text is read back

The hexadecimal text of a natural number is made of digits alone, zeros in front included, and the
number is what these digits stand for.  A number with no more digits than the text has places fills
just these places, so texts of different widths cannot be taken for each other.

A number below zero has a dash in front, which no digit is, so whole numbers can be read back too
(`Numeral.hexInt_hexChars`, `Numeral.decimalInt_decimalChars`).
-/

namespace Chip8.Numeral

/-! ## Reading -/

/-- What a hexadecimal digit stands for, in either set of letters. -/
def charValue (c : Char) : Nat :=
  if c.toNat < 'A'.toNat then c.toNat - '0'.toNat
  else if c.toNat < 'a'.toNat then c.toNat - 'A'.toNat + 10
  else c.toNat - 'a'.toNat + 10

/-- The number that hexadecimal digits stand for. -/
def hexValue (cs : List Char) : Nat :=
  value 16 (cs.map charValue)

variable {letters : LetterCase} {d n width : Nat} {c : Char}

theorem charValue_digitChar (letters : LetterCase) (h : d < 16) :
    charValue (digitChar letters d) = d := by
  cases letters <;> interval_cases d <;> decide

/-- In a base up to sixteen, the text of a number stands for it. -/
theorem value_natChars {base : Nat} (letters : LetterCase) (hbase : 2 ≤ base) (hle : base ≤ 16)
    (n : Nat) : value base ((natChars letters base n).map charValue) = n := by
  have hdigits : (digits base n).map (charValue ∘ digitChar letters) = (digits base n).map id :=
    List.map_congr_left fun d hd =>
      charValue_digitChar letters (Nat.lt_of_lt_of_le (lt_of_mem_digits hbase hd) hle)
  rw [natChars, List.map_map, hdigits, List.map_id, value_digits]

theorem hexValue_natChars (letters : LetterCase) (n : Nat) :
    hexValue (natChars letters 16 n) = n :=
  value_natChars letters (by omega) (by omega) n

/-- Zeros in front do not change what digits stand for. -/
theorem hexValue_leftpad (width : Nat) (cs : List Char) :
    hexValue (cs.leftpad width '0') = hexValue cs := by
  have hzeros : ∀ k, (List.replicate k 0).foldl (fun n d => n * 16 + d) 0 = 0 := by
    intro k
    induction k with
    | zero => rfl
    | succ k ih => exact ih
  have hzero : charValue '0' = 0 := by decide
  rw [hexValue, List.leftpad, List.map_append, List.map_replicate, hzero, value, List.foldl_append,
    hzeros]
  rfl

theorem hexChars_natCast (letters : LetterCase) (width n : Nat) :
    hexChars letters width n = (natChars letters 16 n).leftpad width '0' := by
  rw [hexChars, if_neg (by omega), Int.natAbs_natCast]

/-- The hexadecimal text of a natural number stands for it. -/
theorem hexValue_hexChars (letters : LetterCase) (width n : Nat) :
    hexValue (hexChars letters width n) = n := by
  rw [hexChars_natCast, hexValue_leftpad, hexValue_natChars]

@[simp] theorem toList_hex (width : Nat) (n : Int) : (hex width n).toList = hexChars .upper width n :=
  String.toList_ofList

@[simp] theorem toList_markedHex (width n : Nat) :
    (markedHex width n).toList = '0' :: 'x' :: hexChars .lower width n := by
  simp [markedHex]

/-! ## Shape -/

/-- The characters of a text in which one does not occur differ from it, as a test sees them. -/
theorem forall_ne_of_not_mem {cs : List Char} (h : c ∉ cs) : ∀ d ∈ cs, decide (d ≠ c) = true := by
  intro d hd
  rw [decide_eq_true_eq]
  rintro rfl
  exact h hd

/-- A character that is no digit does not occur among digits. -/
theorem not_mem_natChars {base : Nat} (hbase : 2 ≤ base) (h : ∀ d < base, c ≠ digitChar letters d) :
    c ∉ natChars letters base n := by
  intro hmem
  obtain ⟨d, hd, rfl⟩ := List.mem_map.mp hmem
  exact h d (lt_of_mem_digits hbase hd) rfl

/-- Hexadecimal text is made of digits and perhaps a dash. -/
theorem not_mem_hexChars (hdash : c ≠ '-') (h : ∀ d < 16, c ≠ digitChar letters d) (n : Int) :
    c ∉ hexChars letters width n := by
  have hzero : c ≠ '0' := h 0 (by omega)
  rw [hexChars]
  split <;>
    simp [List.leftpad, List.mem_replicate, hdash, hzero, not_mem_natChars (by omega) h]

theorem blank_not_mem_hexChars (letters : LetterCase) (width : Nat) (n : Int) :
    ' ' ∉ hexChars letters width n :=
  not_mem_hexChars (by decide) (by cases letters <;> decide) n

/-- Decimal text is made of digits and perhaps a dash. -/
theorem not_mem_decimalChars (hdash : c ≠ '-') (h : ∀ d < 10, c ≠ digitChar .lower d) (n : Int) :
    c ∉ decimalChars n := by
  rw [decimalChars]
  split <;>
    simp [hdash, not_mem_natChars (by omega) h]

/-- A number that fits in the width fills it. -/
theorem length_hexChars (letters : LetterCase) (hwidth : 0 < width) (h : n < 16 ^ width) :
    (hexChars letters width n).length = width := by
  have hdigits : (natChars letters 16 n).length ≤ width := by
    rw [natChars, List.length_map]
    exact length_digits_le hwidth h
  rw [hexChars_natCast, List.length_leftpad]
  omega

/-- A number but zero has no zero in front. -/
theorem head?_digits_ne_zero (base : Nat) (hn : n ≠ 0) : (digits base n).head? ≠ some 0 := by
  fun_induction digits base n with
  | case1 n hsmall => simpa using hn
  | case2 n hlarge ih =>
    have hquotient : n / base ≠ 0 := (Nat.div_pos (by omega) (by omega)).ne'
    obtain ⟨d, ds, hdigits⟩ := List.exists_cons_of_ne_nil (digits_ne_nil base (n / base))
    rw [hdigits] at ih ⊢
    exact ih hquotient

/-- Upper-case hexadecimal text of a number: at least `width` digits, with zeros in front only to
fill them up. -/
structure IsHex (width n : Nat) (cs : List Char) : Prop where
  digit : ∀ c ∈ cs, c ∈ "0123456789ABCDEF".toList
  width_le : width ≤ cs.length
  value : hexValue cs = n
  head : width < cs.length → cs.head? ≠ some '0'

theorem isHex_hexChars (hwidth : 0 < width) (n : Nat) : IsHex width n (hexChars .upper width n) where
  digit := by
    have hdigit : ∀ d < 16, digitChar .upper d ∈ "0123456789ABCDEF".toList := by decide
    intro c hc
    rw [hexChars_natCast, List.leftpad, List.mem_append] at hc
    rcases hc with hzero | hc
    · rw [List.eq_of_mem_replicate hzero]
      decide
    · obtain ⟨d, hd, rfl⟩ := List.mem_map.mp hc
      exact hdigit d (lt_of_mem_digits (by omega) hd)
  width_le := by
    rw [hexChars_natCast, List.length_leftpad]
    exact Nat.le_max_left _ _
  value := hexValue_hexChars .upper width n
  head := by
    intro hlong
    rw [hexChars_natCast, List.length_leftpad] at hlong
    have hpad : (natChars .upper 16 n).leftpad width '0' = natChars .upper 16 n := by
      rw [List.leftpad, Nat.sub_eq_zero_of_le (by omega)]
      rfl
    have hn : n ≠ 0 := by
      rintro rfl
      have : (natChars .upper 16 0).length = 1 := by
        rw [natChars, List.length_map, length_digits_of_lt (by omega)]
      omega
    have hzero : ∀ d < 16, digitChar .upper d = '0' → d = 0 := by decide
    rw [hexChars_natCast, hpad, natChars, List.head?_map]
    intro hhead
    obtain ⟨d, hd, hchar⟩ := Option.map_eq_some_iff.mp hhead
    have hlt : d < 16 := lt_of_mem_digits (by omega) (List.mem_of_head? hd)
    rw [hzero d hlt hchar] at hd
    exact head?_digits_ne_zero 16 hn hd

/-! ## Signs -/

/-- The whole number that a text stands for, given how digits are read. -/
def signedValue (read : List Char → Nat) : List Char → Int
  | '-' :: ds => -(read ds)
  | ds => read ds

theorem signedValue_of_not_mem (read : List Char → Nat) {cs : List Char} (h : '-' ∉ cs) :
    signedValue read cs = read cs := by
  rw [signedValue]
  rintro ds rfl
  exact h List.mem_cons_self

/-- The whole number that hexadecimal text stands for. -/
def hexInt (cs : List Char) : Int :=
  signedValue hexValue cs

/-- The whole number that decimal text stands for. -/
def decimalInt (cs : List Char) : Int :=
  signedValue (fun ds => value 10 (ds.map charValue)) cs

theorem dash_not_mem_natChars {base : Nat} (letters : LetterCase) (hbase : 2 ≤ base)
    (hle : base ≤ 16) (n : Nat) : '-' ∉ natChars letters base n := by
  refine not_mem_natChars hbase fun d hd => ?_
  have hdigit : d < 16 := Nat.lt_of_lt_of_le hd hle
  cases letters <;> interval_cases d <;> decide

/-- Hexadecimal text can be read back, whatever its width and the sign of the number. -/
theorem hexInt_hexChars (letters : LetterCase) (width : Nat) (n : Int) :
    hexInt (hexChars letters width n) = n := by
  rw [hexInt, hexChars]
  split
  next hneg =>
    rw [signedValue, hexValue_leftpad, hexValue_natChars]
    omega
  next hnonneg =>
    have hdash : '-' ∉ (natChars letters 16 n.natAbs).leftpad width '0' := by
      simp [List.leftpad, List.mem_replicate, dash_not_mem_natChars]
    rw [signedValue_of_not_mem hexValue hdash, hexValue_leftpad, hexValue_natChars]
    omega

/-- Decimal text can be read back, however long it is. -/
theorem decimalInt_decimalChars (n : Int) : decimalInt (decimalChars n) = n := by
  rw [decimalInt, decimalChars]
  split
  next hneg =>
    rw [signedValue, value_natChars .lower (by omega) (by omega)]
    omega
  next hnonneg =>
    rw [signedValue_of_not_mem _ (dash_not_mem_natChars .lower (by omega) (by omega) _),
      value_natChars .lower (by omega) (by omega)]
    omega

end Chip8.Numeral
