import Chip8.Text.Integer
import Mathlib.Data.List.Induction
import Mathlib.Tactic.IntervalCases

/-!
# Numerals are read back

The digits of a number stand for that number, in any base, and it has as many of them as the powers
of the base below it.  So the numbers that may be written are those below a bound
(`Numeral.writable_iff`).

The decimal text of a whole number is a sign and digits, without blanks or underscores.  The reading
of numbers gives the number back if it may be written (`Text.readInt?_decimal`), and gives nothing
else (`Text.writable_of_readInt?`).
-/

namespace Chip8

namespace Numeral

/-! ## Digits -/

theorem digits_ne_nil (base n : Nat) : digits base n ≠ [] := by
  rw [digits]
  split <;> simp

theorem length_digits_of_lt {base n : Nat} (h : n < base) : (digits base n).length = 1 := by
  rw [digits, if_pos (.inl h), List.length_singleton]

/-- Each digit is below the base. -/
theorem lt_of_mem_digits {base n d : Nat} (hbase : 2 ≤ base) (h : d ∈ digits base n) :
    d < base := by
  fun_induction digits base n with
  | case1 n hsmall =>
    obtain rfl := List.mem_singleton.mp h
    omega
  | case2 n hlarge ih =>
    rcases List.mem_append.mp h with hhigh | hlow
    · exact ih hhigh
    · obtain rfl := List.mem_singleton.mp hlow
      exact Nat.mod_lt n (by omega)

theorem value_concat (base : Nat) (ds : List Nat) (d : Nat) :
    value base (ds ++ [d]) = value base ds * base + d := by
  simp [value]

/-- The digits of a number stand for it. -/
theorem value_digits (base n : Nat) : value base (digits base n) = n := by
  fun_induction digits base n with
  | case1 n hsmall => simp [value]
  | case2 n hlarge ih => rw [value_concat, ih, Nat.div_add_mod']

/-- Digits stand for less than the power of the base that comes next. -/
theorem value_lt_pow {base : Nat} {ds : List Nat} (h : ∀ d ∈ ds, d < base) :
    value base ds < base ^ ds.length := by
  induction ds using List.reverseRecOn with
  | nil => exact Nat.one_pos
  | append_singleton ds d ih =>
    obtain ⟨hds, hd⟩ := List.forall_mem_append.mp h
    have hnext : value base ds + 1 ≤ base ^ ds.length := ih hds
    have hdigit : d < base := hd d (List.mem_singleton_self d)
    rw [value_concat, List.length_append, List.length_singleton, Nat.pow_succ]
    calc
      value base ds * base + d < value base ds * base + base := by omega
      _ = (value base ds + 1) * base := (Nat.succ_mul _ _).symm
      _ ≤ base ^ ds.length * base := Nat.mul_le_mul_right base hnext

/-- A number below a power of the base has no more digits than that. -/
theorem length_digits_le {base n width : Nat} (hwidth : 0 < width) (h : n < base ^ width) :
    (digits base n).length ≤ width := by
  fun_induction digits base n generalizing width with
  | case1 n hsmall => exact hwidth
  | case2 n hlarge ih =>
    obtain ⟨width, rfl⟩ : ∃ k, width = k + 1 := ⟨width - 1, by omega⟩
    cases width with
    | zero =>
      rw [Nat.pow_one] at h
      omega
    | succ width =>
      have hquotient : n / base < base ^ (width + 1) :=
        Nat.div_lt_of_lt_mul (by rwa [Nat.pow_succ, Nat.mul_comm] at h)
      have := ih (by omega) hquotient
      rw [List.length_append, List.length_singleton]
      omega

/-- The numbers that may be written. -/
theorem writable_iff (n : Int) : Writable n ↔ n.natAbs < 10 ^ digitLimit := by
  constructor
  · intro h
    calc
      n.natAbs = value 10 (digits 10 n.natAbs) := (value_digits 10 n.natAbs).symm
      _ < 10 ^ (digits 10 n.natAbs).length :=
        value_lt_pow fun _ hd => lt_of_mem_digits (by omega) hd
      _ ≤ 10 ^ digitLimit := Nat.pow_le_pow_right (by omega) h
  · exact length_digits_le (by decide)

theorem writable_pow {k : Nat} (h : k < digitLimit) : Writable (Nat.pow 10 k) := by
  have hpow : 10 ^ k < 10 ^ digitLimit := Nat.pow_lt_pow_right (by decide) h
  rw [writable_iff, Int.natAbs_natCast]
  exact hpow

theorem natChars_ne_nil (letters : LetterCase) (base n : Nat) : natChars letters base n ≠ [] := by
  simp [natChars, digits_ne_nil]

theorem mem_natChars {c : Char} {n : Nat} (h : c ∈ natChars .lower 10 n) :
    ∃ d < 10, c = digitChar .lower d := by
  obtain ⟨d, hd, rfl⟩ := List.mem_map.mp h
  exact ⟨d, lt_of_mem_digits (by omega) hd, rfl⟩

/-- The text of a number below zero is a dash and the text of its size. -/
theorem decimalChars_of_neg {n : Int} (h : n < 0) :
    decimalChars n = '-' :: natChars .lower 10 n.natAbs :=
  if_pos h

theorem decimalChars_of_nonneg {n : Int} (h : 0 ≤ n) :
    decimalChars n = natChars .lower 10 n.natAbs :=
  if_neg (Int.not_lt.mpr h)

@[simp] theorem toList_decimal (n : Int) : (decimal n).toList = decimalChars n :=
  String.toList_ofList

end Numeral

namespace Text

open Numeral

/-! ## Runs of digits -/

theorem digitValue?_digitChar {d : Nat} (h : d < 10) :
    digitValue? (digitChar .lower d) = some d := by
  interval_cases d <;> decide

theorem isDecimalDigit_of_mem_natChars {c : Char} {n : Nat} (h : c ∈ natChars .lower 10 n) :
    isDecimalDigit c = true := by
  obtain ⟨d, hd, rfl⟩ := mem_natChars h
  rw [isDecimalDigit, digitValue?_digitChar hd]
  rfl

/-- A character that is not followed by an underscore is the first digit of the run. -/
theorem digitRun?_cons_cons {c next : Char} (rest : List Char) (h : next ≠ '_') :
    digitRun? (c :: next :: rest) =
      (do return (← digitValue? c) :: (← digitRun? (next :: rest))) := by
  rw [digitRun?]
  · simp
  · rintro other hother
    cases hother
    exact h rfl

theorem digitRun?_digitChars {ds : List Nat} (hne : ds ≠ []) (hsmall : ∀ d ∈ ds, d < 10) :
    digitRun? (ds.map (digitChar .lower)) = some ds := by
  induction ds with
  | nil => exact absurd rfl hne
  | cons d rest ih =>
    have hd : digitValue? (digitChar .lower d) = some d :=
      digitValue?_digitChar (hsmall d List.mem_cons_self)
    cases rest with
    | nil => simp [digitRun?, hd]
    | cons next rest =>
      have hnext : next < 10 := hsmall next (by simp)
      have hscore : digitChar .lower next ≠ '_' := by
        interval_cases next <;> decide
      have hrest := ih (by simp) fun e he => hsmall e (List.mem_cons_of_mem d he)
      rw [List.map_cons] at hrest
      rw [List.map_cons, List.map_cons, digitRun?_cons_cons _ hscore, hd, hrest]
      rfl

/-- A decimal digit stands for less than ten. -/
theorem digitValue?_lt {c : Char} {d : Nat} (h : digitValue? c = some d) : d < 10 := by
  obtain ⟨z, hz, rfl⟩ := Option.map_eq_some_iff.mp h
  have hscript := List.find?_some hz
  simp only [Bool.and_eq_true, decide_eq_true_eq] at hscript
  omega

theorem digitRun?_lt {cs : List Char} {ds : List Nat} (h : digitRun? cs = some ds) :
    ∀ d ∈ ds, d < 10 := by
  fun_induction digitRun? cs generalizing ds with
  | case1 => cases h
  | case2 c =>
    obtain ⟨d, hd, rfl⟩ := Option.map_eq_some_iff.mp h
    simpa using digitValue?_lt hd
  | case3 c rest ih | case4 c rest hone hscore ih =>
    obtain ⟨d, hd, hrest⟩ := Option.bind_eq_some_iff.mp h
    obtain ⟨more, hmore, hds⟩ := Option.bind_eq_some_iff.mp hrest
    cases hds
    exact List.forall_mem_cons.mpr ⟨digitValue?_lt hd, ih hmore⟩

theorem lt_of_readNat? {cs : List Char} {n : Nat} (h : readNat? cs = some n) :
    n < 10 ^ digitLimit := by
  obtain ⟨ds, hrun, hds⟩ := Option.bind_eq_some_iff.mp h
  split at hds
  next hshort =>
    cases hds
    exact (value_lt_pow (digitRun?_lt hrun)).trans_le (Nat.pow_le_pow_right (by omega) hshort)
  next => cases hds

theorem readNat?_natChars {n : Nat} (h : (digits 10 n).length ≤ digitLimit) :
    readNat? (natChars .lower 10 n) = some n := by
  have hrun : digitRun? (natChars .lower 10 n) = some (digits 10 n) :=
    digitRun?_digitChars (digits_ne_nil 10 n) fun _ hd => lt_of_mem_digits (by omega) hd
  simp [readNat?, hrun, h, value_digits]

/-! ## Signs and blanks -/

/-- A text that begins with a digit has no sign. -/
theorem readSigned?_cons {c : Char} (cs : List Char) (h : isDecimalDigit c = true) :
    readSigned? (c :: cs) = (readNat? (c :: cs)).map Int.ofNat := by
  rw [readSigned?]
  · rintro rest ⟨⟩
    exact absurd h (by decide)
  · rintro rest ⟨⟩
    exact absurd h (by decide)

theorem readSigned?_decimalChars {n : Int} (h : (digits 10 n.natAbs).length ≤ digitLimit) :
    readSigned? (decimalChars n) = some n := by
  rcases Int.lt_or_le n 0 with hneg | hnonneg
  · have hvalue : -(n.natAbs : Int) = n := by omega
    rw [decimalChars_of_neg hneg, readSigned?, readNat?_natChars h]
    exact congrArg some hvalue
  · rw [decimalChars_of_nonneg hnonneg]
    cases hchars : natChars .lower 10 n.natAbs with
    | nil => exact absurd hchars (natChars_ne_nil _ _ _)
    | cons c cs =>
      have hdigit : isDecimalDigit c = true :=
        isDecimalDigit_of_mem_natChars (n := n.natAbs) (by simp [hchars])
      rw [readSigned?_cons cs hdigit, ← hchars, readNat?_natChars h, Option.map_some]
      congr 1
      exact Int.natAbs_of_nonneg hnonneg

/-- A number that is read may be written. -/
theorem writable_of_readInt? {text : String} {n : Int} (h : readInt? text = some n) :
    Writable n := by
  rw [writable_iff]
  unfold readInt? readSigned? at h
  split at h <;> obtain ⟨k, hk, rfl⟩ := Option.map_eq_some_iff.mp h
  · rw [Int.natAbs_neg]
    exact lt_of_readNat? hk
  · exact lt_of_readNat? hk
  · exact lt_of_readNat? hk

theorem trimBlank_eq_self {cs : List Char} (h : ∀ c ∈ cs, isBlank c = false) :
    trimBlank cs = cs := by
  have hfront : cs.dropWhile isBlank = cs := by
    cases cs with
    | nil => rfl
    | cons c rest => rw [List.dropWhile_cons_of_neg (by simp [h c])]
  have hback : cs.reverse.dropWhile isBlank = cs.reverse := by
    cases hreverse : cs.reverse with
    | nil => rfl
    | cons c rest =>
      have hc : c ∈ cs := List.mem_reverse.mp (by simp [hreverse])
      rw [List.dropWhile_cons_of_neg (by simp [h c hc])]
  rw [trimBlank, hfront, hback, List.reverse_reverse]

theorem isBlank_of_mem_decimalChars {n : Int} {c : Char} (h : c ∈ decimalChars n) :
    isBlank c = false := by
  have hdigit : ∀ c ∈ natChars .lower 10 n.natAbs, isBlank c = false := by
    intro c hc
    obtain ⟨d, hd, rfl⟩ := mem_natChars hc
    interval_cases d <;> decide
  rcases Int.lt_or_le n 0 with hneg | hnonneg
  · rw [decimalChars_of_neg hneg] at h
    rcases List.mem_cons.mp h with rfl | hc
    · decide
    · exact hdigit c hc
  · rw [decimalChars_of_nonneg hnonneg] at h
    exact hdigit c h

/-- The decimal text of a whole number is read as that number, if it may be written. -/
theorem readInt?_decimal {n : Int} (h : Writable n) :
    readInt? (decimal n) = some n := by
  rw [readInt?, toList_decimal, trimBlank_eq_self fun _ => isBlank_of_mem_decimalChars,
    readSigned?_decimalChars h]

end Text

end Chip8
