import Chip8.Proofs.Arguments
import Chip8.Proofs.Numerals
import Mathlib.Data.List.TakeWhile

/-!
# Written words

An option may be written with a beginning of its name.  No two long options go on alike behind the
two dashes, so a single character tells which one is meant (`Abbreviation.candidates`), and an
attached text is what stands behind the first equals sign, since no name has one.

A number below zero looks like an option.  No option goes on with a digit behind a dash, so it is an
operand like the other numbers.

The main results are `Token.ofWord_word`, `Token.ofWord_attached` and `Token.ofWord_decimal`.
-/

namespace Chip8.CommandLine

open Text Numeral

/-! ## The long options -/

/-- Three characters tell the long options apart. -/
theorem eq_of_take_eq :
    ∀ e ∈ longOptions, ∀ f ∈ longOptions, e.1.toList.take 3 = f.1.toList.take 3 → e = f := by
  decide

theorem equals_not_mem_spelling : ∀ e ∈ longOptions, '=' ∉ e.1.toList := by
  decide

theorem dashes_begin_spelling : ∀ e ∈ longOptions, ['-', '-'] <+: e.1.toList := by
  decide

theorem filter_eq_entry : ∀ e ∈ longOptions, longOptions.filter (· = e) = [e] := by
  decide

theorem Opt.mem_of_ofSpelling? {word : String} {option : Opt} (hlong : 2 < word.toList.length)
    (h : ofSpelling? word = some option) : (word, option) ∈ longOptions := by
  unfold ofSpelling? at h
  split at h
  next letter hword => simp [hword] at hlong
  next =>
    obtain ⟨before, after, heq, -⟩ := List.lookup_eq_some_iff.mp h
    simp [heq]

/-! ## Equals signs -/

theorem splitEquals?_of_not_mem {cs : List Char} (h : '=' ∉ cs) : splitEquals? cs = none := by
  have hdrop : cs.dropWhile (· ≠ '=') = [] := by
    refine List.dropWhile_eq_nil_iff.mpr fun c hc => decide_eq_true ?_
    rintro rfl
    exact h hc
  rw [splitEquals?, hdrop]

/-- The first equals sign splits a text. -/
theorem splitEquals?_append {spelling : List Char} (value : List Char) (h : '=' ∉ spelling) :
    splitEquals? (spelling ++ '=' :: value) = some (spelling, value) := by
  have hall : ∀ c ∈ spelling, decide (c ≠ '=') = true := by
    refine fun c hc => decide_eq_true ?_
    rintro rfl
    exact h hc
  rw [splitEquals?, List.dropWhile_append_of_pos hall, List.takeWhile_append_of_pos hall]
  simp

/-! ## Abbreviations -/

/-- Two dashes and the name of an option, perhaps cut short. -/
structure Abbreviation (option : Opt) where
  letters : List Char
  ne_nil : letters ≠ []
  begins : ∃ spelling, (spelling, option) ∈ longOptions ∧ '-' :: '-' :: letters <+: spelling.toList

namespace Abbreviation

variable {option : Opt} (s : Abbreviation option)

def chars : List Char :=
  '-' :: '-' :: s.letters

def word : String :=
  String.ofList s.chars

theorem two_lt_length_chars : 2 < s.chars.length := by
  have := List.length_pos_iff.mpr s.ne_nil
  simp only [chars, List.length_cons]
  omega

/-- One option alone begins as the abbreviation does. -/
theorem eq_of_begins {e f : String × Opt} (he : e ∈ longOptions) (hf : f ∈ longOptions)
    (hstart : s.chars <+: e.1.toList) (hother : s.chars <+: f.1.toList) : e = f := by
  have htake {cs : List Char} (h : s.chars <+: cs) : cs.take 3 = s.chars.take 3 := by
    obtain ⟨rest, rfl⟩ := h
    exact List.take_append_of_le_length s.two_lt_length_chars
  exact eq_of_take_eq e he f hf ((htake hstart).trans (htake hother).symm)

theorem equals_not_mem : '=' ∉ s.chars := by
  obtain ⟨spelling, hentry, hstart⟩ := s.begins
  exact fun h => equals_not_mem_spelling _ hentry (hstart.subset h)

theorem candidates : ∃ spelling, Opt.candidates s.chars = [(spelling, option)] := by
  obtain ⟨spelling, hentry, hstart⟩ := s.begins
  have honly : ∀ e ∈ longOptions,
      s.chars.isPrefixOf e.1.toList = decide (e = (spelling, option)) := by
    intro e he
    rw [Bool.eq_iff_iff, List.isPrefixOf_iff_prefix, decide_eq_true_iff]
    constructor
    · exact fun h => s.eq_of_begins he hentry h hstart
    · rintro rfl
      exact hstart
  refine ⟨spelling, ?_⟩
  rw [Opt.candidates, List.filter_congr honly]
  exact filter_eq_entry _ hentry

/-- A word that is exactly the spelling of an option can only be the whole spelling of this one. -/
theorem ofSpelling? : Opt.ofSpelling? s.word = none ∨ Opt.ofSpelling? s.word = some option := by
  cases h : Opt.ofSpelling? s.word with
  | none => exact .inl rfl
  | some other =>
    obtain ⟨spelling, hentry, hstart⟩ := s.begins
    have hmem : (s.word, other) ∈ longOptions :=
      Opt.mem_of_ofSpelling? (by simpa [word] using s.two_lt_length_chars) h
    have heq : (s.word, other) = (spelling, option) :=
      s.eq_of_begins hmem hentry (by simp [word]) hstart
    exact .inr (congrArg (fun e => some e.2) heq)

theorem ofOption (attached : Option String) :
    Token.ofOption s.chars option attached = .long option attached := by
  unfold Token.ofOption
  split
  next hchars =>
    have := s.two_lt_length_chars
    simp [hchars] at this
  next => rfl

@[simp] theorem toList_word : s.word.toList = s.chars :=
  String.toList_ofList

theorem head?_chars : s.chars.head? = some '-' :=
  rfl

theorem splitEquals?_chars : splitEquals? s.chars = none :=
  splitEquals?_of_not_mem s.equals_not_mem

section Attached

variable (value : String)

theorem toList_attached :
    (s.word ++ "=" ++ value).toList = s.chars ++ '=' :: value.toList := by
  simp

theorem splitEquals?_attached :
    splitEquals? (s.chars ++ '=' :: value.toList) = some (s.chars, value.toList) :=
  splitEquals?_append value.toList s.equals_not_mem

theorem ofSpelling?_attached : Opt.ofSpelling? (s.word ++ "=" ++ value) = none := by
  have hlong : 2 < (s.word ++ "=" ++ value).toList.length := by
    have := s.two_lt_length_chars
    rw [toList_attached, List.length_append]
    omega
  refine Option.eq_none_iff_forall_ne_some.mpr fun other hother => ?_
  exact equals_not_mem_spelling _ (Opt.mem_of_ofSpelling? hlong hother) (by simp)

end Attached

end Abbreviation

namespace Token

section Abbreviated

variable {option : Opt} (s : Abbreviation option)

theorem ofDashed_word : ofDashed s.word = .ok (.long option none) := by
  obtain ⟨spelling, hcandidates⟩ := s.candidates
  unfold ofDashed
  simp only [s.toList_word, s.splitEquals?_chars, hcandidates]
  rfl

theorem ofDashed_attached (value : String) :
    ofDashed (s.word ++ "=" ++ value) = .ok (.long option (some value)) := by
  obtain ⟨spelling, hcandidates⟩ := s.candidates
  unfold ofDashed
  simp only [s.toList_attached, s.splitEquals?_attached, hcandidates, String.ofList_toList]
  rfl

/-- An abbreviation is read as its option, whether or not it is the whole spelling. -/
theorem ofWord_word : ofWord s.word = .ok (.long option none) := by
  unfold ofWord
  simp only [s.toList_word]
  rw [if_neg (not_not_intro s.head?_chars)]
  rcases s.ofSpelling? with hnone | hsome
  · simp only [hnone, s.splitEquals?_chars]
    exact ofDashed_word s
  · simp only [hsome, s.ofOption]

/-- The text behind an abbreviation and an equals sign is attached to the option. -/
theorem ofWord_attached (value : String) :
    ofWord (s.word ++ "=" ++ value) = .ok (.long option (some value)) := by
  have hspelled : String.ofList s.chars = s.word := rfl
  have hhead : (s.chars ++ '=' :: value.toList).head? = some '-' := rfl
  unfold ofWord
  simp only [s.toList_attached]
  rw [if_neg (not_not_intro hhead)]
  simp only [s.ofSpelling?_attached, s.splitEquals?_attached, hspelled]
  rcases s.ofSpelling? with hnone | hsome
  · simp only [hnone]
    exact ofDashed_attached s value
  · simp only [hsome, s.ofOption, String.ofList_toList]

end Abbreviated

/-! ## Numbers -/

theorem ofLetter?_of_isDecimalDigit {c : Char} (h : isDecimalDigit c = true) :
    Flag.ofLetter? c = none := by
  unfold Flag.ofLetter?
  split
  · exact absurd h (by decide)
  · exact absurd h (by decide)
  · rfl

section Negative

variable {word : String} {c : Char} {cs : List Char}

theorem ofSpelling?_of_digit (hword : word.toList = '-' :: c :: cs) (hc : isDecimalDigit c = true) :
    Opt.ofSpelling? word = none := by
  unfold Opt.ofSpelling?
  split
  next letter hletter =>
    rw [hword] at hletter
    cases hletter
    rw [ofLetter?_of_isDecimalDigit hc, Option.map_none]
  next =>
    refine List.lookup_eq_none_iff.mpr fun e he => bne_iff_ne.mpr ?_
    rintro rfl
    have hdashes := dashes_begin_spelling e he
    rw [hword, List.cons_prefix_cons, List.cons_prefix_cons] at hdashes
    rw [← hdashes.2.1] at hc
    exact absurd hc (by decide)

theorem isNegativeNumber_of_digits (h : ∀ d ∈ c :: cs, isDecimalDigit d = true) :
    isNegativeNumber ('-' :: c :: cs) = true := by
  have hlast : (c :: cs).getLast? ≠ some '\n' := fun hlast =>
    absurd (h _ (List.mem_of_getLast? hlast)) (by decide)
  have hdigits : isDigits (c :: cs) = true := by
    simpa [isDigits] using h
  rw [isNegativeNumber, dropFinalNewline, if_neg hlast, isPlainNumber, hdigits, Bool.true_or]

/-- A dash and digits are an operand. -/
theorem ofWord_of_digits (hword : word.toList = '-' :: c :: cs)
    (h : ∀ d ∈ c :: cs, isDecimalDigit d = true) : ofWord word = .ok (.operand word) := by
  have hc : isDecimalDigit c = true := h c List.mem_cons_self
  have hsplit : splitEquals? ('-' :: c :: cs) = none := by
    refine splitEquals?_of_not_mem ?_
    rw [List.mem_cons, not_or]
    exact ⟨by decide, fun hmem => absurd (h _ hmem) (by decide)⟩
  unfold ofWord
  simp only [hword]
  rw [if_neg (by simp), ofSpelling?_of_digit hword hc, hsplit]
  unfold ofDashed
  simp only [hword]
  split
  next rest hrest =>
    cases hrest
    exact absurd hc (by decide)
  next letter rest hne hrest =>
    cases hrest
    rw [ofLetter?_of_isDecimalDigit hc, ofStray, hword, isNegativeNumber_of_digits h]
    rfl
  next => rfl

end Negative

theorem ofWord_of_head {word : String} (h : word.toList.head? ≠ some '-') :
    ofWord word = .ok (.operand word) :=
  if_pos h

/-- The text of a number is an operand, also below zero. -/
theorem ofWord_decimal (n : Int) : ofWord (decimal n) = .ok (.operand (decimal n)) := by
  have hdigit : ∀ c ∈ natChars .lower 10 n.natAbs, isDecimalDigit c = true :=
    fun _ => isDecimalDigit_of_mem_natChars
  obtain ⟨c, cs, hcons⟩ := List.exists_cons_of_ne_nil (natChars_ne_nil .lower 10 n.natAbs)
  rw [hcons] at hdigit
  rcases Int.lt_or_le n 0 with hneg | hnonneg
  · exact ofWord_of_digits (by rw [toList_decimal, decimalChars_of_neg hneg, hcons]) hdigit
  · refine ofWord_of_head ?_
    rw [toList_decimal, decimalChars_of_nonneg hnonneg, hcons, List.head?_cons]
    rintro ⟨⟩
    exact absurd (hdigit '-' List.mem_cons_self) (by decide)

/-! ## Several words -/

/-- The word of two dashes alone would be an ambiguous option. -/
theorem ne_doubleDash {word : String} {token : Token} (h : ofWord word = .ok token) :
    word ≠ doubleDash := by
  rintro rfl
  cases h

theorem ofWords_cons {word : String} {token : Token} {rest : List String} {tokens : List Token}
    (hword : ofWord word = .ok token) (hrest : ofWords rest = .ok tokens) :
    ofWords (word :: rest) = .ok (token :: tokens) := by
  rw [ofWords, if_neg (ne_doubleDash hword), hword, hrest]
  rfl

end Token

end Chip8.CommandLine
