import Chip8.Proofs.Spellings

/-!
# Command lines are read back

A command line can be written in many ways: an option by its name or a beginning of it, a value as
the next word or behind an equals sign, the options in several orders and several times, and the
program file behind two dashes or among the options.  Each group of words gives its own tokens
(`ofWords_words`) and changes what is given in its own way, wherever it stands
(`takeTokens_tokens`), so what a whole command line gives only depends on the last value of each
amount and on whether tracing is asked for at all.

The main result is `reading_inverts_writing`.
-/

namespace Chip8.CommandLine

open Text Numeral

/-! ## Option groups -/

/-- A whole number that may be written, and so can be read. -/
structure WrittenInt where
  value : Int
  writable : Writable value

/-- An option as it is written, with the value that belongs to it. -/
inductive OptionGroup where
  /-- An amount.  Its value is attached by an equals sign, or it is the next word. -/
  | amount (a : Amount) (spelled : Abbreviation (.amount a)) (n : WrittenInt) (attached : Bool)
  /-- Tracing, by the letter of the flag. -/
  | letter
  /-- Tracing, by the name of the flag. -/
  | verbose (spelled : Abbreviation (.flag .verbose))

namespace OptionGroup

def option : OptionGroup → Opt
  | amount a _ _ _ => .amount a
  | letter | verbose _ => .flag .verbose

def words : OptionGroup → List String
  | amount _ spelled n true => [spelled.word ++ "=" ++ decimal n.value]
  | amount _ spelled n false => [spelled.word, decimal n.value]
  | letter => ["-v"]
  | verbose spelled => [spelled.word]

def tokens : OptionGroup → List Token
  | amount a _ n true => [.long (.amount a) (some (decimal n.value))]
  | amount a _ n false => [.long (.amount a) none, .operand (decimal n.value)]
  | letter => [.short .verbose none]
  | verbose _ => [.long (.flag .verbose) none]

/-- The value that a group gives to an amount. -/
def value? (a : Amount) : OptionGroup → Option Int
  | amount b _ n _ => if b = a then some n.value else none
  | letter | verbose _ => none

def isVerbose : OptionGroup → Bool
  | amount .. => false
  | letter | verbose _ => true

end OptionGroup

open OptionGroup

/-- The words of some groups. -/
def write (groups : List OptionGroup) : List String :=
  groups.flatMap words

/-- The last value that some groups give to an amount, or its standard value. -/
def lastValue (groups : List OptionGroup) (a : Amount) : Int :=
  (groups.filterMap (value? a)).getLast?.getD a.standard

/-- The ways to write some groups and a program file. -/
inductive Writes (rom : String) (groups : List OptionGroup) : List String → Prop where
  /-- Any file, behind two dashes at the end. -/
  | last : Writes rom groups (write groups ++ [doubleDash, rom])
  /-- A file that does not look like an option, between any two groups or at either end. -/
  | between {before after : List OptionGroup} (hgroups : groups = before ++ after)
      (hrom : rom.toList.head? ≠ some '-') : Writes rom groups (write before ++ rom :: write after)

/-- Each option has the same groups in the same order. -/
def Reordered (groups others : List OptionGroup) : Prop :=
  ∀ o : Opt, others.filter (·.option = o) = groups.filter (·.option = o)

/-- What is asked for by some groups and a program file. -/
inductive ComesTo (rom : String) (groups : List OptionGroup) : Except Error Request → Prop where
  /-- All amounts are positive. -/
  | run (hpos : ∀ a, 0 < lastValue groups a) :
    ComesTo rom groups (.ok (.run {
      rom := rom
      amount := fun a => (lastValue groups a).toNat
      amount_pos := fun a => Amount.toNat_pos (hpos a)
      verbose := groups.any isVerbose }))
  /-- The first amount that is not positive is refused. -/
  | refused {a : Amount} {e : Error} (hfirst : Amount.all.find? (lastValue groups · ≤ 0) = some a)
      (he : e = .badAmount (.notPositive a (lastValue groups a)))
      (hreport : e.diagnostic? = some
        (.configuration (a.name ++ " must be positive, got " ++ decimal (lastValue groups a)))) :
    ComesTo rom groups (.error e)

/-! ## Words -/

section Words

variable {rest : List String} {ts : List Token}

theorem ofWords_words (group : OptionGroup) (h : Token.ofWords rest = .ok ts) :
    Token.ofWords (group.words ++ rest) = .ok (group.tokens ++ ts) := by
  cases group with
  | amount a spelled n attached =>
    cases attached with
    | true => exact Token.ofWords_cons (Token.ofWord_attached spelled _) h
    | false =>
      have hvalue := Token.ofWords_cons (Token.ofWord_decimal n.value) h
      exact Token.ofWords_cons (Token.ofWord_word spelled) hvalue
  | letter =>
    have hletter : Token.ofWord "-v" = .ok (.short .verbose none) := rfl
    exact Token.ofWords_cons hletter h
  | verbose spelled => exact Token.ofWords_cons (Token.ofWord_word spelled) h

theorem ofWords_write (groups : List OptionGroup) (h : Token.ofWords rest = .ok ts) :
    Token.ofWords (write groups ++ rest) = .ok (groups.flatMap tokens ++ ts) := by
  induction groups with
  | nil => exact h
  | cons group groups ih =>
    rw [write, List.flatMap_cons, List.flatMap_cons, List.append_assoc, List.append_assoc]
    exact ofWords_words group ih

end Words

/-! ## Tokens -/

namespace Given

variable (g : Given)

/-- With some groups more. -/
def withGroups (groups : List OptionGroup) : Given :=
  { g with
    value := fun a => (groups.filterMap (value? a)).getLast?.or (g.value a)
    verbose := g.verbose || groups.any isVerbose }

theorem withGroups_nil : g.withGroups [] = g := by
  simp [withGroups]

theorem withGroups_append (before after : List OptionGroup) :
    g.withGroups (before ++ after) = (g.withGroups before).withGroups after := by
  simp [withGroups, Bool.or_assoc, List.getLast?_append, Option.or_assoc]

theorem withGroups_amount (a : Amount) (spelled : Abbreviation (.amount a)) (n : WrittenInt)
    (attached : Bool) :
    g.withGroups [.amount a spelled n attached] = g.withValue a (some n.value) := by
  have hvalue (b : Amount) :
      ([OptionGroup.amount a spelled n attached].filterMap (value? b)).getLast?.or (g.value b) =
        if b = a then some n.value else g.value b := by
    by_cases hb : b = a
    · simp [value?, hb]
    · simp [value?, hb, Ne.symm hb]
  simp only [withGroups, withValue, hvalue]
  simp [isVerbose]

theorem withGroups_flag {group : OptionGroup} (hvalue : ∀ a, value? a group = none)
    (hverbose : group.isVerbose = true) :
    g.withGroups [group] = { g with verbose := true } := by
  simp [withGroups, hvalue, hverbose]

end Given

theorem takeValue_decimal (a : Amount) (n : WrittenInt) (g : Given) :
    takeValue a (decimal n.value) g = .ok (g.withValue a (some n.value)) := by
  rw [takeValue, readInt?_decimal n.writable]

theorem takeAttached_decimal (a : Amount) (n : WrittenInt) (g : Given) :
    takeAttached a (decimal n.value) g = .ok (g.withValue a (some n.value)) := by
  have hne : decimal n.value ≠ doubleDash := Token.ne_doubleDash (Token.ofWord_decimal n.value)
  rw [takeAttached, if_neg hne, takeValue_decimal]

theorem takeTokens_tokens (group : OptionGroup) (ts : List Token) (g : Given) :
    takeTokens (group.tokens ++ ts) g = takeTokens ts (g.withGroups [group]) := by
  cases group with
  | amount a spelled n attached =>
    rw [Given.withGroups_amount]
    cases attached with
    | true =>
      rw [tokens, List.singleton_append, takeTokens, takeAttached_decimal]
      rfl
    | false =>
      rw [tokens, List.cons_append, List.singleton_append, takeTokens, takeValue_decimal]
      rfl
  | letter | verbose _ =>
    rw [Given.withGroups_flag g (fun _ => rfl) rfl, tokens, List.singleton_append, takeTokens]
    rfl

theorem takeTokens_groups (groups : List OptionGroup) (ts : List Token) (g : Given) :
    takeTokens (groups.flatMap tokens ++ ts) g = takeTokens ts (g.withGroups groups) := by
  induction groups generalizing g with
  | nil => rw [Given.withGroups_nil, List.flatMap_nil, List.nil_append]
  | cons group groups ih =>
    rw [List.flatMap_cons, List.append_assoc, takeTokens_tokens, ih, ← Given.withGroups_append,
      List.singleton_append]

/-- The first operand is the program file, and a separator behind it would belong to it. -/
theorem takeTokens_operand {rom : String} {ts : List Token} {g : Given} (hrom : g.rom? = none)
    (hnext : ts.head? ≠ some .separator) :
    takeTokens (.operand rom :: ts) g = takeTokens ts { g with rom? := some rom } := by
  rw [takeTokens]
  · exact hrom
  · rintro rest rfl
    exact hnext rfl

theorem head?_tokens_ne_separator (groups : List OptionGroup) :
    (groups.flatMap tokens).head? ≠ some .separator := by
  cases groups with
  | nil => simp
  | cons group groups =>
    cases group with
    | amount a spelled n attached => cases attached <;> simp [tokens]
    | letter | verbose _ => simp [tokens]

/-! ## Command lines -/

variable {rom : String} {groups others : List OptionGroup} {words : List String}

/-- What a command line gives, whichever way it is written. -/
def givenBy (rom : String) (groups : List OptionGroup) : Given where
  rom? := some rom
  value := fun a => some (lastValue groups a)
  verbose := groups.any isVerbose
  leftOver := []

theorem withGroups_nothing (rom : String) (groups : List OptionGroup) :
    { Given.nothing.withGroups groups with rom? := some rom } = givenBy rom groups := by
  simp [Given.withGroups, Given.nothing, givenBy, lastValue]

/-- Wherever the program file stands, it is taken for the program file, and all groups are taken for
what they are. -/
theorem takeTokens_of_writes (h : Writes rom groups words) :
    ∃ ts, Token.ofWords words = .ok ts ∧ takeTokens ts .nothing = .ok (givenBy rom groups) := by
  cases h with
  | last =>
    refine ⟨_, ofWords_write groups rfl, ?_⟩
    rw [takeTokens_groups, ← withGroups_nothing]
    rfl
  | @between before after hgroups hrom =>
    have hafter : Token.ofWords (write after) = .ok (after.flatMap tokens) := by
      have hnothing : Token.ofWords [] = .ok [] := rfl
      simpa using ofWords_write after hnothing
    have hend (g : Given) : takeTokens (after.flatMap tokens) g = .ok (g.withGroups after) := by
      simpa [takeTokens] using takeTokens_groups after [] g
    refine ⟨_, ofWords_write before (Token.ofWords_cons (Token.ofWord_of_head hrom) hafter), ?_⟩
    rw [takeTokens_groups, takeTokens_operand rfl (head?_tokens_ne_separator after), hend, hgroups,
      ← withGroups_nothing, Given.withGroups_append]
    rfl

theorem ofArguments_of_writes (h : Writes rom groups words) :
    Request.ofArguments words = (givenBy rom groups).settings.map .run := by
  obtain ⟨ts, hwords, htaken⟩ := takeTokens_of_writes h
  simp only [Request.ofArguments, hwords, bind, Except.bind, htaken]
  cases (givenBy rom groups).settings <;> rfl

/-! ## Settings -/

section Settings

variable {a : Amount} {n : Int} {value : Amount → Int}

theorem check_of_pos (h : 0 < n) : a.check (some n) = .ok ⟨n.toNat, Amount.toNat_pos h⟩ :=
  dif_pos h

theorem check_of_not_pos (h : ¬ 0 < n) (hwritable : Writable n) :
    a.check (some n) = .error (.notPositive a n) := by
  rw [Amount.check, dif_neg h, if_pos hwritable]

theorem ofValues_of_pos (rom : String) (verbose : Bool) (h : ∀ a, 0 < value a) :
    Settings.ofValues rom (fun a => some (value a)) verbose = .ok {
      rom := rom
      amount := fun a => (value a).toNat
      amount_pos := fun a => Amount.toNat_pos (h a)
      verbose := verbose } := by
  simp only [Settings.ofValues, check_of_pos (h _)]
  refine congrArg Except.ok ?_
  congr 1
  funext a
  cases a <;> rfl

theorem ofValues_of_first (rom : String) (verbose : Bool) (hwritable : ∀ a, Writable (value a))
    (h : Amount.all.find? (value · ≤ 0) = some a) :
    Settings.ofValues rom (fun a => some (value a)) verbose =
      .error (.notPositive a (value a)) := by
  unfold Settings.ofValues
  by_cases hscale : 0 < value .scale
  · by_cases hcpu : 0 < value .cpuHz
    · by_cases htimer : 0 < value .timerHz
      · simp [Amount.all, hscale, hcpu, htimer] at h
      · obtain rfl : .timerHz = a := by
          simpa [Amount.all, hscale, hcpu, Int.not_lt.mp htimer] using h
        rw [check_of_pos hscale, check_of_pos hcpu, check_of_not_pos htimer (hwritable _)]
        rfl
    · obtain rfl : .cpuHz = a := by
        simpa [Amount.all, hscale, Int.not_lt.mp hcpu] using h
      rw [check_of_pos hscale, check_of_not_pos hcpu (hwritable _)]
      rfl
  · obtain rfl : .scale = a := by
      simpa [Amount.all, Int.not_lt.mp hscale] using h
    rw [check_of_not_pos hscale (hwritable _)]
    rfl

/-- The value of an amount can be named. -/
theorem writable_lastValue (groups : List OptionGroup) (a : Amount) :
    Writable (lastValue groups a) := by
  rw [lastValue]
  cases hlast : (groups.filterMap (value? a)).getLast? with
  | none => cases a <;> exact writable_of_lt (by decide)
  | some n =>
    obtain ⟨group, -, hvalue⟩ := List.mem_filterMap.mp (List.mem_of_getLast? hlast)
    cases group with
    | amount b spelled written attached =>
      simp only [value?] at hvalue
      split at hvalue <;> cases hvalue
      exact written.writable
    | letter | verbose _ => cases hvalue

theorem settings_givenBy (rom : String) (groups : List OptionGroup) :
    (givenBy rom groups).settings =
      (Settings.ofValues rom (fun a => some (lastValue groups a)) (groups.any isVerbose)).mapError
        .badAmount :=
  rfl

theorem comesTo_givenBy (rom : String) (groups : List OptionGroup) :
    ComesTo rom groups ((givenBy rom groups).settings.map .run) := by
  rw [settings_givenBy]
  cases hfirst : Amount.all.find? (lastValue groups · ≤ 0) with
  | none =>
    have hpos (a : Amount) : 0 < lastValue groups a := by
      have hnot := List.find?_eq_none.mp hfirst a (by cases a <;> simp [Amount.all])
      simpa using hnot
    rw [ofValues_of_pos rom _ hpos]
    exact .run hpos
  | some a =>
    rw [ofValues_of_first rom _ (writable_lastValue groups) hfirst]
    exact .refused hfirst rfl rfl

end Settings

/-! ## The order of the groups -/

/-- The value of an amount comes from the groups of its own option. -/
theorem lastValue_of_reordered (h : Reordered groups others) (a : Amount) :
    lastValue others a = lastValue groups a := by
  have hown (groups : List OptionGroup) :
      groups.filterMap (value? a) = (groups.filter (·.option = .amount a)).filterMap (value? a) := by
    rw [List.filterMap_filter]
    refine congrArg (groups.filterMap ·) (funext fun group => ?_)
    cases group with
    | amount b spelled n attached => by_cases hb : b = a <;> simp [value?, option, hb]
    | letter | verbose _ => rfl
  rw [lastValue, lastValue, hown, hown groups, h]

theorem any_isVerbose_of_reordered (h : Reordered groups others) :
    others.any isVerbose = groups.any isVerbose := by
  have hown (groups : List OptionGroup) :
      groups.any isVerbose = (groups.filter (·.option = .flag .verbose)).any isVerbose := by
    rw [List.any_filter]
    refine congrArg groups.any (funext fun group => ?_)
    cases group <;> rfl
  rw [hown, hown groups, h]

/-- **The reading of command lines inverts the writing.**  However some groups and a program file
are written, the command line asks for that file with the last value of each amount, and for tracing
if a group does; or the first amount that is not positive is refused.  Groups of different options
can change places, and so can the file. -/
theorem reading_inverts_writing (rom : String) (groups : List OptionGroup) :
    (∀ words, Writes rom groups words → ComesTo rom groups (Request.ofArguments words)) ∧
    ∀ others, Reordered groups others → ∀ words changed, Writes rom groups words →
      Writes rom others changed → Request.ofArguments changed = Request.ofArguments words := by
  constructor
  · intro words hwords
    rw [ofArguments_of_writes hwords]
    exact comesTo_givenBy rom groups
  · intro others hothers words changed hwords hchanged
    have hgiven : givenBy rom others = givenBy rom groups := by
      simp only [givenBy, lastValue_of_reordered hothers, any_isVerbose_of_reordered hothers]
    rw [ofArguments_of_writes hwords, ofArguments_of_writes hchanged, hgiven]

/-- The group `--sc=8`. -/
def smallScale : OptionGroup :=
  .amount .scale
    { letters := ['s', 'c']
      ne_nil := List.cons_ne_nil _ _
      begins := ⟨"--scale", List.mem_cons_of_mem _ List.mem_cons_self, ['a', 'l', 'e'], rfl⟩ }
    { value := 8
      writable := writable_of_lt (Nat.le_of_ble_eq_true rfl) }
    true

theorem words_smallScale : smallScale.words = ["--sc=8"] := by
  have hvalue : decimal 8 = "8" := by
    simp [decimal, decimalChars, natChars, digits, digitChar]
  rw [smallScale, OptionGroup.words, hvalue]
  rfl

/-- The group is read in front of a file that looks like an option, and may as well stand behind the
file. -/
theorem small_scale_reads_back :
    ComesTo "-game" [smallScale, .letter] (Request.ofArguments ["--sc=8", "-v", "--", "-game"]) ∧
    Request.ofArguments ["-v", "game", "--sc=8"] =
      Request.ofArguments ["--sc=8", "-v", "--", "game"] := by
  have hwritten (rom : String) : Writes rom [smallScale, .letter] ["--sc=8", "-v", "--", rom] := by
    have hlast : Writes rom [smallScale, .letter] _ := .last
    rw [write, List.flatMap_cons, words_smallScale] at hlast
    exact hlast
  have hchanged : Writes "game" [.letter, smallScale] ["-v", "game", "--sc=8"] := by
    have hbetween : Writes "game" [.letter, smallScale]
        (write [.letter] ++ "game" :: write [smallScale]) := .between rfl (by decide)
    rw [write, write, List.flatMap_singleton OptionGroup.words smallScale,
      words_smallScale] at hbetween
    exact hbetween
  have hreordered : Reordered [smallScale, .letter] [.letter, smallScale] := by
    intro o
    have hoption : smallScale.option = .amount .scale := rfl
    by_cases h : o = .amount .scale
    · subst h
      rfl
    · simp [List.filter_cons, hoption, Ne.symm h]
  exact ⟨(reading_inverts_writing "-game" _).1 _ (hwritten "-game"),
    (reading_inverts_writing "game" _).2 _ hreordered _ _ (hwritten "game") hchanged⟩

end Chip8.CommandLine
