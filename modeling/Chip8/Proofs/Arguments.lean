import Chip8.CommandLine.Request
import Chip8.Proofs.Numerals

/-!
# Amounts without a value

Each amount has a standard value, and a word that is no number is refused, so an amount can only
lose its value to two dashes that are attached to its option: they are taken for no value at all.
The loss is noticed when the amounts are checked.  A number that a word gives has few enough digits
to be named when it is refused.

The main result is that a command line whose refusal is not one of the console's own has a word that
ends in an equals sign and two dashes (`exists_dashes_of_undiagnosed`).
-/

namespace Chip8.CommandLine

open Numeral Text

section Bind

variable {ε α β : Type} {x : Except ε α} {f : α → Except ε β}

theorem bind_eq_ok_iff {b : β} : (x >>= f) = .ok b ↔ ∃ a, x = .ok a ∧ f a = .ok b := by
  cases x <;> simp [bind, Except.bind]

theorem bind_eq_error_iff {e : ε} :
    (x >>= f) = .error e ↔ x = .error e ∨ ∃ a, x = .ok a ∧ f a = .error e := by
  cases x <;> simp [bind, Except.bind]

end Bind

/-! ## Words -/

theorem splitEquals?_eq_some {cs spelling value : List Char}
    (h : splitEquals? cs = some (spelling, value)) : cs = spelling ++ '=' :: value := by
  have hsplit := List.takeWhile_append_dropWhile (p := (· ≠ '=')) (l := cs)
  have hhead := List.head?_dropWhile_not (· ≠ '=') cs
  unfold splitEquals? at h
  split at h
  next c rest hrest =>
    rw [hrest] at hsplit hhead
    have hc : c = '=' := by simpa using hhead
    subst hc
    cases h
    exact hsplit.symm
  next => cases h

/-- A text that is attached to a long option stands in the word of the option, behind an equals
sign. -/
def Token.StandsIn (word : String) : Token → Prop
  | .long _ (some text) => ∃ spelling, word.toList = spelling ++ '=' :: text.toList
  | _ => True

namespace Token

variable {word : String} {token : Token}

theorem standsIn_ofStray (word : String) : (ofStray word).StandsIn word := by
  unfold ofStray
  split <;> trivial

theorem standsIn_ofOption {spelling : List Char} (cs : List Char) (option : Opt)
    {attached : Option String}
    (h : ∀ text, attached = some text → word.toList = cs ++ '=' :: text.toList) :
    (ofOption spelling option attached).StandsIn word := by
  unfold ofOption
  split
  · trivial
  · cases attached with
    | none => trivial
    | some text => exact ⟨cs, h text rfl⟩

theorem standsIn_ofDashed (h : ofDashed word = .ok token) : token.StandsIn word := by
  unfold ofDashed at h
  simp only at h
  split at h
  · cases hsplit : splitEquals? word.toList with
    | none =>
      simp only [hsplit] at h
      split at h <;> cases h
      · exact standsIn_ofStray word
      · trivial
    | some parts =>
      simp only [hsplit] at h
      split at h <;> cases h
      · exact standsIn_ofStray word
      · exact ⟨parts.1, by simpa using splitEquals?_eq_some hsplit⟩
  · split at h <;> cases h
    · trivial
    · exact standsIn_ofStray word
  · cases h
    trivial

theorem standsIn_ofWord (h : ofWord word = .ok token) : token.StandsIn word := by
  unfold ofWord at h
  simp only at h
  split at h
  · cases h
    trivial
  · cases hspelling : Opt.ofSpelling? word with
    | some option =>
      simp only [hspelling] at h
      cases h
      exact standsIn_ofOption [] option (by simp)
    | none =>
      cases hsplit : splitEquals? word.toList with
      | none =>
        simp only [hspelling, hsplit] at h
        exact standsIn_ofDashed h
      | some parts =>
        simp only [hspelling, hsplit] at h
        split at h
        · cases h
          refine standsIn_ofOption parts.1 _ ?_
          rintro text ⟨⟩
          simpa using splitEquals?_eq_some hsplit
        · exact standsIn_ofDashed h

theorem standsIn_ofWords {words : List String} {tokens : List Token} (h : ofWords words = .ok tokens)
    (htoken : token ∈ tokens) : ∃ word ∈ words, token.StandsIn word := by
  induction words generalizing tokens with
  | nil =>
    cases h
    cases htoken
  | cons word rest ih =>
    rw [ofWords] at h
    split at h
    · cases h
      refine ⟨word, List.mem_cons_self, ?_⟩
      rcases List.mem_cons.mp htoken with rfl | hoperand
      · trivial
      · obtain ⟨operand, -, rfl⟩ := List.mem_map.mp hoperand
        trivial
    · obtain ⟨first, hfirst, hothers⟩ := bind_eq_ok_iff.mp h
      obtain ⟨others, hrest, hall⟩ := bind_eq_ok_iff.mp hothers
      cases hall
      rcases List.mem_cons.mp htoken with rfl | hother
      · exact ⟨word, List.mem_cons_self, standsIn_ofWord hfirst⟩
      · obtain ⟨other, hmem, hstands⟩ := ih hrest hother
        exact ⟨other, List.mem_cons_of_mem _ hmem, hstands⟩

theorem ofDashed_ne_badAmount (word : String) (e : AmountError) :
    ofDashed word ≠ .error (.badAmount e) := by
  intro h
  unfold ofDashed at h
  simp only at h
  split at h
  · split at h <;> cases h
  · split at h <;> cases h
  · cases h

theorem ofWord_ne_badAmount (word : String) (e : AmountError) :
    ofWord word ≠ .error (.badAmount e) := by
  intro h
  unfold ofWord at h
  simp only at h
  split at h
  · cases h
  · split at h
    · cases h
    · split at h
      · exact ofDashed_ne_badAmount word e h
      · split at h
        · cases h
        · exact ofDashed_ne_badAmount word e h

/-- The reading of single words checks no amounts. -/
theorem ofWords_ne_badAmount (words : List String) (e : AmountError) :
    ofWords words ≠ .error (.badAmount e) := by
  induction words with
  | nil => simp [ofWords]
  | cons word rest ih =>
    intro h
    rw [ofWords] at h
    split at h
    · cases h
    · rcases bind_eq_error_iff.mp h with hfirst | ⟨first, -, hothers⟩
      · exact ofWord_ne_badAmount word e hfirst
      · rcases bind_eq_error_iff.mp hothers with hrest | ⟨others, -, hall⟩
        · exact ih hrest
        · cases hall

end Token

/-! ## Tokens -/

variable {tokens : List Token} {g next given : Given} {a : Amount} {stop : Stop}

theorem value_of_takeFlags {flags : List Flag} (h : takeFlags flags g = .ok next) :
    next.value = g.value := by
  fun_induction takeFlags flags g with
  | case1 g =>
    cases h
    rfl
  | case2 => cases h
  | case3 rest g ih => exact ih h

/-- Where the value of an amount comes from: it is that from before, two dashes have taken it away, or
a word has given a number. -/
inductive Provides (tokens : List Token) (a : Amount) (before : Option Int) : Option Int → Prop
  | kept : Provides tokens a before before
  | lost (dashes : .long (.amount a) (some doubleDash) ∈ tokens) : Provides tokens a before none
  | read (n : Int) (writable : Writable n) : Provides tokens a before (some n)

theorem Provides.mono {some more : List Token} {before after : Option Int}
    (h : Provides some a before after) (hsubset : some ⊆ more) : Provides more a before after := by
  cases h with
  | kept => exact .kept
  | lost dashes => exact .lost (hsubset dashes)
  | read n writable => exact .read n writable

theorem Provides.trans {before between after : Option Int}
    (hlast : Provides tokens a between after) (hfirst : Provides tokens a before between) :
    Provides tokens a before after := by
  cases hlast with
  | kept => exact hfirst
  | lost dashes => exact .lost dashes
  | read n writable => exact .read n writable

/-- A word gives one amount its number. -/
theorem provides_takeValue {b : Amount} {word : String} (h : takeValue b word g = .ok next) :
    Provides tokens a (g.value a) (next.value a) := by
  unfold takeValue at h
  split at h
  next n hread =>
    cases h
    by_cases hab : a = b
    · simpa [Given.withValue, hab] using Provides.read n (writable_of_readInt? hread)
    · simpa [Given.withValue, hab] using Provides.kept
  next => cases h

/-- An attached text gives one amount its number, or takes it away if it is two dashes. -/
theorem provides_takeAttached {b : Amount} {text : String} (h : takeAttached b text g = .ok next) :
    Provides [.long (.amount b) (some text)] a (g.value a) (next.value a) := by
  unfold takeAttached at h
  split at h
  next hdashes =>
    subst hdashes
    cases h
    by_cases hab : a = b
    · subst hab
      simpa [Given.withValue] using Provides.lost List.mem_cons_self
    · simpa [Given.withValue, hab] using Provides.kept
  next => exact provides_takeValue h

/-- Where the values come from that tokens have given. -/
theorem provides_takeTokens (h : takeTokens tokens g = .ok given) :
    Provides tokens a (g.value a) (given.value a) := by
  fun_induction takeTokens tokens g with
  | case1 g =>
    cases h
    exact .kept
  | case2 word g rest hrom ih | case5 g word rest hrom ih =>
    exact (ih h).mono fun _ hmem => List.mem_cons_of_mem _ (List.mem_cons_of_mem _ hmem)
  | case3 word g rest hnot hrom ih | case4 word g rom rest hrom ih | case6 g rest hnot ih
  | case7 word rest g ih => exact (ih h).mono (List.subset_cons_self _ _)
  | case8 | case10 | case14 => cases h
  | case9 first attached rest g flags hflags ih =>
    obtain ⟨next, htaken, hrest⟩ := bind_eq_ok_iff.mp h
    rw [← value_of_takeFlags htaken]
    exact (ih next hrest).mono (List.subset_cons_self _ _)
  | case11 f rest g ih =>
    obtain ⟨next, htaken, hrest⟩ := bind_eq_ok_iff.mp h
    rw [← value_of_takeFlags htaken]
    exact (ih next hrest).mono (List.subset_cons_self _ _)
  | case12 b text rest g ih =>
    obtain ⟨next, htaken, hrest⟩ := bind_eq_ok_iff.mp h
    have hlater := (ih next hrest).mono (List.subset_cons_self (.long (.amount b) (some text)) rest)
    exact hlater.trans ((provides_takeAttached htaken).mono (by simp))
  | case13 b value rest g ih =>
    obtain ⟨next, htaken, hrest⟩ := bind_eq_ok_iff.mp h
    refine Provides.trans ?_ (provides_takeValue htaken)
    exact (ih next hrest).mono fun _ hmem => List.mem_cons_of_mem _ (List.mem_cons_of_mem _ hmem)

/-- The values that a command line gives.  A number that is refused can be named. -/
theorem provides_of_nothing (h : takeTokens tokens .nothing = .ok given) (a : Amount) :
    (given.value a = none → .long (.amount a) (some doubleDash) ∈ tokens) ∧
      ∀ n, given.value a = some n → Writable n := by
  have hprovides := provides_takeTokens (a := a) h
  have hstandard : Given.nothing.value a = some (a.standard : Int) := rfl
  rw [hstandard] at hprovides
  generalize given.value a = value at hprovides
  cases hprovides with
  | kept =>
    constructor
    · intro hnone
      cases hnone
    · intro n hsome
      cases hsome
      cases a <;> exact writable_of_lt (by decide)
  | lost dashes =>
    refine ⟨fun _ => dashes, ?_⟩
    intro n hsome
    cases hsome
  | read n writable =>
    constructor
    · intro hnone
      cases hnone
    · intro n' hsome
      cases hsome
      exact writable

theorem flagCluster_ne_badAmount (first : Flag) (letters : List Char) (e : AmountError) :
    flagCluster first letters ≠ .error (.badAmount e) := by
  induction letters generalizing first with
  | nil => simp [flagCluster]
  | cons letter rest ih =>
    intro h
    rw [flagCluster] at h
    cases hletter : Flag.ofLetter? letter with
    | none => simp [hletter] at h
    | some next =>
      simp only [hletter] at h
      cases hnext : flagCluster next rest with
      | error refused =>
        rw [hnext] at h
        cases h
        exact ih next hnext
      | ok flags =>
        rw [hnext] at h
        cases h

theorem flagsOf_ne_badAmount (first : Flag) (attached : Option String) (e : AmountError) :
    flagsOf first attached ≠ .error (.badAmount e) := by
  intro h
  unfold flagsOf at h
  split at h
  · cases h
  · split at h
    · cases h
    · exact flagCluster_ne_badAmount _ _ e h

/-- Flags stop the reading only to ask for help. -/
theorem stop_of_takeFlags {flags : List Flag} (h : takeFlags flags g = .error stop) :
    stop = .help := by
  fun_induction takeFlags flags g with
  | case1 => cases h
  | case2 =>
    cases h
    rfl
  | case3 rest g ih => exact ih h

theorem takeValue_ne_badAmount (word : String) (g : Given) (e : AmountError) :
    takeValue a word g ≠ .error (.refused (.badAmount e)) := by
  intro h
  unfold takeValue at h
  split at h <;> cases h

theorem takeAttached_ne_badAmount (text : String) (g : Given) (e : AmountError) :
    takeAttached a text g ≠ .error (.refused (.badAmount e)) := by
  intro h
  unfold takeAttached at h
  split at h
  · cases h
  · exact takeValue_ne_badAmount text g e h

/-- The taking of tokens checks no amounts. -/
theorem takeTokens_ne_badAmount (tokens : List Token) (g : Given) (e : AmountError) :
    takeTokens tokens g ≠ .error (.refused (.badAmount e)) := by
  intro h
  fun_induction takeTokens tokens g with
  | case1 | case10 | case14 => cases h
  | case2 word g rest hrom ih | case3 word g rest hnot hrom ih | case4 word g rom rest hrom ih
  | case5 g word rest hrom ih | case6 g rest hnot ih | case7 word rest g ih => exact ih h
  | case8 first attached rest g refused hflags =>
    cases h
    exact flagsOf_ne_badAmount first attached e hflags
  | case9 first attached rest g flags hflags ih =>
    rcases bind_eq_error_iff.mp h with hstop | ⟨next, -, hrest⟩
    · cases stop_of_takeFlags hstop
    · exact ih next hrest
  | case11 f rest g ih =>
    rcases bind_eq_error_iff.mp h with hstop | ⟨next, -, hrest⟩
    · cases stop_of_takeFlags hstop
    · exact ih next hrest
  | case12 b text rest g ih =>
    rcases bind_eq_error_iff.mp h with hstop | ⟨next, -, hrest⟩
    · exact takeAttached_ne_badAmount text g e hstop
    · exact ih next hrest
  | case13 b value rest g ih =>
    rcases bind_eq_error_iff.mp h with hstop | ⟨next, -, hrest⟩
    · exact takeValue_ne_badAmount value g e hstop
    · exact ih next hrest

/-! ## Settings -/

/-- A value is refused if there is none, or if it is a number that is not positive. -/
theorem check_eq_error {b : Amount} {value : Option Int} {e : AmountError}
    (h : b.check value = .error e) :
    (value = none ∧ e = .missing b) ∨
      ∃ n, value = some n ∧ (Writable n → e = .notPositive b n) := by
  cases value with
  | none =>
    cases h
    exact .inl ⟨rfl, rfl⟩
  | some n =>
    refine .inr ⟨n, rfl, ?_⟩
    intro hwritable
    by_cases hpos : 0 < n
    · rw [Amount.check, dif_pos hpos] at h
      cases h
    · rw [Amount.check, dif_neg hpos, if_pos hwritable] at h
      cases h
      rfl

/-- Settings are refused for one of the amounts. -/
theorem exists_check_of_ofValues {rom : String} {value : Amount → Option Int} {verbose : Bool}
    {e : AmountError} (h : Settings.ofValues rom value verbose = .error e) :
    ∃ b : Amount, b.check (value b) = .error e := by
  unfold Settings.ofValues at h
  rcases bind_eq_error_iff.mp h with hscale | ⟨scale, -, h⟩
  · exact ⟨_, hscale⟩
  · rcases bind_eq_error_iff.mp h with hcpu | ⟨cpuHz, -, h⟩
    · exact ⟨_, hcpu⟩
    · rcases bind_eq_error_iff.mp h with htimer | ⟨timerHz, -, h⟩
      · exact ⟨_, htimer⟩
      · cases h

theorem exists_check_of_settings {e : AmountError} (h : given.settings = .error (.badAmount e)) :
    ∃ b : Amount, b.check (given.value b) = .error e := by
  unfold Given.settings at h
  split at h
  · cases h
  next rom hrom =>
    split at h
    · cases h
    · cases hvalues : Settings.ofValues rom given.value given.verbose with
      | error refused =>
        rw [hvalues] at h
        cases h
        exact exists_check_of_ofValues hvalues
      | ok settings =>
        rw [hvalues] at h
        cases h

/-- A command line whose amounts are refused. -/
theorem exists_check_of_ofArguments {words : List String} {e : AmountError}
    (h : Request.ofArguments words = .error (.badAmount e)) :
    ∃ tokens given, Token.ofWords words = .ok tokens ∧ takeTokens tokens .nothing = .ok given ∧
      ∃ b : Amount, b.check (given.value b) = .error e := by
  unfold Request.ofArguments at h
  rcases bind_eq_error_iff.mp h with hwords | ⟨tokens, hwords, h⟩
  · exact absurd hwords (Token.ofWords_ne_badAmount words _)
  · split at h
    · cases h
    next refused htaken =>
      cases h
      exact absurd htaken (takeTokens_ne_badAmount tokens _ _)
    next given htaken =>
      rcases bind_eq_error_iff.mp h with hsettings | ⟨settings, -, hrun⟩
      · exact ⟨tokens, given, hwords, htaken, exists_check_of_settings hsettings⟩
      · cases hrun

/-- A command line whose refusal is not one of the console's own has left an amount without a value,
and has a word that ends in an equals sign and two dashes. -/
theorem exists_dashes_of_undiagnosed {words : List String} {e : Error}
    (h : Request.ofArguments words = .error e) (hd : e.diagnostic? = none) :
    ∃ a, e = .badAmount (.missing a) ∧
      ∃ word ∈ words, ∃ option, word = option ++ "=" ++ doubleDash := by
  obtain ⟨refused, rfl⟩ : ∃ refused, e = .badAmount refused := by
    cases e with
    | badAmount refused => exact ⟨refused, rfl⟩
    | _ => cases hd
  obtain ⟨tokens, given, hwords, htaken, b, hcheck⟩ := exists_check_of_ofArguments h
  obtain ⟨hdashes, hwritable⟩ := provides_of_nothing htaken b
  rcases check_eq_error hcheck with ⟨hnone, rfl⟩ | ⟨n, hsome, hrefused⟩
  · obtain ⟨word, hword, spelling, hspelling⟩ := Token.standsIn_ofWords hwords (hdashes hnone)
    refine ⟨b, rfl, word, hword, String.ofList spelling, ?_⟩
    apply String.toList_injective
    simp [hspelling, doubleDash]
  · rw [hrefused (hwritable n hsome)] at hd
    cases hd

end Chip8.CommandLine
