import Chip8.Keypad.Layout
import Mathlib.Data.Finset.Card
import Mathlib.Data.Fintype.Card
import Mathlib.Data.List.FinRange
import Mathlib.Order.Bounds.Basic

/-!
# The keymap of a host

A keymap is made by going through the keys of the keypad once.  The first name that the host does
not list ends it; until then each key takes over its symbol, from an earlier key if need be.  So the
two searches hidden in the loop run in opposite directions: the error names the *first* key without
a symbol (`Keymap.addKeys_eq_error_iff`), and a symbol stands for the *last* of its keys
(`Keymap.find?_addKeys`).  As the keys are in order, these are the least and the greatest
(`Keymap.find?_eq_some_iff_of_pairwise`).

No key is shadowed by another one exactly if the symbols are distinct, and then, as there is one
entry for each symbol, the keymap has sixteen.

The main result is `Keymap.ofHost_follows_layout`.
-/

namespace Chip8.Keymap

/-- The name under which a host lists the symbol of a key of the keypad. -/
def keyName (k : Fin 16) : String :=
  symbolName (keyLayout.get k)

example : (List.finRange 16).map keyName =
    ["X", "_1", "_2", "_3", "Q", "W", "E", "A", "S", "D", "Z", "C", "_4", "R", "F", "V"] := by
  decide

variable {symbol? : String → Option Int} {m map : Keymap} {ks : List (Fin 16)} {symbol : Int}
  {k : Fin 16}

/-! ## Single entries -/

theorem lookup_filter_ne {entries : List (Int × Fin 16)} {old : Int} (h : symbol ≠ old) :
    (entries.filter fun e => e.1 != old).lookup symbol = entries.lookup symbol := by
  induction entries with
  | nil => rfl
  | cons e entries ih =>
    obtain ⟨s, k⟩ := e
    by_cases hs : s = old
    · have hother : (symbol == old) = false := beq_false_of_ne h
      simp [hs, ih, List.lookup_cons, hother]
    · simp [hs, ih, List.lookup_cons]

/-- The new key takes over its symbol, and no other one. -/
theorem find?_insert (m : Keymap) (s : Int) (k : Fin 16) (symbol : Int) :
    (m.insert s k).find? symbol = if symbol = s then some k else m.find? symbol := by
  by_cases h : symbol = s
  · simp [find?, insert, h]
  · have hother : (symbol == s) = false := beq_false_of_ne h
    simp [find?, insert, List.lookup_cons, h, hother, lookup_filter_ne h]

/-- The symbols that have an entry. -/
def symbols (m : Keymap) : List Int :=
  m.entries.map Prod.fst

theorem nodup_symbols_insert (h : m.symbols.Nodup) (s : Int) (k : Fin 16) :
    (m.insert s k).symbols.Nodup := by
  have hrest : (m.entries.filter fun e => e.1 != s).map Prod.fst = m.symbols.filter (· != s) := by
    rw [symbols, List.filter_map]
    rfl
  show (s :: (m.entries.filter fun e => e.1 != s).map Prod.fst).Nodup
  rw [hrest, List.nodup_cons]
  exact ⟨by simp, h.filter _⟩

theorem mem_symbols_iff : symbol ∈ m.symbols ↔ ∃ k, m.find? symbol = some k := by
  rw [← Option.isSome_iff_exists, find?, List.lookup_isSome_iff, symbols, List.mem_map]
  exact exists_congr fun e => and_congr_right fun _ => by rw [beq_iff_eq, eq_comm]

/-- With one entry for each symbol, an entry is what is found. -/
theorem mem_entries_iff (h : m.symbols.Nodup) :
    (symbol, k) ∈ m.entries ↔ m.find? symbol = some k := by
  constructor
  · intro hmem
    obtain ⟨before, rest, hentries⟩ := List.append_of_mem hmem
    refine List.lookup_eq_some_iff.mpr ⟨before, rest, hentries, fun e he => ?_⟩
    rw [symbols, hentries, List.map_append, List.nodup_append] at h
    have hne := h.2.2 e.1 (List.mem_map_of_mem he) symbol (by simp)
    simpa using hne.symm
  · intro hfound
    obtain ⟨before, rest, hentries, -⟩ := List.lookup_eq_some_iff.mp hfound
    simp [hentries]

/-! ## Going through the keys -/

theorem addKeys_nil (symbol? : String → Option Int) (m : Keymap) : addKeys symbol? [] m = .ok m :=
  rfl

theorem addKeys_cons (symbol? : String → Option Int) (k : Fin 16) (ks : List (Fin 16))
    (m : Keymap) :
    addKeys symbol? (k :: ks) m =
      match symbol? (keyName k) with
      | none => .error (keyName k)
      | some s => addKeys symbol? ks (m.insert s k) :=
  rfl

/-- The error names the first key without a symbol. -/
theorem addKeys_eq_error_iff {name : String} :
    addKeys symbol? ks m = .error name ↔
      ∃ k, ks.find? (fun k => symbol? (keyName k) = none) = some k ∧ name = keyName k := by
  induction ks generalizing m with
  | nil => simp [addKeys_nil]
  | cons k ks ih =>
    rw [addKeys_cons]
    cases hsymbol : symbol? (keyName k) with
    | none => simp [hsymbol, eq_comm]
    | some s => simp [hsymbol, ih]

/-- There is a keymap only if each key has a symbol, which the key takes over. -/
theorem addKeys_cons_eq_ok_iff :
    addKeys symbol? (k :: ks) m = .ok map ↔
      ∃ s, symbol? (keyName k) = some s ∧ addKeys symbol? ks (m.insert s k) = .ok map := by
  rw [addKeys_cons]
  cases symbol? (keyName k) <;> simp

/-- A symbol stands for the last of the keys that have it. -/
theorem find?_addKeys (h : addKeys symbol? ks m = .ok map) (symbol : Int) :
    map.find? symbol =
      (ks.reverse.find? fun k => symbol? (keyName k) = some symbol).or (m.find? symbol) := by
  -- Over every keymap to start from, as the keys still to come win over the one just entered.
  induction ks generalizing m with
  | nil =>
    cases h
    rfl
  | cons k ks ih =>
    obtain ⟨s, hsymbol, hrest⟩ := addKeys_cons_eq_ok_iff.mp h
    have hnew : (m.insert s k).find? symbol =
        ([k].find? fun k => symbol? (keyName k) = some symbol).or (m.find? symbol) := by
      rw [find?_insert]
      by_cases hs : symbol = s
      · simp [hsymbol, hs]
      · simp [hsymbol, hs, Ne.symm hs]
    rw [ih hrest, hnew, List.reverse_cons, List.find?_append, Option.or_assoc]

theorem nodup_symbols_addKeys (hm : m.symbols.Nodup) (h : addKeys symbol? ks m = .ok map) :
    map.symbols.Nodup := by
  induction ks generalizing m with
  | nil =>
    cases h
    exact hm
  | cons k ks ih =>
    obtain ⟨s, -, hrest⟩ := addKeys_cons_eq_ok_iff.mp h
    exact ih (nodup_symbols_insert hm s k) hrest

/-- Only the names of the layout are looked up. -/
theorem addKeys_congr {other : String → Option Int}
    (h : ∀ k, other (keyName k) = symbol? (keyName k)) :
    addKeys other ks m = addKeys symbol? ks m := by
  induction ks generalizing m with
  | nil => rfl
  | cons k ks ih =>
    rw [addKeys_cons, addKeys_cons, h]
    cases symbol? (keyName k) with
    | none => rfl
    | some s => exact ih

/-! ## First and last -/

/-- In an ordered list, what is found first comes before all else that could be found. -/
theorem find?_eq_some_iff_of_pairwise {α : Type} {R : α → α → Prop} [Std.Asymm R] {xs : List α}
    (hxs : xs.Pairwise R) {p : α → Bool} {a : α} :
    xs.find? p = some a ↔ a ∈ xs ∧ p a = true ∧ ∀ b ∈ xs, p b = true → a = b ∨ R a b := by
  constructor
  · intro hfound
    obtain ⟨ha, before, rest, rfl, hbefore⟩ := List.find?_eq_some_iff_append.mp hfound
    refine ⟨by simp, ha, fun b hb hpb => ?_⟩
    rcases List.mem_append.mp hb with hb | hb
    · have hnot := hbefore b hb
      simp [hpb] at hnot
    · rcases List.mem_cons.mp hb with rfl | hb
      · exact .inl rfl
      · have hrest := (List.pairwise_append.mp hxs).2.1
        exact .inr (List.rel_of_pairwise_cons hrest hb)
  · rintro ⟨hmem, ha, hfirst⟩
    obtain ⟨before, rest, rfl⟩ := List.append_of_mem hmem
    refine List.find?_eq_some_iff_append.mpr ⟨ha, before, rest, rfl, fun b hb => ?_⟩
    have hba : R b a := (List.pairwise_append.mp hxs).2.2 b hb a List.mem_cons_self
    have hnot : p b ≠ true := by
      intro hpb
      rcases hfirst b (List.mem_append_left _ hb) hpb with rfl | hab
      · exact Std.Asymm.asymm _ _ hba hba
      · exact Std.Asymm.asymm _ _ hba hab
    simpa using hnot

/-- The error of a host names the least key without a symbol. -/
theorem ofHost_eq_error_iff {name : String} :
    ofHost symbol? = .error name ↔
      ∃ k, IsLeast {l | symbol? (keyName l) = none} k ∧ name = keyName k := by
  rw [ofHost, addKeys_eq_error_iff]
  refine exists_congr fun k => and_congr_left fun _ => ?_
  rw [find?_eq_some_iff_of_pairwise (List.pairwise_lt_finRange 16)]
  simp [IsLeast, lowerBounds, le_iff_eq_or_lt]

theorem ofHost_fails_iff :
    (∃ name, ofHost symbol? = .error name) ↔ ∃ k, symbol? (keyName k) = none := by
  constructor
  · rintro ⟨name, h⟩
    obtain ⟨k, hleast, -⟩ := ofHost_eq_error_iff.mp h
    exact ⟨k, hleast.1⟩
  · rintro ⟨k, hk⟩
    have hsome : ((List.finRange 16).find? fun k => symbol? (keyName k) = none).isSome = true :=
      List.find?_isSome.mpr ⟨k, List.mem_finRange k, decide_eq_true hk⟩
    obtain ⟨first, hfirst⟩ := Option.isSome_iff_exists.mp hsome
    exact ⟨keyName first, addKeys_eq_error_iff.mpr ⟨first, hfirst, rfl⟩⟩

theorem exists_ofHost (h : ∀ k, symbol? (keyName k) ≠ none) :
    ∃ map, ofHost symbol? = .ok map := by
  cases hresult : ofHost symbol? with
  | ok map => exact ⟨map, rfl⟩
  | error name =>
    obtain ⟨k, hk⟩ := ofHost_fails_iff.mp ⟨name, hresult⟩
    exact absurd hk (h k)

theorem ne_none_of_ofHost (h : ofHost symbol? = .ok map) (k : Fin 16) :
    symbol? (keyName k) ≠ none := by
  intro hk
  obtain ⟨name, hname⟩ := ofHost_fails_iff.mpr ⟨k, hk⟩
  rw [h] at hname
  cases hname

theorem find?_ofHost_eq (h : ofHost symbol? = .ok map) (symbol : Int) :
    map.find? symbol =
      (List.finRange 16).reverse.find? fun k => symbol? (keyName k) = some symbol := by
  have hempty : empty.find? symbol = none := rfl
  rw [find?_addKeys h, hempty, Option.or_none]

/-- In the keymap of a host, a symbol stands for the greatest of its keys. -/
theorem find?_ofHost (h : ofHost symbol? = .ok map) :
    map.find? symbol = some k ↔ IsGreatest {l | symbol? (keyName l) = some symbol} k := by
  have hreverse : (List.finRange 16).reverse.Pairwise (· > ·) :=
    List.pairwise_reverse.mpr (List.pairwise_lt_finRange 16)
  rw [find?_ofHost_eq h, find?_eq_some_iff_of_pairwise hreverse]
  simp [IsGreatest, upperBounds, le_iff_eq_or_lt, eq_comm]

example : ofHost (fun _ => some 0) = .ok ⟨[(0, Fin.last 15)]⟩ :=
  rfl

/-- Every symbol of the layout stands for a key, and no other one does. -/
theorem exists_find?_ofHost_iff (h : ofHost symbol? = .ok map) :
    (∃ k, map.find? symbol = some k) ↔ ∃ k, symbol? (keyName k) = some symbol := by
  rw [← Option.isSome_iff_exists, find?_ofHost_eq h, List.find?_isSome]
  simp

/-! ## Distinct symbols -/

/-- Whether a host lists distinct symbols for the keys of the layout. -/
def DistinctSymbols (symbol? : String → Option Int) : Prop :=
  ∀ k l, symbol? (keyName k) = symbol? (keyName l) → k = l

theorem nodup_symbols_ofHost (h : ofHost symbol? = .ok map) : map.symbols.Nodup :=
  nodup_symbols_addKeys (show empty.symbols.Nodup from List.nodup_nil) h

/-- There are as many entries as there are symbols in the layout. -/
theorem length_entries_ofHost (h : ofHost symbol? = .ok map) :
    map.entries.length = (Finset.univ.image fun k => symbol? (keyName k)).card := by
  have himage : (map.symbols.map some).toFinset =
      Finset.univ.image fun k => symbol? (keyName k) := by
    ext listed
    cases listed with
    | none => simp [ne_none_of_ofHost h]
    | some symbol => simp [mem_symbols_iff, exists_find?_ofHost_iff h]
  have hnodup : (map.symbols.map some).Nodup :=
    (nodup_symbols_ofHost h).map (Option.some_injective _)
  rw [← himage, List.toFinset_card_of_nodup hnodup, List.length_map, symbols, List.length_map]

theorem length_entries_eq_iff (h : ofHost symbol? = .ok map) :
    map.entries.length = 16 ↔ DistinctSymbols symbol? := by
  have hinjective := Finset.card_image_iff (s := Finset.univ) (f := fun k => symbol? (keyName k))
  rw [Finset.card_fin, Finset.coe_univ, Set.injOn_univ] at hinjective
  rw [length_entries_ofHost h]
  exact hinjective

/-- Each key has just one symbol, unless another key has taken it. -/
theorem existsUnique_symbol_iff (h : ofHost symbol? = .ok map) :
    (∀ k, ∃! symbol, map.find? symbol = some k) ↔ DistinctSymbols symbol? := by
  simp only [find?_ofHost h]
  constructor
  · intro hunique
    -- A key with a symbol of its own is the greatest with it, so neither of two can be less.
    have hle : ∀ k l, symbol? (keyName k) = symbol? (keyName l) → l ≤ k := by
      intro k l hsame
      obtain ⟨symbol, hgreatest, -⟩ := hunique k
      exact hgreatest.2 (hsame.symm.trans hgreatest.1)
    intro k l hsame
    exact le_antisymm (hle l k hsame.symm) (hle k l hsame)
  · intro hdistinct k
    obtain ⟨symbol, hsymbol⟩ := Option.ne_none_iff_exists'.mp (ne_none_of_ofHost h k)
    refine ⟨symbol, ⟨hsymbol, fun l hl => ?_⟩, fun other hother => ?_⟩
    · exact (hdistinct l k (hl.trans hsymbol.symm)).le
    · exact Option.some.inj (hother.1.symm.trans hsymbol)

/-! ## The law -/

/-- How a keymap follows the layout, for the symbols that a host lists. -/
structure FollowsLayout (symbol? : String → Option Int) (map : Keymap) : Prop where
  /-- A symbol stands for the greatest of the keys that have it. -/
  find?_iff : ∀ symbol k,
    map.find? symbol = some k ↔ IsGreatest {l | symbol? (keyName l) = some symbol} k
  /-- The symbols of the layout stand for keys, and no others do. -/
  exists_iff : ∀ symbol,
    (∃ k, map.find? symbol = some k) ↔ ∃ k, symbol? (keyName k) = some symbol
  /-- The entries are what can be found, … -/
  mem_entries_iff : ∀ symbol k, (symbol, k) ∈ map.entries ↔ map.find? symbol = some k
  /-- … one for each symbol. -/
  nodup : map.symbols.Nodup
  /-- There are sixteen entries, or just one symbol for each key, if and only if no two keys share
  a symbol. -/
  length_eq_iff : map.entries.length = 16 ↔ DistinctSymbols symbol?
  bijective_iff : (∀ k, ∃! symbol, map.find? symbol = some k) ↔ DistinctSymbols symbol?

theorem followsLayout_ofHost (h : ofHost symbol? = .ok map) : map.FollowsLayout symbol? where
  find?_iff _ _ := find?_ofHost h
  exists_iff _ := exists_find?_ofHost_iff h
  mem_entries_iff _ _ := mem_entries_iff (nodup_symbols_ofHost h)
  nodup := nodup_symbols_ofHost h
  length_eq_iff := length_entries_eq_iff h
  bijective_iff := existsUnique_symbol_iff h

/-- **Keymaps follow the layout.**  A host that does not list all names of the layout gets no keymap
but the first name that is missing.  From any other host, the keymap takes just the symbols of the
layout, each to the greatest of its keys, so it is a bijection if and only if they are distinct.
What else a host lists does not matter. -/
theorem ofHost_follows_layout (symbol? : String → Option Int) :
    ((∃ name, ofHost symbol? = .error name) ↔ ∃ k, symbol? (keyName k) = none) ∧
    (∀ name, ofHost symbol? = .error name ↔
      ∃ k, IsLeast {l | symbol? (keyName l) = none} k ∧ name = keyName k) ∧
    (∀ map, ofHost symbol? = .ok map → map.FollowsLayout symbol?) ∧
    (∀ other : String → Option Int, (∀ k, other (keyName k) = symbol? (keyName k)) →
      ofHost other = ofHost symbol?) :=
  ⟨ofHost_fails_iff, fun _ => ofHost_eq_error_iff, fun _ => followsLayout_ofHost,
    fun _ => addKeys_congr⟩

end Chip8.Keymap
