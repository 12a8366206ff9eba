import Chip8.Proofs.History
import Chip8.Proofs.ProgramImage

/-!
# Memory over a run

A program writes to memory by a single instruction, which stores the three decimal digits of a
register.  So at each point of a run an address holds the latest digit that has been stored there,
and where none has, the byte of the image that was loaded (`Executed.overlaid`).  That holds of
every program, also of one that stores digits over its own instructions or over other digits, and
for a store that would leave the memory, which fails and stores nothing.

As long as the digits stay out of the font, the font is intact, and a sprite of five rows at the
address of a glyph is that glyph (`Machine.FontIntact.draws`).

The main result is `Machine.memory_is_overlaid_image`.
-/

namespace Chip8

/-! ## Digits over the image -/

namespace Executed

/-- Whether the instruction has stored a digit at an address. -/
def Covers (e : Executed) (a : Nat) : Prop :=
  e.ins.mnemonic = some .ldDigits ∧ e.machine.i ≤ a ∧ a ≤ e.machine.i + 2

instance (e : Executed) (a : Nat) : Decidable (e.Covers a) :=
  inferInstanceAs (Decidable (_ ∧ _ ∧ _))

/-- The digit that belongs at an address: the hundreds of the register at the address register, and
the tens and ones behind. -/
def digitAt (e : Executed) (a : Nat) : Nat :=
  if a = e.machine.i then e.operand.toNat / 100
  else if a = e.machine.i + 1 then e.operand.toNat / 10 % 10
  else e.operand.toNat % 10

theorem digitAt_le (e : Executed) (a : Nat) : e.digitAt a ≤ 9 := by
  have hvalue := e.operand.toNat_lt
  unfold digitAt
  split
  · omega
  · split <;> omega

/-- What an address holds after a history: the latest digit that has been stored there, or else what
was there before. -/
def overlaid (initial : Nat → UInt8) (past : List Executed) (a : Nat) : Nat :=
  match past.reverse.find? fun e => e.Covers a with
  | some e => e.digitAt a
  | none => (initial a).toNat

theorem overlaid_concat (initial : Nat → UInt8) (past : List Executed) (e : Executed) (a : Nat) :
    overlaid initial (past ++ [e]) a =
      if e.Covers a then e.digitAt a else overlaid initial past a := by
  rw [overlaid, List.reverse_concat, List.find?_cons]
  by_cases hcovers : e.Covers a
  · simp [hcovers]
  · simp [hcovers, overlaid]

/-- Whether no digit has been stored in the font. -/
def SparesFont (past : List Executed) : Prop :=
  ∀ e ∈ past, e.ins.mnemonic = some .ldDigits → 80 ≤ e.machine.i

/-- An address in the font is then as it was before. -/
theorem overlaid_of_sparesFont {past : List Executed} (h : SparesFont past)
    (initial : Nat → UInt8) {a : Nat} (ha : a < 80) :
    overlaid initial past a = (initial a).toNat := by
  have hnone : (past.reverse.find? fun e => e.Covers a) = none := by
    rw [List.find?_eq_none]
    intro e he
    simp only [decide_eq_true_eq]
    rintro ⟨hstore, hlow, -⟩
    have := h e (List.mem_reverse.mp he) hstore
    omega
  rw [overlaid, hnone]

end Executed

namespace Machine

open Executed

variable {m : Machine} {ins : Instruction} {past : List Executed}

/-! ## One instruction -/

/-- Where there is room for them, the instruction that stores digits does. -/
theorem step_of_storeDigits (hfetch : m.fetch = .ok ins) (hstore : ins.mnemonic = some .ldDigits)
    (hrange : m.memory.InBounds m.i 3) :
    m.step = ⟨completed { m.advance with
      memory := m.memory.overwrite m.i.toNat ((decimalDigits (m.v.get ins.x)).map UInt8.ofInt) },
      .ok ins⟩ := by
  have hrun : (execute ins).run m.advance = (storeDigits ins.x).run m.advance := by
    rw [execute, Exec.run_get_bind, hstore]
  exact step_of_execute hfetch
    (hrun.trans ((run_storeDigits ins.x m.advance).trans (if_pos hrange)))

/-- An instruction that completes stores its digits if it is the one that stores digits, and leaves
all other bytes alone. -/
theorem byte_of_step (hok : m.step.result = .ok ins) (a : Nat) :
    (m.step.machine.memory.byte a).toNat =
      if (Executed.mk m ins).Covers a then (Executed.mk m ins).digitAt a
      else (m.memory.byte a).toNat := by
  by_cases hstore : ins.mnemonic = some .ldDigits
  · obtain ⟨-, next, hexec, hmachine⟩ := execute_of_step hok
    rw [execute, Exec.run_get_bind, hstore] at hexec
    simp only [run_storeDigits] at hexec
    split at hexec
    next hrange =>
      cases hexec
      rw [hmachine]
      refine (toNat_byte_overwrite_digits hrange (m.v.get ins.x) a).trans ?_
      simp only [digitAt, operand, Covers, hstore, true_and, advance]
      grind
    next => cases hexec
  · rw [(frame_of_step hok).memory hstore, if_neg (fun hcovers => hstore hcovers.1)]

/-! ## Runs -/

/-- The memory holds what its initial bytes and the history say. -/
def HoldsOverlay (initial : Nat → UInt8) (past : List Executed) (m : Machine) : Prop :=
  ∀ a : Nat, (m.memory.byte a).toNat = overlaid initial past a

theorem HoldsOverlay.keptBySteps (initial : Nat → UInt8) : KeptBySteps (HoldsOverlay initial) where
  completes := by
    intro past m ins h hok a
    rw [byte_of_step hok, overlaid_concat, h a]
  fails := by
    intro past m h
    exact h

theorem HoldsOverlay.after {initial : Nat → UInt8} (h : HoldsOverlay initial past m)
    {actions : List Action} (hquiet : ∀ action ∈ actions, action.fillsMemory = false) :
    HoldsOverlay initial (past ++ m.history actions) (m.after actions) := by
  refine (HoldsOverlay.keptBySteps initial).history_induction ?_ h
  intro action haction hstep hrun past m h
  rw [HoldsOverlay, (m.hostFrame_of_perform hstep hrun).memory (hquiet action haction)]
  exact h

/-! ## Glyphs -/

/-- The font is where programs expect it. -/
structure FontIntact (m : Machine) : Prop where
  room : 80 ≤ m.memory.size
  bytes : ∀ a < 80, m.memory.byte a = font.getD a 0

theorem FontIntact.of_load {before : Memory} {rom : List UInt8}
    (hload : before.load rom = .ok m.memory) : m.FontIntact where
  room := by
    have hsize := Memory.size_of_load hload
    have hroom := (Memory.load_eq_ok_iff.mp hload).1
    have hstart : Memory.programStart = 512 := rfl
    omega
  bytes := by
    intro a ha
    rw [Memory.byte_of_load hload, Memory.loadedByte, if_pos ha]

/-- The font stays where it is as long as no digit is stored over it. -/
theorem FontIntact.after (h : m.FontIntact) {actions : List Action}
    (hquiet : ∀ action ∈ actions, action.fillsMemory = false)
    (hspares : SparesFont (m.history actions)) : (m.after actions).FontIntact where
  room := by
    rw [size_after]
    exact h.room
  bytes := by
    intro a ha
    have hstart : HoldsOverlay m.memory.byte [] m := fun _ => rfl
    have hbyte := hstart.after hquiet a
    rw [List.nil_append, overlaid_of_sparesFont hspares _ ha] at hbyte
    rw [UInt8.toNat_inj.mp hbyte, h.bytes a ha]

theorem FontIntact.of_memory_eq {next : Machine} (h : m.FontIntact)
    (hsame : next.memory = m.memory) : next.FontIntact where
  room := by
    rw [hsame]
    exact h.room
  bytes := by
    rw [hsame]
    exact h.bytes

/-- The five bytes at the address of a glyph are its rows. -/
theorem FontIntact.slice_glyph (h : m.FontIntact) (digit : Fin 16) :
    m.memory.slice (glyphSize * digit) glyphSize = glyph digit := by
  have hfont : m.memory.slice (glyphSize * digit) glyphSize =
      (List.range glyphSize).map fun k => font.getD (glyphSize * digit + k) 0 := by
    refine List.map_congr_left fun k hk => h.bytes _ ?_
    have hk' : k < 5 := List.mem_range.mp hk
    have hdigit := digit.isLt
    simp only [glyphSize]
    omega
  have hrows : ∀ d : Fin 16,
      ((List.range glyphSize).map fun k => font.getD (glyphSize * d + k) 0) = glyph d := by
    decide
  rw [hfont, hrows digit]

/-- Whether the next step draws the given rows where its instruction says, and notes in VF, the last
register, whether they met a lit pixel. -/
def Draws (m : Machine) (ins : Instruction) (rows : List UInt8) : Prop :=
  m.step.result = .ok ins ∧ ∃ screen hit,
    m.screen.draw (m.v.get ins.x).toNat (m.v.get ins.y).toNat rows = (screen, hit) ∧
      m.step.machine.screen = screen ∧ m.step.machine.v.get (Fin.last 15) = if hit then 1 else 0

/-- A sprite inside memory is drawn with the bytes that are there. -/
theorem draws_of_fetch (hfetch : m.fetch = .ok ins) (hdraw : ins.mnemonic = some .drw)
    (hrange : m.memory.InBounds m.i ins.n.val) :
    m.Draws ins (m.memory.slice m.i.toNat ins.n.val) := by
  have hrun : (execute ins).run m.advance = (drawSprite ins.x ins.y ins.n).run m.advance := by
    rw [execute, Exec.run_get_bind, hdraw]
  have hexec := (run_drawSprite ins.x ins.y ins.n m.advance).trans (if_pos hrange)
  rw [Draws, step_of_execute hfetch (hrun.trans hexec)]
  exact ⟨rfl, _, _, rfl, rfl, (get_setV _ 15 15 _).trans (if_pos rfl)⟩

/-- With the font intact, a sprite of five rows at the address of a glyph is that glyph. -/
theorem FontIntact.draws (h : m.FontIntact) {digit : Fin 16} (hi : m.i = glyphSize * digit)
    (hfetch : m.fetch = .ok ins) (hdraw : ins.mnemonic = some .drw)
    (hrows : ins.n.val = glyphSize) :
    m.Draws ins (glyph digit) := by
  have hdigit := digit.isLt
  have hroom := h.room
  have hrange : m.memory.InBounds m.i ins.n.val := by
    rw [hrows, hi, Memory.InBounds]
    simp only [glyphSize]
    omega
  have hdraws := draws_of_fetch hfetch hdraw hrange
  rw [hrows, hi] at hdraws
  rw [← h.slice_glyph digit]
  exact hdraws

/-- The instruction that looks up a glyph never fails, and points the address register at it. -/
theorem step_of_lookup (hfetch : m.fetch = .ok ins) (hglyph : ins.mnemonic = some .ldGlyph) :
    m.step = ⟨completed { m.advance with i := glyphSize * (m.v.get ins.x).toNat }, .ok ins⟩ := by
  have hexec : (execute ins).run m.advance =
      .ok () { m.advance with i := glyphSize * (m.v.get ins.x).toNat } := by
    rw [execute, Exec.run_get_bind, hglyph]
    rfl
  exact step_of_execute hfetch hexec

/-- Whether digits are shown as they should be from now on: if the next instruction looks up the
glyph of a digit, then it completes, and a sprite of five rows that is drawn from there is that
glyph, whatever happens in between that stores no digit in the font and leaves the address register
where it is. -/
def ShowsDigits (m : Machine) : Prop :=
  ∀ (lookup drawing : Instruction) (digit : Fin 16) (between : List Action),
    m.fetch = .ok lookup → lookup.mnemonic = some .ldGlyph → (m.v.get lookup.x).toNat = digit →
    (∀ action ∈ between, action.fillsMemory = false) →
    SparesFont (m.step.machine.history between) →
    (m.step.machine.after between).i = m.step.machine.i →
    (m.step.machine.after between).fetch = .ok drawing → drawing.mnemonic = some .drw →
    drawing.n.val = glyphSize →
    m.step.result = .ok lookup ∧ (m.step.machine.after between).Draws drawing (glyph digit)

theorem FontIntact.showsDigits (h : m.FontIntact) : m.ShowsDigits := by
  intro lookup drawing digit between hlookup hglyph hdigit hquiet hspares hi hfetch hdraw hrows
  have hstep := step_of_lookup hlookup hglyph
  have hmemory : m.step.machine.memory = m.memory := by rw [hstep]; rfl
  have haddress : m.step.machine.i = glyphSize * (m.v.get lookup.x).toNat := by rw [hstep]; rfl
  have hintact := (h.of_memory_eq hmemory).after hquiet hspares
  rw [haddress, hdigit] at hi
  exact ⟨by rw [hstep], hintact.draws hi hfetch hdraw hrows⟩

/-- **Memory is the loaded image under the stored digits.**  Whatever a program does once it has
been loaded, and whatever its host does but fill memory, the memory keeps its size, and each address
holds the latest digit that an instruction has stored there, or else the byte of the image.  As long
as no digit is stored in the font, the font is intact and digits are shown by their glyphs. -/
theorem memory_is_overlaid_image {before : Memory} {rom : List UInt8} {actions : List Action}
    (hload : before.load rom = .ok m.memory)
    (hquiet : ∀ action ∈ actions, action.fillsMemory = false) :
    (m.after actions).memory.size = before.size ∧
      (∀ a : Nat, ((m.after actions).memory.byte a).toNat =
        overlaid (Memory.loadedByte rom) (m.history actions) a) ∧
      (∀ e ∈ m.history actions, ∀ a : Nat, e.digitAt a ≤ 9) ∧
      (SparesFont (m.history actions) →
        (∀ a < 80, (m.after actions).memory.byte a = font.getD a 0) ∧
          (m.after actions).ShowsDigits) := by
  have hstart : HoldsOverlay (Memory.loadedByte rom) [] m := by
    intro a
    rw [Memory.byte_of_load hload]
    rfl
  refine ⟨?_, hstart.after hquiet, fun e _ => e.digitAt_le, ?_⟩
  · rw [size_after, Memory.size_of_load hload]
  · intro hspares
    have hintact := (FontIntact.of_load hload).after hquiet hspares
    exact ⟨hintact.bytes, hintact.showsDigits⟩

/-- A program that stores the digits of V0, looks up its glyph and draws it. -/
def showingRom : List UInt8 :=
  [0xF0, 0x33, 0xF0, 0x29, 0xD0, 0x05]

/-- A machine that is about to run that program, with ten in its registers. -/
def showing : Machine :=
  { start (Memory.image Memory.standardSize showingRom) .standard with
    i := 0x300
    v := Vector.replicate 16 10 }

theorem load_showing : (Memory.blank Memory.standardSize).load showingRom = .ok showing.memory :=
  Memory.load_blank (by decide)

/-- The first instruction of that program stores the digits of ten. -/
theorem step_showing :
    showing.history [.step] = [⟨showing, .ofWord 0xF033⟩] ∧
      (showing.after [.step]).pc = 0x202 ∧ (showing.after [.step]).v = showing.v := by
  obtain ⟨hrange, hword⟩ := word_image (m := showing) (by decide) rfl rfl
  have hfetch : showing.fetch = .ok (.ofWord 0xF033) := by
    rw [fetch_eq, if_pos hrange, hword]
    rfl
  have hsize : showing.memory.size = Memory.standardSize := Memory.size_image (by decide)
  have hroom : showing.memory.InBounds showing.i 3 := by
    rw [Memory.InBounds, hsize]
    decide
  have hstep := step_of_storeDigits hfetch (by decide) hroom
  -- Stated of any machine, because this one would be run.
  have hafter : ∀ m : Machine, m.after [.step] = m.step.machine := fun _ => rfl
  have hhistory : ∀ m : Machine, m.history [.step] = m.stepped := fun _ => List.append_nil _
  rw [hafter, hhistory, stepped, hstep]
  exact ⟨rfl, rfl, rfl⟩

/-- A machine that has done so and shows digits as it should draws a ten next. -/
theorem draws_ten (hsize : m.memory.size = Memory.standardSize)
    (hholds : HoldsOverlay (Memory.loadedByte showingRom) [⟨showing, .ofWord 0xF033⟩] m)
    (hpc : m.pc = 0x202) (hv : m.v = showing.v) (hshows : m.ShowsDigits) :
    (m.step.machine.after [.tick]).Draws (.ofWord 0xD005) (glyph 10) := by
  have hlookup : m.fetch = .ok (.ofWord 0xF029) := by
    rw [fetch_eq, if_pos (by rw [hpc, Memory.InBounds, hsize]; decide), word, hpc, hholds, hholds]
    decide
  have hstep := step_of_lookup hlookup (by decide)
  have hdrawing : (m.step.machine.after [.tick]).fetch = .ok (.ofWord 0xD005) := by
    have hnext : (m.step.machine.after [.tick]).pc = 0x204 := by
      rw [hstep]
      exact congrArg (· + 2) hpc
    have hmemory : (m.step.machine.after [.tick]).memory = m.memory := by
      rw [hstep]
      rfl
    rw [fetch_eq, hmemory, if_pos (by rw [hnext, Memory.InBounds, hsize]; decide), word, hnext,
      hmemory, hholds, hholds]
    decide
  have hten : (m.v.get (Instruction.ofWord 0xF029).x).toNat = (10 : Fin 16) := by
    rw [hv]
    decide
  obtain ⟨-, hdraws⟩ := hshows (.ofWord 0xF029) (.ofWord 0xD005) 10 [.tick] hlookup (by decide) hten
    (by decide) (by simp [history, executed, SparesFont]) rfl hdrawing (by decide) (by decide)
  exact hdraws

/-- The digits of that program stand in memory, and it draws the glyph. -/
theorem showing_draws_over_image :
    ((showing.after [.step]).memory.byte 0x301).toNat = 1 ∧
      ((showing.after [.step]).step.machine.after [.tick]).Draws (.ofWord 0xD005) (glyph 10) := by
  obtain ⟨hhistory, hpc, hv⟩ := step_showing
  have hspares : SparesFont [⟨showing, .ofWord 0xF033⟩] := by
    intro e he _
    obtain rfl := List.mem_singleton.mp he
    decide
  have hquiet : ∀ action ∈ [Action.step], action.fillsMemory = false := by decide
  obtain ⟨hsize, hbyte, -, hfont⟩ := memory_is_overlaid_image load_showing hquiet
  rw [Memory.size_blank] at hsize
  rw [hhistory] at hbyte hfont
  obtain ⟨-, hshows⟩ := hfont hspares
  exact ⟨(hbyte 0x301).trans (by decide), draws_ten hsize hbyte hpc hv hshows⟩

end Machine

end Chip8
