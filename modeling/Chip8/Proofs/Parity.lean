import Chip8.Proofs.CallDiscipline
import Chip8.Proofs.Runs

/-!
# Even addresses

Instructions are two bytes long, and a program starts at an even address.  From an even address an
instruction moves on by two or four, a jump or a call leads where it says, and a return leads to an
address behind a call.  So a machine that is only ever sent to even addresses stays at even
addresses, whether its instructions complete or fail and whatever the program writes over itself.

The program counter alone is not enough for an induction, because a return sets it to what the stack
holds: the return addresses in use are even as well (`Machine.EvenAddresses`).  They are even as soon
as all calls stood at even addresses, whatever these calls lead to, and so the first odd address of a
run can only come from the instruction right before it.

The main result is `Machine.addresses_stay_even`.
-/

namespace Chip8

/-- A jump or a call to an odd address. -/
def Instruction.JumpsOdd (ins : Instruction) : Prop :=
  (ins.mnemonic = some .jp ∨ ins.mnemonic = some .call) ∧ ¬ 2 ∣ ins.nnn.val

instance (ins : Instruction) : Decidable ins.JumpsOdd :=
  inferInstanceAs (Decidable (_ ∧ _))

namespace Machine

/-- All return addresses in use are even. -/
def EvenReturns (m : Machine) : Prop :=
  ∀ address ∈ m.returnAddresses, 2 ∣ address

/-- The addresses that a machine continues at, now or after a return, are even. -/
structure EvenAddresses (m : Machine) : Prop where
  counter : 2 ∣ m.pc
  current : 2 ∣ m.currentPc
  returns : m.EvenReturns

variable {m before next last : Machine} {ins : Instruction} {fault : Fault}
  {past steps later : List Machine} {actions : List Action}

/-! ## Where instructions continue -/

theorem pc_of_skipIf {condition : Bool} (h : (skipIf condition).run m = .ok () next) :
    next.pc = m.pc ∨ next.pc = m.pc + 2 := by
  rw [run_skipIf] at h
  cases h
  cases condition
  · exact .inl rfl
  · exact .inr rfl

theorem pc_of_skipUnlessDown {word : UInt16} {x : Fin 16}
    (h : (skipUnlessDown word x).run m = .ok () next) : next.pc = m.pc ∨ next.pc = m.pc + 2 := by
  rw [run_skipUnlessDown] at h
  split at h
  next hkey =>
    cases h
    cases m.keypad.holds ⟨(m.v.get x).toNat, hkey⟩
    · exact .inr rfl
    · exact .inl rfl
  next => cases h

/-- An instruction that completes moves on by no more than one other, unless it is a return, or leads
to its own address. -/
theorem pc_of_execute (h : (execute ins).run m = .ok () next) :
    (next.pc = m.pc ∨ next.pc = m.pc + 2) ∨
      ((ins.mnemonic = some .jp ∨ ins.mnemonic = some .call) ∧ next.pc = ins.nnn.val) ∨
      ins.mnemonic = some .ret := by
  rw [execute, Exec.run_get_bind] at h
  cases hk : ins.mnemonic with
  | none =>
    rw [hk] at h
    cases h
  | some mnemonic =>
    rw [hk] at h
    cases mnemonic with
    | ret => exact .inr (.inr rfl)
    | jp =>
      cases h
      exact .inr (.inl ⟨.inl rfl, rfl⟩)
    | call =>
      obtain ⟨-, stack, -, rfl⟩ := ok_of_callTo h
      exact .inr (.inl ⟨.inr rfl, rfl⟩)
    | seByte | sneByte | seReg | sneReg => exact .inl (pc_of_skipIf h)
    | sknp => exact .inl (pc_of_skipUnlessDown h)
    | drw =>
      obtain ⟨screen, hit, -, rfl⟩ := ok_of_drawSprite h
      exact .inl (.inl rfl)
    | ldDigits =>
      obtain ⟨memory, rfl⟩ := ok_of_storeDigits h
      exact .inl (.inl rfl)
    | load =>
      obtain ⟨v, rfl⟩ := ok_of_loadRegisters h
      exact .inl (.inl rfl)
    | cls | ldByte | addByte | ldReg | ldI | ldFromDelay | ldDelay | addI | ldGlyph =>
      cases h
      exact .inl (.inl rfl)
    | or | and | xor | addReg | sub | shr | subn | shl | jpV0 | rnd | skp | waitKey | ldSound
    | store => cases h

/-! ## Steps -/

/-- A call at an even address returns to an even address. -/
theorem EvenReturns.step (h : m.EvenReturns) (hpc : 2 ∣ m.pc) : m.step.machine.EvenReturns := by
  cases hresult : m.step.result with
  | error fault =>
    rw [step_of_fails (fails_of_step hresult)]
    exact h
  | ok ins =>
    by_cases hcall : ins.mnemonic = some .call
    · obtain ⟨hword, hpush, -⟩ := step_call hresult hcall
      intro address hmem
      rw [returnAddresses, CallStack.frames_push? hpush, List.map_append, List.map_singleton,
        hword] at hmem
      rcases List.mem_append.mp hmem with hold | hnew
      · exact h address hold
      · obtain rfl := List.mem_singleton.mp hnew
        omega
    · by_cases hreturn : ins.mnemonic = some .ret
      · obtain ⟨latest, hpop, -⟩ := step_return hresult hreturn
        intro address hmem
        apply h address
        rw [returnAddresses, CallStack.frames_pop? hpop, List.map_append]
        exact List.mem_append_left _ hmem
      · have hstack := (frame_of_step hresult).stack hcall hreturn
        intro address hmem
        apply h address
        rwa [returnAddresses, hstack] at hmem

/-- From an even address, only a jump or a call to an odd one leads to an odd one. -/
theorem EvenReturns.step_pc (h : m.EvenReturns) (hpc : 2 ∣ m.pc) :
    2 ∣ m.step.machine.pc ∨ ∃ ins, m.step.result = .ok ins ∧ ins.JumpsOdd := by
  cases hresult : m.step.result with
  | error fault =>
    left
    rw [step_of_fails (fails_of_step hresult), afterFailure]
    simp only
    split <;> omega
  | ok ins =>
    obtain ⟨-, next, hexec, hmachine⟩ := execute_of_step hresult
    have hadvance : m.advance.pc = m.pc + 2 := rfl
    have hnext : m.step.machine.pc = next.pc := by rw [hmachine]; rfl
    rcases pc_of_execute hexec with hnear | ⟨hjump, hfar⟩ | hreturn
    · left
      omega
    · by_cases heven : 2 ∣ ins.nnn.val
      · left
        omega
      · exact .inr ⟨ins, rfl, hjump, heven⟩
    · left
      obtain ⟨address, hpop, hback⟩ := step_return hresult hreturn
      rw [hback]
      apply h
      rw [returnAddresses, CallStack.frames_pop? hpop, List.map_append, List.map_singleton]
      exact List.mem_append_right _ (List.mem_singleton_self _)

/-- A step notes where it is taken, whether it completes or fails. -/
theorem currentPc_step (m : Machine) : m.step.machine.currentPc = m.pc := by
  cases hresult : m.step.result with
  | error fault =>
    rw [step_of_fails (fails_of_step hresult)]
    rfl
  | ok ins =>
    obtain ⟨-, -, heffect⟩ := effect_of_step hresult
    exact heffect.currentPc_cycles.1

theorem EvenAddresses.step (h : m.EvenAddresses)
    (heven : ∀ ins, m.step.result = .ok ins → ¬ ins.JumpsOdd) : m.step.machine.EvenAddresses where
  counter := by
    rcases h.returns.step_pc h.counter with hnext | ⟨ins, hok, hodd⟩
    · exact hnext
    · exact absurd hodd (heven ins hok)
  current := by
    rw [currentPc_step]
    exact h.counter
  returns := h.returns.step h.counter

/-! ## Runs -/

theorem EvenReturns.of_undisturbed (h : m.EvenReturns) (hsame : m.Undisturbed next) :
    next.EvenReturns := by
  rw [EvenReturns, returnAddresses, hsame.stack]
  exact h

theorem EvenAddresses.of_undisturbed (h : m.EvenAddresses) (hsame : m.Undisturbed next) :
    next.EvenAddresses where
  counter := by
    rw [hsame.pc]
    exact h.counter
  current := by
    rw [hsame.currentPc]
    exact h.current
  returns := h.returns.of_undisturbed hsame

/-- Without a jump or a call to an odd address, all addresses stay even. -/
theorem EvenAddresses.along (h : m.EvenAddresses) (halong : Along m steps last)
    (heven : ∀ before ∈ steps, ∀ ins, before.step.result = .ok ins → ¬ ins.JumpsOdd) :
    last.EvenAddresses ∧ ∀ before ∈ steps, before.EvenAddresses := by
  induction halong with
  | done hsame =>
    refine ⟨h.of_undisturbed hsame, ?_⟩
    rintro before ⟨⟩
  | @step m first last later hsame _ ih =>
    obtain ⟨hfirst, hlater⟩ := List.forall_mem_cons.mp heven
    have hnow := h.of_undisturbed hsame
    obtain ⟨hlast, hrest⟩ := ih (hnow.step hfirst) hlater
    exact ⟨hlast, List.forall_mem_cons.mpr ⟨hnow, hrest⟩⟩

/-- The first step at an odd address comes right behind a jump or a call to an odd address. -/
theorem EvenReturns.along (h : m.EvenReturns) (hpc : 2 ∣ m.pc)
    (halong : Along m (past ++ before :: later) last) (hpast : ∀ earlier ∈ past, 2 ∣ earlier.pc)
    (hodd : ¬ 2 ∣ before.pc) :
    ∃ latest ins, past.getLast? = some latest ∧ latest.step.result = .ok ins ∧ ins.JumpsOdd := by
  induction past generalizing m with
  | nil =>
    cases halong with
    | step hsame _ =>
      rw [hsame.pc] at hodd
      exact absurd hpc hodd
  | cons first past ih =>
    obtain ⟨hfirst, hlater⟩ := List.forall_mem_cons.mp hpast
    cases halong with
    | step hsame rest =>
      have hreturns := h.of_undisturbed hsame
      by_cases hnext : 2 ∣ first.step.machine.pc
      · obtain ⟨latest, ins, hlatest, hok⟩ := ih (hreturns.step hfirst) hnext rest hlater
        refine ⟨latest, ins, ?_, hok⟩
        rw [List.getLast?_cons, hlatest]
        rfl
      · obtain ⟨ins, hok, hjumps⟩ := (hreturns.step_pc hfirst).resolve_left hnext
        cases past with
        | nil => exact ⟨first, ins, rfl, hok, hjumps⟩
        | cons second past =>
          -- No step follows at an even address.
          cases rest with
          | step hsame _ =>
            have hsecond := hlater second List.mem_cons_self
            rw [hsame.pc] at hsecond
            exact absurd hsecond hnext

theorem evenAddresses_start (memory : Memory) (screen : Screen) :
    (start memory screen).EvenAddresses where
  counter := show (2 : Int) ∣ 512 by decide
  current := show (2 : Int) ∣ 512 by decide
  returns := by
    rintro address ⟨⟩

/-- **Addresses stay even.**  As long as a fresh machine completes no jump or call to an odd address,
its program counter, the address that it notes and all return addresses in use are even at every
point of a sequence of actions, before each of the steps and after each of the actions.  The first
step of a sequence that is taken at an odd address, if there is one, comes right behind a step that
completes a jump or a call to an odd address. -/
theorem addresses_stay_even (memory : Memory) (screen : Screen) (actions : List Action) :
    ((∀ e ∈ (start memory screen).history actions, ¬ e.ins.JumpsOdd) →
      (∀ reached, reached <+: actions → ((start memory screen).after reached).EvenAddresses) ∧
        ∀ before ∈ (start memory screen).attempts actions, before.EvenAddresses) ∧
    ∀ past before later, (start memory screen).attempts actions = past ++ before :: later →
      (∀ earlier ∈ past, 2 ∣ earlier.pc) → ¬ 2 ∣ before.pc →
        ∃ latest ins, past.getLast? = some latest ∧ latest.step.result = .ok ins ∧
          ins.JumpsOdd := by
  have hstart := evenAddresses_start memory screen
  refine ⟨?_, ?_⟩
  · intro heven
    have hsteps : ∀ reached, reached <+: actions →
        ∀ before ∈ (start memory screen).attempts reached, ∀ ins, before.step.result = .ok ins →
          ¬ ins.JumpsOdd := by
      rintro reached ⟨rest, rfl⟩ before hmem ins hok
      refine heven ⟨before, ins⟩ ?_
      rw [history_append]
      exact List.mem_append_left _ (mem_history_iff.mpr ⟨hmem, hok⟩)
    constructor
    · intro reached hreached
      have halong := (start memory screen).along_attempts reached
      exact (hstart.along halong (hsteps reached hreached)).1
    · have halong := (start memory screen).along_attempts actions
      exact (hstart.along halong (hsteps actions (List.prefix_refl actions))).2
  · intro past before later hsplit hpast hodd
    have halong := (start memory screen).along_attempts actions
    rw [hsplit] at halong
    exact hstart.returns.along hstart.counter halong hpast hodd

/-- A memory with a call of a subroutine that returns at once, and behind the call a jump to an odd
address. -/
def jumpingOdd : Memory :=
  ⟨(List.replicate Memory.programStart (0 : UInt8) ++
    [0x22, 0x04, 0x12, 0x07, 0x00, 0xEE]).toArray⟩

/-- The call and the return stay at even addresses, and the odd one comes from the jump. -/
theorem jumpingOdd_parity :
    (∀ before ∈ (start jumpingOdd .standard).attempts [.run 2, .tick], before.EvenAddresses) ∧
      ∃ latest ∈ (start jumpingOdd .standard).attempts [.run 3, .press 2, .step],
        latest.pc = 0x202 ∧ ∃ ins, latest.step.result = .ok ins ∧ ins.JumpsOdd := by
  have heven : ∀ e ∈ (start jumpingOdd .standard).history [.run 2, .tick], ¬ e.ins.JumpsOdd := by
    decide +kernel
  have hcounters : ((start jumpingOdd .standard).attempts [.run 3, .press 2, .step]).map (·.pc) =
      [0x200, 0x204, 0x202] ++ [0x207] := by
    decide +kernel
  refine ⟨((addresses_stay_even jumpingOdd .standard _).1 heven).2, ?_⟩
  obtain ⟨past, rest, hsplit, hpast, hrest⟩ := List.map_eq_append_iff.mp hcounters
  obtain ⟨before, later, rfl, hbefore, -⟩ := List.map_eq_cons_iff.mp hrest
  have hearlier : ∀ earlier ∈ past, 2 ∣ earlier.pc := by
    intro earlier hmem
    have hpc : earlier.pc ∈ [0x200, 0x204, 0x202] := hpast ▸ List.mem_map_of_mem hmem
    revert hpc
    generalize earlier.pc = pc
    revert pc
    decide
  obtain ⟨latest, ins, hlatest, hodd⟩ := (addresses_stay_even jumpingOdd .standard _).2
    past before later hsplit hearlier (by rw [hbefore]; decide)
  have hpc : (past.map (·.pc)).getLast? = some latest.pc := by
    rw [List.getLast?_map, hlatest]
    rfl
  rw [hpast] at hpc
  refine ⟨latest, ?_, (Option.some.inj hpc).symm, ins, hodd⟩
  rw [hsplit]
  exact List.mem_append_left _ (List.mem_of_getLast? hlatest)

end Machine

end Chip8
