import Chip8.Proofs.History
import Mathlib.Data.List.Infix

/-!
# Calls and returns

A return goes back to the latest call that has not been returned from, as brackets match.  The
history of a run settles which calls these are without any stack: a call is open if what came after
it stays inside it, which is to say that at no point have there been more returns than calls
(`Executed.StaysInside`).  `Executed.openCalls` lists the addresses behind the open calls.

The main result is that the stack of a machine holds exactly these addresses, however calls and
returns are mixed with failing steps and with what a host does, and whatever older calls have left
in the free slots (`Machine.call_discipline`).
-/

namespace Chip8

namespace Executed

/-! ## Open calls -/

/-- The number of calls in a history. -/
def calls (past : List Executed) : Nat :=
  past.countP isCall

/-- The number of returns in a history. -/
def returns (past : List Executed) : Nat :=
  past.countP isReturn

/-- Whether a history stays inside the call before it: no beginning of it has more returns than
calls. -/
def StaysInside (past : List Executed) : Prop :=
  ∀ start ∈ past.inits, returns start ≤ calls start

instance (past : List Executed) : Decidable (StaysInside past) :=
  inferInstanceAs (Decidable (∀ start ∈ past.inits, _))

/-- The addresses behind the calls of a history that have not been returned from, outermost
first. -/
def openCalls : List Executed → List Int
  | [] => []
  | e :: later =>
    if e.isCall ∧ StaysInside later then (e.address + 2) :: openCalls later else openCalls later

variable {e : Executed} {past : List Executed}

@[simp] theorem calls_nil : calls [] = 0 := rfl

@[simp] theorem returns_nil : returns [] = 0 := rfl

@[simp] theorem calls_cons (e : Executed) (past : List Executed) :
    calls (e :: past) = calls past + if e.isCall then 1 else 0 :=
  List.countP_cons

@[simp] theorem returns_cons (e : Executed) (past : List Executed) :
    returns (e :: past) = returns past + if e.isReturn then 1 else 0 :=
  List.countP_cons

theorem calls_concat (past : List Executed) (e : Executed) :
    calls (past ++ [e]) = calls past + if e.isCall then 1 else 0 := by
  simp [calls, List.countP_append, List.countP_singleton]

theorem returns_concat (past : List Executed) (e : Executed) :
    returns (past ++ [e]) = returns past + if e.isReturn then 1 else 0 := by
  simp [returns, List.countP_append, List.countP_singleton]

/-! ## Returns to earlier calls

How far a history returns past its beginning decides whether it stays inside a call, and is easily
followed when an instruction is added at either end. -/

/-- The number of returns in a history that go back to calls before it. -/
def unmatchedReturns : List Executed → Nat
  | [] => 0
  | e :: later =>
    if e.isCall then unmatchedReturns later - 1
    else if e.isReturn then unmatchedReturns later + 1
    else unmatchedReturns later

theorem unmatchedReturns_le_iff (past : List Executed) (depth : Nat) :
    unmatchedReturns past ≤ depth ↔ ∀ start ∈ past.inits, returns start ≤ calls start + depth := by
  induction past generalizing depth with
  | nil => simp [unmatchedReturns]
  | cons e later ih =>
    simp only [List.inits_cons, List.forall_mem_cons, List.forall_mem_map, calls_nil, returns_nil,
      calls_cons, returns_cons, Nat.zero_le, true_and]
    by_cases hcall : e.isCall = true
    · simp only [unmatchedReturns, hcall, isReturn_eq_false hcall, if_true, Bool.false_eq_true,
        if_false, Nat.sub_le_iff_le_add, ih (depth + 1), Nat.add_zero]
      refine forall₂_congr fun start _ => ?_
      omega
    · by_cases hreturn : e.isReturn = true
      · simp only [unmatchedReturns, hcall, hreturn, if_true, Bool.false_eq_true, if_false,
          Nat.add_zero]
        cases depth with
        | zero =>
          -- The return alone is a beginning with more returns than calls.
          have hnil : ([] : List Executed) ∈ later.inits := by simp
          constructor
          · intro h
            omega
          · intro h
            have := h [] hnil
            simp at this
        | succ depth =>
          rw [Nat.add_le_add_iff_right, ih depth]
          refine forall₂_congr fun start _ => ?_
          omega
      · simp only [unmatchedReturns, hcall, hreturn, Bool.false_eq_true, if_false, Nat.add_zero]
        exact ih depth

theorem staysInside_iff (past : List Executed) : StaysInside past ↔ unmatchedReturns past = 0 := by
  have h := unmatchedReturns_le_iff past 0
  rw [Nat.le_zero] at h
  exact h.symm

theorem openCalls_cons (e : Executed) (later : List Executed) :
    openCalls (e :: later) =
      if e.isCall ∧ unmatchedReturns later = 0 then (e.address + 2) :: openCalls later
      else openCalls later := by
  simp only [openCalls, staysInside_iff]

/-! ## One instruction more -/

/-- Only a return can go back to a call before the history. -/
theorem unmatchedReturns_concat (hreturn : e.isReturn = false) (past : List Executed) :
    unmatchedReturns (past ++ [e]) = unmatchedReturns past := by
  induction past with
  | nil => cases hcall : e.isCall <;> simp [unmatchedReturns, hcall, hreturn]
  | cons first later ih => simp only [List.cons_append, unmatchedReturns, ih]

/-- A further return goes back to an open call of the history if there is one. -/
theorem unmatchedReturns_concat_return (hreturn : e.isReturn = true) (past : List Executed) :
    unmatchedReturns (past ++ [e]) =
      if openCalls past = [] then unmatchedReturns past + 1 else unmatchedReturns past := by
  have hcall := isCall_eq_false hreturn
  induction past with
  | nil => simp [unmatchedReturns, openCalls, hcall, hreturn]
  | cons first later ih =>
    rw [List.cons_append, openCalls_cons]
    simp only [unmatchedReturns, ih]
    by_cases hfirst : first.isCall = true
    · by_cases hinside : unmatchedReturns later = 0
      · by_cases hopen : openCalls later = [] <;> simp [hfirst, hinside, hopen]
      · by_cases hopen : openCalls later = []
        · simp only [hfirst, hinside, hopen, and_false, if_true, if_false]
          omega
        · simp only [hfirst, hinside, hopen, and_false, if_true, if_false]
    · by_cases hopen : openCalls later = []
      · by_cases hback : first.isReturn = true <;> simp [hfirst, hopen, hback]
      · simp [hfirst, hopen]

/-- A further call opens one more. -/
theorem openCalls_concat_call (hcall : e.isCall = true) (past : List Executed) :
    openCalls (past ++ [e]) = openCalls past ++ [e.address + 2] := by
  have hreturn := isReturn_eq_false hcall
  induction past with
  | nil => simp [openCalls_cons, openCalls, unmatchedReturns, hcall]
  | cons first later ih =>
    rw [List.cons_append, openCalls_cons, openCalls_cons, unmatchedReturns_concat hreturn, ih]
    split <;> rfl

/-- A further return closes the latest open call. -/
theorem openCalls_concat_return (hreturn : e.isReturn = true) (past : List Executed) :
    openCalls (past ++ [e]) = (openCalls past).dropLast := by
  have hcall := isCall_eq_false hreturn
  induction past with
  | nil => simp [openCalls, hcall]
  | cons first later ih =>
    rw [List.cons_append, openCalls_cons, openCalls_cons, unmatchedReturns_concat_return hreturn,
      ih]
    by_cases hfirst : first.isCall = true ∧ unmatchedReturns later = 0
    · by_cases hopen : openCalls later = []
      · simp [hfirst, hopen]
      · simp [hfirst, hopen, List.dropLast_cons_of_ne_nil]
    · by_cases hopen : openCalls later = []
      · rw [if_pos hopen, if_neg (by simp), if_neg hfirst]
      · simp [hopen, hfirst]

theorem openCalls_concat (hcall : e.isCall = false) (hreturn : e.isReturn = false)
    (past : List Executed) : openCalls (past ++ [e]) = openCalls past := by
  induction past with
  | nil => simp [openCalls, hcall]
  | cons first later ih =>
    rw [List.cons_append, openCalls_cons, openCalls_cons, unmatchedReturns_concat hreturn, ih]

end Executed

namespace Machine

open Executed

variable {m : Machine} {ins : Instruction} {fault : Fault} {past : List Executed}

/-! ## Calls and returns of the machine -/

theorem run_execute_call (hcall : ins.mnemonic = some .call) (m : Machine) :
    (execute ins).run m = (callTo ins.opcode ins.nnn).run m := by
  rw [execute, Exec.run_get_bind, hcall]

theorem run_execute_return (hreturn : ins.mnemonic = some .ret) (m : Machine) :
    (execute ins).run m = (returnFrom ins.opcode).run m := by
  rw [execute, Exec.run_get_bind, hreturn]

/-- A call that completes has put the address behind it on the stack, which it fits in. -/
theorem step_call (h : m.step.result = .ok ins) (hcall : ins.mnemonic = some .call) :
    ((UInt16.ofInt (m.pc + 2)).toNat : Int) = m.pc + 2 ∧
      m.stack.push? (UInt16.ofInt (m.pc + 2)) = some m.step.machine.stack ∧
      m.step.machine.pc = ins.nnn.val := by
  obtain ⟨-, next, hexec, hmachine⟩ := execute_of_step h
  rw [run_execute_call hcall] at hexec
  obtain ⟨hrange, stack, hpush, rfl⟩ := ok_of_callTo hexec
  rw [hmachine]
  exact ⟨toNat_ofInt_of_lt hrange, hpush, rfl⟩

/-- A return that completes has taken the latest frame off the stack and continues there. -/
theorem step_return (h : m.step.result = .ok ins) (hreturn : ins.mnemonic = some .ret) :
    ∃ address, m.stack.pop? = some (address, m.step.machine.stack) ∧
      m.step.machine.pc = address.toNat := by
  obtain ⟨-, next, hexec, hmachine⟩ := execute_of_step h
  rw [run_execute_return hreturn] at hexec
  obtain ⟨address, stack, hpop, rfl⟩ := ok_of_returnFrom hexec
  rw [hmachine]
  exact ⟨address, hpop, rfl⟩

/-- A return is refused if and only if the stack is empty. -/
theorem refuses_return_iff (hreturn : ins.mnemonic = some .ret) :
    m.Refuses ins fault ↔ m.stack.depth = 0 ∧ fault = .stackUnderflow m.pc ins.opcode := by
  constructor
  · intro h
    cases h with
    | stackUnderflow h empty => exact ⟨empty, rfl⟩
    | unsupportedOpcode mnemonic h unsupported =>
      cases h.symm.trans hreturn
      cases unsupported
    | _ h => cases h.symm.trans hreturn
  · rintro ⟨hempty, rfl⟩
    exact .stackUnderflow hreturn hempty

/-- A call is refused if and only if the stack is full or the return address does not fit. -/
theorem refuses_call_iff (hcall : ins.mnemonic = some .call) :
    m.Refuses ins fault ↔
      m.stack.depth = 16 ∧ fault = .stackOverflow m.pc ins.opcode ∨
        m.stack.depth < 16 ∧ 65535 < m.pc + 2 ∧ fault = .returnAddress (m.pc + 2) := by
  constructor
  · intro h
    cases h with
    | stackOverflow h full => exact .inl ⟨full, rfl⟩
    | returnAddress h room far => exact .inr ⟨room, far, rfl⟩
    | unsupportedOpcode mnemonic h unsupported =>
      cases h.symm.trans hcall
      cases unsupported
    | _ h => cases h.symm.trans hcall
  · rintro (⟨hfull, rfl⟩ | ⟨hroom, hfar, rfl⟩)
    · exact .stackOverflow hcall hfull
    · exact .returnAddress hcall hroom hfar

/-- A step whose instruction is not refused completes it. -/
theorem step_of_not_refuses (hfetch : m.fetch = .ok ins) (h : ∀ fault, ¬ m.Refuses ins fault) :
    m.step.result = .ok ins := by
  cases hresult : m.step.result with
  | ok done =>
    obtain ⟨hdone, -⟩ := execute_of_step hresult
    rw [hfetch] at hdone
    cases hdone
    rfl
  | error fault =>
    rcases fails_iff.mp (fails_of_step hresult) with ⟨fetched, hfetched, hrefuses⟩ | ⟨_, haccess, -⟩
    · rw [hfetch] at hfetched
      cases hfetched
      exact absurd hrefuses (h fault)
    · rw [hfetch] at haccess
      cases haccess

/-! ## The stack along a run -/

/-- The return addresses in use, as numbers. -/
def returnAddresses (m : Machine) : List Int :=
  m.stack.frames.map fun address => (address.toNat : Int)

theorem length_returnAddresses (m : Machine) : m.returnAddresses.length = m.stack.depth := by
  rw [returnAddresses, List.length_map, CallStack.length_frames]

/-- The stack holds the open calls of the history, and its depth counts them. -/
structure HoldsOpenCalls (past : List Executed) (m : Machine) : Prop where
  addresses : m.returnAddresses = openCalls past
  depth : m.stack.depth + returns past = calls past

/-- A call that completes opens one more. -/
theorem HoldsOpenCalls.calls (h : HoldsOpenCalls past m) (hok : m.step.result = .ok ins)
    (hcall : ins.mnemonic = some .call) : HoldsOpenCalls (past ++ [⟨m, ins⟩]) m.step.machine := by
  have hisCall : (Executed.mk m ins).isCall = true := (isCall_iff _).mpr hcall
  have hisReturn : (Executed.mk m ins).isReturn = false := isReturn_eq_false hisCall
  obtain ⟨hword, hpush, -⟩ := step_call hok hcall
  constructor
  · rw [openCalls_concat_call hisCall, ← h.addresses, returnAddresses, returnAddresses,
      CallStack.frames_push? hpush, List.map_append, List.map_singleton, hword]
    rfl
  · obtain ⟨hstack, -⟩ := CallStack.slots_push? hpush
    have hdepth := h.depth
    simp only [calls_concat, returns_concat, hisCall, hisReturn, if_true, Bool.false_eq_true,
      if_false]
    omega

/-- A return that completes closes the latest open call. -/
theorem HoldsOpenCalls.returns (h : HoldsOpenCalls past m) (hok : m.step.result = .ok ins)
    (hreturn : ins.mnemonic = some .ret) :
    HoldsOpenCalls (past ++ [⟨m, ins⟩]) m.step.machine := by
  have hisReturn : (Executed.mk m ins).isReturn = true := (isReturn_iff _).mpr hreturn
  have hisCall : (Executed.mk m ins).isCall = false := isCall_eq_false hisReturn
  obtain ⟨address, hpop, -⟩ := step_return hok hreturn
  constructor
  · rw [openCalls_concat_return hisReturn, ← h.addresses, returnAddresses, returnAddresses,
      CallStack.frames_pop? hpop, List.map_append, List.map_singleton, List.dropLast_concat]
  · obtain ⟨hstack, -⟩ := CallStack.slots_pop? hpop
    have hdepth := h.depth
    simp only [calls_concat, returns_concat, hisCall, hisReturn, if_true, Bool.false_eq_true,
      if_false]
    omega

/-- Any other instruction that completes leaves the stack alone. -/
theorem HoldsOpenCalls.other (h : HoldsOpenCalls past m) (hok : m.step.result = .ok ins)
    (hcall : ins.mnemonic ≠ some .call) (hreturn : ins.mnemonic ≠ some .ret) :
    HoldsOpenCalls (past ++ [⟨m, ins⟩]) m.step.machine := by
  have hisCall : (Executed.mk m ins).isCall = false := by
    rw [← Bool.not_eq_true, isCall_iff]
    exact hcall
  have hisReturn : (Executed.mk m ins).isReturn = false := by
    rw [← Bool.not_eq_true, isReturn_iff]
    exact hreturn
  have hstack := (frame_of_step hok).stack hcall hreturn
  constructor
  · rw [openCalls_concat hisCall hisReturn, ← h.addresses, returnAddresses, hstack]
    rfl
  · simp only [calls_concat, returns_concat, hisCall, hisReturn, hstack, Bool.false_eq_true,
      if_false]
    exact h.depth

theorem HoldsOpenCalls.completes (h : HoldsOpenCalls past m) (hok : m.step.result = .ok ins) :
    HoldsOpenCalls (past ++ [⟨m, ins⟩]) m.step.machine := by
  by_cases hcall : ins.mnemonic = some .call
  · exact h.calls hok hcall
  · by_cases hreturn : ins.mnemonic = some .ret
    · exact h.returns hok hreturn
    · exact h.other hok hcall hreturn

theorem HoldsOpenCalls.kept : Kept HoldsOpenCalls where
  completes := HoldsOpenCalls.completes
  fails h := ⟨h.addresses, h.depth⟩
  host := by
    intro past m next h hsame
    constructor
    · rw [returnAddresses, hsame.stack]
      exact h.addresses
    · rw [hsame.stack]
      exact h.depth

theorem HoldsOpenCalls.start (memory : Memory) (screen : Screen) :
    HoldsOpenCalls [] (start memory screen) :=
  ⟨rfl, rfl⟩

theorem HoldsOpenCalls.length_openCalls (h : HoldsOpenCalls past m) :
    (openCalls past).length = m.stack.depth := by
  rw [← h.addresses, length_returnAddresses]

theorem HoldsOpenCalls.openCalls_eq_nil_iff (h : HoldsOpenCalls past m) :
    openCalls past = [] ↔ m.stack.depth = 0 := by
  rw [← List.length_eq_zero_iff, h.length_openCalls]

/-- The discipline of calls and returns at one point of a run, whose history is `past`. -/
structure CallDiscipline (past : List Executed) (m : Machine) : Prop where
  depth : (m.stack.depth : Int) = calls past - returns past
  addresses : m.returnAddresses = openCalls past
  /-- A return completes if and only if a call is open, … -/
  return_iff : ∀ ins, m.fetch = .ok ins → ins.mnemonic = some .ret →
    (m.step.result = .ok ins ↔ openCalls past ≠ [])
  /-- … and continues behind the latest one. -/
  return_to : ∀ ins, m.step.result = .ok ins → ins.mnemonic = some .ret →
    (openCalls past).getLast? = some m.step.machine.pc
  underflow_iff : ∀ pc word, m.step.result = .error (.stackUnderflow pc word) ↔
    ∃ ins, m.fetch = .ok ins ∧ ins.mnemonic = some .ret ∧ openCalls past = [] ∧
      pc = m.pc ∧ word = ins.opcode
  overflow_iff : ∀ pc word, m.step.result = .error (.stackOverflow pc word) ↔
    ∃ ins, m.fetch = .ok ins ∧ ins.mnemonic = some .call ∧ (openCalls past).length = 16 ∧
      pc = m.pc ∧ word = ins.opcode
  /-- A call that completes puts its return address on the stack as it is. -/
  call_to : ∀ ins, m.step.result = .ok ins → ins.mnemonic = some .call →
    m.step.machine.returnAddresses = openCalls past ++ [m.pc + 2] ∧
      m.step.machine.pc = ins.nnn.val
  /-- With a slot free, a call completes if and only if its return address fits in it, … -/
  call_iff : ∀ ins, m.fetch = .ok ins → ins.mnemonic = some .call → (openCalls past).length < 16 →
    (m.step.result = .ok ins ↔ m.pc + 2 ≤ 65535)
  /-- … and otherwise fails and stores nothing. -/
  call_far : ∀ ins, m.fetch = .ok ins → ins.mnemonic = some .call → (openCalls past).length < 16 →
    65535 < m.pc + 2 →
    m.step.result = .error (.returnAddress (m.pc + 2)) ∧ m.step.machine.stack = m.stack

theorem HoldsOpenCalls.return_iff (h : HoldsOpenCalls past m) (hfetch : m.fetch = .ok ins)
    (hreturn : ins.mnemonic = some .ret) : m.step.result = .ok ins ↔ openCalls past ≠ [] := by
  rw [Ne, h.openCalls_eq_nil_iff]
  constructor
  · intro hok hempty
    have hfails : m.Fails (.stackUnderflow m.pc ins.opcode) :=
      fails_iff.mpr (.inl ⟨ins, hfetch, .stackUnderflow hreturn hempty⟩)
    exact step_ok_iff.mp ⟨ins, hok⟩ _ hfails
  · intro hopen
    refine step_of_not_refuses hfetch fun fault hrefuses => ?_
    exact hopen ((refuses_return_iff hreturn).mp hrefuses).1

theorem HoldsOpenCalls.return_to (h : HoldsOpenCalls past m) (hok : m.step.result = .ok ins)
    (hreturn : ins.mnemonic = some .ret) :
    (openCalls past).getLast? = some m.step.machine.pc := by
  obtain ⟨address, hpop, hpc⟩ := step_return hok hreturn
  rw [← h.addresses, returnAddresses, CallStack.frames_pop? hpop, List.map_append,
    List.map_singleton, List.getLast?_concat, hpc]

theorem HoldsOpenCalls.underflow_iff (h : HoldsOpenCalls past m) (pc : Int) (word : UInt16) :
    m.step.result = .error (.stackUnderflow pc word) ↔
      ∃ ins, m.fetch = .ok ins ∧ ins.mnemonic = some .ret ∧ openCalls past = [] ∧
        pc = m.pc ∧ word = ins.opcode := by
  rw [step_error_iff, fails_iff]
  constructor
  · rintro (⟨ins, hfetch, hrefuses⟩ | ⟨access, -, hfault⟩)
    · cases hrefuses with
      | stackUnderflow hreturn empty =>
        exact ⟨ins, hfetch, hreturn, h.openCalls_eq_nil_iff.mpr empty, rfl, rfl⟩
    · cases hfault
  · rintro ⟨ins, hfetch, hreturn, hopen, rfl, rfl⟩
    exact .inl ⟨ins, hfetch, .stackUnderflow hreturn (h.openCalls_eq_nil_iff.mp hopen)⟩

theorem HoldsOpenCalls.overflow_iff (h : HoldsOpenCalls past m) (pc : Int) (word : UInt16) :
    m.step.result = .error (.stackOverflow pc word) ↔
      ∃ ins, m.fetch = .ok ins ∧ ins.mnemonic = some .call ∧ (openCalls past).length = 16 ∧
        pc = m.pc ∧ word = ins.opcode := by
  rw [step_error_iff, fails_iff, h.length_openCalls]
  constructor
  · rintro (⟨ins, hfetch, hrefuses⟩ | ⟨access, -, hfault⟩)
    · cases hrefuses with
      | stackOverflow hcall full => exact ⟨ins, hfetch, hcall, full, rfl, rfl⟩
    · cases hfault
  · rintro ⟨ins, hfetch, hcall, hfull, rfl, rfl⟩
    exact .inl ⟨ins, hfetch, .stackOverflow hcall hfull⟩

theorem HoldsOpenCalls.call_to (h : HoldsOpenCalls past m) (hok : m.step.result = .ok ins)
    (hcall : ins.mnemonic = some .call) :
    m.step.machine.returnAddresses = openCalls past ++ [m.pc + 2] ∧
      m.step.machine.pc = ins.nnn.val := by
  obtain ⟨-, -, hpc⟩ := step_call hok hcall
  have hnext := (h.completes hok).addresses
  rw [openCalls_concat_call ((isCall_iff _).mpr hcall)] at hnext
  exact ⟨hnext, hpc⟩

theorem HoldsOpenCalls.call_far (h : HoldsOpenCalls past m) (hfetch : m.fetch = .ok ins)
    (hcall : ins.mnemonic = some .call) (hroom : (openCalls past).length < 16)
    (hfar : 65535 < m.pc + 2) :
    m.step.result = .error (.returnAddress (m.pc + 2)) ∧ m.step.machine.stack = m.stack := by
  rw [h.length_openCalls] at hroom
  have hfails : m.Fails (.returnAddress (m.pc + 2)) :=
    fails_iff.mpr (.inl ⟨ins, hfetch, .returnAddress hcall hroom hfar⟩)
  rw [step_of_fails hfails]
  exact ⟨rfl, rfl⟩

theorem HoldsOpenCalls.call_iff (h : HoldsOpenCalls past m) (hfetch : m.fetch = .ok ins)
    (hcall : ins.mnemonic = some .call) (hroom : (openCalls past).length < 16) :
    m.step.result = .ok ins ↔ m.pc + 2 ≤ 65535 := by
  constructor
  · intro hok
    by_contra hfar
    obtain ⟨herror, -⟩ := h.call_far hfetch hcall hroom (by omega)
    rw [hok] at herror
    cases herror
  · intro hnear
    rw [h.length_openCalls] at hroom
    refine step_of_not_refuses hfetch fun fault hrefuses => ?_
    rcases (refuses_call_iff hcall).mp hrefuses with ⟨hfull, -⟩ | ⟨-, hfar, -⟩
    · omega
    · omega

/-- **Calls and returns match like brackets.**  After any actions on a fresh machine, the stack
holds the addresses behind the calls that have not been returned from, outermost first.  A return
goes back behind the latest of them and fails only if there is none, and a call fails only if there
are sixteen of them or if the address behind it is too large for a slot. -/
theorem call_discipline (memory : Memory) (screen : Screen) (actions : List Action) :
    CallDiscipline ((start memory screen).history actions)
      ((start memory screen).after actions) := by
  have h : HoldsOpenCalls ((start memory screen).history actions)
      ((start memory screen).after actions) :=
    history_induction HoldsOpenCalls.kept (HoldsOpenCalls.start memory screen) actions
  have hdepth := h.depth
  exact {
    depth := by omega
    addresses := h.addresses
    return_iff := fun _ => h.return_iff
    return_to := fun _ => h.return_to
    underflow_iff := h.underflow_iff
    overflow_iff := h.overflow_iff
    call_to := fun _ => h.call_to
    call_iff := fun _ => h.call_iff
    call_far := fun _ => h.call_far }

end Machine

end Chip8
