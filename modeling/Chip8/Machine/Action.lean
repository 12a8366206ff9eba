import Chip8.Machine.Trace

/-!
# Actions

The operations that a host performs on a machine.  Each has an outcome for every machine; one that
fails leaves behind the machine on which the next one works.  All but steps and runs leave the
program undisturbed (`Machine.perform_cases`).
-/

namespace Chip8

inductive Action where
  | step
  | run (n : Nat)
  | tick
  | press (key : Int)
  | release (key : Int)
  | isDown (key : Int)
  | resetKeys
  | load (rom : List UInt8)
  | write (address : Int) (values : List Int)
  | draw (x y : Int) (sprite : List UInt8)
  | clearScreen
deriving DecidableEq, Repr

/-- What an action tells the host. -/
inductive Answer where
  | done
  | executed (ins : Instruction)
  | flag (value : Bool)
deriving DecidableEq, Repr

/-- The ways in which an action fails. -/
inductive ActionError where
  | fault (f : Fault)
  | noSuchKey (e : NoSuchKey)
  | memory (e : MemoryError)
deriving DecidableEq, Repr

/-- The failure as a diagnostic, if it is one of the console's own. -/
def ActionError.diagnostic? : ActionError → Option Diagnostic
  | fault f => f.diagnostic?
  | noSuchKey _ => none
  | memory e => e.diagnostic?

namespace Machine

/-- Takes over a new keypad, unless there is none. -/
def withKeypad (m : Machine) (keypad : Except NoSuchKey Keypad) : Outcome ActionError Answer :=
  match keypad with
  | .error e => ⟨m, .error (.noSuchKey e)⟩
  | .ok keypad => ⟨{ m with keypad := keypad }, .ok .done⟩

/-- Takes over a new memory, unless there is none. -/
def withMemory (m : Machine) (memory : Except MemoryError Memory) : Outcome ActionError Answer :=
  match memory with
  | .error e => ⟨m, .error (.memory e)⟩
  | .ok memory => ⟨{ m with memory := memory }, .ok .done⟩

/-- Performs an action. -/
def perform (m : Machine) : Action → Outcome ActionError Answer
  | .step =>
    let after := m.step
    ⟨after.machine, (after.result.map .executed).mapError .fault⟩
  | .run n =>
    let after := m.run n
    ⟨after.machine, (after.result.map fun _ => .done).mapError .fault⟩
  | .tick => ⟨m.tick, .ok .done⟩
  | .press key => m.withKeypad (m.keypad.press key)
  | .release key => m.withKeypad (m.keypad.release key)
  | .isDown key => ⟨m, ((m.keypad.isDown key).map .flag).mapError .noSuchKey⟩
  | .resetKeys => ⟨{ m with keypad := .allUp }, .ok .done⟩
  | .load rom => m.withMemory (m.memory.load rom)
  | .write address values => m.withMemory (m.memory.write address values)
  | .draw x y sprite =>
    match m.screen.place x y sprite with
    | .error e => ⟨m, .error (.fault (.position e))⟩
    | .ok (screen, hit) => ⟨{ m with screen := screen }, .ok (.flag hit)⟩
  | .clearScreen => ⟨{ m with screen := m.screen.clear }, .ok .done⟩

/-- The lines that an action writes when tracing is on. -/
def trace (m : Machine) : Action → List String
  | .step => m.traceStep
  | .run n => m.traceRun n
  | _ => []

/-! ## What actions leave alone -/

/-- Two machines that differ only in what a host may change: the contents of the memory and of the
screen, the keys and the delay. -/
structure Undisturbed (m m' : Machine) : Prop where
  v : m'.v = m.v
  i : m'.i = m.i
  pc : m'.pc = m.pc
  currentPc : m'.currentPc = m.currentPc
  stack : m'.stack = m.stack
  cycles : m'.cycles = m.cycles
  memory : m'.memory.size = m.memory.size
  screen : m'.screen.width = m.screen.width ∧ m'.screen.height = m.screen.height

theorem Undisturbed.refl (m : Machine) : m.Undisturbed m :=
  ⟨rfl, rfl, rfl, rfl, rfl, rfl, rfl, rfl, rfl⟩

theorem Undisturbed.trans {m m' m'' : Machine} (h : m.Undisturbed m') (h' : m'.Undisturbed m'') :
    m.Undisturbed m'' where
  v := h'.v.trans h.v
  i := h'.i.trans h.i
  pc := h'.pc.trans h.pc
  currentPc := h'.currentPc.trans h.currentPc
  stack := h'.stack.trans h.stack
  cycles := h'.cycles.trans h.cycles
  memory := h'.memory.trans h.memory
  screen := ⟨h'.screen.1.trans h.screen.1, h'.screen.2.trans h.screen.2⟩

theorem undisturbed_withKeypad (m : Machine) (keypad : Except NoSuchKey Keypad) :
    m.Undisturbed (m.withKeypad keypad).machine := by
  cases keypad with
  | error e => exact .refl m
  | ok keypad => exact { Undisturbed.refl m with }

theorem undisturbed_withMemory {m : Machine} {memory : Except MemoryError Memory}
    (hsize : ∀ memory', memory = .ok memory' → memory'.size = m.memory.size) :
    m.Undisturbed (m.withMemory memory).machine := by
  cases memory with
  | error e => exact .refl m
  | ok memory' => exact { Undisturbed.refl m with memory := hsize memory' rfl }

/-- Only steps and runs disturb the program. -/
theorem perform_cases (m : Machine) (action : Action) :
    action = .step ∨ (∃ n, action = .run n) ∨ m.Undisturbed (m.perform action).machine := by
  cases action with
  | step => exact .inl rfl
  | run n => exact .inr (.inl ⟨n, rfl⟩)
  | press key => exact .inr (.inr (m.undisturbed_withKeypad _))
  | release key => exact .inr (.inr (m.undisturbed_withKeypad _))
  | load rom => exact .inr (.inr (undisturbed_withMemory fun _ => Memory.size_of_load))
  | write address values =>
    exact .inr (.inr (undisturbed_withMemory fun _ => Memory.size_of_write))
  | draw x y sprite =>
    refine .inr (.inr ?_)
    rw [perform]
    cases hplace : m.screen.place x y sprite with
    | error e => exact .refl m
    | ok placed => exact { Undisturbed.refl m with screen := Screen.size_of_place hplace }
  | isDown key => exact .inr (.inr (.refl m))
  | tick | resetKeys | clearScreen => exact .inr (.inr { Undisturbed.refl m with })

/-! ## Sequences of actions -/

/-- The machine after some actions, whether they fail or not. -/
def after (m : Machine) (actions : List Action) : Machine :=
  actions.foldl (fun m action => (m.perform action).machine) m

theorem after_cons (m : Machine) (action : Action) (actions : List Action) :
    m.after (action :: actions) = (m.perform action).machine.after actions :=
  rfl

end Machine

end Chip8
