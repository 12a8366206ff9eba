import Chip8.Keypad.Basic
import Mathlib.Data.List.Induction

/-!
# The history of the keys

A keypad shows no more of its past than which keys are down.  For each key this is settled by the
latest operation that has moved it (`Keypad.latest?`): the key is down if and only if this was a
press.  How often it was pressed before does not matter, and neither do the operations on the other
keys nor those that were refused.

The main result is `Keypad.keys_follow_history`.
-/

namespace Chip8

/-- The operations of a keypad.  All but a reset name a key by a number. -/
inductive KeypadOp where
  | press (number : Int)
  | release (number : Int)
  | isDown (number : Int)
  | reset
deriving DecidableEq, Repr

/-- What an operation gives back. -/
inductive KeypadReply where
  | done
  | flag (down : Bool)
deriving DecidableEq, Repr

namespace KeypadOp

/-- The number that an operation names a key by. -/
def number? : KeypadOp → Option Int
  | press number | release number | isDown number => some number
  | reset => none

/-- Whether an operation puts the key of a number up or down. -/
def moves (number : Int) : KeypadOp → Bool
  | press other | release other => other = number
  | isDown _ => false
  | reset => true

/-- An operation that names a key moves no other one. -/
theorem moves_of_ne {op : KeypadOp} {named number : Int} (h : op.number? = some named)
    (hne : named ≠ number) : op.moves number = false := by
  cases op with
  | press other | release other =>
    cases h
    exact decide_eq_false hne
  | isDown other => rfl
  | reset => cases h

end KeypadOp

namespace Keypad

variable {p q : Keypad} {op : KeypadOp} {number : Int} {k : Fin 16} {e : NoSuchKey}

/-! ## Operations -/

/-- Takes over a new keypad, unless there is none. -/
def takeOver (p : Keypad) : Except NoSuchKey Keypad → Keypad × Except NoSuchKey KeypadReply
  | .error e => (p, .error e)
  | .ok next => (next, .ok .done)

/-- Performs an operation. -/
def perform (p : Keypad) : KeypadOp → Keypad × Except NoSuchKey KeypadReply
  | .press number => p.takeOver (p.press number)
  | .release number => p.takeOver (p.release number)
  | .isDown number => (p, (p.isDown number).map .flag)
  | .reset => (allUp, .ok .done)

/-- The keypad after some operations, whether they are refused or not. -/
def after (p : Keypad) (ops : List KeypadOp) : Keypad :=
  ops.foldl (fun p op => (p.perform op).1) p

theorem after_concat (p : Keypad) (ops : List KeypadOp) (op : KeypadOp) :
    p.after (ops ++ [op]) = ((p.after ops).perform op).1 := by
  rw [after, List.foldl_append]
  rfl

/-- The latest operation that has moved a key. -/
def latest? (k : Fin 16) (past : List KeypadOp) : Option KeypadOp :=
  past.reverse.find? (·.moves k.val)

theorem latest?_concat (k : Fin 16) (past : List KeypadOp) (op : KeypadOp) :
    latest? k (past ++ [op]) = if op.moves k.val then some op else latest? k past := by
  rw [latest?, List.reverse_concat, List.find?_cons]
  cases op.moves k.val <;> rfl

/-! ## Numbers -/

/-- A number that names no key is refused. -/
theorem key_eq_error_iff : key number = .error e ↔ (number < 0 ∨ 15 < number) ∧ e = ⟨number⟩ := by
  rw [key]
  split
  next hkey =>
    have hinside : ¬ (number < 0 ∨ 15 < number) := by omega
    simp [hinside]
  next hnone =>
    have houtside : number < 0 ∨ 15 < number := by omega
    simp [houtside, eq_comm]

theorem exists_val_of_key (h : key number = .ok k) : number = k.val := by
  rw [key] at h
  split at h
  next hkey =>
    cases h
    exact (Int.toNat_of_nonneg hkey.1).symm
  next => cases h

/-- A keypad is told by the keys that it holds down. -/
theorem ext_holds (h : ∀ k, q.holds k = p.holds k) : q = p := by
  obtain ⟨down⟩ := p
  obtain ⟨down'⟩ := q
  congr 1
  apply Vector.ext
  intro i hi
  exact h ⟨i, hi⟩

/-! ## One operation -/

/-- An operation is refused if and only if it names no key. -/
theorem perform_eq_error_iff :
    (p.perform op).2 = .error e ↔
      ∃ number, op.number? = some number ∧ (number < 0 ∨ 15 < number) ∧ e = ⟨number⟩ := by
  have hkey (number : Int) : key number = .error e ↔
      ∃ n, some number = some n ∧ (n < 0 ∨ 15 < n) ∧ e = ⟨n⟩ := by
    rw [key_eq_error_iff]
    simp
  cases op with
  | press number | release number | isDown number =>
    rw [KeypadOp.number?, ← hkey]
    simp only [perform, press, release, isDown]
    cases key number <;> simp [takeOver, Except.map]
  | reset => simp [perform, KeypadOp.number?]

/-- What is refused changes nothing. -/
theorem perform_of_error (h : (p.perform op).2 = .error e) : (p.perform op).1 = p := by
  cases op with
  | press number | release number =>
    simp only [perform, press, release] at h ⊢
    cases hkey : key number with
    | error e' => rfl
    | ok k =>
      rw [hkey] at h
      cases h
  | isDown number => rfl
  | reset => cases h

/-- After an operation that moves a key, the key is down if the operation is a press. -/
theorem holds_perform (p : Keypad) (op : KeypadOp) (k : Fin 16) :
    (p.perform op).1.holds k = if op.moves k.val then decide (op = .press k.val) else p.holds k := by
  cases op with
  | press number | release number =>
    simp only [perform, press, release, KeypadOp.moves, decide_eq_true_eq]
    cases hkey : key number with
    | error e =>
      have hne : number ≠ k.val := by
        rintro rfl
        rw [key_val] at hkey
        cases hkey
      rw [if_neg hne]
      rfl
    | ok l =>
      obtain rfl := exists_val_of_key hkey
      have hsame : (l.val : Int) = k.val ↔ l = k := by rw [Int.ofNat_inj, Fin.ext_iff]
      show (p.put l _).holds k = _
      rw [holds_put]
      simp [hsame]
  | isDown number => rfl
  | reset => simp [perform, KeypadOp.moves, holds_allUp]

/-- What an operation gives back depends on the key that it names alone. -/
theorem reply_congr (h : ∀ k : Fin 16, op.number? = some (k.val : Int) → q.holds k = p.holds k) :
    (q.perform op).2 = (p.perform op).2 := by
  cases op with
  | press number | release number =>
    simp only [perform, press, release]
    cases key number <;> rfl
  | isDown number =>
    simp only [perform, isDown]
    cases hkey : key number with
    | error e => rfl
    | ok k =>
      obtain rfl := exists_val_of_key hkey
      simp only [Except.map, h k rfl]
  | reset => rfl

/-- An operation that names a key leaves all other keys alone. -/
theorem holds_perform_of_ne {named : Int} (h : op.number? = some named) (hne : named ≠ k.val) :
    (p.perform op).1.holds k = p.holds k := by
  rw [holds_perform, KeypadOp.moves_of_ne h hne]
  rfl

/-- Operations that name different keys can be performed in either order. -/
theorem perform_comm {op' : KeypadOp} {i j : Int} (hop : op.number? = some i)
    (hop' : op'.number? = some j) (hne : i ≠ j) :
    ((p.perform op).1.perform op').1 = ((p.perform op').1.perform op).1 := by
  refine ext_holds fun k => ?_
  by_cases hi : i = k.val
  · have hj : j ≠ k.val := fun hj => hne (hi.trans hj.symm)
    rw [holds_perform_of_ne hop' hj, holds_perform, holds_perform _ op, holds_perform_of_ne hop' hj]
  · rw [holds_perform_of_ne hop hi, holds_perform, holds_perform _ op', holds_perform_of_ne hop hi]

theorem reply_after_other {op' : KeypadOp} {i j : Int} (hop : op.number? = some i)
    (hop' : op'.number? = some j) (hne : i ≠ j) :
    ((p.perform op).1.perform op').2 = (p.perform op').2 := by
  refine reply_congr fun k hk => ?_
  rw [hop'] at hk
  exact holds_perform_of_ne hop fun hi => hne (hi.trans (Option.some.inj hk).symm)

/-! ## Any operations -/

/-- After any operations on a fresh keypad, a key is down if it has been pressed and neither
released nor reset since. -/
theorem holds_after (past : List KeypadOp) (k : Fin 16) :
    (allUp.after past).holds k = decide (latest? k past = some (.press k.val)) := by
  induction past using List.reverseRecOn with
  | nil => exact holds_allUp k
  | append_singleton past op ih =>
    rw [after_concat, holds_perform, latest?_concat, ih]
    split <;> simp

/-- A release puts a key up, however often it has been pressed. -/
theorem holds_release (p : Keypad) (ops : List KeypadOp) (k : Fin 16) :
    (p.after (ops ++ [.release k.val])).holds k = false := by
  rw [after_concat, holds_perform]
  simp [KeypadOp.moves]

/-- How a keypad stands after some operations. -/
structure KeyHistory (past : List KeypadOp) (p : Keypad) : Prop where
  /-- An operation that names no key is refused, and no other one is. -/
  refused : ∀ (op : KeypadOp) (e : NoSuchKey), (p.perform op).2 = .error e ↔
    ∃ number, op.number? = some number ∧ (number < 0 ∨ 15 < number) ∧ e = ⟨number⟩
  unchanged : ∀ (op : KeypadOp) (e : NoSuchKey), (p.perform op).2 = .error e → (p.perform op).1 = p
  /-- A key is down if and only if the latest operation that has moved it was a press. -/
  isDown : ∀ k : Fin 16, ∃ down, (p.perform (.isDown k.val)).2 = .ok (.flag down) ∧
    (down = true ↔ latest? k past = some (.press k.val))
  /-- Operations that name different keys do not depend on each other's order, … -/
  commute : ∀ (op op' : KeypadOp) (i j : Int), op.number? = some i → op'.number? = some j → i ≠ j →
    ((p.perform op).1.perform op').1 = ((p.perform op').1.perform op).1 ∧
      ((p.perform op).1.perform op').2 = (p.perform op').2
  /-- … and they leave all other keys as they were. -/
  others : ∀ (op : KeypadOp) (i : Int) (k : Fin 16), op.number? = some i → i ≠ k.val →
    (p.perform op).1.isDown k.val = p.isDown k.val
  /-- One release is enough for any number of presses. -/
  released : ∀ (k : Fin 16) (n : Nat),
    (p.after (List.replicate n (.press k.val) ++ [.release k.val])).isDown k.val = .ok false

/-- **The keys follow their history.**  After any operations on a fresh keypad, the refused ones
included, each key stands as the latest operation that has moved it has left it; numbers that name
no key are refused without any effect, and no key is reached by an operation on another one. -/
theorem keys_follow_history (past : List KeypadOp) : KeyHistory past (allUp.after past) where
  refused := fun _ _ => perform_eq_error_iff
  unchanged := fun _ _ => perform_of_error
  isDown := by
    intro k
    refine ⟨(allUp.after past).holds k, ?_, ?_⟩
    · rw [perform, isDown_val]
      rfl
    · rw [holds_after, decide_eq_true_iff]
  commute := fun _ _ _ _ hop hop' hne =>
    ⟨perform_comm hop hop' hne, reply_after_other hop hop' hne⟩
  others := by
    intro op i k hop hne
    rw [isDown_val, isDown_val, holds_perform_of_ne hop hne]
  released := by
    intro k n
    rw [isDown_val, holds_release]

end Keypad

end Chip8
