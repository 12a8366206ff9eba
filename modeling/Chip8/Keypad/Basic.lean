import Chip8.Numeral

/-!
# The keypad

Sixteen keys, numbered from zero, each of them up or down.  Any other number names no key: an
operation on it fails and changes nothing.
-/

namespace Chip8

structure Keypad where
  down : Vector Bool 16
deriving DecidableEq, Repr

/-- A number that names no key. -/
structure NoSuchKey where
  number : Int
deriving DecidableEq, Repr

/-- The wording for a number that names no key.  If the number may not be written, it says that. -/
def NoSuchKey.message (e : NoSuchKey) : String :=
  match Numeral.write e.number with
  | .ok number => "No such key: " ++ number
  | .error e => e.message

namespace Keypad

/-- The keypad with all keys up. -/
def allUp : Keypad :=
  ⟨Vector.replicate 16 false⟩

/-- The key that a number names. -/
def key (number : Int) : Except NoSuchKey (Fin 16) :=
  if h : 0 ≤ number ∧ number < 16 then .ok ⟨number.toNat, by omega⟩ else .error ⟨number⟩

/-- Whether a key is down. -/
def holds (p : Keypad) (k : Fin 16) : Bool :=
  p.down[k]

/-- The keypad with one key put up or down. -/
def put (p : Keypad) (k : Fin 16) (isDown : Bool) : Keypad :=
  ⟨p.down.set k isDown⟩

theorem holds_put (p : Keypad) (k l : Fin 16) (b : Bool) :
    (p.put k b).holds l = if k = l then b else p.holds l := by
  simp [holds, put, Vector.getElem_set, Fin.ext_iff]

theorem holds_allUp (k : Fin 16) : allUp.holds k = false := by
  simp [holds, allUp]

def press (p : Keypad) (number : Int) : Except NoSuchKey Keypad :=
  (key number).map (p.put · true)

def release (p : Keypad) (number : Int) : Except NoSuchKey Keypad :=
  (key number).map (p.put · false)

def isDown (p : Keypad) (number : Int) : Except NoSuchKey Bool :=
  (key number).map p.holds

theorem isDown_of_lt (p : Keypad) {number : Nat} (h : number < 16) :
    p.isDown number = .ok (p.holds ⟨number, h⟩) := by
  unfold isDown key
  rw [dif_pos (by omega)]
  rfl

/-! ## Numbers of keys -/

theorem key_val (k : Fin 16) : key k.val = .ok k := by
  have := k.isLt
  rw [key, dif_pos (by omega)]
  rfl

theorem press_val (p : Keypad) (k : Fin 16) : p.press k.val = .ok (p.put k true) := by
  rw [press, key_val]
  rfl

theorem release_val (p : Keypad) (k : Fin 16) : p.release k.val = .ok (p.put k false) := by
  rw [release, key_val]
  rfl

theorem isDown_val (p : Keypad) (k : Fin 16) : p.isDown k.val = .ok (p.holds k) :=
  p.isDown_of_lt k.isLt

end Keypad

end Chip8
