import Chip8.Memory.Basic
import Chip8.Proofs.Numerals
import Mathlib.Data.List.Induction

/-!
# Memory as a checked array of bytes

Between two accesses a memory remembers nothing but the bytes that have been written, so what it
answers is settled by its size and by the operations performed so far, without any look at how the
bytes are kept.  An address holds what the latest write that was accepted has put there
(`Memory.lastPut`); a write is accepted if its values are bytes and its range lies inside.

The array of the implementation would let a slice that begins before the start or ends past the end
through, as a slice of another length.  That no such slice is ever taken is what the checks are for,
and the main result says that they are exact after any operations (`Memory.checked_bytes`).

A check that fails is reported with the range that it was made for.  The one range that cannot be
named is one whose length has too many digits; to read it fails too, but for another reason
(`Memory.long_read_is_not_named`).
-/

namespace Chip8

/-- The operations that work on addresses of a memory. -/
inductive MemoryOp where
  | write (address : Int) (values : List Int)
  | readByte (address : Int)
  | readWord (address : Int)
  | readRange (address length : Int)
deriving DecidableEq, Repr

/-- What an operation gives back. -/
inductive MemoryReply where
  | done
  | byte (value : UInt8)
  | word (value : UInt16)
  | bytes (values : List UInt8)
deriving DecidableEq, Repr

namespace MemoryOp

/-- Whether numbers are bytes, one and all. -/
def AreBytes (values : List Int) : Prop :=
  ∀ v ∈ values, 0 ≤ v ∧ v ≤ 255

instance (values : List Int) : Decidable (AreBytes values) :=
  inferInstanceAs (Decidable (∀ v ∈ values, _))

/-- The value that an operation puts at an address of a memory of `size` bytes, if it puts one
there.  A write with a value that is no byte puts nothing anywhere, and neither does a write that
leaves the memory. -/
def put? (size : Nat) (a : Int) : MemoryOp → Option Int
  | write address values =>
    if AreBytes values ∧ 0 ≤ address ∧ address + values.length ≤ size ∧ address ≤ a then
      values[(a - address).toNat]?
    else none
  | readByte _ | readWord _ | readRange _ _ => none

end MemoryOp

theorem not_areBytes_iff (values : List Int) :
    ¬ MemoryOp.AreBytes values ↔ ∃ v ∈ values, v < 0 ∨ 255 < v := by
  unfold MemoryOp.AreBytes
  push Not
  refine exists_congr fun v => and_congr_right fun _ => ?_
  omega

namespace Memory

open MemoryOp Numeral

variable {m written : Memory} {size : Nat} {address a : Int} {values : List Int}
  {past : List MemoryOp} {op : MemoryOp}

/-! ## Performing operations -/

/-- Performs an operation: the memory that it leaves behind, and its reply. -/
def perform (m : Memory) : MemoryOp → Memory × Except MemoryError MemoryReply
  | .write address values =>
    match m.write address values with
    | .ok written => (written, .ok .done)
    | .error e => (m, .error e)
  | .readByte address => (m, ((m.readByte address).map .byte).mapError .outOfBounds)
  | .readWord address => (m, ((m.readWord address).map .word).mapError .outOfBounds)
  | .readRange address length => (m, (m.read address length).map .bytes)

/-- The memory after some operations, whether they fail or not. -/
def after (m : Memory) (ops : List MemoryOp) : Memory :=
  ops.foldl (fun m op => (m.perform op).1) m

theorem after_concat (m : Memory) (past : List MemoryOp) (op : MemoryOp) :
    m.after (past ++ [op]) = ((m.after past).perform op).1 := by
  rw [after, List.foldl_append]
  rfl

/-- The value that the latest write has put at an address, zero if none has. -/
def lastPut (size : Nat) (past : List MemoryOp) (a : Int) : Int :=
  (past.reverse.findSome? (put? size a)).getD 0

theorem lastPut_concat (size : Nat) (past : List MemoryOp) (op : MemoryOp) (a : Int) :
    lastPut size (past ++ [op]) a = (op.put? size a).getD (lastPut size past a) := by
  rw [lastPut, List.reverse_concat, List.findSome?_cons]
  cases op.put? size a <;> rfl

/-! ## Writes -/

theorem all_iff_areBytes (values : List Int) :
    (values.all fun v => 0 ≤ v && v < 256) = true ↔ AreBytes values := by
  rw [List.all_eq_true]
  refine forall₂_congr fun v _ => ?_
  rw [Bool.and_eq_true, decide_eq_true_eq, decide_eq_true_eq]
  omega

/-- A write is accepted if its values are bytes and its range lies inside the memory. -/
theorem write_eq_ok_iff :
    m.write address values = .ok written ↔
      (AreBytes values ∧ m.InBounds address values.length) ∧
        written = m.overwrite address.toNat (values.map UInt8.ofInt) := by
  rw [write, store, List.length_map]
  by_cases hbytes : AreBytes values
  · rw [if_pos ((all_iff_areBytes values).mpr hbytes)]
    by_cases hrange : m.InBounds address values.length
    · simp [Except.mapError, hbytes, hrange, eq_comm]
    · simp [Except.mapError, hrange]
  · rw [if_neg (mt (all_iff_areBytes values).mp hbytes)]
    simp [hbytes]

/-- A write is refused for a value that is no byte, and then for its range. -/
theorem write_eq_error_iff {e : MemoryError} :
    m.write address values = .error e ↔
      ¬ AreBytes values ∧ e = .notAByte ∨
        AreBytes values ∧ ¬ m.InBounds address values.length ∧
          e = .outOfBounds ⟨address, values.length⟩ := by
  rw [write, store, List.length_map]
  by_cases hbytes : AreBytes values
  · rw [if_pos ((all_iff_areBytes values).mpr hbytes)]
    by_cases hrange : m.InBounds address values.length
    · simp [Except.mapError, hbytes, hrange]
    · simp [Except.mapError, hbytes, hrange, eq_comm]
  · rw [if_neg (mt (all_iff_areBytes values).mp hbytes)]
    simp [hbytes, eq_comm]

/-- An accepted write puts its values side by side and leaves all other bytes alone. -/
theorem byte_write (h : m.write address values = .ok written) (k : Nat) :
    ((written.byte k).toNat : Int) =
      if address ≤ k then (values[(k - address).toNat]?).getD (m.byte k).toNat
      else (m.byte k).toNat := by
  obtain ⟨⟨hbytes, hrange⟩, rfl⟩ := write_eq_ok_iff.mp h
  obtain ⟨start, rfl⟩ := Int.eq_ofNat_of_zero_le hrange.1
  have hend : start + (values.map UInt8.ofInt).length ≤ m.size := by
    rw [List.length_map]
    exact hrange.add_le
  have hindex : ((k : Int) - start).toNat = k - start := by omega
  rw [Int.toNat_natCast, byte_overwrite hend, List.length_map, hindex]
  by_cases hlow : (start : Int) ≤ k
  · rw [if_pos hlow]
    by_cases hhigh : k < start + values.length
    · have hk : k - start < values.length := by omega
      have hvalue := hbytes values[k - start] (List.getElem_mem hk)
      rw [if_pos ⟨by omega, hhigh⟩, List.getD_eq_getElem?_getD, List.getElem?_map,
        List.getElem?_eq_getElem hk]
      exact toNat_ofInt_byte (by omega)
    · rw [if_neg (fun hin => hhigh hin.2), List.getElem?_eq_none (by omega), Option.getD_none]
  · rw [if_neg hlow, if_neg (fun hin => hlow (by omega))]

/-! ## Any operations -/

theorem size_perform (m : Memory) (op : MemoryOp) : (m.perform op).1.size = m.size := by
  cases op with
  | write address values =>
    rw [perform]
    cases h : m.write address values with
    | ok written => exact size_of_write h
    | error e => rfl
  | readByte | readWord | readRange => rfl

/-- An operation that fails leaves the memory as it was, and so does one that only reads. -/
theorem perform_unchanged (m : Memory) (op : MemoryOp)
    (h : (∃ e, (m.perform op).2 = .error e) ∨ ∀ address values, op ≠ .write address values) :
    (m.perform op).1 = m := by
  cases op with
  | write address values =>
    obtain ⟨e, he⟩ | hread := h
    · rw [perform] at he ⊢
      cases hwrite : m.write address values with
      | ok written =>
        rw [hwrite] at he
        cases he
      | error e => rfl
    · exact absurd rfl (hread address values)
  | readByte | readWord | readRange => rfl

/-- An operation puts its value at an address, or leaves the byte there alone. -/
theorem byte_perform (m : Memory) (op : MemoryOp) (k : Nat) :
    (((m.perform op).1.byte k).toNat : Int) = (op.put? m.size k).getD (m.byte k).toNat := by
  cases op with
  | write address values =>
    rw [perform, put?]
    cases h : m.write address values with
    | ok written =>
      obtain ⟨⟨hbytes, hstart, -, hend⟩, -⟩ := write_eq_ok_iff.mp h
      rw [byte_write h]
      by_cases hlow : address ≤ k
      · rw [if_pos hlow, if_pos ⟨hbytes, hstart, hend, hlow⟩]
      · rw [if_neg hlow, if_neg (fun haccepted => hlow haccepted.2.2.2), Option.getD_none]
    | error e =>
      rw [if_neg, Option.getD_none]
      rintro ⟨hbytes, hstart, hend, -⟩
      have hok : m.write address values = .ok (m.overwrite address.toNat (values.map UInt8.ofInt)) :=
        write_eq_ok_iff.mpr ⟨⟨hbytes, hstart, by omega, hend⟩, rfl⟩
      rw [h] at hok
      cases hok
  | readByte | readWord | readRange => rfl

theorem size_after (m : Memory) (ops : List MemoryOp) : (m.after ops).size = m.size := by
  induction ops using List.reverseRecOn with
  | nil => rfl
  | append_singleton past op ih => rw [after_concat, size_perform, ih]

/-- After any operations on a fresh memory, an address holds what has been put there latest. -/
theorem byte_after (size : Nat) (ops : List MemoryOp) (k : Nat) :
    ((((blank size).after ops).byte k).toNat : Int) = lastPut size ops k := by
  induction ops using List.reverseRecOn with
  | nil =>
    show (((blank size).byte k).toNat : Int) = 0
    rw [byte_blank]
    rfl
  | append_singleton past op ih =>
    rw [after_concat, byte_perform, size_after, size_blank, lastPut_concat, ih]

/-! ## Answers -/

/-- Whether `length` bytes from `address` leave a memory of `size` bytes. -/
def Outside (size : Nat) (address length : Int) : Prop :=
  address < 0 ∨ length < 0 ∨ (size : Int) < address + length

theorem not_inBounds_iff_outside (m : Memory) (address length : Int) :
    ¬ m.InBounds address length ↔ Outside m.size address length := by
  unfold InBounds Outside
  omega

/-- How a checked array of `size` bytes answers, after some operations. -/
structure CheckedBytes (size : Nat) (past : List MemoryOp) (m : Memory) : Prop where
  size_eq : m.size = size
  /-- A value that is no byte is refused, whatever the address, … -/
  write_notAByte : ∀ (address : Int) (values : List Int),
    m.write address values = .error .notAByte ↔ ∃ v ∈ values, v < 0 ∨ 255 < v
  /-- … and bytes are refused where they do not fit. -/
  write_outside : ∀ (address : Int) (values : List Int) (access : OutOfBounds),
    m.write address values = .error (.outOfBounds access) ↔
      AreBytes values ∧ Outside size address values.length ∧ access = ⟨address, values.length⟩
  /-- Any other write puts its values side by side and leaves all other bytes alone. -/
  write_inside : ∀ (address : Int) (values : List Int), AreBytes values →
    ¬ Outside size address values.length →
    ∃ written, m.write address values = .ok written ∧ written.size = size ∧
      (∀ (k : Nat) (v : Int), values[k]? = some v →
        ((written.byte (address.toNat + k)).toNat : Int) = v) ∧
      ∀ a : Nat, a < address ∨ address + values.length ≤ a → written.byte a = m.byte a
  readByte_outside : ∀ (address : Int) (access : OutOfBounds),
    m.readByte address = .error access ↔ Outside size address 1 ∧ access = ⟨address, 1⟩
  readByte_inside : ∀ address : Int, ¬ Outside size address 1 →
    ∃ b, m.readByte address = .ok b ∧ (b.toNat : Int) = lastPut size past address
  readWord_outside : ∀ (address : Int) (access : OutOfBounds),
    m.readWord address = .error access ↔ Outside size address 2 ∧ access = ⟨address, 2⟩
  readWord_inside : ∀ address : Int, ¬ Outside size address 2 →
    ∃ w, m.readWord address = .ok w ∧
      (w.toNat : Int) = 256 * lastPut size past address + lastPut size past (address + 1)
  /-- A range that leaves the memory is refused with its length, … -/
  read_outside : ∀ (address length : Int) (access : OutOfBounds),
    m.read address length = .error (.outOfBounds access) ↔
      Outside size address length ∧ Writable length ∧ access = ⟨address, length⟩
  /-- … unless the length has too many digits. -/
  read_unnamed : ∀ (address length : Int) (e : TooManyDigits),
    m.read address length = .error (.tooManyDigits e) ↔
      Outside size address length ∧ ¬ Writable length ∧ e = ⟨length⟩
  read_inside : ∀ address length : Int, ¬ Outside size address length →
    ∃ bytes, m.read address length = .ok bytes ∧
      bytes.map (fun b => (b.toNat : Int)) =
        (List.range length.toNat).map fun k : Nat => lastPut size past (address + k)
  /-- An operation that fails changes nothing, and neither does one that only reads. -/
  unchanged : ∀ op : MemoryOp, (∃ e, (m.perform op).2 = .error e) ∨
    (∀ address values, op ≠ .write address values) → (m.perform op).1 = m

/-- A memory whose addresses hold what has been put there latest. -/
structure Holds (size : Nat) (past : List MemoryOp) (m : Memory) : Prop where
  size_eq : m.size = size
  byte_eq : ∀ k : Nat, ((m.byte k).toNat : Int) = lastPut size past k

theorem Holds.after (size : Nat) (ops : List MemoryOp) :
    Holds size ops ((blank size).after ops) where
  size_eq := by rw [size_after, size_blank]
  byte_eq := byte_after size ops

theorem Holds.inBounds (h : Holds size past m) {length : Int}
    (hinside : ¬ Outside size address length) : m.InBounds address length := by
  rw [← h.size_eq, ← not_inBounds_iff_outside, not_not] at hinside
  exact hinside

/-- An access that makes one check fails if and only if the check does. -/
theorem Holds.checked_eq_error_iff {α : Type} (h : Holds size past m) {length : Int} {a : α}
    {access : OutOfBounds} :
    (if m.InBounds address length then Except.ok a else .error ⟨address, length⟩) = .error access ↔
      Outside size address length ∧ access = ⟨address, length⟩ := by
  rw [← h.size_eq, ← not_inBounds_iff_outside]
  by_cases hrange : m.InBounds address length <;> simp [hrange, eq_comm]

/-- A range is refused if and only if it leaves the memory, and then as its length allows. -/
theorem Holds.read_eq_error_iff (h : Holds size past m) {length : Int} {e : MemoryError} :
    m.read address length = .error e ↔ Outside size address length ∧ e = refusal address length := by
  rw [← h.size_eq, ← not_inBounds_iff_outside, read]
  by_cases hrange : m.InBounds address length <;> simp [hrange, eq_comm]

theorem outOfBounds_eq_refusal_iff {length : Int} {access : OutOfBounds} :
    .outOfBounds access = refusal address length ↔
      Writable length ∧ access = ⟨address, length⟩ := by
  rw [refusal]
  split
  next hshort => simp [hshort]
  next hlong => simp [hlong]

theorem tooManyDigits_eq_refusal_iff {length : Int} {e : TooManyDigits} :
    .tooManyDigits e = refusal address length ↔ ¬ Writable length ∧ e = ⟨length⟩ := by
  rw [refusal]
  split
  next hshort => simp [hshort]
  next hlong => simp [hlong]

theorem write_eq_notAByte_iff (m : Memory) (address : Int) (values : List Int) :
    m.write address values = .error .notAByte ↔ ∃ v ∈ values, v < 0 ∨ 255 < v := by
  rw [write_eq_error_iff, ← not_areBytes_iff]
  simp

theorem Holds.write_outside (h : Holds size past m) {access : OutOfBounds} :
    m.write address values = .error (.outOfBounds access) ↔
      AreBytes values ∧ Outside size address values.length ∧
        access = ⟨address, values.length⟩ := by
  rw [write_eq_error_iff, not_inBounds_iff_outside, h.size_eq]
  simp

theorem Holds.write_inside (h : Holds size past m) (hbytes : AreBytes values)
    (hinside : ¬ Outside size address values.length) :
    ∃ written, m.write address values = .ok written ∧ written.size = size ∧
      (∀ (k : Nat) (v : Int), values[k]? = some v →
        ((written.byte (address.toNat + k)).toNat : Int) = v) ∧
      ∀ a : Nat, a < address ∨ address + values.length ≤ a → written.byte a = m.byte a := by
  have hrange := h.inBounds hinside
  have hok := write_eq_ok_iff.mpr ⟨⟨hbytes, hrange⟩, rfl⟩
  refine ⟨_, hok, (size_of_write hok).trans h.size_eq, ?_, ?_⟩
  · intro k v hv
    have hstart := hrange.1
    have hindex : (((address.toNat + k : Nat) : Int) - address).toNat = k := by omega
    rw [byte_write hok, if_pos (by omega), hindex, hv, Option.getD_some]
  · intro a ha
    have hbyte := byte_write hok a
    by_cases hlow : address ≤ a
    · rw [if_pos hlow, List.getElem?_eq_none (by omega), Option.getD_none] at hbyte
      exact UInt8.toNat_inj.mp (Int.ofNat_inj.mp hbyte)
    · rw [if_neg hlow] at hbyte
      exact UInt8.toNat_inj.mp (Int.ofNat_inj.mp hbyte)

theorem Holds.readByte_inside (h : Holds size past m) (hinside : ¬ Outside size address 1) :
    ∃ b, m.readByte address = .ok b ∧ (b.toNat : Int) = lastPut size past address := by
  have hrange := h.inBounds hinside
  obtain ⟨start, rfl⟩ := Int.eq_ofNat_of_zero_le hrange.1
  refine ⟨m.byte start, ?_, h.byte_eq start⟩
  rw [readByte, if_pos hrange, Int.toNat_natCast]

theorem Holds.readWord_inside (h : Holds size past m) (hinside : ¬ Outside size address 2) :
    ∃ w, m.readWord address = .ok w ∧
      (w.toNat : Int) = 256 * lastPut size past address + lastPut size past (address + 1) := by
  have hrange := h.inBounds hinside
  obtain ⟨start, rfl⟩ := Int.eq_ofNat_of_zero_le hrange.1
  refine ⟨_, if_pos hrange, ?_⟩
  have hhigh := h.byte_eq start
  have hlow := h.byte_eq (start + 1)
  have hhigh' := (m.byte start).toNat_lt
  have hlow' := (m.byte (start + 1)).toNat_lt
  have hnext : ((start + 1 : Nat) : Int) = start + 1 := rfl
  rw [hnext] at hlow
  rw [Int.toNat_natCast, UInt16.toNat_ofNat', Nat.mod_eq_of_lt (by omega)]
  omega

theorem Holds.read_inside (h : Holds size past m) {length : Int}
    (hinside : ¬ Outside size address length) :
    ∃ bytes, m.read address length = .ok bytes ∧
      bytes.map (fun b => (b.toNat : Int)) =
        (List.range length.toNat).map fun k : Nat => lastPut size past (address + k) := by
  have hrange := h.inBounds hinside
  obtain ⟨start, rfl⟩ := Int.eq_ofNat_of_zero_le hrange.1
  refine ⟨_, if_pos hrange, ?_⟩
  rw [Int.toNat_natCast, slice, List.map_map]
  refine List.map_congr_left fun k _ => ?_
  exact h.byte_eq (start + k)

/-- **Memory is a checked array of bytes.**  A memory of any size, on which any operations have been
performed, refuses exactly the values that are no bytes and the ranges that leave it, and says so,
unless a length has too many digits to be named; all other writes are stored, and all other reads
give what has been put there latest. -/
theorem checked_bytes (size : Nat) (ops : List MemoryOp) :
    ∃ fresh, ofSize size = .ok fresh ∧ CheckedBytes size ops (fresh.after ops) := by
  have h := Holds.after size ops
  refine ⟨blank size, if_neg (by omega), ?_⟩
  exact {
    size_eq := h.size_eq
    write_notAByte := write_eq_notAByte_iff _
    write_outside := fun _ _ _ => h.write_outside
    write_inside := fun _ _ => h.write_inside
    readByte_outside := fun _ _ => h.checked_eq_error_iff
    readByte_inside := fun _ => h.readByte_inside
    readWord_outside := fun _ _ => h.checked_eq_error_iff
    readWord_inside := fun _ => h.readWord_inside
    read_outside := fun _ _ _ =>
      h.read_eq_error_iff.trans (and_congr_right' outOfBounds_eq_refusal_iff)
    read_unnamed := fun _ _ _ =>
      h.read_eq_error_iff.trans (and_congr_right' tooManyDigits_eq_refusal_iff)
    read_inside := fun _ _ => h.read_inside
    unchanged := perform_unchanged _ }

/-- The shortest length that is not named, read from the start of a standard memory. -/
theorem long_read_is_not_named :
    Outside 4096 0 (Nat.pow 10 4300) ∧
      (blank 4096).read 0 (Nat.pow 10 4300) = .error (.tooManyDigits ⟨Nat.pow 10 4300⟩) := by
  have houtside : Outside 4096 0 (Nat.pow 10 4300) := .inr (.inr (by decide +kernel))
  have hlong : ¬ Writable (Nat.pow 10 4300) := by
    rw [writable_iff]
    decide +kernel
  have hread := (Holds.after 4096 []).read_eq_error_iff.mpr
    ⟨houtside, tooManyDigits_eq_refusal_iff.mpr ⟨hlong, rfl⟩⟩
  exact ⟨houtside, hread⟩

end Memory

end Chip8
