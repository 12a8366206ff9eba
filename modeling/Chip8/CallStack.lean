/-!
# The call stack

Sixteen slots for return addresses.  The lowest `depth` slots are in use; what older calls left in
the other slots stays there but is never read.  `CallStack.frames` is the view of the used slots,
outermost call first.
-/

namespace Chip8

/-- The number of slots. -/
abbrev CallStack.capacity : Nat := 16

structure CallStack where
  slots : Vector UInt16 CallStack.capacity
  depth : Nat
  depth_le : depth ≤ CallStack.capacity
deriving DecidableEq, Repr

namespace CallStack

/-- The stack before any call. -/
def empty : CallStack where
  slots := Vector.replicate capacity 0
  depth := 0
  depth_le := by decide

/-- The return addresses in use, outermost first. -/
def frames (s : CallStack) : List UInt16 :=
  s.slots.toList.take s.depth

/-- Puts a return address on the stack; `none` if all slots are in use. -/
def push? (s : CallStack) (address : UInt16) : Option CallStack :=
  if h : s.depth < capacity then
    some { slots := s.slots.set s.depth address, depth := s.depth + 1, depth_le := h }
  else none

/-- Takes the latest return address off the stack; `none` if there is none.  Its slot keeps it. -/
def pop? (s : CallStack) : Option (UInt16 × CallStack) :=
  if h : 0 < s.depth then
    have hle := s.depth_le
    some (s.slots[s.depth - 1], { s with depth := s.depth - 1, depth_le := by omega })
  else none

/-! ## Depth and slots -/

theorem push?_eq_none_iff (s : CallStack) (address : UInt16) :
    s.push? address = none ↔ s.depth = capacity := by
  have hle := s.depth_le
  unfold push?
  split
  next hlt =>
    have hne : s.depth ≠ capacity := by omega
    simp [hne]
  next hge =>
    have heq : s.depth = capacity := by omega
    simp [heq]

theorem pop?_eq_none_iff (s : CallStack) : s.pop? = none ↔ s.depth = 0 := by
  unfold pop?
  split
  next hpos =>
    have hne : s.depth ≠ 0 := by omega
    simp [hne]
  next hzero =>
    have heq : s.depth = 0 := by omega
    simp [heq]

/-- Putting an address on the stack writes the first free slot and no other. -/
theorem slots_push? {s t : CallStack} {address : UInt16} (h : s.push? address = some t) :
    t.depth = s.depth + 1 ∧
      ∀ k : Fin capacity, t.slots[k] = if k.val = s.depth then address else s.slots[k] := by
  unfold push? at h
  split at h
  next hlt =>
    cases h
    refine ⟨rfl, fun k => ?_⟩
    simp only [Fin.getElem_fin, Vector.getElem_set, eq_comm]
  next => cases h

/-- Taking an address off the stack leaves all slots as they are. -/
theorem slots_pop? {s t : CallStack} {address : UInt16} (h : s.pop? = some (address, t)) :
    s.depth = t.depth + 1 ∧ t.slots = s.slots ∧ s.slots[t.depth]? = some address := by
  unfold pop? at h
  split at h
  next hpos =>
    cases h
    have hle := s.depth_le
    refine ⟨by simp only; omega, rfl, ?_⟩
    simp only [Vector.getElem?_eq_getElem (show s.depth - 1 < capacity by omega)]
  next => cases h

/-! ## Frames -/

theorem length_frames (s : CallStack) : s.frames.length = s.depth := by
  rw [frames, List.length_take, Vector.length_toList]
  exact Nat.min_eq_left s.depth_le

theorem frames_push? {s t : CallStack} {address : UInt16} (h : s.push? address = some t) :
    t.frames = s.frames ++ [address] := by
  unfold push? at h
  split at h
  next hlt =>
    cases h
    have hlength : s.depth < s.slots.toList.length := by simpa using hlt
    rw [frames, frames, Vector.toList_set, List.take_add_one, List.take_set_of_le (Nat.le_refl _),
      List.getElem?_set_self hlength]
    rfl
  next => cases h

theorem frames_pop? {s t : CallStack} {address : UInt16} (h : s.pop? = some (address, t)) :
    s.frames = t.frames ++ [address] := by
  obtain ⟨hdepth, hslots, htop⟩ := slots_pop? h
  have htop' : s.slots.toList[t.depth]? = some address := by simpa using htop
  rw [frames, frames, hdepth, hslots, List.take_add_one, htop']
  rfl

end CallStack

end Chip8
