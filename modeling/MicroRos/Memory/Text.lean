import MicroRos.Memory.Heap

/-! Byte strings in memory: writing them, copying them, and what still holds of them
afterwards.
-/

set_option autoImplicit false

namespace MicroRos.Memory

namespace Contents

/-- Write the bytes from `p` on. -/
def writeBytes (m : Contents) (p : Pointer) (bytes : List Byte) : Contents :=
  m.write p bytes.length fun i => .byte (bytes.getD i 0)

/-- `memcpy` from another object. -/
def copy (m : Contents) (dest src : Pointer) (n : Nat) : Contents := m.write dest n fun i => m (src.plus i)

/-- A byte that is not part of a stored pointer. -/
def byteAt (m : Contents) (p : Pointer) : Byte :=
  match m p with
  | .byte value => value
  | .fragment _ _ => 0

/-- The bytes from `p` to the next terminator, `n` at most. -/
def textAt (m : Contents) (p : Pointer) : Nat → List Byte
  | 0 => []
  | n + 1 => if m.byteAt p = 0 then [] else m.byteAt p :: m.textAt (p.plus 1) n

/-- The bytes stand at `p`, one after the other. -/
def Holds (m : Contents) (p : Pointer) (bytes : List Byte) : Prop :=
  ∀ i, (inside : i < bytes.length) → m (p.plus i) = .byte bytes[i]

instance (m : Contents) (p : Pointer) (bytes : List Byte) : Decidable (m.Holds p bytes) := by
  unfold Holds
  infer_instance

variable {m m' : Contents} {p q : Pointer} {bytes more : List Byte}

theorem Holds.congr (holds : m.Holds p bytes) (same : m.Agree m' p bytes.length) : m'.Holds p bytes :=
  fun i inside => (same i inside).trans (holds i inside)

theorem holds_append_iff : m.Holds p (bytes ++ more) ↔ m.Holds p bytes ∧ m.Holds (p.plus bytes.length) more := by
  constructor
  · intro holds
    constructor
    · intro i inside
      rw [holds i (by rw [List.length_append]; omega), List.getElem_append_left inside]
    · intro i inside
      rw [Pointer.plus_plus, holds (bytes.length + i) (by rw [List.length_append]; omega)]
      simp
  · rintro ⟨first, second⟩ i inside
    rw [List.length_append] at inside
    by_cases before : i < bytes.length
    · rw [first i before, List.getElem_append_left before]
    · have behind := second (i - bytes.length) (by omega)
      rw [Pointer.plus_plus, Nat.add_sub_cancel' (Nat.le_of_not_lt before)] at behind
      rw [behind, List.getElem_append_right (Nat.le_of_not_lt before)]

theorem holds_writeBytes (m : Contents) (p : Pointer) (bytes : List Byte) :
    (m.writeBytes p bytes).Holds p bytes := by
  intro i inside
  rw [writeBytes, write_inside m _ inside, List.getD_eq_getElem?_getD, List.getElem?_eq_getElem inside]
  rfl

/-- What stands before the bytes that are written stays. -/
theorem agree_writeBytes_behind (m : Contents) (p : Pointer) (n : Nat) (bytes : List Byte) :
    m.Agree (m.writeBytes (p.plus n) bytes) p n := by
  intro i before
  apply write_outside
  rintro ⟨_, lower, _⟩
  simp only [Pointer.plus_offset] at lower
  omega

/-- What stands behind the bytes that are written stays. -/
theorem agree_writeBytes_before (m : Contents) (p : Pointer) (n : Nat) (bytes : List Byte) :
    m.Agree (m.writeBytes p bytes) (p.plus bytes.length) n := by
  intro i _
  apply write_outside
  rintro ⟨_, _, upper⟩
  simp only [Pointer.plus_offset] at upper
  omega

theorem Holds.copied {n : Nat} (holds : m.Holds q bytes) (fits : bytes.length ≤ n) :
    (m.copy p q n).Holds p bytes := by
  intro i inside
  rw [copy, write_inside m _ (Nat.lt_of_lt_of_le inside fits), holds i inside]

end Contents
end MicroRos.Memory
