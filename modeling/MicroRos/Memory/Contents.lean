import Mathlib.Data.Nat.Basic
import Mathlib.Data.Nat.ModEq
import Mathlib.Tactic.Ring

/-! Byte-addressed memory made of separate objects.

A pointer is an object together with an offset, so that an access past the end
of one object never reaches another. A cell holds a byte or one of the pieces of
a stored pointer; a pointer is read back only from all of its pieces in order.
The memory is total: which accesses are allowed is decided by the heap.
-/

set_option autoImplicit false

namespace MicroRos.Memory

abbrev Byte := Fin 256

instance byteNeZero : NeZero 256 := ⟨by decide⟩

/-- An object of memory: named by its owner and a number, or the null page. -/
inductive Block where
  | null
  | object (owner number : Nat)
  deriving DecidableEq, Repr

structure Pointer where
  block : Block
  offset : Nat
  deriving DecidableEq, Repr

def Pointer.null : Pointer := ⟨.null, 0⟩

def Pointer.plus (p : Pointer) (n : Nat) : Pointer := ⟨p.block, p.offset + n⟩

@[simp] theorem Pointer.plus_block (p : Pointer) (n : Nat) : (p.plus n).block = p.block := rfl

@[simp] theorem Pointer.plus_offset (p : Pointer) (n : Nat) : (p.plus n).offset = p.offset + n := rfl

@[simp] theorem Pointer.plus_zero (p : Pointer) : p.plus 0 = p := rfl

theorem Pointer.plus_plus (p : Pointer) (m n : Nat) : (p.plus m).plus n = p.plus (m + n) := by
  simp [plus, Nat.add_assoc]

theorem Pointer.plus_ne_null {p : Pointer} (notNull : p ≠ null) (n : Nat) : p.plus n ≠ null := by
  intro isNull
  simp only [plus, null, mk.injEq] at isNull
  exact notNull (by cases p; simp_all [null])

/-- The address lies among the `n` addresses that start at `p`. -/
def Pointer.Spans (p : Pointer) (n : Nat) (q : Pointer) : Prop :=
  q.block = p.block ∧ p.offset ≤ q.offset ∧ q.offset < p.offset + n

instance (p : Pointer) (n : Nat) (q : Pointer) : Decidable (p.Spans n q) := by
  unfold Pointer.Spans
  infer_instance

theorem Pointer.spans_iff {p q : Pointer} {n : Nat} : p.Spans n q ↔ ∃ i < n, q = p.plus i := by
  constructor
  · rintro ⟨sameBlock, lower, upper⟩
    refine ⟨q.offset - p.offset, by omega, ?_⟩
    cases q
    simp only [plus, Pointer.mk.injEq]
    exact ⟨sameBlock, by simp only at lower; omega⟩
  · rintro ⟨i, bound, rfl⟩
    exact ⟨rfl, by simp, by simpa using bound⟩

theorem Pointer.spans_plus {p : Pointer} {n i : Nat} (bound : i < n) : p.Spans n (p.plus i) :=
  Pointer.spans_iff.mpr ⟨i, bound, rfl⟩

/-- A range inside a range. -/
theorem Pointer.Spans.within {p q : Pointer} {m n i : Nat} (inner : (p.plus i).Spans m q)
    (fits : i + m ≤ n) : p.Spans n q := by
  obtain ⟨sameBlock, lower, upper⟩ := inner
  simp only [plus_block, plus_offset] at sameBlock lower upper
  exact ⟨sameBlock, by omega, by omega⟩

inductive Cell where
  | byte (value : Byte)
  | fragment (pointer : Pointer) (index : Nat)
  deriving DecidableEq, Repr

def Cell.zero : Cell := .byte 0

def Cell.value : Cell → Nat
  | .byte value => value.val
  | .fragment _ _ => 0

abbrev Contents := Pointer → Cell

namespace Contents

/-- Replace the `n` cells that start at `p`. -/
def write (m : Contents) (p : Pointer) (n : Nat) (cells : Nat → Cell) : Contents := fun q =>
  if p.Spans n q then cells (q.offset - p.offset) else m q

theorem write_outside (m : Contents) {p q : Pointer} {n : Nat} (cells : Nat → Cell)
    (outside : ¬ p.Spans n q) : m.write p n cells q = m q := if_neg outside

theorem write_inside (m : Contents) {p : Pointer} {n i : Nat} (cells : Nat → Cell)
    (bound : i < n) : m.write p n cells (p.plus i) = cells i := by
  simp [write, Pointer.spans_plus bound]

/-- Two memories have the same cells in the `n` addresses from `p`. -/
def Agree (m m' : Contents) (p : Pointer) (n : Nat) : Prop := ∀ i < n, m' (p.plus i) = m (p.plus i)

/-- Pieces of a stored pointer; the null pointer is stored as zero bytes. -/
def encodePointer (v : Pointer) (i : Nat) : Cell :=
  if v = .null then .zero else .fragment v i

def storePointer (word : Nat) (m : Contents) (p v : Pointer) : Contents :=
  m.write p word (encodePointer v)

/-- The pointer whose pieces stand at `p`. Zero bytes are the null pointer, and so is
anything that is not the complete sequence of pieces of one pointer. -/
def loadPointer (word : Nat) (m : Contents) (p : Pointer) : Pointer :=
  match m p with
  | .byte _ => .null
  | .fragment v _ => if ∀ i < word, m (p.plus i) = .fragment v i then v else .null

def encodeSize (n i : Nat) : Cell :=
  .byte ⟨n / 256 ^ i % 256, Nat.mod_lt _ (by decide)⟩

/-- An unsigned integer of `word` bytes, least significant byte first. -/
def storeSize (word : Nat) (m : Contents) (p : Pointer) (n : Nat) : Contents :=
  m.write p word (encodeSize n)

def loadSize : Nat → Contents → Pointer → Nat
  | 0, _, _ => 0
  | word + 1, m, p => (m p).value + 256 * loadSize word m (p.plus 1)

def fillZero (m : Contents) (p : Pointer) (n : Nat) : Contents := m.write p n fun _ => .zero

theorem storePointer_outside (word : Nat) (m : Contents) {p q : Pointer} (v : Pointer)
    (outside : ¬ p.Spans word q) : m.storePointer word p v q = m q := write_outside m _ outside

theorem storeSize_outside (word : Nat) (m : Contents) {p q : Pointer} (n : Nat)
    (outside : ¬ p.Spans word q) : m.storeSize word p n q = m q := write_outside m _ outside

theorem fillZero_outside (m : Contents) {p q : Pointer} {n : Nat} (outside : ¬ p.Spans n q) :
    m.fillZero p n q = m q := write_outside m _ outside

theorem fillZero_inside (m : Contents) {p : Pointer} {n i : Nat} (bound : i < n) :
    m.fillZero p n (p.plus i) = .zero := write_inside m _ bound

theorem loadPointer_of_encoded {word : Nat} (positive : 0 < word) {m : Contents} {p v : Pointer}
    (stored : ∀ i < word, m (p.plus i) = encodePointer v i) : m.loadPointer word p = v := by
  have first := stored 0 positive
  simp only [Pointer.plus_zero, encodePointer] at first stored
  by_cases isNull : v = .null
  · simp only [isNull, if_true] at first
    simp [loadPointer, first, isNull, Cell.zero]
  · simp only [isNull, if_false] at first stored
    simp only [loadPointer, first]
    rw [if_pos stored]

theorem loadPointer_storePointer {word : Nat} (positive : 0 < word) (m : Contents) (p v : Pointer) :
    (m.storePointer word p v).loadPointer word p = v :=
  loadPointer_of_encoded positive fun _ bound => write_inside m _ bound

theorem loadPointer_congr {word : Nat} (positive : 0 < word) {m m' : Contents} {p : Pointer}
    (same : m.Agree m' p word) : m'.loadPointer word p = m.loadPointer word p := by
  have first := same 0 positive
  simp only [Pointer.plus_zero] at first
  simp only [loadPointer, first]
  cases m p with
  | byte _ => rfl
  | fragment v _ =>
    have pieces : (∀ i < word, m' (p.plus i) = .fragment v i) ↔
        ∀ i < word, m (p.plus i) = .fragment v i :=
      forall₂_congr fun i bound => by rw [same i bound]
    simp only [pieces]

theorem loadPointer_zero {word : Nat} {m : Contents} {p : Pointer} (zero : m p = .zero) :
    m.loadPointer word p = .null := by
  simp [loadPointer, zero, Cell.zero]

theorem loadSize_congr {word : Nat} {m m' : Contents} {p : Pointer}
    (same : m.Agree m' p word) : m'.loadSize word p = m.loadSize word p := by
  induction word generalizing p with
  | zero => rfl
  | succ word ih =>
    have first := same 0 (by omega)
    simp only [Pointer.plus_zero] at first
    have rest : m.Agree m' (p.plus 1) word := fun i bound => by
      simpa [Pointer.plus_plus] using same (1 + i) (by omega)
    simp only [loadSize, first, ih rest]

theorem loadSize_of_encoded {word n : Nat} {m : Contents} {p : Pointer}
    (stored : ∀ i < word, m (p.plus i) = encodeSize n i) : m.loadSize word p = n % 256 ^ word := by
  induction word generalizing p n with
  | zero => simp [loadSize, Nat.mod_one]
  | succ word ih =>
    have first := stored 0 (by omega)
    simp only [Pointer.plus_zero, encodeSize, Nat.pow_zero, Nat.div_one] at first
    have rest : m.loadSize word (p.plus 1) = n / 256 % 256 ^ word := by
      refine ih fun i bound => ?_
      rw [Pointer.plus_plus, stored (1 + i) (by omega)]
      simp only [encodeSize, Nat.div_div_eq_div_mul, ← Nat.pow_succ', Nat.add_comm 1 i]
    simp only [loadSize, first, Cell.value, rest]
    rw [Nat.pow_succ', Nat.mod_mul]

theorem loadSize_storeSize (word n : Nat) (m : Contents) (p : Pointer) :
    (m.storeSize word p n).loadSize word p = n % 256 ^ word :=
  loadSize_of_encoded fun _ bound => write_inside m _ bound

end Contents
end MicroRos.Memory
