import MicroRos.Utilities.NameTree
import MicroRos.Memory.Text

/-! The string utilities on the memory of their buffers.

Lengths are exact numbers: a string and an argument that does not overlap it lie in one
address space, so `size_t` holds the sum of their lengths. The log is not part of the
program; it records each access to a buffer with the length that its object had at that
moment, and the objects that were obtained and given back.
-/

set_option autoImplicit false

namespace MicroRos

open Memory (Pointer Byte Cell Contents Heap)

/-- `rosidl_runtime_c__String`. -/
structure RuntimeString where
  data : Pointer
  size : Nat
  capacity : Nat
  deriving DecidableEq, Repr

inductive StringEvent where
  | read (pointer : Pointer) (length : Nat) (extent : Option Nat)
  | written (pointer : Pointer) (length : Nat) (extent : Option Nat)
  /-- `memcmp` of this many bytes with another buffer, of `other` bytes. -/
  | compared (pointer : Pointer) (length : Nat) (extent : Option Nat) (other : Nat)
  | obtained (pointer : Pointer)
  | released (pointer : Pointer) (extent : Option Nat)
  deriving DecidableEq, Repr

/-- A write stays within its object; the object is alive. -/
def StringEvent.Inside : StringEvent → Prop
  | .written p n (some size) => p.offset + n ≤ size
  | .written _ _ none => False
  | _ => True

instance : DecidablePred StringEvent.Inside := fun event => by
  unfold StringEvent.Inside
  split <;> infer_instance

structure StringHeap where
  memory : Contents
  heap : Heap
  log : List StringEvent

/-- The bytes of a C string with its terminator. -/
def CString.cells (s : CString) : List Byte := s.text ++ [0]

@[simp] theorem CString.cells_length (s : CString) : s.cells.length = s.text.length + 1 := by
  simp [cells]

theorem CString.cells_append (s t : CString) : (s.append t).cells = s.text ++ t.cells := by
  simp [cells]

namespace StringHeap

def record (event : StringEvent) (w : StringHeap) : StringHeap := { w with log := w.log ++ [event] }

/-- `memcpy` from somewhere else, and `memset` of `bytes`. -/
def write (p : Pointer) (bytes : List Byte) (w : StringHeap) : StringHeap :=
  { w.record (.written p bytes.length (w.heap.extent p.block)) with
    memory := w.memory.writeBytes p bytes }

/-- The reads of `%s`. -/
def read (p : Pointer) (n : Nat) (w : StringHeap) : StringHeap :=
  w.record (.read p n (w.heap.extent p.block))

/-- `memcmp` of `n` bytes with a buffer of `other` bytes. -/
def compare (p : Pointer) (n other : Nat) (w : StringHeap) : StringHeap :=
  w.record (.compared p n (w.heap.extent p.block) other)

/-- `allocator.allocate` of the default allocator. -/
def allocate (size : Nat) (w : StringHeap) : Pointer × StringHeap :=
  let answer := w.heap.allocate 0 size
  (answer.1, { w with heap := answer.2 }.record (.obtained answer.1))

/-- `allocator.reallocate`: where the object moves, its bytes are copied as far as there is room. -/
def reallocate (p : Pointer) (size : Nat) (w : StringHeap) : Pointer × StringHeap :=
  let answer := w.heap.resize 0 p size
  if answer.1 = p ∨ answer.1 = .null then (answer.1, { w with heap := answer.2 })
  else
    let held := w.heap.extent p.block
    (answer.1, { w with
      heap := answer.2
      memory := w.memory.copy answer.1 p (min (held.getD 0) size)
      log := w.log ++ ((if p = .null then [] else [.released p held]) ++ [.obtained answer.1]) })

/-- `allocator.deallocate`. -/
def deallocate (p : Pointer) (w : StringHeap) : StringHeap :=
  { w with heap := w.heap.release p }.record (.released p (w.heap.extent p.block))

/-- What was logged between the two states. -/
def since (before after : StringHeap) : List StringEvent := after.log.drop before.log.length

/-- The log was extended, by events that satisfy `P`. -/
def Logs (P : StringEvent → Prop) (before after : StringHeap) : Prop :=
  ∃ events, after.log = before.log ++ events ∧ ∀ event ∈ events, P event

namespace Logs

variable {P Q : StringEvent → Prop} {w w' w'' : StringHeap}

theorem of_log (same : w'.log = w.log) : Logs P w w' := ⟨[], by simp [same], List.forall_mem_nil _⟩

theorem trans (first : Logs P w w') (second : Logs P w' w'') : Logs P w w'' := by
  obtain ⟨events, log, every⟩ := first
  obtain ⟨events', log', every'⟩ := second
  exact ⟨events ++ events', by rw [log', log, List.append_assoc], List.forall_mem_append.mpr ⟨every, every'⟩⟩

theorem write (p : Pointer) (bytes : List Byte) (w : StringHeap)
    (allowed : P (.written p bytes.length (w.heap.extent p.block))) : Logs P w (w.write p bytes) :=
  ⟨[_], rfl, List.forall_mem_singleton.mpr allowed⟩

theorem read (p : Pointer) (n : Nat) (w : StringHeap) (allowed : P (.read p n (w.heap.extent p.block))) :
    Logs P w (w.read p n) := ⟨[_], rfl, List.forall_mem_singleton.mpr allowed⟩

theorem compare (p : Pointer) (n other : Nat) (w : StringHeap)
    (allowed : P (.compared p n (w.heap.extent p.block) other)) : Logs P w (w.compare p n other) :=
  ⟨[_], rfl, List.forall_mem_singleton.mpr allowed⟩

end Logs

theorem forall_since_trans {P : StringEvent → Prop} {w w' w'' : StringHeap} (first : Logs (fun _ => True) w w')
    (second : Logs (fun _ => True) w' w'') :
    (∀ event ∈ w.since w'', P event) ↔ (∀ event ∈ w.since w', P event) ∧ ∀ event ∈ w'.since w'', P event := by
  obtain ⟨events, log, _⟩ := first
  obtain ⟨events', log', _⟩ := second
  simp [since, log', log, or_imp, forall_and]

/-- After quiet steps it is the write that decides. -/
theorem forall_since_write {P : StringEvent → Prop} {w w' : StringHeap} (quiet : Logs P w w') (p : Pointer)
    (bytes : List Byte) :
    (∀ event ∈ w.since (w'.write p bytes), P event) ↔ P (.written p bytes.length (w'.heap.extent p.block)) := by
  obtain ⟨events, log, every⟩ := quiet
  simp only [since, write, record, log, List.append_assoc, List.drop_left, List.forall_mem_append,
    List.forall_mem_singleton]
  exact and_iff_right every

end StringHeap

namespace RuntimeString

/-- `micro_ros_string_utilities_init`. -/
def init (data : CString) (w : StringHeap) : RuntimeString × StringHeap :=
  let size := data.text.length
  let answer := w.allocate (size + 1)
  let zeroed := answer.2.write answer.1 (List.replicate (size + 1) 0)
  (⟨answer.1, size, size + 1⟩, zeroed.write answer.1 data.text)

/-- The growth test of `set` and `append`, for a text that will have this length. -/
def reserve (str : RuntimeString) (length : Nat) (w : StringHeap) : RuntimeString × StringHeap :=
  -- The capacity counts the terminator, the length does not.
  if length > str.capacity then
    let moved := w.reallocate str.data (length + 1)
    ({ str with data := moved.1, capacity := length + 1 }, moved.2)
  else (str, w)

/-- `micro_ros_string_utilities_set`. -/
def set (str : RuntimeString) (data : CString) (w : StringHeap) : RuntimeString × StringHeap :=
  let size := data.text.length
  let ret := str.reserve size w
  ({ ret.1 with size := size }, ret.2.write ret.1.data data.cells)

/-- `micro_ros_string_utilities_append`. -/
def append (str : RuntimeString) (data : CString) (w : StringHeap) : RuntimeString × StringHeap :=
  let appendSize := data.text.length
  let ret := str.reserve (str.size + appendSize) w
  ({ ret.1 with size := str.size + appendSize }, ret.2.write (ret.1.data.plus str.size) data.cells)

/-- `micro_ros_string_utilities_remove_tail_chars`; `n` is at most the size. -/
def removeTailChars (str : RuntimeString) (n : Nat) (w : StringHeap) : RuntimeString × StringHeap :=
  let size := str.size - n
  ({ str with size := size }, w.write (str.data.plus size) [0])

/-- `micro_ros_string_utilities_destroy`. -/
def destroy (str : RuntimeString) (w : StringHeap) : RuntimeString × StringHeap :=
  (⟨.null, 0, 0⟩, w.deallocate str.data)

end RuntimeString

/-- The string utilities on structs that are passed by value and buffers that are not. -/
def heapStrings (target : Target) : StringOps target StringHeap RuntimeString where
  zero := ⟨.null, 0, 0⟩
  init data w := RuntimeString.init data w
  append str data w := str.append data w
  removeTailChars str n w := str.removeTailChars n w
  matchesRule r str w :=
    let data (i : Nat) := w.memory.byteAt (str.data.plus i)
    let compared := w.compare str.data r.rule.text.length r.rule.cells.length
    if memcmpEq (r.rule.bytes r.after) data r.rule.text.length then
      (memcmpEq (r.rule.bytes r.after) data (str.size - 1),
        compared.compare str.data (str.size - 1) r.rule.cells.length)
    else (false, compared)
  chars str w :=
    let text := w.memory.textAt str.data ((w.heap.extent str.data.block).getD 0)
    (text, w.read str.data (text.length + 1))
  destroy str w := (str.destroy w).2

namespace RuntimeString

/-- The block has `capacity` bytes, and the text in it has a terminator at `size` and none before. -/
structure Good (str : RuntimeString) (w : StringHeap) : Prop where
  start : str.data.offset = 0
  whole : w.heap.extent str.data.block = some str.capacity
  room : str.size < str.capacity
  terminated : w.memory (str.data.plus str.size) = .byte 0
  noNul : ∀ i < str.size, ∃ b ≠ 0, w.memory (str.data.plus i) = .byte b

/-- The string has the characters of `text`. -/
def Reads (str : RuntimeString) (text : CString) (w : StringHeap) : Prop :=
  str.size = text.text.length ∧ w.memory.Holds str.data text.text

end RuntimeString

/-- The capacity of a string that had this one before it was grown for a text of this length. -/
def capacityFor (length capacity : Nat) : Nat := if length > capacity then length + 1 else capacity

theorem lt_capacityFor_iff {length capacity : Nat} : length < capacityFor length capacity ↔ length ≠ capacity := by
  unfold capacityFor
  split <;> omega

/-- One call on a string. -/
inductive StringCall where
  | set (data : CString)
  | append (data : CString)
  | removeTailChars (n : Nat)

namespace StringCall

def run : StringCall → RuntimeString → StringHeap → RuntimeString × StringHeap
  | .set data, str, w => str.set data w
  | .append data, str, w => str.append data w
  | .removeTailChars n, str, w => str.removeTailChars n w

def runAll : List StringCall → RuntimeString → StringHeap → RuntimeString × StringHeap
  | [], str, w => (str, w)
  | call :: calls, str, w =>
    let ret := call.run str w
    runAll calls ret.1 ret.2

/-- What the call does to the text. -/
def applyTo : StringCall → CString → CString
  | .set data, _ => data
  | .append data, text => text.append data
  | .removeTailChars n, text => text.dropTail n

def applyAll : List StringCall → CString → CString
  | [], text => text
  | call :: calls, text => applyAll calls (call.applyTo text)

/-- No more characters are taken off than there are. -/
def Proper : StringCall → CString → Prop
  | .removeTailChars n, text => n ≤ text.text.length
  | _, _ => True

def AllProper : List StringCall → CString → Prop
  | [], _ => True
  | call :: calls, text => call.Proper text ∧ AllProper calls (call.applyTo text)

/-- The call does not make a text that is as long as the capacity that the string has. -/
def Roomy : StringCall → CString → Nat → Prop
  | .removeTailChars _, _, _ => True
  | call, text, capacity => (call.applyTo text).text.length ≠ capacity

/-- The capacity behind the call. -/
def capacityAfter : StringCall → CString → Nat → Nat
  | .removeTailChars _, _, capacity => capacity
  | call, text, capacity => capacityFor (call.applyTo text).text.length capacity

/-- Every call of the run is roomy. -/
def AllRoomy : List StringCall → CString → Nat → Prop
  | [], _, _ => True
  | call :: calls, text, capacity =>
    call.Roomy text capacity ∧ AllRoomy calls (call.applyTo text) (call.capacityAfter text capacity)

end StringCall

section Representation

variable {str : RuntimeString} {text : CString} {w : StringHeap}

namespace RuntimeString

/-- The string is good and has these characters. -/
structure Keeps (str : RuntimeString) (text : CString) (w : StringHeap) : Prop where
  start : str.data.offset = 0
  whole : w.heap.extent str.data.block = some str.capacity
  room : str.size < str.capacity
  length : str.size = text.text.length
  holds : w.memory.Holds str.data text.cells

theorem good_and_reads_iff : str.Good w ∧ str.Reads text w ↔ str.Keeps text w := by
  constructor
  · rintro ⟨good, length, reads⟩
    refine ⟨good.start, good.whole, good.room, length, Contents.holds_append_iff.mpr ⟨reads, ?_⟩⟩
    intro i inside
    obtain rfl : i = 0 := by simpa using inside
    rw [Pointer.plus_zero, ← length]
    exact good.terminated
  · intro keeps
    obtain ⟨characters, terminator⟩ := Contents.holds_append_iff.mp keeps.holds
    refine ⟨⟨keeps.start, keeps.whole, keeps.room, ?_, ?_⟩, keeps.length, characters⟩
    · rw [keeps.length]
      exact terminator 0 Nat.one_pos
    · intro i inside
      rw [keeps.length] at inside
      exact ⟨text.text[i], fun zero => text.noNul (zero ▸ List.getElem_mem inside), characters i inside⟩

end RuntimeString

/-- A granted resize keeps the bytes that fit, and writes nothing. -/
theorem StringHeap.reallocate_granted {p : Pointer} {n : Nat} {bytes : List Byte} (size : Nat) (grants : w.heap.Grants)
    (start : p.offset = 0) (live : w.heap.extent p.block = some n) (holds : w.memory.Holds p bytes)
    (fits : bytes.length ≤ min n size) :
    let ret := w.reallocate p size
    ret.1.offset = 0 ∧ ret.2.heap.extent ret.1.block = some size ∧ ret.2.heap.Grants ∧
      ret.2.memory.Holds ret.1 bytes ∧ Logs StringEvent.Inside w ret.2 := by
  obtain ⟨notNull, start', live', grants'⟩ := Heap.resize_granted 0 size grants start live
  simp only [reallocate, notNull, or_false]
  -- The block grew where it was, or its bytes were copied to another one.
  split
  next still =>
    rw [still] at start' live' ⊢
    exact ⟨start', live', grants', holds, .of_log rfl⟩
  next moved =>
    refine ⟨start', live', grants', holds.copied (by simpa [live] using fits), _, rfl, ?_⟩
    rw [List.forall_mem_append, List.forall_mem_singleton]
    refine ⟨?_, trivial⟩
    split
    · exact List.forall_mem_nil _
    · exact List.forall_mem_singleton.mpr trivial

namespace RuntimeString

theorem reserve_keeps (keeps : str.Keeps text w) (grants : w.heap.Grants) (length : Nat) :
    let ret := str.reserve length w
    ret.1.Keeps text ret.2 ∧ ret.2.heap.Grants ∧ ret.1.size = str.size ∧
      ret.1.capacity = capacityFor length str.capacity ∧ StringHeap.Logs StringEvent.Inside w ret.2 := by
  unfold reserve capacityFor
  split
  next grows =>
    have room := keeps.room
    have size := keeps.length
    obtain ⟨start, whole, grants', holds, quiet⟩ := StringHeap.reallocate_granted (length + 1) grants
      keeps.start keeps.whole keeps.holds (by rw [CString.cells_length]; omega)
    exact ⟨⟨start, whole, by dsimp only; omega, size, holds⟩, grants', rfl, rfl, quiet⟩
  next enough => exact ⟨keeps, grants, rfl, rfl, .of_log rfl⟩

/-- A write of `n` bytes `k` bytes behind the start of the block. -/
theorem Keeps.inside_iff (keeps : str.Keeps text w) (k n : Nat) :
    (StringEvent.written (str.data.plus k) n (w.heap.extent (str.data.plus k).block)).Inside ↔
      k + n ≤ str.capacity := by
  rw [Pointer.plus_block, keeps.whole, StringEvent.Inside, Pointer.plus_offset, keeps.start, Nat.zero_add]

theorem set_keeps (keeps : str.Keeps text w) (grants : w.heap.Grants) (data : CString) :
    let ret := str.set data w
    ret.2.heap.Grants ∧ ret.1.capacity = capacityFor data.text.length str.capacity ∧
      ((∀ event ∈ w.since ret.2, event.Inside) ↔ data.text.length ≠ str.capacity) ∧
      (data.text.length ≠ str.capacity → ret.1.Keeps data ret.2) := by
  obtain ⟨reserved, grants', _, capacity, quiet⟩ := reserve_keeps keeps grants data.text.length
  refine ⟨grants', capacity, ?_, fun apart => ?_⟩
  · apply (StringHeap.forall_since_write quiet _ _).trans
    apply (reserved.inside_iff 0 _).trans
    rw [capacity, CString.cells_length, Nat.zero_add, Nat.succ_le_iff]
    exact lt_capacityFor_iff
  · have room := lt_capacityFor_iff.mpr apart
    rw [← capacity] at room
    exact ⟨reserved.start, reserved.whole, room, rfl, Contents.holds_writeBytes _ _ _⟩

theorem append_keeps (keeps : str.Keeps text w) (grants : w.heap.Grants) (data : CString) :
    let ret := str.append data w
    ret.2.heap.Grants ∧ ret.1.capacity = capacityFor (text.append data).text.length str.capacity ∧
      ((∀ event ∈ w.since ret.2, event.Inside) ↔ (text.append data).text.length ≠ str.capacity) ∧
      ((text.append data).text.length ≠ str.capacity → ret.1.Keeps (text.append data) ret.2) := by
  have length : (text.append data).text.length = str.size + data.text.length := by
    rw [CString.append_text, List.length_append, keeps.length]
  obtain ⟨reserved, grants', _, capacity, quiet⟩ := reserve_keeps keeps grants (str.size + data.text.length)
  rw [← length] at reserved grants' capacity quiet
  simp only [append, ← length]
  refine ⟨grants', capacity, ?_, fun apart => ?_⟩
  · apply (StringHeap.forall_since_write quiet _ _).trans
    apply (reserved.inside_iff str.size _).trans
    rw [capacity, CString.cells_length, ← Nat.add_assoc, ← length, Nat.succ_le_iff]
    exact lt_capacityFor_iff
  · have room := lt_capacityFor_iff.mpr apart
    rw [← capacity] at room
    refine ⟨reserved.start, reserved.whole, room, rfl, ?_⟩
    -- The characters in front of the write are still there.
    obtain ⟨characters, _⟩ := Contents.holds_append_iff.mp reserved.holds
    rw [CString.cells_append, Contents.holds_append_iff, keeps.length]
    exact ⟨characters.congr (Contents.agree_writeBytes_behind _ _ _ _), Contents.holds_writeBytes _ _ _⟩

theorem removeTailChars_keeps (keeps : str.Keeps text w) {n : Nat} (proper : n ≤ text.text.length) :
    let ret := str.removeTailChars n w
    ret.1.capacity = str.capacity ∧ (∀ event ∈ w.since ret.2, event.Inside) ∧
      ret.1.Keeps (text.dropTail n) ret.2 := by
  have room := keeps.room
  have length : (text.dropTail n).text.length = str.size - n := by
    rw [CString.dropTail, List.length_take, keeps.length]
    omega
  refine ⟨rfl, ?_, keeps.start, keeps.whole, Nat.lt_of_le_of_lt (Nat.sub_le _ _) room, length.symm, ?_⟩
  · have quiet : StringHeap.Logs StringEvent.Inside w w := .of_log rfl
    apply (StringHeap.forall_since_write quiet (str.data.plus (str.size - n)) [0]).mpr
    apply (keeps.inside_iff _ _).mpr
    exact Nat.lt_of_le_of_lt (Nat.sub_le _ _) room
  · obtain ⟨characters, _⟩ := Contents.holds_append_iff.mp keeps.holds
    have shorter : w.memory.Holds str.data (text.dropTail n).text := by
      rw [← List.take_append_drop (text.text.length - n) text.text, Contents.holds_append_iff] at characters
      exact characters.1
    rw [CString.cells, Contents.holds_append_iff, length]
    refine ⟨shorter.congr ?_, Contents.holds_writeBytes _ _ _⟩
    rw [length]
    exact Contents.agree_writeBytes_behind _ _ _ _

theorem init_logs (data : CString) (w : StringHeap) :
    StringHeap.Logs (fun _ => True) w (init data w).2 := by
  have asked : StringHeap.Logs (fun _ => True) w (w.allocate (data.text.length + 1)).2 :=
    ⟨[_], rfl, fun _ _ => trivial⟩
  exact (asked.trans (.write _ _ _ trivial)).trans (.write _ _ _ trivial)

theorem init_keeps (grants : w.heap.Grants) (data : CString) :
    let ret := init data w
    ret.2.heap.Grants ∧ ret.1.capacity = data.text.length + 1 ∧ (∀ event ∈ w.since ret.2, event.Inside) ∧
      ret.1.Keeps data ret.2 := by
  obtain ⟨start, whole, grants'⟩ := Heap.allocate_live 0 (data.text.length + 1) grants
  have inside (k : Nat) (bound : k ≤ data.text.length + 1) :
      (StringEvent.written (w.heap.allocate 0 (data.text.length + 1)).1 k
        ((w.heap.allocate 0 (data.text.length + 1)).2.extent
          (w.heap.allocate 0 (data.text.length + 1)).1.block)).Inside := by
    rw [whole, StringEvent.Inside, start, Nat.zero_add]
    exact bound
  refine ⟨grants', rfl, ?_, start, whole, Nat.lt_succ_self _, rfl, ?_⟩
  · have asked : StringHeap.Logs StringEvent.Inside w (w.allocate (data.text.length + 1)).2 :=
      ⟨[_], rfl, List.forall_mem_singleton.mpr trivial⟩
    refine (StringHeap.forall_since_write (asked.trans (.write _ _ _ ?_)) _ _).mpr ?_
    · rw [List.length_replicate]
      exact inside _ (Nat.le_refl _)
    · exact inside _ (Nat.le_succ _)
  · -- The terminator comes from `memset`, and the characters in front of it do not reach it.
    refine Contents.holds_append_iff.mpr ⟨Contents.holds_writeBytes _ _ _, ?_⟩
    have zeroed : ((w.allocate (data.text.length + 1)).2.memory.writeBytes (w.allocate (data.text.length + 1)).1
        (List.replicate (data.text.length + 1) 0)).Holds (w.allocate (data.text.length + 1)).1
        (List.replicate data.text.length 0 ++ [0]) := by
      rw [← List.replicate_succ']
      exact Contents.holds_writeBytes _ _ _
    rw [Contents.holds_append_iff, List.length_replicate] at zeroed
    exact zeroed.2.congr (Contents.agree_writeBytes_before _ _ 1 data.text)

end RuntimeString

namespace StringCall

theorem run_logs (call : StringCall) (str : RuntimeString) (w : StringHeap) :
    StringHeap.Logs (fun _ => True) w (call.run str w).2 := by
  have reserved (length : Nat) : StringHeap.Logs (fun _ => True) w (str.reserve length w).2 := by
    unfold RuntimeString.reserve StringHeap.reallocate
    split
    · dsimp only
      split
      · exact .of_log rfl
      · exact ⟨_, rfl, fun _ _ => trivial⟩
    · exact .of_log rfl
  cases call with
  | set data => exact (reserved _).trans (.write _ _ _ trivial)
  | append data => exact (reserved _).trans (.write _ _ _ trivial)
  | removeTailChars n => exact .write _ _ _ trivial

theorem runAll_logs (calls : List StringCall) (str : RuntimeString) (w : StringHeap) :
    StringHeap.Logs (fun _ => True) w (runAll calls str w).2 := by
  induction calls generalizing str w with
  | nil => exact .of_log rfl
  | cons call calls ih => exact (call.run_logs str w).trans (ih _ _)

/-- One call: it writes inside the block exactly when it is roomy, and then the string keeps its text. -/
theorem run_keeps (call : StringCall) (keeps : str.Keeps text w) (grants : w.heap.Grants)
    (proper : call.Proper text) :
    let ret := call.run str w
    ret.2.heap.Grants ∧ ret.1.capacity = call.capacityAfter text str.capacity ∧
      ((∀ event ∈ w.since ret.2, event.Inside) ↔ call.Roomy text str.capacity) ∧
      (call.Roomy text str.capacity → ret.1.Keeps (call.applyTo text) ret.2) := by
  cases call with
  | set data => exact str.set_keeps keeps grants data
  | append data => exact str.append_keeps keeps grants data
  | removeTailChars n =>
    obtain ⟨capacity, inside, shorter⟩ := str.removeTailChars_keeps keeps proper
    exact ⟨grants, capacity, iff_of_true inside trivial, fun _ => shorter⟩

/-- A whole run. -/
theorem runAll_keeps_iff (calls : List StringCall) (keeps : str.Keeps text w) (grants : w.heap.Grants)
    (proper : AllProper calls text) :
    let ret := runAll calls str w
    ((∀ event ∈ w.since ret.2, event.Inside) ∧ ret.1.Keeps (applyAll calls text) ret.2) ↔
      AllRoomy calls text str.capacity := by
  induction calls generalizing str text w with
  | nil => exact iff_of_true ⟨by simp [runAll, StringHeap.since], keeps⟩ trivial
  | cons call calls ih =>
    obtain ⟨grants', capacity, inside, next⟩ := call.run_keeps keeps grants proper.1
    simp only [runAll, AllRoomy, applyAll]
    rw [StringHeap.forall_since_trans (call.run_logs str w) (runAll_logs calls _ _), inside, and_assoc]
    apply and_congr_right
    intro roomy
    rw [← capacity]
    exact ih (next roomy) grants' proper.2

end StringCall

end Representation

/-- A string that is initialised and then worked on is good, has the text of the list model and was
written to only inside its block if and only if no call made a text as long as the capacity that it
found. -/
theorem strings_good_iff (data : CString) (calls : List StringCall) (w : StringHeap) (grants : w.heap.Grants)
    (proper : StringCall.AllProper calls data) :
    let started := RuntimeString.init data w
    let ret := StringCall.runAll calls started.1 started.2
    ((∀ event ∈ w.since ret.2, event.Inside) ∧ ret.1.Good ret.2 ∧
        ret.1.Reads (StringCall.applyAll calls data) ret.2) ↔
      StringCall.AllRoomy calls data (data.text.length + 1) := by
  intro started ret
  obtain ⟨grants', capacity, inside, keeps⟩ := RuntimeString.init_keeps grants data
  have run := StringCall.runAll_keeps_iff calls keeps grants' proper
  rw [capacity] at run
  rw [StringHeap.forall_since_trans (RuntimeString.init_logs data w) (StringCall.runAll_logs calls _ _),
    RuntimeString.good_and_reads_iff, and_assoc]
  exact (and_iff_right inside).trans run

/-- No string yet, and an allocator that grants every request. -/
def StringHeap.boot (moves : Nat → Bool) : StringHeap :=
  ⟨fun _ => .zero, .untouched (fun _ _ => true) moves, []⟩

/-- The empty string has room for its terminator alone, and one character does not make it grow. -/
theorem strings_not_good :
    let started := RuntimeString.init .empty (.boot fun _ => false)
    let ret := StringCall.runAll [.set .dot] started.1 started.2
    (∃ event ∈ (StringHeap.boot fun _ => false).since ret.2, ¬ event.Inside) ∧ ¬ ret.1.Good ret.2 := by
  intro started ret
  exact ⟨by decide, fun good => absurd good.room (by decide)⟩

/-- Two characters make it grow; one is taken off again. -/
theorem strings_good_two_dots :
    let started := RuntimeString.init .empty (.boot fun _ => false)
    let ret := StringCall.runAll [.append (CString.dot.append .dot), .removeTailChars 1] started.1 started.2
    ((∀ event ∈ (StringHeap.boot fun _ => false).since ret.2, event.Inside) ∧ ret.1.Good ret.2 ∧
        ret.1.Reads (StringCall.applyAll [.append (CString.dot.append .dot), .removeTailChars 1] .empty) ret.2) ↔
      StringCall.AllRoomy [.append (CString.dot.append .dot), .removeTailChars 1] .empty 1 :=
  strings_good_iff .empty [.append (CString.dot.append .dot), .removeTailChars 1] (.boot fun _ => false)
    (fun _ _ => rfl) ⟨trivial, (by decide : 1 ≤ 2), trivial⟩

end MicroRos
