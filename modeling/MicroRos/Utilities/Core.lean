import MicroRos.Introspection.Layout
import MicroRos.Memory.Heap

/-! The state that the memory planner works on, and what it does to one header.

The log is not part of the program: it records, in order, the calls to the allocator,
the regions taken from the static buffer, the headers written and every access or
release that no live object allows. An event about a header names the header by the
calls that are active: their call sites, their loop counters, and for a sequence
element the data pointer its address was computed from.
-/

set_option autoImplicit false

namespace MicroRos

open Memory (Pointer Contents Heap)

/-- An active recursive call: for the message member with this index, or for one
element of the message sequence with this index. -/
inductive Step where
  | inline (member : Nat)
  | element (member index : Nat) (data : Pointer)
  deriving DecidableEq, Repr

/-- The member with this index in the innermost active call. -/
structure Site where
  stack : List Step
  member : Nat
  deriving DecidableEq, Repr

def Step.member : Step → Nat
  | .inline member => member
  | .element member _ _ => member

/-- Indices of the members that the active calls are for. -/
def Site.calls (site : Site) : List Nat := site.stack.map Step.member

inductive Event where
  /-- The capacity decided for a header. -/
  | resolved (site : Site) (capacity : Nat)
  /-- `allocate` was called and returned this. -/
  | requested (size : Nat) (answer : Pointer)
  /-- A region of the static buffer was handed out. -/
  | handed (region : Pointer) (size : Nat)
  /-- Data pointer, size zero and capacity were written to a header; the data pointer
  refers to a region of this many bytes. -/
  | stored (site : Site) (header data : Pointer) (bytes capacity : Nat)
  /-- A null data pointer was written to a header and the call returned. -/
  | refused (site : Site) (header : Pointer)
  /-- `deallocate` was called. -/
  | released (pointer : Pointer)
  /-- Size and capacity of a header were set to zero. -/
  | cleared (site : Site) (header : Pointer)
  /-- Bytes outside every live object were read or written. -/
  | invalid (pointer : Pointer) (length : Nat)
  /-- `deallocate` got something other than the start of a live object of its own. -/
  | badRelease (pointer : Pointer)
  deriving DecidableEq, Repr

structure Core where
  memory : Contents
  heap : Heap
  operationBuffer : Pointer
  operationBufferIndex : Nat
  log : List Event

inductive Operation where
  | create | createPreallocated | destroy | calculateSize | calculateSizePreallocated
  deriving DecidableEq, Repr

/-- The operations that compute a size and pass a null message down the recursion. -/
def Operation.calculates : Operation → Bool
  | .calculateSize | .calculateSizePreallocated => true
  | .create | .createPreallocated | .destroy => false

namespace Core

/-- Static storage before the first call: the buffer is null and its index zero. -/
def boot (grants : Nat → Nat → Bool) : Core :=
  ⟨fun _ => .zero, .untouched grants fun _ => false, .null, 0, []⟩

def record (event : Event) (w : Core) : Core := { w with log := w.log ++ [event] }

/-- Reads and writes of `n` bytes at `p` are recorded when they are not allowed. -/
def touch (p : Pointer) (n : Nat) (w : Core) : Core :=
  if w.heap.Backed p n then w else w.record (.invalid p n)

def storePointer (target : Target) (p v : Pointer) (w : Core) : Core :=
  { w.touch p target.word with memory := w.memory.storePointer target.word p v }

def storeSize (target : Target) (p : Pointer) (n : Nat) (w : Core) : Core :=
  { w.touch p target.word with memory := w.memory.storeSize target.word p n }

/-- `memset(p, 0, n)`. -/
def fillZero (p : Pointer) (n : Nat) (w : Core) : Core :=
  { w.touch p n with memory := w.memory.fillZero p n }

def loadPointer (target : Target) (p : Pointer) (w : Core) : Pointer × Core :=
  (w.memory.loadPointer target.word p, w.touch p target.word)

/-- `allocator.allocate`. -/
def allocate (owner size : Nat) (w : Core) : Pointer × Core :=
  let answer := w.heap.allocate owner size
  (answer.1, { w with heap := answer.2 }.record (.requested size answer.1))

def checkRelease (owner : Nat) (p : Pointer) (w : Core) : Core :=
  if w.heap.Releasable owner p then w else w.record (.badRelease p)

/-- `allocator.deallocate`. -/
def deallocate (owner : Nat) (p : Pointer) (w : Core) : Core :=
  { w.checkRelease owner p with heap := w.heap.release p }.record (.released p)

def alignment : Nat := 4

/-- The loop that advances the index to the next multiple of `alignment`; it takes fewer
steps than `alignment`. -/
def alignIndex (target : Target) : Nat → Nat → Nat
  | 0, index => index
  | fuel + 1, index =>
    if index % alignment ≠ 0 then alignIndex target fuel (target.add index 1) else index

def getStaticMemory (target : Target) (size : Nat) (w : Core) : Pointer × Core :=
  let index := alignIndex target alignment w.operationBufferIndex
  let moved := { w with operationBufferIndex := target.add index size }
  if w.operationBuffer = .null then (.null, moved)
  else
    let region := w.operationBuffer.plus index
    (region, moved.record (.handed region size))

/-- `ptr->size = 0; ptr->capacity = capacity` at a header. -/
def storeCounts (target : Target) (header : Pointer) (capacity : Nat) (w : Core) : Core :=
  (w.storeSize target (header.plus target.word) 0).storeSize target
    (header.plus (2 * target.word)) capacity

/-- What the operation does to a header once its capacity is known. The result is the
number of bytes it accounts for, or `none` where the function returns. -/
def setUpHeader (target : Target) (owner : Nat) (operation : Operation) (site : Site)
    (header : Pointer) (capacity memberSize : Nat) (w : Core) : Option Nat × Core :=
  let bytes := target.mul capacity memberSize
  match operation with
  | .create =>
    let answer := w.allocate owner bytes
    let pointed := answer.2.storePointer target header answer.1
    -- The answer is stored before it is compared with null.
    if answer.1 = .null then (none, pointed.record (.refused site header))
    else
      (some bytes, ((pointed.fillZero answer.1 bytes).storeCounts target header capacity).record
        (.stored site header answer.1 bytes capacity))
  | .createPreallocated =>
    let answer := w.getStaticMemory target bytes
    let pointed := answer.2.storePointer target header answer.1
    if answer.1 = .null then (none, pointed.record (.refused site header))
    else
      (some (target.sub pointed.operationBufferIndex w.operationBufferIndex),
        (pointed.storeCounts target header capacity).record
          (.stored site header answer.1 bytes capacity))
  | .calculateSizePreallocated =>
    let answer := w.getStaticMemory target bytes
    (some (target.sub answer.2.operationBufferIndex w.operationBufferIndex), answer.2)
  | .destroy | .calculateSize => (some bytes, w)

/-- What follows the elements of a header: destroying gives the data back and clears the counts. -/
def tearDownHeader (target : Target) (owner : Nat) (operation : Operation) (site : Site)
    (header : Pointer) (w : Core) : Core :=
  match operation with
  | .destroy =>
    let loaded := w.loadPointer target header
    ((loaded.2.deallocate owner loaded.1).storeCounts target header 0).record (.cleared site header)
  | _ => w

/-- The data pointer from which the address of an element is computed; only a size
calculation does without it. -/
def elementData (target : Target) (operation : Operation) (header : Pointer) (w : Core) :
    Pointer × Core :=
  if operation.calculates then (.null, w) else w.loadPointer target header

/-- The address passed down for element `j`. -/
def elementAddress (target : Target) (operation : Operation) (data : Pointer) (j size : Nat) :
    Pointer :=
  if operation.calculates then .null else data.plus (target.mul j size)

/-- The loop over the elements of a message sequence; `body` yields the bytes of one element. -/
def forElements {W : Type} (target : Target) (body : Nat → W → Nat × W) :
    Nat → Nat → W → Nat × W
  | 0, used, w => (used, w)
  | n + 1, used, w =>
    let before := forElements target body n used w
    let here := body n before.2
    (target.add before.1 here.1, here.2)

/-- Events recorded between two states of a run. -/
def since (before after : Core) : List Event := after.log.drop before.log.length

section Fields

variable {target : Target} (w : Core) (p v : Pointer) (n owner : Nat) (event : Event)

@[simp] theorem record_memory : (w.record event).memory = w.memory := rfl
@[simp] theorem record_heap : (w.record event).heap = w.heap := rfl
@[simp] theorem record_buffer : (w.record event).operationBuffer = w.operationBuffer := rfl
@[simp] theorem record_index : (w.record event).operationBufferIndex = w.operationBufferIndex := rfl
@[simp] theorem record_log : (w.record event).log = w.log ++ [event] := rfl

@[simp] theorem touch_memory : (w.touch p n).memory = w.memory := by unfold touch; split <;> rfl
@[simp] theorem touch_heap : (w.touch p n).heap = w.heap := by unfold touch; split <;> rfl
@[simp] theorem touch_buffer : (w.touch p n).operationBuffer = w.operationBuffer := by
  unfold touch; split <;> rfl
@[simp] theorem touch_index : (w.touch p n).operationBufferIndex = w.operationBufferIndex := by
  unfold touch; split <;> rfl

theorem touch_backed (backed : w.heap.Backed p n) : w.touch p n = w := if_pos backed

@[simp] theorem checkRelease_memory : (w.checkRelease owner p).memory = w.memory := by
  unfold checkRelease; split <;> rfl
@[simp] theorem checkRelease_buffer : (w.checkRelease owner p).operationBuffer = w.operationBuffer := by
  unfold checkRelease; split <;> rfl
@[simp] theorem checkRelease_index :
    (w.checkRelease owner p).operationBufferIndex = w.operationBufferIndex := by
  unfold checkRelease; split <;> rfl

theorem checkRelease_releasable (releasable : w.heap.Releasable owner p) :
    w.checkRelease owner p = w := if_pos releasable

@[simp] theorem storePointer_memory :
    (w.storePointer target p v).memory = w.memory.storePointer target.word p v := rfl
@[simp] theorem storePointer_heap : (w.storePointer target p v).heap = w.heap := touch_heap w p _
@[simp] theorem storePointer_buffer :
    (w.storePointer target p v).operationBuffer = w.operationBuffer := touch_buffer w p _
@[simp] theorem storePointer_index :
    (w.storePointer target p v).operationBufferIndex = w.operationBufferIndex := touch_index w p _

@[simp] theorem fillZero_memory : (w.fillZero p n).memory = w.memory.fillZero p n := rfl
@[simp] theorem fillZero_heap : (w.fillZero p n).heap = w.heap := touch_heap w p n
@[simp] theorem fillZero_buffer : (w.fillZero p n).operationBuffer = w.operationBuffer :=
  touch_buffer w p n
@[simp] theorem fillZero_index : (w.fillZero p n).operationBufferIndex = w.operationBufferIndex :=
  touch_index w p n

@[simp] theorem storeCounts_memory : (w.storeCounts target p n).memory =
    (w.memory.storeSize target.word (p.plus target.word) 0).storeSize target.word
      (p.plus (2 * target.word)) n := rfl
@[simp] theorem storeCounts_heap : (w.storeCounts target p n).heap = w.heap := by
  simp [storeCounts, storeSize]
@[simp] theorem storeCounts_buffer : (w.storeCounts target p n).operationBuffer = w.operationBuffer := by
  simp [storeCounts, storeSize]
@[simp] theorem storeCounts_index :
    (w.storeCounts target p n).operationBufferIndex = w.operationBufferIndex := by
  simp [storeCounts, storeSize]

end Fields

end Core
end MicroRos
