import MicroRos.Planning.Construction
import MicroRos.Planning.StaticLayout

/-! Where the two creation modes take memory from.

Dynamic creation takes whole new objects, so everything that has not been obtained yet is
free. Static creation takes what lies behind the index in a buffer that was zeroed
beforehand.
-/

set_option autoImplicit false

namespace MicroRos

open Memory (Pointer Contents Block Arena)
open Memory.Packing (alignUp packed)

variable {target : Target}

/-- The three words of a header that has just been written. -/
theorem header_words {m : Contents} {header data : Pointer} {capacity : Nat}
    (pointer : m.loadPointer target.word header = data) (small : capacity < target.modulus) :
    let m' := (m.storeSize target.word (header.plus target.word) 0).storeSize target.word
      (header.plus (2 * target.word)) capacity
    m'.loadPointer target.word header = data ∧
      m'.loadSize target.word (header.plus target.word) = 0 ∧
      m'.loadSize target.word (header.plus (2 * target.word)) = capacity := by
  intro m'
  have apart : ∀ a b i, i < target.word → a + target.word ≤ b ∨ b + target.word ≤ a →
      ¬ (header.plus b).Spans target.word ((header.plus a).plus i) := by
    rintro a b i bound separate ⟨_, lower, upper⟩
    simp only [Pointer.plus_offset] at lower upper
    omega
  refine ⟨?_, ?_, ?_⟩
  · have kept : m.Agree m' header target.word := fun i bound =>
      (Memory.Contents.storeSize_outside _ _ _ (apart 0 _ i bound (by omega))).trans
        (Memory.Contents.storeSize_outside _ _ _ (apart 0 _ i bound (by omega)))
    rw [Memory.Contents.loadPointer_congr target.word_pos kept, pointer]
  · have kept : (m.storeSize target.word (header.plus target.word) 0).Agree m'
        (header.plus target.word) target.word := fun i bound =>
      Memory.Contents.storeSize_outside _ _ _ (apart _ _ i bound (by omega))
    rw [Memory.Contents.loadSize_congr kept, Memory.Contents.loadSize_storeSize, Nat.zero_mod]
  · rw [Memory.Contents.loadSize_storeSize]
    exact Nat.mod_eq_of_lt small

/-- A header was written, and the memory it refers to is zero and no longer free. -/
theorem Supplied.of_written {room : Core → Set Pointer}
    {Region : (Block → Option Nat) → Pointer → Nat → Prop} {header data : Pointer}
    {capacity memberSize : Nat} {w after : Core} {m : Contents} (small : capacity < target.modulus)
    (apart : Disjoint (headerSpan target header) (room w))
    (memory : after.memory = (m.storeSize target.word (header.plus target.word) 0).storeSize
      target.word (header.plus (2 * target.word)) capacity)
    (pointer : m.loadPointer target.word header = data)
    (outside : ∀ q ∉ headerSpan target header, (q ∈ room w → q ∈ room after) → m q = w.memory q)
    (zero : ∀ i < target.mul capacity memberSize, m (data.plus i) = .zero)
    (shrink : room after ⊆ room w) (live : Arena.Persists w.heap.extent after.heap.extent)
    (notNull : data ≠ .null)
    (region : Region after.heap.extent data (target.mul capacity memberSize))
    (bytes : ∀ i < target.mul capacity memberSize, data.plus i ∈ room w ∧ data.plus i ∉ room after)
    (elements : ∀ j < capacity, ∀ o < memberSize,
      (data.plus (target.mul j memberSize)).plus o ∈ room w ∧
        (data.plus (target.mul j memberSize)).plus o ∉ room after)
    (given : after.given = w.given ++ [data]) :
    Supplied target room Region header data capacity memberSize w after := by
  obtain ⟨holdsPointer, holdsSize, holdsCapacity⟩ := header_words pointer small
  rw [← memory] at holdsPointer holdsSize holdsCapacity
  have kept : ∀ q ∉ headerSpan target header, after.memory q = m q := fun q notHead => by
    have words : ∀ i, i + target.word ≤ target.headerSize → ¬ (header.plus i).Spans target.word q :=
      fun i fits inside => notHead (inside.within fits)
    rw [memory,
      Memory.Contents.storeSize_outside _ _ _ (words _ (by simp only [Target.headerSize]; omega)),
      Memory.Contents.storeSize_outside _ _ _ (words _ (by simp only [Target.headerSize]; omega))]
  refine ⟨⟨shrink, fun q notHead free => (kept q notHead).trans (outside q notHead free), live⟩, notNull,
    region, holdsPointer, holdsSize, holdsCapacity, bytes, fun i bound => ?_, elements, given⟩
  rw [kept _ fun head => Set.disjoint_left.mp apart head (bytes i bound).1]
  exact zero i bound

section Dynamic

variable (conf : MemoryConf target)

/-- Objects of this owner that have not been obtained yet. -/
def unobtained (owner : Nat) (w : Core) : Set Pointer :=
  {q | ∃ number, w.heap.fresh ≤ number ∧ q.block = .object owner number}

/-- The whole of an object of this owner. -/
def WholeObject (owner : Nat) (e : Block → Option Nat) (data : Pointer) (n : Nat) : Prop :=
  data.offset = 0 ∧ (∃ number, data.block = .object owner number) ∧ e data.block = some n

theorem Core.planHeader_granted (conf : MemoryConf target) {w : Core} (grants : w.heap.Grants)
    (site : Site) (header : Pointer) (capacity memberSize : Nat) :
    let bytes := target.mul capacity memberSize
    let data : Pointer := ⟨.object conf.owner w.heap.fresh, 0⟩
    ∃ after, w.planHeader conf .create site header capacity memberSize = (some bytes, after) ∧
      after.heap = ({ w.heap with asked := w.heap.asked + 1 }.obtain conf.owner bytes).2 ∧
      after.memory = (((w.memory.storePointer target.word header data).fillZero data bytes).storeSize
        target.word (header.plus target.word) 0).storeSize target.word
          (header.plus (2 * target.word)) capacity ∧
      after.given = w.given ++ [data] := by
  intro bytes data
  have granted : w.heap.grants w.heap.asked bytes = true := grants _ _
  have answer : (w.record (.resolved site capacity)).allocate conf.owner bytes =
      (data, { w with
        heap := ({ w.heap with asked := w.heap.asked + 1 }.obtain conf.owner bytes).2
        log := w.log ++ [.resolved site capacity] ++ [.requested bytes data] }) := by
    simp only [allocate, record_heap, Memory.Heap.allocate_granted granted]
    rfl
  have notNull : data ≠ .null := by simp [data, Pointer.null]
  simp only [planHeader, setUpHeader]
  rw [show target.mul capacity memberSize = bytes from rfl, answer]
  simp only [notNull, if_false]
  refine ⟨_, rfl, by simp, by simp, ?_⟩
  simp only [record_given, storeCounts_given, fillZero_given, storePointer_given]
  simp [given, suppliedData]

theorem Core.planHeader_supplied {conf : MemoryConf target} {w : Core} (grants : w.heap.Grants)
    (site : Site) {header : Pointer} {capacity : Nat} (memberSize : Nat) (small : capacity < target.modulus)
    (apart : Disjoint (headerSpan target header) (unobtained conf.owner w)) :
    ∃ bytes data after, w.planHeader conf .create site header capacity memberSize = (some bytes, after) ∧
      Supplied target (unobtained conf.owner) (WholeObject conf.owner) header data capacity memberSize
        w after ∧ after.heap.Grants := by
  obtain ⟨after, planned, heap, memory, given⟩ := planHeader_granted conf grants site header
    capacity memberSize
  have fresh : after.heap.fresh = w.heap.fresh + 1 := by rw [heap]; rfl
  have extent : after.heap.extent = Function.update w.heap.extent (.object conf.owner w.heap.fresh)
      (some (target.mul capacity memberSize)) := by rw [heap]; rfl
  have taken : ∀ q : Pointer, q.block = .object conf.owner w.heap.fresh →
      q ∈ unobtained conf.owner w ∧ q ∉ unobtained conf.owner after := by
    intro q isNew
    refine ⟨⟨_, Nat.le_refl _, isNew⟩, ?_⟩
    rintro ⟨number, later, same⟩
    rw [isNew, Block.object.injEq] at same
    omega
  have spanned : ∀ q, q ∉ headerSpan target header → ¬ header.Spans target.word q := fun q notHead inside =>
    notHead (Pointer.Spans.within (i := 0) inside (by simp only [Target.headerSize]; omega))
  refine ⟨_, _, after, planned, .of_written small apart memory ?pointer ?outside ?zero ?shrink ?live
    ?notNull ?region (fun i _ => taken _ rfl) (fun j _ o _ => taken _ rfl) given, ?grants⟩
  case pointer =>
    -- The zero fill stays inside the new object, where the header is not.
    have kept := fun i (bound : i < target.word) => Memory.Contents.fillZero_outside
      (w.memory.storePointer target.word header ⟨.object conf.owner w.heap.fresh, 0⟩)
      (p := ⟨.object conf.owner w.heap.fresh, 0⟩) (n := target.mul capacity memberSize)
      (q := header.plus i) fun inside => Set.disjoint_left.mp apart
        (mem_headerSpan.mpr ⟨i, by simp only [Target.headerSize]; omega, rfl⟩) (taken _ inside.1).1
    rw [Memory.Contents.loadPointer_congr target.word_pos kept,
      Memory.Contents.loadPointer_storePointer target.word_pos]
  case outside =>
    intro q notHead free
    rw [Memory.Contents.fillZero_outside _ fun inside => (taken q inside.1).2 (free (taken q inside.1).1),
      Memory.Contents.storePointer_outside _ _ _ (spanned q notHead)]
  case zero => exact fun i bound => Memory.Contents.fillZero_inside _ bound
  case shrink =>
    rintro q ⟨number, later, same⟩
    exact ⟨number, by omega, same⟩
  case live =>
    intro b n live
    have older : b ≠ .object conf.owner w.heap.fresh := by
      rintro rfl
      exact absurd (Memory.Heap.number_lt_fresh live) (Nat.lt_irrefl _)
    rw [extent, Function.update_of_ne older, live]
  case notNull => simp [Pointer.null]
  case region => exact ⟨rfl, ⟨_, rfl⟩, by rw [extent, Function.update_self]⟩
  case grants =>
    intro request size
    rw [heap]
    exact grants request size

/-- Dynamic creation with an allocator that grants every request. -/
def dynamicSupplier (conf : MemoryConf target) : Supplier conf .create where
  room := unobtained conf.owner
  ready w _ := w.heap.Grants
  Region := WholeObject conf.owner
  keepsPointers := rfl
  keepsHeaders _ _ _ _ := rfl
  room_touch w p n := by simp [unobtained]
  ready_touch w p n _ grants := by simpa using grants
  region_mono live := fun ⟨start, owned, found⟩ => ⟨start, owned, live _ _ found⟩
  plan site header small grants apart := Core.planHeader_supplied grants site _ small apart

end Dynamic

section Static

/-- What lies behind the index in the buffer, up to a limit. -/
def unusedBuffer (buffer : Pointer) (limit : Nat) (w : Core) : Set Pointer :=
  {q | ∃ i, w.operationBufferIndex ≤ i ∧ i < limit ∧ q = buffer.plus i}

/-- Bytes of the buffer, which is alive. -/
def InBuffer (buffer : Pointer) (limit : Nat) (e : Block → Option Nat) (data : Pointer) (n : Nat) :
    Prop :=
  ∃ i, data = buffer.plus i ∧ i + n ≤ limit ∧ ∃ size ∈ e buffer.block, buffer.offset + limit ≤ size

/-- The buffer is in use, its unused part is zero and long enough for these sizes. -/
structure Prepared (target : Target) (buffer : Pointer) (limit : Nat) (w : Core) (sizes : List Nat) :
    Prop where
  placed : w.operationBuffer = buffer
  notNull : buffer ≠ .null
  enough : packed Core.alignment w.operationBufferIndex sizes ≤ limit
  small : limit < target.modulus
  zero : ∀ q ∈ unusedBuffer buffer limit w, w.memory q = .zero
  backed : w.heap.Backed buffer limit

theorem Core.planHeader_placed (conf : MemoryConf target) {w : Core} (site : Site) (header : Pointer)
    {capacity memberSize : Nat} (notNull : w.operationBuffer ≠ .null)
    (fits : alignUp alignment w.operationBufferIndex + capacity * memberSize < target.modulus) :
    let bytes := capacity * memberSize
    let data := w.operationBuffer.plus (alignUp alignment w.operationBufferIndex)
    ∃ made after, w.planHeader conf .createPreallocated site header capacity memberSize =
        (some made, after) ∧
      after.heap = w.heap ∧ after.operationBuffer = w.operationBuffer ∧
      after.operationBufferIndex = alignUp alignment w.operationBufferIndex + bytes ∧
      after.memory = ((w.memory.storePointer target.word header data).storeSize
        target.word (header.plus target.word) 0).storeSize target.word
          (header.plus (2 * target.word)) capacity ∧
      after.given = w.given ++ [data] := by
  intro bytes data
  have lower := Memory.Packing.le_alignUp alignment w.operationBufferIndex
  simp only [planHeader, setUpHeader, Target.mul_of_lt (by omega :
    capacity * memberSize < target.modulus)]
  obtain ⟨index, buffer, region⟩ := getStaticMemory_placed
    (w := w.record (.resolved site capacity)) fits
  have same : ((w.record (.resolved site capacity)).getStaticMemory target (capacity * memberSize)).2.memory =
      w.memory ∧ ((w.record (.resolved site capacity)).getStaticMemory target
        (capacity * memberSize)).2.heap = w.heap ∧ ((w.record (.resolved site capacity)).getStaticMemory
          target (capacity * memberSize)).2.given = w.given := by
    unfold getStaticMemory
    split <;> simp [given, suppliedData]
  generalize (w.record (.resolved site capacity)).getStaticMemory target (capacity * memberSize) =
    answer at index buffer region same
  obtain ⟨memory, heap, given⟩ := same
  simp only [record_buffer, record_index] at index buffer region
  have answered : answer.1 = data := region notNull
  rw [if_neg (by rw [answered]; exact Pointer.plus_ne_null notNull _)]
  refine ⟨_, _, rfl, by simp [heap], by simp [buffer], by simp [index, bytes], by simp [memory, answered], ?_⟩
  simp only [record_given, storeCounts_given, storePointer_given, given, answered]
  rfl

theorem Core.planHeader_prepared {conf : MemoryConf target} {buffer : Pointer} {limit : Nat} {w : Core}
    (site : Site) {header : Pointer} {capacity memberSize : Nat} {sizes : List Nat}
    (small : capacity < target.modulus)
    (prepared : Prepared target buffer limit w (capacity * memberSize :: sizes))
    (apart : Disjoint (headerSpan target header) (unusedBuffer buffer limit w)) :
    ∃ made data after, w.planHeader conf .createPreallocated site header capacity memberSize =
        (some made, after) ∧
      Supplied target (unusedBuffer buffer limit) (InBuffer buffer limit) header data capacity memberSize
        w after ∧ Prepared target buffer limit after sizes := by
  obtain ⟨rfl, notNull, enough, limited, zero, backed⟩ := prepared
  have lower := Memory.Packing.le_alignUp alignment w.operationBufferIndex
  have upper := Memory.Packing.le_packed (a := alignment)
    (alignUp alignment w.operationBufferIndex + capacity * memberSize) sizes
  simp only [packed] at enough
  obtain ⟨made, after, planned, heap, buffer, index, memory, given⟩ := planHeader_placed conf
    site header notNull (by omega : alignUp alignment w.operationBufferIndex + capacity * memberSize <
      target.modulus)
  have exact : target.mul capacity memberSize = capacity * memberSize := Target.mul_of_lt (by omega)
  have spanned : ∀ q, q ∉ headerSpan target header → ¬ header.Spans target.word q := fun q notHead inside =>
    notHead (Pointer.Spans.within (i := 0) inside (by simp only [Target.headerSize]; omega))
  have taken : ∀ i < capacity * memberSize,
      (w.operationBuffer.plus (alignUp alignment w.operationBufferIndex)).plus i ∈
          unusedBuffer w.operationBuffer limit w ∧
        (w.operationBuffer.plus (alignUp alignment w.operationBufferIndex)).plus i ∉
          unusedBuffer w.operationBuffer limit after := by
    intro i bound
    rw [Pointer.plus_plus]
    refine ⟨⟨_, by omega, by omega, rfl⟩, ?_⟩
    rintro ⟨i', above, _, same⟩
    have := Pointer.plus_left_injective _ same
    omega
  have shrink : unusedBuffer w.operationBuffer limit after ⊆ unusedBuffer w.operationBuffer limit w := by
    rintro q ⟨i, above, below, rfl⟩
    exact ⟨i, by omega, below, rfl⟩
  have clear : ∀ q ∈ unusedBuffer w.operationBuffer limit w,
      w.memory.storePointer target.word header
        (w.operationBuffer.plus (alignUp alignment w.operationBufferIndex)) q = .zero := fun q free => by
    rw [Memory.Contents.storePointer_outside _ _ _
      (spanned q fun head => Set.disjoint_left.mp apart head free)]
    exact zero q free
  have supplied : Supplied target (unusedBuffer w.operationBuffer limit) (InBuffer w.operationBuffer limit)
      header _ capacity memberSize w after := .of_written small apart memory
    (Memory.Contents.loadPointer_storePointer target.word_pos ..)
    (fun q notHead _ => Memory.Contents.storePointer_outside _ _ _ (spanned q notHead))
    (fun i bound => clear _ (taken i (by omega)).1) shrink
    (by rw [heap]; exact fun _ _ live => live) (Pointer.plus_ne_null notNull _)
    ⟨_, rfl, by omega, by rw [heap]; exact backed⟩ (fun i bound => taken i (by omega))
    (fun j before o inside => by
      have le := element_within memberSize before
      rw [Target.mul_of_lt (by omega), Pointer.plus_plus]
      exact taken _ (by omega)) given
  refine ⟨made, _, after, planned, supplied, buffer, notNull, by rw [index]; exact enough, limited,
    fun q free => ?_, by rw [heap]; exact backed⟩
  have notHead : q ∉ headerSpan target header := fun head =>
    Set.disjoint_left.mp apart head (shrink free)
  exact (supplied.takes.kept q notHead fun _ => free).trans (zero q (shrink free))

/-- Static creation in a buffer that was zeroed up to the limit. -/
def staticSupplier (conf : MemoryConf target) (buffer : Pointer) (limit : Nat) :
    Supplier conf .createPreallocated where
  room := unusedBuffer buffer limit
  ready := Prepared target buffer limit
  Region := InBuffer buffer limit
  keepsPointers := rfl
  keepsHeaders _ _ _ _ := rfl
  room_touch w p n := by simp [unusedBuffer]
  ready_touch w p n sizes := by
    rintro ⟨placed, notNull, enough, small, zero, backed⟩
    exact ⟨by simpa using placed, notNull, by simpa using enough, small,
      by simpa [unusedBuffer] using zero, by simpa using backed⟩
  region_mono live := fun ⟨i, start, inside, size, found, fits⟩ =>
    ⟨i, start, inside, size, live _ _ found, fits⟩
  plan site _ small prepared apart := Core.planHeader_prepared site small prepared apart

end Static

section Runs

variable {conf : MemoryConf target} {operation : Operation} {S : Supplier conf operation}
  {heads : Set Pointer} {P : List Pointer → Contents → (Block → Option Nat) → Prop} {sizes : List Nat}
  {w w' : Core}

/-- What was built is there at the end of the run. -/
theorem Supplier.Runs.finished (runs : S.Runs heads P sizes w w') :
    ∃ given, w'.given = w.given ++ given ∧ P given w'.memory w'.heap.extent := by
  obtain ⟨_, given, supply, builds⟩ := runs
  exact ⟨given, supply, builds.built _ _ (fun _ _ => rfl) (fun _ _ _ => rfl) fun _ _ live => live⟩

theorem Supplier.Runs.kept (runs : S.Runs heads P sizes w w') {q : Pointer} (notHead : q ∉ heads)
    (notFree : q ∉ S.room w) : w'.memory q = w.memory q := by
  obtain ⟨_, _, _, builds⟩ := runs
  exact builds.kept q notHead fun free => absurd free notFree

theorem Supplier.Runs.live (runs : S.Runs heads P sizes w w') {p : Pointer} {n : Nat}
    (backed : w.heap.Backed p n) : w'.heap.Backed p n := by
  obtain ⟨_, _, _, builds⟩ := runs
  obtain ⟨size, found, fits⟩ := backed
  exact ⟨size, builds.live _ _ found, fits⟩

end Runs

namespace Core

variable {conf : MemoryConf target} {type : MessageMembers} {msg buffer : Pointer}

/-- A live message has nothing in objects that are still to be obtained. -/
theorem heads_live (list : MemberList) {size : Nat} {w : Core} (backed : w.heap.Backed msg size)
    (owner : Nat) : Disjoint (heads target list msg) (unobtained owner w) := by
  refine Set.disjoint_left.mpr ?_
  rintro q ⟨o, header, rfl⟩ ⟨number, later, same⟩
  obtain ⟨extent, found, _⟩ := backed
  rw [Pointer.plus_block] at same
  rw [same] at found
  have := Memory.Heap.number_lt_fresh found
  omega

/-- The state in which dynamic creation starts its run: the message is all zero. -/
def prepareDynamic (conf : MemoryConf target) (type : MessageMembers) (msg : Pointer) (w : Core) : Core :=
  (w.dynamicSize conf type).2.fillZero msg type.info.sizeOf

/-- Dynamic creation builds the message out of whole new objects. -/
theorem create_builds (conf : MemoryConf target) (layout : type.Layout target) (unbounded : type.members.NoBounded) {w : Core}
    (grants : w.heap.Grants) (backed : w.heap.Backed msg type.info.sizeOf) :
    let S := dynamicSupplier conf.getConfiguration
    S.Runs (heads target type.members msg) (S.Finished type.members msg .empty) []
      (w.prepareDynamic conf type msg) (w.create conf type msg).2 :=
  Supplier.constructs layout.1 unbounded msg .empty [] 0 0 _ []
    (heads_live type.members (by simpa [prepareDynamic] using backed) _)
    (by simpa [dynamicSupplier, prepareDynamic] using grants)

/-- The message and the buffer have no byte in common. -/
def Apart (type : MessageMembers) (msg buffer : Pointer) (bufferLen : Nat) : Prop :=
  ∀ i < type.info.sizeOf, ∀ j < bufferLen, msg.plus i ≠ buffer.plus j

/-- What static creation is given: a buffer that is long enough and lies apart from the message. -/
structure Suits (conf : MemoryConf target) (type : MessageMembers) (msg buffer : Pointer) (bufferLen : Nat)
    (w : Core) : Prop where
  enough : staticRequirement conf type ≤ bufferLen
  small : bufferLen < target.modulus
  messageLive : w.heap.Backed msg type.info.sizeOf
  bufferLive : w.heap.Backed buffer bufferLen
  apart : Apart type msg buffer bufferLen

theorem Suits.dynamicRequirement_lt {bufferLen : Nat} {w : Core}
    (suits : Suits conf type msg buffer bufferLen w) : dynamicRequirement conf type < target.modulus := by
  have := dynamicRequirement_le_static conf type
  have := suits.enough
  have := suits.small
  omega

/-- The state in which static creation starts its run. -/
def prepared (conf : MemoryConf target) (type : MessageMembers) (msg buffer : Pointer) (w : Core) : Core :=
  (w.staticSize conf type).2.prepareStatic type msg buffer (staticRequirement conf type)

theorem createStatic_eq {bufferLen : Nat} {w : Core}
    (fits : staticRequirement conf type < target.modulus)
    (enough : staticRequirement conf type ≤ bufferLen) :
    (w.createStatic conf type msg buffer bufferLen).2 =
      (planOver conf .createPreallocated type msg (w.prepared conf type msg buffer)).2 := by
  simp only [createStatic, (staticSize_eq fits w).1]
  rw [if_neg (by omega)]
  rfl

/-- Static creation builds the message out of the buffer. -/
theorem createStatic_builds (layout : type.Layout target) (unbounded : type.members.NoBounded)
    {bufferLen : Nat} {w : Core} (suits : Suits conf type msg buffer bufferLen w) :
    let S := staticSupplier conf.getConfiguration buffer (staticRequirement conf type)
    S.Runs (heads target type.members msg) (S.Finished type.members msg .empty) []
      (w.prepared conf type msg buffer) (w.createStatic conf type msg buffer bufferLen).2 := by
  intro S
  obtain ⟨enough, small, message, backed, apart⟩ := suits
  have notNull : buffer ≠ .null := by
    rintro rfl
    exact Memory.Heap.not_backed_null _ rfl _ backed
  rw [createStatic_eq (by omega) enough]
  refine Supplier.constructs layout.1 unbounded msg .empty [] 0 0 _ [] ?_ ?_
  · refine Set.disjoint_left.mpr ?_
    rintro q ⟨o, header, rfl⟩ ⟨i, _, below, same⟩
    exact apart o (layout.1.covers_lt (MemberList.covers_of_headerAt layout.1 unbounded.messages header)) i
      (by omega) same
  · refine ⟨by simp [prepared, prepareStatic, placeBuffer], notNull, ?_, by omega, ?_, ?_⟩
    · simp [prepared, prepareStatic, placeBuffer, staticRequirement]
    · rintro q ⟨i, _, below, rfl⟩
      simp only [prepared, prepareStatic, placeBuffer, fillZero_memory]
      by_cases inside : msg.Spans type.info.sizeOf (buffer.plus i)
      · obtain ⟨o, bound, same⟩ := Pointer.spans_iff.mp inside
        exact absurd same.symm (apart o bound i (by omega))
      · rw [Memory.Contents.fillZero_outside _ inside]
        exact Memory.Contents.fillZero_inside _ below
    · simpa [prepared, prepareStatic, placeBuffer] using backed.mono enough

end Core

end MicroRos
