import MicroRos.Planning.StringReplacement
import MicroRos.Utilities.StringStore

/-! Strings of messages in the hands of the string utilities.

A string of a message may be passed to a utility and assigned from what it returns. The utility
may exchange the block behind the string; then the message holds another one.
-/

set_option autoImplicit false

namespace MicroRos

open Memory (Pointer Contents Block Heap Byte)

variable {target : Target}

namespace RuntimeString

/-- The struct at a header. -/
def load (target : Target) (m : Contents) (header : Pointer) : RuntimeString :=
  ⟨m.loadPointer target.word header, m.loadSize target.word (header.plus target.word),
    m.loadSize target.word (header.plus (2 * target.word))⟩

/-- The assignment of the struct at a header. -/
def store (target : Target) (str : RuntimeString) (m : Contents) (header : Pointer) : Contents :=
  ((m.storePointer target.word header str.data).storeSize target.word (header.plus target.word) str.size).storeSize
    target.word (header.plus (2 * target.word)) str.capacity

end RuntimeString

/-- The memory that the planner and the string utilities share. -/
def Core.strings (core : Core) : StringHeap := ⟨core.memory, core.heap, []⟩

/-- `*str = micro_ros_string_utilities_…(*str, …)`. -/
def Core.editString (target : Target) (header : Pointer) (call : StringCall) (core : Core) : Core :=
  let edited := call.run (.load target core.memory header) core.strings
  { core with memory := edited.1.store target edited.2.memory header, heap := edited.2.heap }

section Headers

variable {m m' : Contents} {header : Pointer} {str : RuntimeString}

namespace RuntimeString

theorem word_spans {q : Pointer} {i : Nat} (fits : i + target.word ≤ target.headerSize)
    (inside : (header.plus i).Spans target.word q) : q ∈ headerSpan target header := inside.within fits

theorem load_congr (same : ∀ q ∈ headerSpan target header, m' q = m q) :
    load target m' header = load target m header := by
  have words (i : Nat) (fits : i + target.word ≤ target.headerSize) : m.Agree m' (header.plus i) target.word :=
    fun j bound => same _ (word_spans fits (Pointer.spans_plus bound))
  have pointer : m.Agree m' header target.word := words 0 (by simp only [Target.headerSize]; omega)
  simp only [load, Contents.loadPointer_congr target.word_pos pointer,
    Contents.loadSize_congr (words target.word (by simp only [Target.headerSize]; omega)),
    Contents.loadSize_congr (words (2 * target.word) (by simp only [Target.headerSize]; omega))]

theorem store_outside {q : Pointer} (outside : q ∉ headerSpan target header) : str.store target m header q = m q := by
  have words (i : Nat) (fits : i + target.word ≤ target.headerSize) : ¬(header.plus i).Spans target.word q :=
    fun inside => outside (word_spans fits inside)
  have pointer : ¬header.Spans target.word q := words 0 (by simp only [Target.headerSize]; omega)
  rw [store, Contents.storeSize_outside _ _ _ (words _ (by simp only [Target.headerSize]; omega)),
    Contents.storeSize_outside _ _ _ (words _ (by simp only [Target.headerSize]; omega)),
    Contents.storePointer_outside _ _ _ pointer]

theorem agree_before (m : Contents) (header : Pointer) (n : Nat) {i j : Nat} (apart : i + target.word ≤ j) :
    m.Agree (m.storeSize target.word (header.plus j) n) (header.plus i) target.word := by
  intro k bound
  refine Contents.storeSize_outside _ _ _ fun inside => ?_
  have lower := inside.2.1
  simp only [Pointer.plus_offset] at lower
  omega

theorem loadPointer_store : (str.store target m header).loadPointer target.word header = str.data := by
  have start (m : Contents) (n : Nat) {j : Nat} (behind : 0 + target.word ≤ j) :
      m.Agree (m.storeSize target.word (header.plus j) n) header target.word := agree_before m header n behind
  rw [store, Contents.loadPointer_congr target.word_pos (start _ _ (by omega)),
    Contents.loadPointer_congr target.word_pos (start _ _ (by omega)),
    Contents.loadPointer_storePointer target.word_pos]

/-- What is assigned is read again, if it has the width of a `size_t`. -/
theorem load_store (size : str.size < target.modulus) (capacity : str.capacity < target.modulus) :
    load target (str.store target m header) header = str := by
  have sized : (str.store target m header).loadSize target.word (header.plus target.word) = str.size := by
    rw [store, Contents.loadSize_congr (agree_before _ header _ (by omega)), Contents.loadSize_storeSize]
    exact Nat.mod_eq_of_lt size
  have room : (str.store target m header).loadSize target.word (header.plus (2 * target.word)) = str.capacity := by
    rw [store, Contents.loadSize_storeSize]
    exact Nat.mod_eq_of_lt capacity
  rw [load, loadPointer_store, sized, room]

end RuntimeString

end Headers

/-- What a string member holds: a text with room for its terminator, or nothing where the capacity is zero. -/
def StringText (target : Target) (core : Core) (header : Pointer) : Option CString → Prop
  | some text => (RuntimeString.load target core.memory header).Keeps text core.strings
  | none => (RuntimeString.load target core.memory header).capacity = 0

/-- It depends on the header and on the block of the text. -/
theorem StringText.congr {core core' : Core} {header : Pointer} {text : Option CString}
    (spelled : StringText target core header text)
    (same : ∀ q ∈ headerSpan target header, core'.memory q = core.memory q)
    (block : (core.memory.loadPointer target.word header).block ≠ .null →
      core'.heap.extent (core.memory.loadPointer target.word header).block =
          core.heap.extent (core.memory.loadPointer target.word header).block ∧
        ∀ q, q.block = (core.memory.loadPointer target.word header).block → core'.memory q = core.memory q) :
    StringText target core' header text := by
  have loaded := RuntimeString.load_congr same
  cases text with
  | none =>
    rw [StringText, loaded]
    exact spelled
  | some text =>
    have keeps : (RuntimeString.load target core.memory header).Keeps text core.strings := spelled
    obtain ⟨extent, kept⟩ := block keeps.ne_null
    rw [StringText, loaded]
    refine ⟨keeps.start, ?_, keeps.room, keeps.length, keeps.holds.congr fun i _ => kept _ rfl⟩
    exact extent.trans keeps.whole

section Edits

variable {core : Core} {header : Pointer} {text : CString} {call : StringCall}

/-- One call on a string of a message. -/
theorem Core.editString_replaces (held : HeaderHeld target 0 core.heap core.memory header)
    (keeps : (RuntimeString.load target core.memory header).Keeps text core.strings) (grants : core.heap.Grants)
    (proper : call.Proper text)
    (roomy : call.Roomy text (RuntimeString.load target core.memory header).capacity)
    (fits : call.capacityAfter text (RuntimeString.load target core.memory header).capacity < target.modulus)
    (outside : header.block ≠ (core.memory.loadPointer target.word header).block) :
    let edited := call.run (.load target core.memory header) core.strings
    Replaces target 0 header (core.memory.loadPointer target.word header) edited.1.data core
        (core.editString target header call) ∧
      Confined (core.memory.loadPointer target.word header).block edited.1.data.block core.strings edited.2 ∧
      StringText target (core.editString target header call) header (some (call.applyTo text)) := by
  intro edited
  have confined : Confined (core.memory.loadPointer target.word header).block edited.1.data.block core.strings
      edited.2 := call.run_confined keeps grants
  obtain ⟨_, capacity, _, kept⟩ := call.run_keeps keeps grants proper
  have after : edited.1.Keeps (call.applyTo text) edited.2 := kept roomy
  have room : edited.1.capacity < target.modulus := capacity ▸ fits
  have notNull : (core.memory.loadPointer target.word header).block ≠ .null := keeps.ne_null
  -- The struct is stored in a block that was there before the call, and not in the one of the characters.
  have headerApart : header.block ≠ edited.1.data.block := by
    obtain ⟨size, found, _⟩ := held.backed
    exact confined.ne_new outside (ne_of_eq_of_ne (Option.mem_def.mp found) (Option.some_ne_none size))
  have live : edited.2.heap.extent edited.1.data.block ≠ none := by
    rw [after.whole]
    exact Option.some_ne_none _
  have loaded : RuntimeString.load target (core.editString target header call).memory header = edited.1 :=
    RuntimeString.load_store (Nat.lt_trans after.room room) room
  have wasObject : ∃ number, (core.memory.loadPointer target.word header).block = .object 0 number := by
    rcases held.data with isNull | ⟨_, isObject, _⟩
    · exact absurd (congrArg Pointer.block isNull) notNull
    · exact isObject
  refine ⟨⟨⟨fun q away other => ?_, confined.extent⟩, rfl, RuntimeString.loadPointer_store, notNull, after.start, ?_,
    live⟩, confined, ?_⟩
  · exact (RuntimeString.store_outside away).trans (confined.memory q other)
  · rcases confined.block with same | ⟨isNull | ⟨number, _, isObject⟩, _⟩
    · rw [same]
      exact wasObject
    · rw [isNull] at live
      exact absurd edited.2.heap.nullDead live
    · exact ⟨number, isObject⟩
  · rw [StringText, loaded]
    refine ⟨after.start, after.whole, after.room, after.length, after.holds.congr fun i _ => ?_⟩
    exact RuntimeString.store_outside fun inside => headerApart (block_of_headerSpan inside).symm

end Edits

/-- What the planner leaves at a string: an empty text, where there is room for its terminator. -/
def RuntimeString.planned (str : RuntimeString) : Option CString := if str.capacity = 0 then none else some .empty

namespace MemberList

variable {conf : MemoryConf target} {owner : Nat} {w : Core} {header : Pointer}

theorem HeaderBuilt.spelled {capacity : Nat}
    (built : HeaderBuilt target (WholeObject owner w.heap.extent) w.memory header capacity capacity)
    (zero : ∀ i < capacity, w.memory ((w.memory.loadPointer target.word header).plus i) = .zero) :
    StringText target w header (RuntimeString.load target w.memory header).planned := by
  have loaded : (RuntimeString.load target w.memory header).capacity = capacity := built.holdsCapacity
  obtain ⟨start, _, found⟩ := built.region
  rw [RuntimeString.planned]
  split
  next isZero => exact isZero
  next room =>
    rw [loaded] at room
    have size : (RuntimeString.load target w.memory header).size = 0 := built.holdsSize
    refine ⟨start, ?_, ?_, size, fun i inside => ?_⟩
    · rw [loaded]
      exact found
    · rw [size, loaded]
      exact Nat.pos_of_ne_zero room
    · obtain rfl : i = 0 := by simpa [CString.cells, CString.empty] using inside
      exact zero 0 (Nat.pos_of_ne_zero room)

/-- A message that was built from whole objects has empty strings. -/
theorem Built.spelled {list : MemberList} {msg : Pointer} {path : CString} (unwrapped : Unwrapped conf list path)
    (built : list.Built conf (WholeObject owner w.heap.extent) w.memory msg path)
    (member : header ∈ list.strings conf w.memory msg path) :
    StringText target w header (RuntimeString.load target w.memory header).planned := by
  induction list generalizing msg path with
  | nil => cases member
  | basic type field rest ih =>
    simp only [MemberList.strings, List.mem_append] at member
    rcases member with here | later
    · split at here
      next isString =>
        obtain rfl := List.mem_singleton.mp here
        have header : isHeader type field = true := by simp [isHeader, isString.1]
        have bytes : target.mul (conf.basicCapacity path type field) type.plannedSize =
            conf.basicCapacity path type field := by
          have width : type.plannedSize = 1 := by
            rw [isString.1]
            rfl
          have bounded := conf.basicCapacity_lt path type field
          rw [width, Target.mul_of_lt (by rwa [Nat.mul_one]), Nat.mul_one]
        have here := built.1 header
        simp only [bytes] at here
        exact HeaderBuilt.spelled here.1 here.2
      next other => cases here
    · exact ih (fun n among => unwrapped n (List.mem_append_right _ among)) built.2 later
  | message info members field rest ihMembers ih =>
    obtain ⟨inSequence, inPlace, restBuilt⟩ := built
    simp only [MemberList.strings, List.mem_append] at member
    rcases member with here | later
    · split at here
      next sequence =>
        obtain ⟨j, bound, inElement⟩ := List.mem_flatMap.mp here
        replace bound := List.mem_range.mp bound
        simp only [Unwrapped, requests, if_pos sequence, List.forall_mem_append, List.forall_mem_cons,
          List.forall_mem_flatMap, List.mem_range] at unwrapped
        obtain ⟨⟨whole, inner⟩, -⟩ := unwrapped
        have le := element_within info.sizeOf bound
        rw [Target.mul_of_lt (by omega)] at inElement
        exact ihMembers (inner j bound) ((inSequence sequence).2 whole j bound).1 inElement
      next single =>
        have notSequence : field.isSequence = false := by simpa using single
        refine ihMembers (fun n among => unwrapped n ?_) (inPlace notSequence) here
        simp only [requests, notSequence, Bool.false_eq_true, if_false]
        exact List.mem_append_left _ among
    · exact ih (fun n among => unwrapped n (List.mem_append_right _ among)) restBuilt later

end MemberList

end MicroRos
