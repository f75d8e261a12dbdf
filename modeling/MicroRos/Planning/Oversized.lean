import MicroRos.Planning.Capacities
import MicroRos.Planning.Obtaining

/-! Types and configurations that need more memory than a `size_t` can count.

Both passes of a creation wrap in the same way, so their comparison says nothing about the
exact requirement.
-/

set_option autoImplicit false

namespace MicroRos

open Memory (Pointer Byte Heap Arena)
open Memory.Packing (alignUp packed)

variable {target : Target}

/-- The header has room for as many elements of the planner's size as its capacity says. -/
def Event.Provides (root : MemberList) (Room : Pointer → Nat → Prop) : Event → Prop
  | .stored site _ data _ capacity =>
    ∃ names member, root.memberAt site.calls site.member = some (names, member) ∧
      Room data (capacity * member.plannedSize)
  | _ => True

/-- The bytes lie in the buffer. -/
def Within (buffer : Pointer) (bufferLen : Nat) (data : Pointer) (n : Nat) : Prop :=
  ∃ offset, data = buffer.plus offset ∧ offset + n ≤ bufferLen

/-- The bytes that were asked for are in a live object. -/
def Event.Stocked (h : Heap) : Event → Prop
  | .stored _ _ data bytes _ => h.Backed data bytes
  | _ => True

theorem Event.Silent.stocked {event : Event} (silent : event.Silent) (h : Heap) : event.Stocked h := by
  cases event with
  | stored => exact silent.elim
  | _ => trivial

theorem Memory.Heap.Backed.persists {h h' : Heap} {p : Pointer} {n : Nat} (backed : h.Backed p n)
    (live : Arena.Persists h.extent h'.extent) : h'.Backed p n := by
  obtain ⟨size, found, bound⟩ := backed
  exact ⟨size, live _ _ found, bound⟩

namespace Core

/-- Objects stay alive, and the headers that were set up have theirs. -/
def Stocks (w w' : Core) : Prop :=
  Arena.Persists w.heap.extent w'.heap.extent ∧ Logs (fun event => event.Stocked w'.heap) w w'

namespace Stocks

theorem of_silent {w w' : Core} (same : w'.heap = w.heap) (silent : Logs Event.Silent w w') : Stocks w w' :=
  ⟨fun _ _ live => same ▸ live, silent.mono fun _ quiet => quiet.stocked _⟩

theorem trans {w w' w'' : Core} (first : Stocks w w') (second : Stocks w' w'') : Stocks w w'' := by
  refine ⟨first.1.trans second.1, (first.2.mono fun event stocked => ?_).trans second.2⟩
  cases event with
  | stored => exact stocked.persists second.1
  | _ => trivial

end Stocks

theorem stockingRule (conf : MemoryConf target) : TraversalRule conf .create AnyFrame Stocks where
  toFrameRule := anyFrame conf .create
  refl w := .of_silent rfl (Logs.refl w)
  trans := .trans
  plan {_ msg _ stack index field capacity memberSize} _ _ w := by
    have heap := planHeader_create_heap conf ⟨stack, index⟩ (msg.plus field.offset) capacity memberSize w
    refine ⟨fun b n live => heap ▸ Heap.allocate_extent_live _ _ live, ?_⟩
    rcases planned : w.planHeader conf .create ⟨stack, index⟩ (msg.plus field.offset) capacity memberSize
      with ⟨_ | bytes, after⟩
    · obtain ⟨_, noise, silent, log⟩ := planHeader_create_none planned
      refine ⟨_, log, ?_⟩
      simp only [List.forall_mem_cons, List.forall_mem_append]
      exact ⟨trivial, trivial, fun event member => (silent event member).stocked _, trivial,
        List.forall_mem_nil _⟩
    · obtain ⟨rfl, data, noise, answer, notNull, silent, log⟩ := planHeader_create_some planned
      refine ⟨_, log, ?_⟩
      simp only [List.forall_mem_cons, List.forall_mem_append]
      refine ⟨trivial, trivial, fun event member => (silent event member).stocked _, ?_,
        List.forall_mem_nil _⟩
      -- The object is as long as the number that was passed to `allocate`.
      rw [planned] at heap
      change after.heap = _ at heap
      rw [Event.Stocked, heap, answer]
      exact Heap.allocate_backed (answer ▸ notNull)
  load header w := .of_silent (by simp [elementData, Operation.calculates, loadPointer])
    (Logs.elementData (fun _ _ => trivial) .create header w)
  tear _ _ w := .of_silent rfl (Logs.refl w)

theorem create_stocks (conf : MemoryConf target) (type : MessageMembers) (msg : Pointer) (w : Core) :
    Stocks w (w.create conf type msg).2 := by
  have quiet : Logs Event.Silent w ((w.dynamicSize conf type).2.fillZero msg type.info.sizeOf) :=
    ((dynamicSize_quiet conf type w).2.mono (by rintro _ ⟨_, _, rfl⟩; trivial)).trans
      (Logs.fillZero (fun _ _ => trivial) msg type.info.sizeOf _)
  have cleared := Stocks.of_silent (by simp) quiet
  exact cleared.trans ((stockingRule conf.getConfiguration).runOver type msg trivial _)

end Core

/-- A header that was set up for a visit of the type, with as many bytes as it needs. -/
theorem Visit.StoredBy.provides {root : MemberList} {Room : Pointer → Nat → Prop} {visit : Visit}
    {site : Site} {header data : Pointer} {bytes capacity : Nat}
    (stored : visit.StoredBy (.stored site header data bytes capacity)) (isOf : visit.IsOf root)
    (room : Room data bytes) : (Event.stored site header data bytes capacity).Provides root Room := by
  obtain ⟨sameStack, sameMember, rfl, rfl⟩ := stored
  obtain ⟨names, member, found, planned⟩ := isOf
  refine ⟨names, member, ?_, ?_⟩
  · rw [site.calls_of_marks, sameStack, sameMember]
    exact found
  · rw [← planned]
    exact room

/-- While the exact total does not wrap, a successful dynamic creation has what it promises. -/
theorem Core.create_provides {conf : MemoryConf target} {type : MessageMembers}
    (fits : dynamicRequirement conf type < target.modulus) (msg : Pointer) (w : Core) :
    ∀ event ∈ w.since (w.create conf type msg).2,
      event.Provides type.members (w.create conf type msg).2.heap.Backed := by
  obtain ⟨used, _, accounted⟩ := create_accounted fits msg w
  intro event member
  have stocked := (create_stocks conf type msg w).2.since event member
  cases event with
  | stored site header data bytes capacity =>
    obtain ⟨visit, met, stored⟩ := accounted.only _ member rfl
    exact stored.provides (plannedVisits_isOf conf type visit met) stocked
  | _ => trivial

/-- The same of static creation: every region ends where the last one does or before. -/
theorem provides_of_handed {root : MemberList} {buffer : Pointer} {bufferLen start : Nat}
    {visits : List Visit} {stored : List Event} (isOf : ∀ visit ∈ visits, visit.IsOf root)
    (fits : packed Core.alignment start (visits.map Visit.bytes) < target.modulus)
    (long : packed Core.alignment start (visits.map Visit.bytes) ≤ bufferLen)
    (handed : List.Forall₂ (HandedTo target buffer) (placements start visits) stored) :
    ∀ event ∈ stored, event.Provides root (Within buffer bufferLen) := by
  induction visits generalizing start stored with
  | nil =>
    cases handed
    exact List.forall_mem_nil _
  | cons visit visits ih =>
    obtain _ | ⟨here, rest⟩ := handed
    obtain ⟨first, others⟩ := List.forall_mem_cons.mp isOf
    rename_i event later
    have behind := Memory.Packing.le_packed (a := Core.alignment)
      (alignUp Core.alignment start + visit.bytes) (visits.map Visit.bytes)
    simp only [List.map_cons, packed] at fits long
    refine List.forall_mem_cons.mpr ⟨?_, ih others fits long rest⟩
    cases event with
    | stored site header data bytes capacity =>
      obtain ⟨stack, member, rfl, size, region⟩ := here
      rw [Nat.mod_eq_of_lt (by omega : visit.bytes < target.modulus)] at size
      rw [Nat.mod_eq_of_lt (by omega : alignUp Core.alignment start < target.modulus)] at region
      have same : visit.StoredBy (.stored site header data bytes visit.capacity) :=
        ⟨stack, member, rfl, size⟩
      have ends : alignUp Core.alignment start + bytes ≤ bufferLen := by
        rw [size]
        omega
      exact same.provides first ⟨alignUp Core.alignment start, region, ends⟩
    | _ => trivial

theorem Core.createStatic_provides {conf : MemoryConf target} {type : MessageMembers}
    (fits : staticRequirement conf type < target.modulus) {msg buffer : Pointer} {bufferLen : Nat}
    {w : Core} (success : (w.createStatic conf type msg buffer bufferLen).1 = true) :
    ∀ event ∈ w.since (w.createStatic conf type msg buffer bufferLen).2,
      event.Provides type.members (Within buffer bufferLen) := by
  intro event member
  by_cases isNull : buffer = .null
  · subst isNull
    have quiet := (createStatic_null conf type msg bufferLen w).1.since event member
    cases event with
    | stored => exact quiet.elim
    | _ => trivial
  · have whole := createStatic_wrapped conf type msg isNull bufferLen w
    rw [Nat.mod_eq_of_lt fits] at whole
    split at whole
    next long =>
      have exact : packed alignment 0 ((plannedVisits false conf type).map Visit.bytes) =
          staticRequirement conf type := by rw [plannedVisits_bytes, staticRequirement]
      cases isStored : event.isStored with
      | true =>
        apply provides_of_handed (plannedVisits_isOf conf type) (exact ▸ fits) (exact ▸ long) whole.2
        exact List.mem_filter.mpr ⟨member, isStored⟩
      | false => cases event <;> trivial
    next short =>
      rw [whole.1] at success
      cases success

theorem Core.create_oversized {conf : MemoryConf target} {type : MessageMembers}
    (fits : dynamicRequirement conf type < target.modulus) (msg : Pointer) (w : Core) :
    (target.modulus ≤ dynamicRequirement conf type → (w.create conf type msg).1 = false) ∧
      ((w.create conf type msg).1 = true → ∀ event ∈ w.since (w.create conf type msg).2,
        event.Provides type.members (w.create conf type msg).2.heap.Backed) :=
  ⟨fun large => absurd fits (Nat.not_lt.mpr large), fun _ => create_provides fits msg w⟩

theorem Core.createStatic_oversized {conf : MemoryConf target} {type : MessageMembers} {bufferLen : Nat}
    (fits : staticRequirement conf type < target.modulus ∨ bufferLen < staticRequirement conf type % target.modulus)
    (msg buffer : Pointer) (w : Core) :
    (target.modulus ≤ staticRequirement conf type → (w.createStatic conf type msg buffer bufferLen).1 = false) ∧
      ((w.createStatic conf type msg buffer bufferLen).1 = true →
        ∀ event ∈ w.since (w.createStatic conf type msg buffer bufferLen).2,
          event.Provides type.members (Within buffer bufferLen)) := by
  by_cases small : staticRequirement conf type < target.modulus
  · exact ⟨fun large => absurd small (Nat.not_lt.mpr large), createStatic_provides small⟩
  · -- The buffer is too short even for what is left of the requirement.
    have refused : (w.createStatic conf type msg buffer bufferLen).1 = false := by
      have short := fits.resolve_left small
      simp only [createStatic, (staticSize_wrapped conf type w).1, if_pos short]
    simp [refused]

/-- Every run with served name trees, and no other, uses them as it should, rejects what is too large and has room
for what it sets up: in dynamic creation if and only if the exact requirement is within the range of `size_t`,
in static creation also if the buffer is shorter than what is left of the requirement. -/
theorem oversized_rejected_iff (conf : MemoryConf target) (type : MessageMembers) (bufferLen : Nat) :
    ((∀ (msg : Pointer) (core : Core) (s : StringHeap),
        let created := createMessageMemory target (heapStrings target) conf type msg ⟨core, s⟩
        Lifetimes (s.since created.2.scratch) ∧
            (target.modulus ≤ dynamicRequirement conf type → created.1 = false) ∧
            (created.1 = true → ∀ event ∈ core.since created.2.core,
              event.Provides type.members created.2.core.heap.Backed) ↔
          s.Serves ((PlannerCall.create msg).demands conf type core)) ↔
      dynamicRequirement conf type < target.modulus) ∧
    ((∀ (msg buffer : Pointer) (core : Core) (s : StringHeap),
        let created := createStaticMessageMemory target (heapStrings target) conf type msg buffer bufferLen ⟨core, s⟩
        Lifetimes (s.since created.2.scratch) ∧
            (target.modulus ≤ staticRequirement conf type → created.1 = false) ∧
            (created.1 = true → ∀ event ∈ core.since created.2.core,
              event.Provides type.members (Within buffer bufferLen)) ↔
          s.Serves ((PlannerCall.createStatic msg buffer bufferLen).demands conf type core)) ↔
      staticRequirement conf type < target.modulus ∨
        bufferLen < staticRequirement conf type % target.modulus) := by
  refine ⟨⟨fun rejects => ?_, fun fits msg core s => ?_⟩,
    fun rejects => ?_, fun fits msg buffer core s => ?_⟩
  · -- An allocator that grants everything makes the two passes agree.
    by_contra large
    have refused := ((rejects .null (.boot fun _ _ => true) (.boot fun _ => false)).mpr
      (StringHeap.boot_serves _)).2.1 (Nat.le_of_not_lt large)
    obtain ⟨answer, -⟩ := (createMessageMemory_ends conf type (.boot fun _ _ => true) (.boot fun _ => false)
      .null).of_served (StringHeap.boot_serves _)
    rw [answer, Core.create_succeeds conf type _ fun _ _ => rfl] at refused
    cases refused
  · intro created
    apply (createMessageMemory_ends conf type core s msg).lifetimes_and_iff_serves
    rintro ⟨answer, reached⟩
    rw [answer, reached]
    exact Core.create_oversized fits msg core
  · by_contra neither
    obtain ⟨large, long⟩ := not_or.mp neither
    -- The buffer is compared with the wrapped size alone, and the rest of the call cannot fail.
    have refused := ((rejects .null ⟨.object 0 0, 0⟩ (.boot fun _ _ => true) (.boot fun _ => false)).mpr
      (StringHeap.boot_serves _)).2.1 (Nat.le_of_not_lt large)
    obtain ⟨answer, -⟩ := (createStaticMessageMemory_ends conf type (.boot fun _ _ => true)
      (.boot fun _ => false) .null ⟨.object 0 0, 0⟩ bufferLen).of_served (StringHeap.boot_serves _)
    have notNull : (⟨.object 0 0, 0⟩ : Pointer) ≠ .null := by decide
    have whole := Core.createStatic_wrapped conf type .null notNull bufferLen (.boot fun _ _ => true)
    rw [answer] at refused
    simp only [Nat.le_of_not_lt long, if_true, refused] at whole
    cases whole.1
  · intro created
    apply (createStaticMessageMemory_ends conf type core s msg buffer bufferLen).lifetimes_and_iff_serves
    rintro ⟨answer, reached⟩
    rw [answer, reached]
    exact Core.createStatic_oversized fits msg buffer core

/-- Two sequences of 2^31 strings each, for which the planner reckons one byte a string. -/
def twoBillion : MemoryConf cortexM := { boardDefault with maxStringCapacity := ⟨2 ^ 31, by decide⟩ }

/-- `ListParametersResult` then needs 2^32 bytes; a buffer of no bytes is accepted. -/
theorem oversized_not_rejected :
    cortexM.modulus ≤ dynamicRequirement twoBillion (listParametersResult cortexM) ∧
    cortexM.modulus ≤ staticRequirement twoBillion (listParametersResult cortexM) ∧
    (createMessageMemory cortexM (heapStrings cortexM) twoBillion (listParametersResult cortexM)
      ⟨.object 1 0, 0⟩ ⟨.boot fun _ _ => true, .boot fun _ => false⟩).1 = true ∧
    (createStaticMessageMemory cortexM (heapStrings cortexM) twoBillion (listParametersResult cortexM)
      ⟨.object 1 0, 0⟩ ⟨.object 1 1, 0⟩ 0 ⟨.boot fun _ _ => true, .boot fun _ => false⟩).1 = true := by
  refine ⟨by decide, by decide, ?_, ?_⟩
  · rw [((createMessageMemory_ends twoBillion _ _ _ _).of_served (StringHeap.boot_serves _)).1]
    exact Core.create_succeeds twoBillion _ _ fun _ _ => rfl
  · rw [((createStaticMessageMemory_ends twoBillion _ _ _ _ _ _).of_served (StringHeap.boot_serves _)).1]
    have notNull : (⟨.object 1 1, 0⟩ : Pointer) ≠ .null := by decide
    have whole := Core.createStatic_wrapped twoBillion (listParametersResult cortexM) ⟨.object 1 0, 0⟩
      notNull 0 (.boot fun _ _ => true)
    have left : staticRequirement twoBillion (listParametersResult cortexM) % cortexM.modulus = 0 := by decide
    simp only [left, Nat.le_refl, if_true] at whole
    exact whole.1

end MicroRos
