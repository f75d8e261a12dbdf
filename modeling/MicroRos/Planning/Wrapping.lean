import MicroRos.Planning.Reporting

/-! Static placement when indices and byte counts wrap.

The alignment divides the number of values of `size_t`, so the index that the program
keeps is the exact one modulo that number at every moment, whatever the sizes are.
-/

set_option autoImplicit false

namespace MicroRos

open Memory (Pointer Byte)
open Memory.Packing (alignUp packed)

variable {target : Target}

namespace Core

theorem alignIndex_mod (fuel index : Nat) (enough : alignUp alignment index ≤ index + fuel) :
    alignIndex target fuel (index % target.modulus) = alignUp alignment index % target.modulus := by
  have positive : 0 < alignment := by decide
  -- The loop tests the wrapped index; four divides the modulus, so the exact one has the same remainder.
  induction fuel generalizing index with
  | zero =>
    have lower := Memory.Packing.le_alignUp alignment index
    rw [Nat.le_antisymm enough lower]
    rfl
  | succ fuel ih =>
    have residue : index % target.modulus % alignment = index % alignment :=
      Nat.mod_mod_of_dvd index target.four_dvd_modulus
    simp only [alignIndex, residue]
    split
    next unaligned =>
      have same := Memory.Packing.alignUp_succ positive unaligned
      have step : target.add (index % target.modulus) 1 = (index + 1) % target.modulus :=
        Nat.mod_add_mod index target.modulus 1
      rw [step, ih (index + 1) (by omega), same]
    next aligned => rw [Memory.Packing.alignUp_of_mod (not_not.mp aligned)]

variable {w : Core} {start : Nat}

theorem getStaticMemory_wrapped {size bytes : Nat} (wraps : size = bytes % target.modulus)
    (index : w.operationBufferIndex = start % target.modulus) :
    let made := w.getStaticMemory target size
    made.2.operationBufferIndex = (alignUp alignment start + bytes) % target.modulus ∧
      made.2.operationBuffer = w.operationBuffer ∧
      (w.operationBuffer ≠ .null →
        made.1 = w.operationBuffer.plus (alignUp alignment start % target.modulus)) := by
  have near := Memory.Packing.alignUp_lt (by decide : 0 < alignment) start
  have aligned : alignIndex target alignment (start % target.modulus) = alignUp alignment start % target.modulus :=
    alignIndex_mod alignment start (Nat.le_of_lt near)
  have moved : target.add (alignUp alignment start % target.modulus) size =
      (alignUp alignment start + bytes) % target.modulus := wraps ▸ (Nat.add_mod _ _ _).symm
  simp only [getStaticMemory, index, aligned, moved]
  split
  next isNull => exact ⟨rfl, rfl, fun notNull => absurd isNull notNull⟩
  next notNull => exact ⟨rfl, rfl, fun _ => rfl⟩

end Core

/-- The operation takes memory from the static buffer, or counts as if it did. -/
def Operation.Places (operation : Operation) (w : Core) : Prop :=
  match operation with
  | .createPreallocated => w.operationBuffer ≠ .null
  | .calculateSizePreallocated => True
  | .create | .destroy | .calculateSize => False

/-- Each header with the exact index at which its region begins. -/
def placements : Nat → List Visit → List (Visit × Nat)
  | _, [] => []
  | start, visit :: visits =>
    (visit, alignUp Core.alignment start) ::
      placements (alignUp Core.alignment start + visit.bytes) visits

theorem placements_append (start : Nat) (visits later : List Visit) :
    placements start (visits ++ later) = placements start visits ++
      placements (packed Core.alignment start (visits.map Visit.bytes)) later := by
  induction visits generalizing start with
  | nil => rfl
  | cons visit visits ih => simp [placements, packed, ih]

/-- The event gave this header its region, with the index and the number of bytes as they wrap. -/
def HandedTo (target : Target) (buffer : Pointer) (place : Visit × Nat) : Event → Prop
  | .stored site _ data bytes capacity =>
    site.stack.map Step.mark = place.1.stack ∧ site.member = place.1.member ∧
      capacity = place.1.capacity ∧ bytes = place.1.bytes % target.modulus ∧
      data = buffer.plus (place.2 % target.modulus)
  | _ => False

/-- What a run that places these headers records; a size calculation sets up none. -/
def Handed (target : Target) (operation : Operation) (buffer : Pointer) (places : List (Visit × Nat))
    (events : List Event) : Prop :=
  match operation with
  | .createPreallocated => List.Forall₂ (HandedTo target buffer) places (events.filter Event.isStored)
  | _ => ∀ event ∈ events, event.Silent

theorem none_stored {events : List Event} (quiet : ∀ event ∈ events, event.Silent) :
    events.filter Event.isStored = [] := by
  apply List.filter_eq_nil_iff.mpr
  intro event member isStored
  obtain ⟨_, found, _⟩ := StoredOnly.of_silent quiet [] event member isStored
  cases found

namespace Handed

variable {operation : Operation} {buffer : Pointer}

theorem silent {events : List Event} (quiet : ∀ event ∈ events, event.Silent) :
    Handed target operation buffer [] events := by
  cases operation with
  | createPreallocated =>
    unfold Handed
    rw [none_stored quiet]
    exact .nil
  | _ => exact quiet

theorem append {places later : List (Visit × Nat)} {events next : List Event}
    (first : Handed target operation buffer places events)
    (second : Handed target operation buffer later next) :
    Handed target operation buffer (places ++ later) (events ++ next) := by
  cases operation with
  | createPreallocated =>
    unfold Handed
    rw [List.filter_append]
    exact List.rel_append first second
  | _ =>
    intro event member
    exact (List.mem_append.mp member).elim (first event) (second event)

end Handed

section Header

variable {conf : MemoryConf target} {site : Site} {header : Pointer} {capacity memberSize start : Nat}
  {w after : Core} {made : Option Nat}

theorem Core.planHeader_calculateWrapped (index : w.operationBufferIndex = start % target.modulus)
    (planned : w.planHeader conf .calculateSizePreallocated site header capacity memberSize =
      (made, after)) :
    made = some ((alignUp alignment start + capacity * memberSize - start) % target.modulus) ∧
      after.operationBuffer = w.operationBuffer ∧
      after.operationBufferIndex = (alignUp alignment start + capacity * memberSize) % target.modulus ∧
      Logs Event.Silent w after := by
  have lower := Memory.Packing.le_alignUp alignment start
  simp only [planHeader, setUpHeader, Prod.mk.injEq] at planned
  obtain ⟨rfl, rfl⟩ := planned
  obtain ⟨moved, buffer, -⟩ := getStaticMemory_wrapped (w := w.record (.resolved site capacity))
    (rfl : target.mul capacity memberSize = capacity * memberSize % target.modulus) index
  simp only [moved, record_index, index]
  refine ⟨?_, buffer, trivial, ?_⟩
  · rw [Target.sub_mod (by omega)]
  · exact (Logs.record trivial w).trans (Logs.getStaticMemory target (fun _ _ => trivial) _ _)

theorem Core.planHeader_createWrapped (notNull : w.operationBuffer ≠ .null)
    (index : w.operationBufferIndex = start % target.modulus)
    (planned : w.planHeader conf .createPreallocated site header capacity memberSize =
      (made, after)) :
    made = some ((alignUp alignment start + capacity * memberSize - start) % target.modulus) ∧
      after.operationBuffer = w.operationBuffer ∧
      after.operationBufferIndex = (alignUp alignment start + capacity * memberSize) % target.modulus ∧
      ∃ noise, (∀ event ∈ noise, event.Silent) ∧ after.log = w.log ++ (noise ++
        [.stored site header (w.operationBuffer.plus (alignUp alignment start % target.modulus))
          (target.mul capacity memberSize) capacity]) := by
  have lower := Memory.Packing.le_alignUp alignment start
  have invalid : ∀ p n, Event.Silent (.invalid p n) := fun _ _ => trivial
  simp only [planHeader, setUpHeader] at planned
  obtain ⟨moved, buffer, region⟩ := getStaticMemory_wrapped (w := w.record (.resolved site capacity))
    (rfl : target.mul capacity memberSize = capacity * memberSize % target.modulus) index
  have quiet : Logs Event.Silent w ((w.record (.resolved site capacity)).getStaticMemory target
      (target.mul capacity memberSize)).2 :=
    (Logs.record trivial w).trans (Logs.getStaticMemory target (fun _ _ => trivial) _ _)
  generalize (w.record (.resolved site capacity)).getStaticMemory target
    (target.mul capacity memberSize) = answer at planned moved buffer region quiet
  simp only [record_buffer] at buffer region
  rw [if_neg (by rw [region notNull]; exact Pointer.plus_ne_null notNull _)] at planned
  simp only [Prod.mk.injEq, storePointer_index, record_index] at planned
  obtain ⟨rfl, rfl⟩ := planned
  obtain ⟨noise, log, silent⟩ := quiet.trans ((Logs.storePointer target invalid header answer.1 _).trans
    (Logs.storeCounts target invalid header capacity _))
  refine ⟨?_, by simp [buffer], by simp [moved], noise, silent, ?_⟩
  · rw [moved, index, Target.sub_mod (by omega)]
  · rw [record_log, log, region notNull, List.append_assoc]

end Header

/-- The index advances by the packing of the sizes and the byte count with it, both as they wrap. -/
def WrappedRun (target : Target) (operation : Operation) (visits : List Visit) (used : Nat) (w : Core)
    (result : Nat) (w' : Core) : Prop :=
  operation.Places w → used < target.modulus → ∀ start, w.operationBufferIndex = start % target.modulus →
    w'.operationBuffer = w.operationBuffer ∧
    w'.operationBufferIndex = packed Core.alignment start (visits.map Visit.bytes) % target.modulus ∧
    result = (used + (packed Core.alignment start (visits.map Visit.bytes) - start)) % target.modulus ∧
    ∃ events, w'.log = w.log ++ events ∧
      Handed target operation w.operationBuffer (placements start visits) events

namespace WrappedRun

variable {operation : Operation}

theorem refl_of {w w' : Core} (used : Nat) (sameBuffer : w'.operationBuffer = w.operationBuffer)
    (sameIndex : w'.operationBufferIndex = w.operationBufferIndex)
    (quiet : Core.Logs Event.Silent w w') : WrappedRun target operation [] used w used w' := by
  intro _ small start index
  obtain ⟨events, log, silent⟩ := quiet
  refine ⟨sameBuffer, by simp [packed, sameIndex, index], ?_, events, log, .silent silent⟩
  simp [packed, Nat.mod_eq_of_lt small]

theorem trans {visits later : List Visit} {used used' used'' : Nat} {w w' w'' : Core}
    (first : WrappedRun target operation visits used w used' w')
    (second : WrappedRun target operation later used' w' used'' w'') :
    WrappedRun target operation (visits ++ later) used w used'' w'' := by
  intro places small start index
  obtain ⟨buffer, moved, total, events, log, handed⟩ := first places small start index
  have places' : operation.Places w' := by
    cases operation with
    | createPreallocated => simpa only [Operation.Places, buffer] using places
    | _ => exact places
  have small' : used' < target.modulus := total ▸ Nat.mod_lt _ target.modulus_pos
  obtain ⟨buffer', moved', total', events', log', handed'⟩ := second places' small' _ moved
  rw [buffer] at handed'
  rw [List.map_append, Memory.Packing.packed_append, placements_append]
  refine ⟨buffer'.trans buffer, moved', ?_, events ++ events', by simp [log, log'], handed.append handed'⟩
  have below := Memory.Packing.le_packed (a := Core.alignment) start (visits.map Visit.bytes)
  have below' := Memory.Packing.le_packed (a := Core.alignment)
    (packed Core.alignment start (visits.map Visit.bytes)) (later.map Visit.bytes)
  rw [total', total, Nat.mod_add_mod]
  congr 1
  omega

/-- The count of a call is added to that of its caller. -/
theorem nested {visits : List Visit} {result : Nat} {w w' : Core} (used : Nat)
    (inner : WrappedRun target operation visits 0 w result w') :
    WrappedRun target operation visits used w (target.add used result) w' := by
  intro places small start index
  obtain ⟨buffer, moved, total, handed⟩ := inner places target.modulus_pos start index
  refine ⟨buffer, moved, ?_, handed⟩
  rw [total, Target.add, Nat.add_mod_mod, Nat.zero_add]

end WrappedRun

theorem wrappingRule (conf : MemoryConf target) (operation : Operation) :
    VisitRule conf operation AnyFrame fun visits _ => WrappedRun target operation visits where
  toFrameRule := anyFrame conf operation
  refl used w := .refl_of used rfl rfl (Core.Logs.refl w)
  trans := .trans
  nested used inner := .nested used inner
  plan {_ _ _ stack index _ capacity memberSize} _ _ used w bytes after planned := by
    intro places _ start here
    have counted : ∀ moved, target.add used (moved % target.modulus) = (used + moved) % target.modulus :=
      fun moved => Nat.add_mod_mod used moved target.modulus
    cases operation with
    | createPreallocated =>
      obtain ⟨made, buffer, moved, noise, silent, log⟩ := Core.planHeader_createWrapped places here planned
      simp only [Option.some.injEq] at made
      refine ⟨buffer, moved, by rw [made, counted]; rfl, _, log, ?_⟩
      exact (Handed.silent silent).append (.cons ⟨rfl, rfl, rfl, rfl, rfl⟩ .nil)
    | calculateSizePreallocated =>
      obtain ⟨made, buffer, moved, events, log, silent⟩ := Core.planHeader_calculateWrapped here planned
      simp only [Option.some.injEq] at made
      exact ⟨buffer, moved, by rw [made, counted]; rfl, events, log, silent⟩
    | create | destroy | calculateSize => exact places.elim
  refuse _ _ _ _ used w after planned := by
    intro places _ start here
    cases operation with
    | createPreallocated => cases (Core.planHeader_createWrapped places here planned).1
    | calculateSizePreallocated => cases (Core.planHeader_calculateWrapped here planned).1
    | create | destroy | calculateSize => exact places.elim
  load header used w := .refl_of used (by unfold Core.elementData; split <;> simp [Core.loadPointer])
    (by unfold Core.elementData; split <;> simp [Core.loadPointer])
    (Core.Logs.elementData (fun _ _ => trivial) operation header w)
  tear := by
    intro list msg path stack index field capacity memberSize _ _ used w places
    cases operation with
    | createPreallocated | calculateSizePreallocated =>
      exact WrappedRun.refl_of used rfl rfl (Core.Logs.refl w) places
    | create | destroy | calculateSize => exact places.elim

namespace Core

theorem wrappedOver (conf : MemoryConf target) (type : MessageMembers) (operation : Operation)
    (msg : Pointer) {w : Core} (places : operation.Places w) (start : w.operationBufferIndex = 0) :
    let ran := planOver conf operation type msg w
    ran.1 = staticRequirement conf type % target.modulus ∧
      ran.2.operationBufferIndex = staticRequirement conf type % target.modulus ∧
      ∃ events, ran.2.log = w.log ++ events ∧ Handed target operation w.operationBuffer
        (placements 0 (plannedVisits false conf type)) events := by
  obtain ⟨_, index, total, handed⟩ := (wrappingRule conf.getConfiguration operation).runOver type msg
    trivial w places target.modulus_pos 0 (by rw [start, Nat.zero_mod])
  rw [plannedVisits_bytes] at index total
  refine ⟨?_, index, handed⟩
  rw [total, Nat.zero_add, Nat.sub_zero, staticRequirement]

theorem staticSize_wrapped (conf : MemoryConf target) (type : MessageMembers) (w : Core) :
    (w.staticSize conf type).1 = staticRequirement conf type % target.modulus ∧
      Logs Event.Silent w (w.staticSize conf type).2 := by
  obtain ⟨total, _, events, log, silent⟩ := wrappedOver conf type .calculateSizePreallocated .null
    (w := w.placeBuffer .null) trivial rfl
  exact ⟨total, events, log, silent⟩

/-- Static creation as a whole: it succeeds exactly when the buffer is as long as the size that is left
of the requirement. -/
theorem createStatic_wrapped (conf : MemoryConf target) (type : MessageMembers) (msg : Pointer)
    {buffer : Pointer} (notNull : buffer ≠ .null) (bufferLen : Nat) (w : Core) :
    let created := w.createStatic conf type msg buffer bufferLen
    if staticRequirement conf type % target.modulus ≤ bufferLen then
      created.1 = true ∧ Handed target .createPreallocated buffer
        (placements 0 (plannedVisits false conf type)) (w.since created.2)
    else created.1 = false ∧ created.2.memory = w.memory ∧
      ∀ event ∈ w.since created.2, event.Silent := by
  obtain ⟨size, sizing⟩ := staticSize_wrapped conf type w
  simp only [createStatic, size]
  split
  next long =>
    -- Both runs start at index zero and wrap alike, so the two comparisons at the end always hold.
    rw [if_neg (by omega)]
    obtain ⟨events, log, silent⟩ := sizing.trans
      ((Logs.fillZero (fun _ _ => trivial) buffer (staticRequirement conf type % target.modulus) _).trans
        (Logs.fillZero (fun _ _ => trivial) msg type.info.sizeOf
          (((w.staticSize conf type).2.fillZero buffer (staticRequirement conf type % target.modulus)).placeBuffer
            buffer)))
    obtain ⟨total, index, later, laterLog, handed⟩ := wrappedOver conf type .createPreallocated msg
      (w := (w.staticSize conf type).2.prepareStatic type msg buffer
        (staticRequirement conf type % target.modulus))
      (by simpa [prepareStatic, Operation.Places, placeBuffer] using notNull)
      (by simp [prepareStatic, placeBuffer])
    refine ⟨by simp [total, index], ?_⟩
    have since : w.since (planOver conf .createPreallocated type msg
        ((w.staticSize conf type).2.prepareStatic type msg buffer
          (staticRequirement conf type % target.modulus))).2 = events ++ later := by
      simp only [Core.since, laterLog]
      rw [prepareStatic, log]
      simp
    rw [since]
    simp only [prepareStatic, placeBuffer, fillZero_buffer] at handed
    exact (Handed.silent silent).append handed
  next short =>
    rw [if_pos (by omega)]
    exact ⟨rfl, staticSize_memory conf type w, sizing.since⟩

end Core

end MicroRos
