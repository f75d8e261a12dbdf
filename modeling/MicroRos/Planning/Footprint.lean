import MicroRos.Planning.Requirement

/-! Which memory a run writes, and at which addresses it expects the headers.

Every write of the recursion goes to a header that the log names or to a region that was
just obtained. `plannedAt` computes the address of a message instance as the planner does,
in `size_t` and without regard to upper bounds.
-/

set_option autoImplicit false

namespace MicroRos

open Memory (Pointer Byte)

variable {target : Target}

namespace Event

/-- The header that the event is about, when the event is a write to it. -/
def header? : Event → Option (Site × Pointer)
  | .stored site header _ _ _ | .refused site header | .cleared site header => some (site, header)
  | _ => none

/-- The event is not a write to a header. -/
def NoHeader (event : Event) : Prop := event.header? = none

/-- The event covers a write to this address: of the header, or of the data obtained for it. -/
def Writes (target : Target) (event : Event) (q : Pointer) : Prop :=
  match event with
  | .stored _ header data bytes _ => header.Spans target.headerSize q ∨ data.Spans bytes q
  | .refused _ header | .cleared _ header => header.Spans target.headerSize q
  | _ => False

end Event

namespace Core

/-- Memory changed only where the added events write. -/
def Recorded (target : Target) (w w' : Core) : Prop :=
  ∃ events, w'.log = w.log ++ events ∧
    ∀ q, w'.memory q ≠ w.memory q → ∃ event ∈ events, event.Writes target q

namespace Recorded

theorem of_unchanged {w w' : Core} (same : w'.memory = w.memory)
    (logs : Logs (fun _ => True) w w') : Recorded target w w' := by
  obtain ⟨events, log, _⟩ := logs
  exact ⟨events, log, fun q changed => absurd (by rw [same]) changed⟩

theorem trans {first second third : Core} (one : Recorded target first second)
    (two : Recorded target second third) : Recorded target first third := by
  obtain ⟨events, log, covered⟩ := one
  obtain ⟨later, laterLog, laterCovered⟩ := two
  refine ⟨events ++ later, by simp [laterLog, log], fun q changed => ?_⟩
  by_cases here : second.memory q = first.memory q
  · obtain ⟨event, member, writes⟩ := laterCovered q (by rwa [here])
    exact ⟨event, List.mem_append_right _ member, writes⟩
  · obtain ⟨event, member, writes⟩ := covered q here
    exact ⟨event, List.mem_append_left _ member, writes⟩

/-- An action that ends by recording an event which covers all it changed. -/
theorem of_record {w made : Core} (event : Event) (logs : Logs (fun _ => True) w made)
    (covered : ∀ q, made.memory q ≠ w.memory q → event.Writes target q) :
    Recorded target w (made.record event) := by
  obtain ⟨events, log, _⟩ := logs
  refine ⟨events ++ [event], by simp [log], fun q changed => ⟨event, by simp, covered q changed⟩⟩

end Recorded

/-- The three words of a header. -/
theorem storeCounts_outside (target : Target) (w : Core) {header q : Pointer} (capacity : Nat)
    (outside : ¬ header.Spans target.headerSize q) :
    (w.storeCounts target header capacity).memory q = w.memory q := by
  have inner : ∀ i, i + target.word ≤ target.headerSize →
      ¬ (header.plus i).Spans target.word q := fun i fits inside => outside (inside.within fits)
  rw [storeCounts_memory,
    Memory.Contents.storeSize_outside _ _ _ (inner _ (by simp only [Target.headerSize]; omega)),
    Memory.Contents.storeSize_outside _ _ _ (inner _ (by simp only [Target.headerSize]; omega))]

theorem storePointer_outside (target : Target) (w : Core) {header q : Pointer} (v : Pointer)
    (outside : ¬ header.Spans target.headerSize q) :
    (w.storePointer target header v).memory q = w.memory q := by
  rw [storePointer_memory, Memory.Contents.storePointer_outside]
  intro inside
  exact outside (Pointer.Spans.within (i := 0) inside (by simp only [Target.headerSize]; omega))

theorem planHeader_recorded (conf : MemoryConf target) (operation : Operation) (site : Site)
    (header : Pointer) (capacity memberSize : Nat) (w : Core) :
    Recorded target w (w.planHeader conf operation site header capacity memberSize).2 := by
  cases operation with
  | create =>
    simp only [planHeader, setUpHeader]
    have asked : Logs (fun _ => True) w ((w.record (.resolved site capacity)).allocate conf.owner
        (target.mul capacity memberSize)).2 :=
      (Logs.record trivial w).trans (Logs.allocate (fun _ _ => trivial) _ _ _)
    have sameMemory : ((w.record (.resolved site capacity)).allocate conf.owner
        (target.mul capacity memberSize)).2.memory = w.memory := rfl
    generalize (w.record (.resolved site capacity)).allocate conf.owner
      (target.mul capacity memberSize) = answer at asked sameMemory ⊢
    have pointed := asked.trans (Logs.storePointer target (fun _ _ => trivial) header answer.1 answer.2)
    split
    · refine .of_record _ pointed fun q changed => ?_
      by_contra outside
      exact changed (by rw [storePointer_outside target _ _ outside, sameMemory])
    · refine .of_record _ (pointed.trans ((Logs.fillZero (fun _ _ => trivial) _ _ _).trans
        (Logs.storeCounts target (fun _ _ => trivial) header capacity _))) fun q changed => ?_
      by_contra outside
      simp only [Event.Writes, not_or] at outside
      exact changed (by
        rw [storeCounts_outside target _ _ outside.1, fillZero_memory,
          Memory.Contents.fillZero_outside _ outside.2, storePointer_outside target _ _ outside.1,
          sameMemory])
  | createPreallocated =>
    simp only [planHeader, setUpHeader]
    have given : Logs (fun _ => True) w ((w.record (.resolved site capacity)).getStaticMemory target
        (target.mul capacity memberSize)).2 :=
      (Logs.record trivial w).trans (Logs.getStaticMemory target (fun _ _ => trivial) _ _)
    have sameMemory : ((w.record (.resolved site capacity)).getStaticMemory target
        (target.mul capacity memberSize)).2.memory = w.memory := by
      unfold getStaticMemory
      split <;> rfl
    generalize (w.record (.resolved site capacity)).getStaticMemory target
      (target.mul capacity memberSize) = answer at given sameMemory ⊢
    have pointed := given.trans (Logs.storePointer target (fun _ _ => trivial) header answer.1 answer.2)
    split
    · refine .of_record _ pointed fun q changed => ?_
      by_contra outside
      exact changed (by rw [storePointer_outside target _ _ outside, sameMemory])
    · refine .of_record _ (pointed.trans
        (Logs.storeCounts target (fun _ _ => trivial) header capacity _)) fun q changed => ?_
      by_contra outside
      simp only [Event.Writes, not_or] at outside
      exact changed (by
        rw [storeCounts_outside target _ _ outside.1, storePointer_outside target _ _ outside.1,
          sameMemory])
  | destroy => exact .of_unchanged rfl (Logs.record trivial w)
  | calculateSize => exact .of_unchanged rfl (Logs.record trivial w)
  | calculateSizePreallocated =>
    refine .of_unchanged ?_ ((Logs.record trivial w).trans
      (Logs.getStaticMemory target (fun _ _ => trivial) _ _))
    simp only [planHeader, setUpHeader, getStaticMemory]
    split <;> rfl

theorem recordedRule (conf : MemoryConf target) (operation : Operation) :
    TraversalRule conf operation AnyFrame (Recorded target) where
  toFrameRule := anyFrame conf operation
  refl w := .of_unchanged rfl (Logs.refl w)
  trans := .trans
  plan _ _ w := planHeader_recorded conf operation _ _ _ _ w
  load header w := .of_unchanged (by unfold elementData; split <;> simp [loadPointer])
    (Logs.elementData (fun _ _ => trivial) operation header w)
  tear {_ msg _ stack index field _ _} _ _ w := by
    cases operation with
    | destroy =>
      refine .of_record _ ((Logs.touch (fun _ _ => trivial) (msg.plus field.offset) target.word w).trans
        ((Logs.deallocate (fun _ => trivial) (fun _ => trivial) conf.owner _ _).trans
          (Logs.storeCounts target (fun _ _ => trivial) _ 0 _))) fun q changed => ?_
      by_contra outside
      exact changed (by
        rw [storeCounts_outside target _ _ outside]
        simp [deallocate, loadPointer])
    | create | createPreallocated | calculateSize | calculateSizePreallocated =>
      exact .of_unchanged rfl (Logs.refl w)

end Core

/-- The visit is of this header, whatever the data pointers on the way. -/
def Visit.At (visit : Visit) (site : Site) : Prop :=
  visit.stack = site.stack.map Step.mark ∧ visit.member = site.member

/-- The operation writes a header wherever the recursion meets one. -/
def Operation.WritesAll (operation : Operation) (w : Core) : Prop :=
  match operation with
  | .create => w.heap.Grants
  | .createPreallocated => w.operationBuffer ≠ .null
  | .destroy => True
  | .calculateSize | .calculateSizePreallocated => False

/-- The headers written in a piece of a run are among those it meets, and all of them unless memory
was refused. -/
structure WrittenRun (operation : Operation) (visits : List Visit) (w w' : Core) : Prop where
  grants : w'.heap.grants = w.heap.grants
  buffer : w'.operationBuffer = w.operationBuffer
  written : ∃ events, w'.log = w.log ++ events ∧
    (∀ event ∈ events, ∀ site header, event.header? = some (site, header) →
      ∃ visit ∈ visits, visit.At site) ∧
    (operation.WritesAll w → ∀ visit ∈ visits, ∃ event ∈ events, ∃ site header,
      event.header? = some (site, header) ∧ visit.At site)

namespace WrittenRun

variable {operation : Operation}

theorem writesAll {visits : List Visit} {w w' : Core} (run : WrittenRun operation visits w w')
    (all : operation.WritesAll w) : operation.WritesAll w' := by
  cases operation with
  | create => intro request size; rw [run.grants]; exact all request size
  | createPreallocated => simpa only [Operation.WritesAll, run.buffer] using all
  | destroy | calculateSize | calculateSizePreallocated => exact all

theorem of_quiet {w w' : Core} (grants : w'.heap.grants = w.heap.grants)
    (buffer : w'.operationBuffer = w.operationBuffer)
    (quiet : Core.Logs Event.NoHeader w w') : WrittenRun operation [] w w' := by
  obtain ⟨events, log, none⟩ := quiet
  refine ⟨grants, buffer, events, log, fun event member site header isHeader => ?_, by simp⟩
  rw [none event member] at isHeader
  cases isHeader

theorem trans {visits later : List Visit} {w w' w'' : Core} (first : WrittenRun operation visits w w')
    (second : WrittenRun operation later w' w'') : WrittenRun operation (visits ++ later) w w'' := by
  have firstAll := first.writesAll
  obtain ⟨grants, buffer, events, log, only, every⟩ := first
  obtain ⟨grants', buffer', events', log', only', every'⟩ := second
  refine ⟨grants'.trans grants, buffer'.trans buffer, events ++ events', by simp [log, log'], ?_, ?_⟩
  · intro event member site header isHeader
    rcases List.mem_append.mp member with member | member
    · obtain ⟨visit, found, same⟩ := only event member site header isHeader
      exact ⟨visit, List.mem_append_left _ found, same⟩
    · obtain ⟨visit, found, same⟩ := only' event member site header isHeader
      exact ⟨visit, List.mem_append_right _ found, same⟩
  · intro all visit member
    rcases List.mem_append.mp member with member | member
    · obtain ⟨event, found, here⟩ := every all visit member
      exact ⟨event, List.mem_append_left _ found, here⟩
    · obtain ⟨event, found, here⟩ := every' (firstAll all) visit member
      exact ⟨event, List.mem_append_right _ found, here⟩

/-- One header: the events before the last one are about no header. -/
theorem of_record {w made : Core} (event : Event) {site : Site} {header : Pointer}
    (grants : made.heap.grants = w.heap.grants) (buffer : made.operationBuffer = w.operationBuffer)
    (quiet : Core.Logs Event.NoHeader w made)
    (isHeader : event.header? = some (site, header)) (capacity memberSize : Nat) :
    WrittenRun operation [⟨site.stack.map Step.mark, site.member, capacity, memberSize⟩] w
      (made.record event) := by
  obtain ⟨events, log, none⟩ := quiet
  refine ⟨grants, buffer, events ++ [event], by simp [log], ?_, ?_⟩
  · intro other member site' header' isHeader'
    rcases List.mem_append.mp member with member | member
    · rw [none other member] at isHeader'
      cases isHeader'
    · cases List.mem_singleton.mp member
      rw [isHeader] at isHeader'
      cases isHeader'
      exact ⟨_, List.mem_singleton_self _, rfl, rfl⟩
  · intro _ visit member
    cases List.mem_singleton.mp member
    exact ⟨event, by simp, site, header, isHeader, rfl, rfl⟩

/-- A piece that lost a header writes fewer headers than it should. -/
theorem of_refused {visits : List Visit} {w w' : Core} (run : WrittenRun operation visits w w')
    (missed : List Visit) (refused : ¬ operation.WritesAll w) : WrittenRun operation (visits ++ missed) w w' := by
  obtain ⟨grants, buffer, events, log, only, _⟩ := run
  refine ⟨grants, buffer, events, log, fun event member site header isHeader => ?_,
    fun all => absurd all refused⟩
  obtain ⟨visit, found, same⟩ := only event member site header isHeader
  exact ⟨visit, List.mem_append_left _ found, same⟩

end WrittenRun

/-- Creation writes a header when it plans it, destroying when it is done with it. -/
def Operation.written (operation : Operation) (planned torn : List Visit) : List Visit :=
  match operation with
  | .create | .createPreallocated => planned
  | .destroy => torn
  | .calculateSize | .calculateSizePreallocated => []

theorem Operation.written_append (operation : Operation) (planned planned' torn torn' : List Visit) :
    operation.written (planned ++ planned') (torn ++ torn') =
      operation.written planned torn ++ operation.written planned' torn' := by
  cases operation <;> rfl

/-- One header, planned: creation writes it whether or not it got memory. -/
theorem Core.planHeader_written (conf : MemoryConf target) (operation : Operation) (site : Site)
    (header : Pointer) (capacity memberSize : Nat) (w : Core) :
    WrittenRun operation
      (operation.written [⟨site.stack.map Step.mark, site.member, capacity, memberSize⟩] [])
      w (w.planHeader conf operation site header capacity memberSize).2 := by
  cases operation with
  | create =>
    simp only [planHeader, setUpHeader]
    have asked : Logs Event.NoHeader w
        ((w.record (.resolved site capacity)).allocate conf.owner (target.mul capacity memberSize)).2 :=
      (Logs.resolved (P := Event.NoHeader) rfl w).trans (Logs.allocate (fun _ _ => rfl) _ _ _)
    have grants : ((w.record (.resolved site capacity)).allocate conf.owner
        (target.mul capacity memberSize)).2.heap.grants = w.heap.grants := by simp [Core.allocate]
    have buffer : ((w.record (.resolved site capacity)).allocate conf.owner
        (target.mul capacity memberSize)).2.operationBuffer = w.operationBuffer := rfl
    generalize (w.record (.resolved site capacity)).allocate conf.owner
      (target.mul capacity memberSize) = answer at asked grants buffer ⊢
    have pointed := asked.trans (Logs.storePointer target (fun _ _ => rfl) header answer.1 answer.2)
    split
    · exact .of_record _ (by simpa using grants) (by simpa using buffer) pointed rfl capacity memberSize
    · exact .of_record _ (by simpa using grants) (by simpa using buffer)
        (pointed.trans ((Logs.fillZero (fun _ _ => rfl) _ _ _).trans
          (Logs.storeCounts target (fun _ _ => rfl) header capacity _))) rfl capacity memberSize
  | createPreallocated =>
    simp only [planHeader, setUpHeader]
    have given : Logs Event.NoHeader w ((w.record
        (.resolved site capacity)).getStaticMemory target (target.mul capacity memberSize)).2 :=
      (Logs.resolved (P := Event.NoHeader) rfl w).trans (Logs.getStaticMemory target (fun _ _ => rfl) _ _)
    have same : ((w.record (.resolved site capacity)).getStaticMemory target
        (target.mul capacity memberSize)).2.heap = w.heap ∧
        ((w.record (.resolved site capacity)).getStaticMemory target
          (target.mul capacity memberSize)).2.operationBuffer = w.operationBuffer := by
      unfold getStaticMemory
      split <;> exact ⟨rfl, rfl⟩
    generalize (w.record (.resolved site capacity)).getStaticMemory target
      (target.mul capacity memberSize) = answer at given same ⊢
    have pointed := given.trans (Logs.storePointer target (fun _ _ => rfl) header answer.1 answer.2)
    split
    · exact .of_record _ (by simp [same.1]) (by simp [same.2]) pointed rfl capacity memberSize
    · exact .of_record _ (by simp [same.1]) (by simp [same.2])
        (pointed.trans (Logs.storeCounts target (fun _ _ => rfl) header capacity _)) rfl
        capacity memberSize
  | destroy | calculateSize => exact .of_quiet rfl rfl (Logs.resolved (P := Event.NoHeader) rfl w)
  | calculateSizePreallocated =>
    refine .of_quiet ?_ ?_ ((Logs.resolved (P := Event.NoHeader) rfl w).trans
      (Logs.getStaticMemory target (fun _ _ => rfl) _ _))
    all_goals
      simp only [planHeader, setUpHeader, getStaticMemory]
      split <;> rfl

theorem Core.not_writesAll_of_none {conf : MemoryConf target} {operation : Operation} {site : Site}
    {header : Pointer} {capacity memberSize : Nat} {w after : Core}
    (planned : w.planHeader conf operation site header capacity memberSize = (none, after)) :
    ¬ operation.WritesAll w := by
  intro all
  cases operation with
  | create =>
    have counts : Operation.create.CountsBytes w := all
    cases planHeader_counts counts planned
  | createPreallocated =>
    have notNull : w.operationBuffer ≠ .null := all
    simp [planHeader, setUpHeader, getStaticMemory, notNull, Pointer.plus_ne_null notNull] at planned
  | destroy => cases planned
  | calculateSize | calculateSizePreallocated => exact all

theorem writtenRule (conf : MemoryConf target) (operation : Operation) :
    VisitRule conf operation AnyFrame fun planned torn _ w _ w' =>
      WrittenRun operation (operation.written planned torn) w w' where
  toFrameRule := anyFrame conf operation
  refl _ w := by cases operation <;> exact .of_quiet rfl rfl (Core.Logs.refl w)
  trans first second := by
    rw [Operation.written_append]
    exact first.trans second
  nested _ inner := inner
  plan {_ msg _ stack index field capacity memberSize} _ _ used w bytes after planned := by
    have written := Core.planHeader_written conf operation ⟨stack, index⟩ (msg.plus field.offset)
      capacity memberSize w
    rwa [planned] at written
  refuse {_ msg _ stack index field capacity memberSize} _ _ missed untorn used w after planned := by
    have written := Core.planHeader_written conf operation ⟨stack, index⟩ (msg.plus field.offset)
      capacity memberSize w
    rw [planned] at written
    have whole := written.of_refused (operation.written missed untorn)
      (Core.not_writesAll_of_none planned)
    rwa [← Operation.written_append] at whole
  load header _ w := by
    have quiet : Core.Logs Event.NoHeader w
      (w.elementData target operation header).2 := Core.Logs.elementData (fun _ _ => rfl) operation header w
    have buffer : (w.elementData target operation header).2.operationBuffer = w.operationBuffer := by
      unfold Core.elementData
      split <;> simp [Core.loadPointer]
    cases operation <;> exact .of_quiet (by simp) buffer quiet
  tear {_ msg _ stack index field capacity memberSize} _ _ used w := by
    cases operation with
    | destroy =>
      have quiet := (Core.Logs.touch (P := Event.NoHeader) (fun _ _ => rfl) (msg.plus field.offset)
        target.word w).trans ((Core.Logs.deallocate (fun _ => rfl) (fun _ => rfl) conf.owner
          (w.loadPointer target (msg.plus field.offset)).1 _).trans
            (Core.Logs.storeCounts target (fun _ _ => rfl) (msg.plus field.offset) 0 _))
      exact .of_record (.cleared ⟨stack, index⟩ (msg.plus field.offset)) (by simp [Core.deallocate])
        (by simp [Core.deallocate]) quiet rfl capacity memberSize
    | create | createPreallocated | calculateSize | calculateSizePreallocated =>
      exact .of_quiet rfl rfl (Core.Logs.refl w)

end MicroRos
