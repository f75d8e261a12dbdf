import MicroRos.Planning.Ownership
import MicroRos.Planning.Reporting

/-! What creation obtains from the allocator, whether or not every request is granted.

Every block that was obtained is new, is given to exactly one header, and is alive when the
run ends; all other blocks are as they were.
-/

set_option autoImplicit false

namespace MicroRos

open Memory (Pointer Contents Block Heap)

variable {target : Target}

/-- Answers of `allocate` other than null, in order. -/
def obtained (events : List Event) : List Pointer :=
  events.filterMap fun
    | .requested _ answer => if answer = .null then none else some answer
    | _ => none

theorem obtained_append (events later : List Event) :
    obtained (events ++ later) = obtained events ++ obtained later := List.filterMap_append

theorem obtained_silent {events : List Event} (silent : ∀ event ∈ events, event.Silent) :
    obtained events = [] ∧ suppliedData events = [] := by
  constructor <;>
  · refine List.filterMap_eq_nil_iff.mpr fun event member => ?_
    have quiet := silent event member
    cases event with
    | requested | stored => exact quiet.elim
    | _ => rfl

theorem obtained_around (first : List Event) {noise : List Event}
    (silent : ∀ event ∈ noise, event.Silent) (last : List Event) :
    obtained (first ++ (noise ++ last)) = obtained first ++ obtained last ∧
      suppliedData (first ++ (noise ++ last)) = suppliedData first ++ suppliedData last := by
  simp only [obtained_append, suppliedData_append, obtained_silent silent, List.nil_append, and_self]

/-- The starts of the objects with these numbers. -/
def objects (owner : Nat) (numbers : List Nat) : List Pointer :=
  numbers.map fun number => ⟨.object owner number, 0⟩

theorem blocks_objects (owner : Nat) (numbers : List Nat) :
    blocks (objects owner numbers) = numbers.map (.object owner) := by
  simp [blocks, objects, Function.comp_def, List.filter_eq_self]

theorem mem_blocks_objects {owner : Nat} {numbers : List Nat} {b : Block} :
    b ∈ blocks (objects owner numbers) ↔ ∃ number ∈ numbers, b = .object owner number := by
  simp [blocks_objects, eq_comm]

/-- Between the two states the objects with these numbers were obtained, one for each header. -/
structure Obtains (owner : Nat) (numbers : List Nat) (w w' : Core) : Prop where
  fresh : w.heap.fresh ≤ w'.heap.fresh
  numbered : ∀ number ∈ numbers, w.heap.fresh ≤ number ∧ number < w'.heap.fresh
  nodup : numbers.Nodup
  others : ∀ b ∉ blocks (objects owner numbers), w'.heap.extent b = w.heap.extent b
  live : ∀ number ∈ numbers, w'.heap.extent (.object owner number) ≠ none
  logged : ∃ events, w'.log = w.log ++ events ∧ obtained events = objects owner numbers ∧
    suppliedData events = objects owner numbers

namespace Obtains

variable {owner : Nat} {numbers later : List Nat} {w w' w'' : Core}

theorem of_silent (same : w'.heap = w.heap) (silent : Core.Logs Event.Silent w w') :
    Obtains owner [] w w' := by
  obtain ⟨events, log, quiet⟩ := silent
  exact ⟨by rw [same], by simp, List.nodup_nil, fun _ _ => by rw [same], by simp,
    events, log, obtained_silent quiet⟩

theorem seq (one : Obtains owner numbers w w') (two : Obtains owner later w' w'') :
    Obtains owner (numbers ++ later) w w'' where
  fresh := Nat.le_trans one.fresh two.fresh
  numbered number member := by
    rcases List.mem_append.mp member with member | member
    · exact ⟨(one.numbered number member).1, Nat.lt_of_lt_of_le (one.numbered number member).2 two.fresh⟩
    · exact ⟨Nat.le_trans one.fresh (two.numbered number member).1, (two.numbered number member).2⟩
  nodup := by
    refine List.nodup_append.mpr ⟨one.nodup, two.nodup, fun number first number' second => ?_⟩
    have := (one.numbered number first).2
    have := (two.numbered number' second).1
    omega
  others b outside := by
    simp only [mem_blocks_objects, List.mem_append, not_exists, not_and] at outside
    rw [two.others b, one.others b]
    · simpa [mem_blocks_objects] using fun number member => outside number (.inl member)
    · simpa [mem_blocks_objects] using fun number member => outside number (.inr member)
  live number member := by
    rcases List.mem_append.mp member with member | member
    · rw [two.others]
      · exact one.live number member
      · simp only [mem_blocks_objects, Block.object.injEq, true_and, not_exists, not_and]
        rintro number' member' rfl
        have := (one.numbered number member).2
        have := (two.numbered number member').1
        omega
    · exact two.live number member
  logged := by
    obtain ⟨events, log, got, gave⟩ := one.logged
    obtain ⟨events', log', got', gave'⟩ := two.logged
    refine ⟨events ++ events', by rw [log', log, List.append_assoc], ?_, ?_⟩
    · rw [obtained_append, got, got', objects, objects, objects, List.map_append]
    · rw [suppliedData_append, gave, gave', objects, objects, objects, List.map_append]

end Obtains

namespace Core

variable {conf : MemoryConf target}

theorem planHeader_create_heap (conf : MemoryConf target) (site : Site) (header : Pointer) (capacity memberSize : Nat) (w : Core) :
    (w.planHeader conf .create site header capacity memberSize).2.heap =
      (w.heap.allocate conf.owner (target.mul capacity memberSize)).2 := by
  simp only [planHeader, setUpHeader]
  split <;> simp [allocate]

/-- One header: its request is granted, and it is given a new object, or it is refused. -/
theorem planHeader_obtains (conf : MemoryConf target) (site : Site) (header : Pointer) (capacity memberSize : Nat) (w : Core) :
    ∃ numbers, Obtains conf.owner numbers w
        (w.planHeader conf .create site header capacity memberSize).2 ∧
      objects conf.owner numbers =
        [(w.heap.allocate conf.owner (target.mul capacity memberSize)).1].filter (· ≠ .null) := by
  have heap := planHeader_create_heap conf site header capacity memberSize w
  rcases planned : w.planHeader conf .create site header capacity memberSize with ⟨_ | bytes, after⟩
  · rw [planned] at heap
    obtain ⟨answer, noise, silent, log⟩ := planHeader_create_none planned
    have refused : w.heap.grants w.heap.asked (target.mul capacity memberSize) = false := by
      by_contra granted
      rw [Bool.not_eq_false] at granted
      simp [Heap.allocate_granted granted, Heap.obtain, Pointer.null] at answer
    rw [Heap.allocate_refused refused] at heap
    change after.heap = _ at heap
    refine ⟨[], ⟨by rw [heap], by simp, List.nodup_nil, fun _ _ => by rw [heap], by simp, _, log, ?_, ?_⟩,
      by simp [objects, answer]⟩
    · exact (obtained_around [_, _] silent [_]).1
    · exact (obtained_around [_, _] silent [_]).2
  · rw [planned] at heap
    obtain ⟨rfl, data, noise, answer, notNull, silent, log⟩ := planHeader_create_some planned
    have granted : w.heap.grants w.heap.asked (target.mul capacity memberSize) = true := by
      by_contra refused
      rw [Bool.not_eq_true] at refused
      rw [Heap.allocate_refused refused] at answer
      exact notNull answer
    rw [Heap.allocate_granted granted] at heap answer
    have extent : after.heap.extent = Function.update w.heap.extent (.object conf.owner w.heap.fresh)
        (some (target.mul capacity memberSize)) := by rw [heap]; rfl
    have next : after.heap.fresh = w.heap.fresh + 1 := by rw [heap]; rfl
    have isNew : data = ⟨.object conf.owner w.heap.fresh, 0⟩ := answer
    refine ⟨[w.heap.fresh], ⟨by simp [next], by simp [next], List.nodup_singleton _, ?_, by simp [extent],
      _, log, ?_, ?_⟩, by
        rw [Heap.allocate_granted granted, ← answer, isNew]
        simp [objects, Pointer.null]⟩
    · intro b outside
      simp only [mem_blocks_objects, List.mem_singleton, exists_eq_left] at outside
      rw [extent, Function.update_of_ne outside]
    · refine (obtained_around [_, _] silent [_]).1.trans ?_
      simp [obtained, objects, isNew, Pointer.null]
    · refine (obtained_around [_, _] silent [_]).2.trans ?_
      simp [suppliedData, objects, isNew]

end Core

theorem obtainingRule (conf : MemoryConf target) :
    TraversalRule conf .create AnyFrame fun w w' => ∃ numbers, Obtains conf.owner numbers w w' where
  toFrameRule := anyFrame conf .create
  refl w := ⟨[], .of_silent rfl (Core.Logs.refl w)⟩
  trans := by
    rintro first second third ⟨numbers, one⟩ ⟨later, two⟩
    exact ⟨numbers ++ later, one.seq two⟩
  plan _ _ w := (Core.planHeader_obtains conf _ _ _ _ w).imp fun _ both => both.1
  load header w := by
    refine ⟨[], .of_silent ?_ (Core.Logs.elementData (fun _ _ => trivial) .create header w)⟩
    simp [Core.elementData, Operation.calculates, Core.loadPointer]
  tear _ _ w := ⟨[], .of_silent rfl (Core.Logs.refl w)⟩

theorem Core.prepareDynamic_silent (conf : MemoryConf target) (type : MessageMembers) (msg : Pointer)
    (w : Core) : Logs Event.Silent w (w.prepareDynamic conf type msg) :=
  ((dynamicSize_quiet conf type w).2.mono fun event ⟨_, _, isResolved⟩ => by
    rw [isResolved]; exact trivial).trans (Logs.fillZero (fun _ _ => trivial) msg type.info.sizeOf _)

theorem Core.create_obtains (conf : MemoryConf target) (type : MessageMembers) (msg : Pointer) (w : Core) :
    ∃ numbers, Obtains conf.owner numbers w (w.create conf type msg).2 := by
  have before : Obtains conf.owner [] w (w.prepareDynamic conf type msg) :=
    .of_silent (by simp [prepareDynamic]) (prepareDynamic_silent conf type msg w)
  obtain ⟨numbers, run⟩ := (obtainingRule conf.getConfiguration).runOver type msg trivial
    (w.prepareDynamic conf type msg)
  exact ⟨numbers, before.seq run⟩

theorem Obtains.given {owner : Nat} {numbers : List Nat} {w w' : Core}
    (obtains : Obtains owner numbers w w') : w'.given = w.given ++ objects owner numbers := by
  obtain ⟨events, log, _, gave⟩ := obtains.logged
  rw [Core.given, log, suppliedData_append, gave]
  rfl

/-- Both calls use their name trees as they should and success is reported exactly, for every pattern of granted
and refused requests, if and only if the name trees of both are served. -/
theorem createMessageMemory_reports_iff (conf : MemoryConf target) (type : MessageMembers) (msg : Pointer)
    (core sizing : Core) (s s' : StringHeap) (fits : dynamicRequirement conf type < target.modulus) :
    let created := createMessageMemory target (heapStrings target) conf type msg ⟨core, s⟩
    let sized := getDynamicSize target (heapStrings target) conf type ⟨sizing, s'⟩
    let events := core.since created.2.core
    Lifetimes (s.since created.2.scratch) ∧ Lifetimes (s'.since sized.2.scratch) ∧
        (Granted events → created.1 = true ∧ (demanded events).sum = sized.1) ∧
        (Refused events → created.1 = false) ↔
      s.Serves ((PlannerCall.create msg).demands conf type core) ∧
        s'.Serves (PlannerCall.getDynamicSize.demands conf type sizing) := by
  intro created sized events
  apply (createMessageMemory_ends conf type core s msg).lifetimes_and_iff
  rintro ⟨answer, reached⟩
  apply (getDynamicSize_ends conf type sizing s').lifetimes_and_iff_serves
  rintro ⟨size, -⟩
  simp only [events, created, answer, reached, sized, size]
  exact Core.create_reports fits msg core sizing

/-- The allocator grants everything. The second run of creation, whose resizes move the name tree, gives the rule
to the first label only: 187 bytes are requested where the size is 135, and a failure is reported. -/
theorem createMessageMemory_not_reported :
    let s := StringHeap.boot fun k => 12 ≤ k
    let core := Core.boot fun _ _ => true
    let created := createMessageMemory cortexM (heapStrings cortexM) labelRule (multiArrayLayout cortexM)
      ⟨.object 1 0, 0⟩ ⟨core, s⟩
    let sized := getDynamicSize cortexM (heapStrings cortexM) labelRule (multiArrayLayout cortexM)
      ⟨core, .boot fun _ => false⟩
    core.heap.Grants ∧ sized.1 = 135 ∧ (demanded (core.since created.2.core)).sum = 187 ∧ created.1 = false := by
  exact ⟨fun _ _ => rfl, by decide +kernel, by decide +kernel, by decide +kernel⟩

/-- The fourth request of creation, for a label, is refused. -/
theorem createMessageMemory_reports_multiArrayLayout :
    let s := StringHeap.boot fun _ => false
    let core := Core.boot fun request _ => request ≠ 3
    let created := createMessageMemory cortexM (heapStrings cortexM) labelRule (multiArrayLayout cortexM)
      ⟨.object 1 0, 0⟩ ⟨core, s⟩
    let sized := getDynamicSize cortexM (heapStrings cortexM) labelRule (multiArrayLayout cortexM) ⟨core, s⟩
    let events := core.since created.2.core
    Lifetimes (s.since created.2.scratch) ∧ Lifetimes (s.since sized.2.scratch) ∧
        (Granted events → created.1 = true ∧ (demanded events).sum = sized.1) ∧
        (Refused events → created.1 = false) ↔
      s.Serves ((PlannerCall.create ⟨.object 1 0, 0⟩).demands labelRule (multiArrayLayout cortexM) core) ∧
        s.Serves (PlannerCall.getDynamicSize.demands labelRule (multiArrayLayout cortexM) core) :=
  createMessageMemory_reports_iff labelRule (multiArrayLayout cortexM) _ _ _ _ _ (by decide)

end MicroRos
