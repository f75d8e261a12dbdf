import MicroRos.Planning.BufferRefinement
import MicroRos.Planning.FailedCreation
import MicroRos.Planning.Footprint

/-! Destroying what a failed creation left, and destroying a message that is zero.

Destroying takes the number of elements from the configuration and not from the header,
so an empty header is harmless only where its elements have no headers themselves.
-/

set_option autoImplicit false

namespace MicroRos

open Memory (Pointer Contents Block Heap Byte)

variable {target : Target}

/-- Pointers other than null that were given to `deallocate`, in order. -/
def freed (events : List Event) : List Pointer := (releasedBy events).filter (· ≠ .null)

/-- No access at the null pointer or at an offset from it. -/
def Event.AvoidsNull : Event → Prop
  | .invalid p _ => p.block ≠ .null
  | _ => True

theorem Event.Sound.avoidsNull {event : Event} (sound : event.Sound) : event.AvoidsNull := by
  cases event with
  | invalid => exact sound.elim
  | _ => trivial

/-- Destroying touches nothing at null, and gives back exactly these blocks, each of them once. -/
structure Undone (events : List Event) (blocks : List Pointer) : Prop where
  avoidsNull : ∀ event ∈ events, event.AvoidsNull
  frees : (freed events).Perm blocks
  once : (freed events).Nodup

namespace Core

/-- Something at null was touched between the two states. -/
def Faults (w w' : Core) : Prop :=
  ∃ events, w'.log = w.log ++ events ∧ ∃ event ∈ events, ¬ event.AvoidsNull

/-- The log only grows. -/
abbrev Extends : Core → Core → Prop := Logs fun _ => True

namespace Faults

variable {w w' w'' : Core}

theorem before (extend : Extends w w') (faults : Faults w' w'') : Faults w w'' := by
  obtain ⟨early, log, -⟩ := extend
  obtain ⟨events, log', event, member, touches⟩ := faults
  exact ⟨early ++ events, by rw [log', log, List.append_assoc], event, List.mem_append_right _ member, touches⟩

theorem after (faults : Faults w w') (extend : Extends w' w'') : Faults w w'' := by
  obtain ⟨events, log, event, member, touches⟩ := faults
  obtain ⟨late, log', -⟩ := extend
  exact ⟨events ++ late, by rw [log', log, List.append_assoc], event, List.mem_append_left _ member, touches⟩

theorem since (faults : Faults w w') : ¬ ∀ event ∈ w.since w', event.AvoidsNull := by
  obtain ⟨events, log, event, member, touches⟩ := faults
  rw [since_of_log log]
  exact fun avoids => touches (avoids event member)

theorem of_touch {p : Pointer} (null : p.block = .null) (n : Nat) (w : Core) : Faults w (w.touch p n) := by
  have notBacked := w.heap.not_backed_null null n
  refine ⟨[.invalid p n], by simp [touch, notBacked], _, List.mem_singleton_self _, ?_⟩
  exact fun avoids => avoids null

/-- The end of a header at null reads its data pointer there. -/
theorem of_tearDown {header : Pointer} (null : header.block = .null) (owner : Nat) (site : Site) (w : Core) :
    Faults w (w.tearDownHeader target owner .destroy site header) := by
  have rest : Extends (w.touch header target.word) (w.tearDownHeader target owner .destroy site header) :=
    (Logs.deallocate (fun _ => trivial) (fun _ => trivial) owner _ _).trans
      ((Logs.storeCounts target (fun _ _ => trivial) header 0 _).trans (Logs.record trivial _))
  exact (of_touch null target.word w).after rest

end Faults

theorem traverse_extends (conf : MemoryConf target) (operation : Operation) (list : MemberList)
    (msg : Pointer) (path : CString) (stack : List Step) (index used : Nat) (w : Core) :
    Extends w (traverse conf operation list msg path stack index used w).2 := by
  have recorded : Recorded target w (traverse conf operation list msg path stack index used w).2 :=
    (recordedRule conf operation).run list trivial used w
  obtain ⟨events, log, -⟩ := recorded
  exact ⟨events, log, fun _ _ => trivial⟩

theorem tearDown_extends (target : Target) (owner : Nat) (site : Site) (header : Pointer) (w : Core) :
    Extends w (w.tearDownHeader target owner .destroy site header) :=
  Logs.tearDownHeader (fun _ _ => trivial) (fun _ => trivial) (fun _ => trivial) trivial owner .destroy w

theorem elements_extend (conf : MemoryConf target) (operation : Operation) (members : MemberList)
    (header : Pointer) (path : CString) (stack : List Step) (index size n used : Nat) (w : Core) :
    Extends w (forElements target (fun j w =>
      let data := w.elementData target operation header
      traverse conf operation members (elementAddress target operation data.1 j size) path
        (stack ++ [.element index j data.1]) 0 0 data.2) n used w).2 :=
  forElements_induct (motive := fun _ _ w' => Extends w w') (Logs.refl w) fun _ _ _ w' before =>
    before.trans ((Logs.elementData (fun _ _ => trivial) operation header w').trans
      (traverse_extends conf operation members _ _ _ _ _ _))

theorem tearDownHeader_zero {w : Core} {q : Pointer} (zero : w.memory q = .zero) (owner : Nat) (site : Site)
    (header : Pointer) : (w.tearDownHeader target owner .destroy site header).memory q = .zero := by
  have store : ∀ (m : Contents) (p : Pointer), m q = .zero → m.storeSize target.word p 0 q = .zero := by
    intro m p here
    simp only [Contents.storeSize, Contents.write, Contents.encodeSize, Nat.zero_div, Nat.zero_mod]
    split
    · rfl
    · exact here
  simp only [tearDownHeader, record_memory, storeCounts_memory, deallocate, checkRelease_memory,
    loadPointer, touch_memory]
  exact store _ _ (store _ _ zero)

/-- Zero cells stay zero: destroying writes nothing but zero counts. -/
theorem zeroRule (conf : MemoryConf target) :
    TraversalRule conf .destroy AnyFrame fun w w' => ∀ q, w.memory q = .zero → w'.memory q = .zero where
  toFrameRule := anyFrame conf .destroy
  refl _ _ zero := zero
  trans one two q zero := two q (one q zero)
  plan _ _ _ _ zero := zero
  load _ w q zero := by
    simpa [elementData, Operation.calculates, loadPointer] using zero
  tear _ _ _ _ zero := tearDownHeader_zero zero _ _ _

section Faulting

variable {conf : MemoryConf target} {list : MemberList}

/-- Destroying an instance with headers at null reads there. -/
theorem faults_at_null (header : list.HasHeader) {msg : Pointer} (null : msg.block = .null) (path : CString)
    (stack : List Step) (index used : Nat) (w : Core) :
    Faults w (traverse conf .destroy list msg path stack index used w).2 := by
  -- One header is enough: whatever is done before it and behind it, the log only grows.
  induction list generalizing msg path stack index used w with
  | nil => exact header.elim
  | basic type field rest ih =>
    by_cases here : isHeader type field = true
    · simp only [traverse, if_pos here]
      have planned : Extends w (w.record (.resolved ⟨stack, index⟩ (conf.basicCapacity path type field))) :=
        Logs.record trivial w
      refine .after (.before planned ?_) (traverse_extends conf .destroy rest _ _ _ _ _ _)
      exact .of_tearDown (by simpa using null) _ _ _
    · simp only [traverse, if_neg here]
      exact ih (header.resolve_left here) null path stack (index + 1) used w
  | message info members field rest ihMembers ih =>
    by_cases sequence : field.isSequence = true
    · simp only [traverse, if_pos sequence]
      have planned : Extends w (w.record (.resolved ⟨stack, index⟩ (conf.messageCapacity path field))) :=
        Logs.record trivial w
      have looped := planned.trans (elements_extend conf .destroy members (msg.plus field.offset)
        (path.child field.name) stack index info.sizeOf (conf.messageCapacity path field)
        (target.add used (target.mul (conf.messageCapacity path field) info.sizeOf)) _)
      refine .after (.before looped ?_) (traverse_extends conf .destroy rest _ _ _ _ _ _)
      exact .of_tearDown (by simpa using null) _ _ _
    · rw [traverse, if_neg sequence]
      rcases header.resolve_left sequence with inner | later
      · exact (ihMembers inner (by simpa using null) _ _ _ _ _).after
          (traverse_extends conf .destroy rest _ _ _ _ _ _)
      · exact .before (traverse_extends conf .destroy members _ _ _ _ _ _) (ih later null _ _ _ _ _)

/-- Round by round the data pointer of a zero header stays null, and the elements are read at null. -/
theorem elements_fault (members : MemberList) {header : Pointer} {w : Core} (empty : w.memory header = .zero)
    (path : CString) (stack : List Step) (index size capacity used : Nat) :
    let ran := forElements target (fun j w =>
      let data := w.elementData target .destroy header
      traverse conf .destroy members (elementAddress target .destroy data.1 j size) path
        (stack ++ [.element index j data.1]) 0 0 data.2) capacity used w
    (∀ q, w.memory q = .zero → ran.2.memory q = .zero) ∧
      (0 < capacity → members.HasHeader → Faults w ran.2) := by
  refine forElements_induct (motive := fun n _ w' => Extends w w' ∧
    (∀ q, w.memory q = .zero → w'.memory q = .zero) ∧
    (0 < n → members.HasHeader → Faults w w')) ⟨Logs.refl _, fun _ here => here, by simp⟩ ?_ |>.2
  rintro j bound reached w' ⟨extended, zero, -⟩
  have loaded : Extends w' (w'.elementData target .destroy header).2 :=
    Logs.elementData (fun _ _ => trivial) .destroy _ w'
  have null : w'.memory.loadPointer target.word header = .null := Contents.loadPointer_zero (zero _ empty)
  refine ⟨?_, fun q here => ?_, fun _ has => ?_⟩
  · exact extended.trans (loaded.trans (traverse_extends conf .destroy members _ _ _ _ _ _))
  · exact (zeroRule conf).run members trivial 0 _ q ((zeroRule conf).load _ w' q (zero q here))
  · refine .before (extended.trans loaded) (faults_at_null has ?_ _ _ _ _ _)
    simp [elementAddress, elementData, Operation.calculates, loadPointer, null, Pointer.null]

/-- A zero message that is not flat has an empty sequence whose elements are entered at null. -/
theorem faults_of_not_flat {path : CString} (notFlat : ¬ list.Flat conf path) {msg : Pointer}
    (stack : List Step) (index used : Nat) {w : Core}
    (blank : ∀ q ∈ heads target list msg, w.memory q = .zero) :
    Faults w (traverse conf .destroy list msg path stack index used w).2 := by
  -- The headers that are still ahead stay zero until the one that is not flat is reached.
  induction list generalizing msg path stack index used w with
  | nil => exact absurd trivial notFlat
  | basic type field rest ih =>
    have restBlank : ∀ q ∈ heads target rest msg, w.memory q = .zero := fun q later =>
      blank q (by rw [heads_basic]; exact Or.inr later)
    by_cases header : isHeader type field = true
    · simp only [traverse, if_pos header]
      have planned : Extends w (w.record (.resolved ⟨stack, index⟩ (conf.basicCapacity path type field))) :=
        Logs.record trivial w
      refine .before (planned.trans (tearDown_extends target conf.owner ⟨stack, index⟩ (msg.plus field.offset) _))
        (ih notFlat _ _ _ ?_)
      intro q later
      apply tearDownHeader_zero
      exact restBlank q later
    · simp only [traverse, if_neg header]
      exact ih notFlat _ _ _ restBlank
  | message info members field rest ihMembers ih =>
    have restBlank : ∀ q ∈ heads target rest msg, w.memory q = .zero := fun q later =>
      blank q (by rw [heads_message]; exact Or.inr later)
    by_cases sequence : field.isSequence = true
    · simp only [traverse, if_pos sequence]
      have empty : w.memory (msg.plus field.offset) = .zero := blank _ (by
        rw [heads_message, if_pos sequence]
        exact first_of_headerSpan fun q here => Or.inl here)
      obtain ⟨zero, faults⟩ := elements_fault members
        (w := w.record (.resolved ⟨stack, index⟩ (conf.messageCapacity path field))) empty (path.child field.name)
        stack index info.sizeOf (conf.messageCapacity path field)
        (target.add used (target.mul (conf.messageCapacity path field) info.sizeOf))
      have planned : Extends w (w.record (.resolved ⟨stack, index⟩ (conf.messageCapacity path field))) :=
        Logs.record trivial w
      have extended := planned.trans (elements_extend conf .destroy members (msg.plus field.offset)
        (path.child field.name) stack index info.sizeOf (conf.messageCapacity path field)
        (target.add used (target.mul (conf.messageCapacity path field) info.sizeOf)) _)
      have torn := tearDown_extends target conf.owner ⟨stack, index⟩ (msg.plus field.offset)
      by_cases bad : 0 < conf.messageCapacity path field ∧ members.HasHeader
      · exact .after (.before planned (faults bad.1 bad.2))
          ((torn _).trans (traverse_extends conf .destroy rest _ _ _ _ _ _))
      · have restNotFlat : ¬ rest.Flat conf path := fun restFlat =>
          notFlat ⟨fun _ positive header => bad ⟨positive, header⟩,
            fun single => absurd sequence (by simp [single]), restFlat⟩
        refine .before (extended.trans (torn _)) (ih restNotFlat _ _ _ ?_)
        intro q later
        apply tearDownHeader_zero
        exact zero q (restBlank q later)
    · have single : field.isSequence = false := by simpa using sequence
      rw [traverse, if_neg sequence]
      by_cases inner : members.Flat conf (path.child field.name)
      · have restNotFlat : ¬ rest.Flat conf path := fun restFlat =>
          notFlat ⟨fun here => absurd here sequence, fun _ => inner, restFlat⟩
        refine .before (traverse_extends conf .destroy members _ _ _ _ _ _) (ih restNotFlat _ _ _ ?_)
        exact fun q later => (zeroRule conf).run members trivial 0 w q (restBlank q later)
      · refine .after (ihMembers inner _ _ _ fun q here => blank q ?_)
          (traverse_extends conf .destroy rest _ _ _ _ _ _)
        rw [heads_message, if_neg sequence]
        exact Or.inl here

end Faulting

section Messages

variable {conf : MemoryConf target} {type : MessageMembers} {msg : Pointer} {w : Core}

theorem blank_of_zero (layout : type.Layout target) (unbounded : type.members.NoBoundedMessage) {m : Contents}
    (zero : ∀ i < type.info.sizeOf, m (msg.plus i) = .zero) : ∀ q ∈ heads target type.members msg, m q = .zero := by
  intro q inside
  obtain ⟨i, bound, rfl⟩ := Memory.Pointer.spans_iff.mp (heads_subset layout unbounded inside)
  exact zero i bound

/-- Destroying a flat message that holds these objects gives back these and touches nothing else. -/
theorem destroy_undone {numbers : List Nat} (layout : type.Layout target) (unbounded : type.members.NoBounded)
    (flat : type.members.Flat conf.getConfiguration .empty) (live : w.heap.Backed msg type.info.sizeOf)
    (held : type.members.Held conf.getConfiguration conf.owner w.heap w.memory msg .empty)
    (these : (owned conf type msg w.memory).filter (· ≠ .null) = objects conf.owner numbers)
    (nodup : numbers.Nodup) (apart : msg.block ∉ blocks (objects conf.owner numbers)) :
    Undone (w.since (w.destroy conf type msg).2) (objects conf.owner numbers) := by
  have same : blocks (owned conf type msg w.memory) = blocks (objects conf.owner numbers) := by
    rw [← these, blocks, blocks, List.filter_map, List.filter_map, List.filter_filter]
    congr 1
    refine List.filter_congr fun p _ => ?_
    by_cases isNull : p = .null
    · simp [isNull, Pointer.null]
    · simp [isNull]
  have possesses : Possesses conf type msg w := by
    refine ⟨live, held, ?_, fun member => apart (same ▸ member)⟩
    rw [same, blocks_objects]
    exact nodup.map fun _ _ same => by simpa using same
  obtain ⟨events, log, released, sound⟩ :=
    (destroy_destroys layout unbounded flat.spread possesses).1.logged
  have gone : freed events = objects conf.owner numbers := by rw [freed, released, these]
  rw [since_of_log log]
  refine ⟨fun event member => (sound event member).avoidsNull, by rw [gone], ?_⟩
  rw [gone]
  exact nodup.map fun _ _ same => by simpa using same

/-- Whatever a creation was refused, the message holds what was obtained. -/
theorem create_attempted (layout : type.Layout target) (unbounded : type.members.NoBoundedMessage)
    (flat : type.members.Flat conf.getConfiguration .empty) (live : w.heap.Backed msg type.info.sizeOf) :
    let created := (w.create conf type msg).2
    type.members.Attempted conf.getConfiguration msg .empty (w.prepareDynamic conf type msg) created ∧
      ∃ numbers, Obtains conf.owner numbers w created ∧
        obtained (w.since created) = objects conf.owner numbers ∧
        (owned conf type msg created.memory).filter (· ≠ .null) = objects conf.owner numbers := by
  intro created
  have prepared : (w.prepareDynamic conf type msg).heap.Backed msg type.info.sizeOf := by
    simpa [prepareDynamic] using live
  have blank := blank_of_zero (m := (w.prepareDynamic conf type msg).memory) layout unbounded fun i bound =>
    Contents.fillZero_inside _ bound
  have attempted := MemberList.attempts layout.1 unbounded flat [] 0 0 prepared blank
  obtain ⟨numbers, acquires, _, these⟩ := id attempted
  have before : Obtains conf.owner [] w (w.prepareDynamic conf type msg) :=
    .of_silent (by simp [prepareDynamic]) (prepareDynamic_silent conf type msg w)
  have obtains : Obtains conf.owner numbers w created := before.seq acquires.toObtains
  obtain ⟨events, log, got, -⟩ := obtains.logged
  refine ⟨attempted, numbers, obtains, ?_, these⟩
  rw [since_of_log log, got]

theorem create_undone (layout : type.Layout target) (unbounded : type.members.NoBounded)
    (flat : type.members.Flat conf.getConfiguration .empty) (live : w.heap.Backed msg type.info.sizeOf) :
    let created := (w.create conf type msg).2
    Undone (created.since (created.destroy conf type msg).2) (obtained (w.since created)) := by
  intro created
  obtain ⟨⟨_, acquires, held, _⟩, numbers, obtains, all, these⟩ :=
    create_attempted layout unbounded.messages flat live
  have prepared : (w.prepareDynamic conf type msg).heap.Backed msg type.info.sizeOf := by
    simpa [prepareDynamic] using live
  rw [all]
  refine destroy_undone layout unbounded flat (acquires.backed prepared) held these obtains.nodup ?_
  intro isNew
  obtain ⟨number, member, same⟩ := mem_blocks_objects.mp isNew
  obtain ⟨size, found, _⟩ := live
  have older := Memory.Heap.number_lt_fresh (same ▸ found)
  have newer := (obtains.numbered number member).1
  omega

/-- Destroying a zero message is harmless exactly when it is flat. -/
theorem destroy_zero_undone_iff (layout : type.Layout target) (unbounded : type.members.NoBounded)
    (live : w.heap.Backed msg type.info.sizeOf)
    (zero : ∀ i < type.info.sizeOf, w.memory (msg.plus i) = .zero) :
    Undone (w.since (w.destroy conf type msg).2) [] ↔ type.members.Flat conf.getConfiguration .empty := by
  have blank := blank_of_zero layout unbounded.messages zero
  constructor
  · intro undone
    by_contra notFlat
    have sized : Extends w (w.dynamicSize conf type).2 :=
      (dynamicSize_quiet conf type w).2.mono fun _ _ => trivial
    have faults := faults_of_not_flat notFlat [] 0 0 (w := (w.dynamicSize conf type).2) (by simpa using blank)
    have cleared : Extends _ (w.destroy conf type msg).2 :=
      Logs.fillZero (fun _ _ => trivial) msg type.info.sizeOf
        (planOver conf .destroy type msg (w.dynamicSize conf type).2).2
    exact ((faults.before sized).after cleared).since undone.avoidsNull
  · intro flat
    obtain ⟨held, null⟩ := MemberList.held_of_blank conf.owner layout.1 unbounded.messages flat live blank
    have none : (owned conf type msg w.memory).filter (· ≠ .null) = objects conf.owner [] :=
      List.filter_eq_nil_iff.mpr fun p among => by simp [null p among]
    exact destroy_undone layout unbounded flat live held none List.nodup_nil (by simp [objects])

end Messages

end Core

/-- The calls use their name trees as they should, destroying cleans up after every failed creation, and does
nothing to a message that is already zero, if and only if their name trees are served and no sequence in an
instance has memory for elements with headers. -/
theorem failed_creation_undone_iff (conf : MemoryConf target) {type : MessageMembers}
    (layout : type.Layout target) (unbounded : type.members.NoBounded) (msg : Pointer)
    {core zeroed : Core} (s s' s'' : StringHeap) (live : core.heap.Backed msg type.info.sizeOf)
    (zeroedLive : zeroed.heap.Backed msg type.info.sizeOf)
    (zero : ∀ i < type.info.sizeOf, zeroed.memory (msg.plus i) = .zero) :
    let created := createMessageMemory target (heapStrings target) conf type msg ⟨core, s⟩
    let destroyed := destroyMessageMemory target (heapStrings target) conf type msg ⟨created.2.core, s'⟩
    let again := destroyMessageMemory target (heapStrings target) conf type msg ⟨zeroed, s''⟩
    Lifetimes (s.since created.2.scratch) ∧ Lifetimes (s'.since destroyed.2.scratch) ∧
        Lifetimes (s''.since again.2.scratch) ∧
        (created.1 = false → Undone (created.2.core.since destroyed.2.core)
          (obtained (core.since created.2.core))) ∧
        Undone (zeroed.since again.2.core) [] ↔
      s.Serves ((PlannerCall.create msg).demands conf type core) ∧
        s'.Serves ((PlannerCall.destroy msg).demands conf type core) ∧
        s''.Serves ((PlannerCall.destroy msg).demands conf type zeroed) ∧
        type.members.Flat conf.getConfiguration .empty := by
  intro created destroyed again
  apply (createMessageMemory_ends conf type core s msg).lifetimes_and_iff
  rintro ⟨-, reached⟩
  -- What a destruction demands depends on the type and the configuration alone.
  have destroys : Ends ((PlannerCall.destroy msg).demands conf type core) s' destroyed.2.scratch _ :=
    destroyMessageMemory_ends conf type created.2.core s' msg
  apply destroys.lifetimes_and_iff
  rintro ⟨-, reached'⟩
  apply (destroyMessageMemory_ends conf type zeroed s'' msg).lifetimes_and_iff
  rintro ⟨-, reached''⟩
  change created.2.core = _ at reached
  change destroyed.2.core = _ at reached'
  rw [reached] at reached'
  rw [reached'', reached', reached, Core.destroy_zero_undone_iff layout unbounded zeroedLive zero]
  exact ⟨fun both => both.2, fun flat => ⟨fun _ => Core.create_undone layout unbounded flat live, flat⟩⟩

/-- `MultiArrayLayout` when only the instance itself gets memory: the sequence `dim` stays empty, and
destroying reads the labels of its elements at null. -/
theorem failed_creation_not_undone :
    let core := ((Core.boot fun request _ => request = 0).allocate 1 16).2
    let s := StringHeap.boot fun _ => false
    let created := createMessageMemory cortexM (heapStrings cortexM) boardDefault
      (multiArrayLayout cortexM) ⟨.object 1 0, 0⟩ ⟨core, s⟩
    let destroyed := destroyMessageMemory cortexM (heapStrings cortexM) boardDefault
      (multiArrayLayout cortexM) ⟨.object 1 0, 0⟩ ⟨created.2.core, s⟩
    let again := destroyMessageMemory cortexM (heapStrings cortexM) boardDefault
      (multiArrayLayout cortexM) ⟨.object 1 0, 0⟩ ⟨core, s⟩
    created.1 = false ∧
      ¬ Undone (created.2.core.since destroyed.2.core) (obtained (core.since created.2.core)) ∧
      ¬ Undone (core.since again.2.core) [] := by
  intro core s created destroyed again
  have notFlat : ¬ (multiArrayLayout cortexM).members.Flat boardDefault.getConfiguration .empty :=
    fun flat => flat.1 rfl (by decide) (Or.inl rfl)
  have undone_iff (w : Core) (live : w.heap.Backed ⟨.object 1 0, 0⟩ (multiArrayLayout cortexM).info.sizeOf)
      (zero : ∀ i < (multiArrayLayout cortexM).info.sizeOf, w.memory (Pointer.plus ⟨.object 1 0, 0⟩ i) = .zero) :
      Undone (w.since (w.destroy boardDefault (multiArrayLayout cortexM) ⟨.object 1 0, 0⟩).2) [] ↔
        (multiArrayLayout cortexM).members.Flat boardDefault.getConfiguration .empty :=
    Core.destroy_zero_undone_iff multiArrayLayout_layout multiArrayLayout_unbounded live zero
  have destroys (w : Core) := ((destroyMessageMemory_ends boardDefault (multiArrayLayout cortexM) w s
    ⟨.object 1 0, 0⟩).of_served (StringHeap.boot_serves _)).2
  refine ⟨by decide +kernel, fun undone => notFlat ?_, fun undone => notFlat ?_⟩
  · have none : obtained (core.since created.2.core) = [] := by decide +kernel
    have live : created.2.core.heap.Backed ⟨.object 1 0, 0⟩ (multiArrayLayout cortexM).info.sizeOf := by
      decide +kernel
    have zero : ∀ i < (multiArrayLayout cortexM).info.sizeOf,
        created.2.core.memory (Pointer.plus ⟨.object 1 0, 0⟩ i) = .zero := by decide +kernel
    rw [none] at undone
    apply (undone_iff created.2.core live zero).mp
    rwa [← destroys created.2.core]
  · refine (undone_iff core (by decide) (by decide)).mp ?_
    rwa [← destroys core]

/-- With an empty sequence `names`, whose strings have no headers in an instance, and a rule for it. -/
theorem failed_creation_undone_listParametersResult :
    let conf : MemoryConf cortexM :=
      { boardDefault with rules := [⟨.ofString "names", fun _ => 0, ⟨7, by decide⟩⟩] }
    let core := ((Core.boot fun request _ => request = 0).allocate 1 24).2
    let s := StringHeap.boot fun _ => false
    let created := createMessageMemory cortexM (heapStrings cortexM) conf
        (listParametersResult cortexM) ⟨.object 1 0, 0⟩ ⟨core, s⟩
    let destroyed := destroyMessageMemory cortexM (heapStrings cortexM) conf
        (listParametersResult cortexM) ⟨.object 1 0, 0⟩ ⟨created.2.core, s⟩
    let again := destroyMessageMemory cortexM (heapStrings cortexM) conf
        (listParametersResult cortexM) ⟨.object 1 0, 0⟩ ⟨core, s⟩
    Lifetimes (s.since created.2.scratch) ∧ Lifetimes (s.since destroyed.2.scratch) ∧
        Lifetimes (s.since again.2.scratch) ∧
        (created.1 = false → Undone (created.2.core.since destroyed.2.core)
          (obtained (core.since created.2.core))) ∧
        Undone (core.since again.2.core) [] ↔
      s.Serves ((PlannerCall.create ⟨.object 1 0, 0⟩).demands conf (listParametersResult cortexM) core) ∧
        s.Serves ((PlannerCall.destroy ⟨.object 1 0, 0⟩).demands conf (listParametersResult cortexM) core) ∧
        s.Serves ((PlannerCall.destroy ⟨.object 1 0, 0⟩).demands conf (listParametersResult cortexM) core) ∧
        (listParametersResult cortexM).members.Flat conf.getConfiguration .empty :=
  failed_creation_undone_iff _ listParametersResult_layout listParametersResult_unbounded
    ⟨.object 1 0, 0⟩ _ _ _ (by decide) (by decide) (by decide)

end MicroRos
