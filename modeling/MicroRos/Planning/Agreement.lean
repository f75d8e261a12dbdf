import MicroRos.Planning.Coverage

/-! Dynamic and static creation leave the same message.

The two messages stand in different memories, so they are compared member by member and
element by element, each side following its own data pointers.
-/

set_option autoImplicit false

namespace MicroRos

open Memory (Pointer Contents Byte)

variable {target : Target}

/-- Both headers are set up, with the same number of elements and the same capacity. -/
structure SameHeader (target : Target) (m m' : Contents) (header header' : Pointer) : Prop where
  notNull : m.loadPointer target.word header ≠ .null
  notNull' : m'.loadPointer target.word header' ≠ .null
  size : m.loadSize target.word (header.plus target.word) =
    m'.loadSize target.word (header'.plus target.word)
  capacity : m.loadSize target.word (header.plus (2 * target.word)) =
    m'.loadSize target.word (header'.plus (2 * target.word))

namespace MemberList

/-- The bytes at `msg` and `msg'` that belong to no header are zero. -/
def ZeroElsewhere (target : Target) (m m' : Contents) (list : MemberList) (size : Nat)
    (msg msg' : Pointer) : Prop :=
  ∀ o < size, ¬ list.HeaderAt target o → m (msg.plus o) = .zero ∧ m' (msg'.plus o) = .zero

/-- The headers that are reached along the same members and elements agree, and everything else in
their memory is zero on both sides. -/
def SameHeaders (target : Target) (m m' : Contents) : MemberList → Pointer → Pointer → Prop
  | .nil, _, _ => True
  | .basic type field rest, msg, msg' =>
    let header := msg.plus field.offset
    let header' := msg'.plus field.offset
    (isHeader type field = true → SameHeader target m m' header header' ∧
      ∀ i < m.loadSize target.word (header.plus (2 * target.word)) * type.plannedSize,
        m ((m.loadPointer target.word header).plus i) = .zero ∧
          m' ((m'.loadPointer target.word header').plus i) = .zero) ∧
    rest.SameHeaders target m m' msg msg'
  | .message info members field rest, msg, msg' =>
    let header := msg.plus field.offset
    let header' := msg'.plus field.offset
    (field.isSequence = true → SameHeader target m m' header header' ∧
      ∀ j < m.loadSize target.word (header.plus (2 * target.word)),
        let element := (m.loadPointer target.word header).plus (j * info.sizeOf)
        let element' := (m'.loadPointer target.word header').plus (j * info.sizeOf)
        members.SameHeaders target m m' element element' ∧
          members.ZeroElsewhere target m m' info.sizeOf element element') ∧
    (field.isSequence = false → members.SameHeaders target m m' header header') ∧
    rest.SameHeaders target m m' msg msg'

end MemberList

/-- The two messages differ in the values of data pointers only. -/
def SameMessage (target : Target) (type : MessageMembers) (m m' : Contents) (msg msg' : Pointer) : Prop :=
  type.members.SameHeaders target m m' msg msg' ∧
    type.members.ZeroElsewhere target m m' type.info.sizeOf msg msg'

theorem HeaderBuilt.same {Region Region' : Pointer → Nat → Prop} {m m' : Contents}
    {header header' : Pointer} {capacity bytes : Nat}
    (built : HeaderBuilt target Region m header capacity bytes)
    (built' : HeaderBuilt target Region' m' header' capacity bytes) :
    SameHeader target m m' header header' :=
  ⟨built.notNull, built'.notNull, built.holdsSize.trans built'.holdsSize.symm,
    built.holdsCapacity.trans built'.holdsCapacity.symm⟩

/-- Two messages that were built for the same type and configuration agree. -/
theorem MemberList.Built.same {conf : MemoryConf target} {Region Region' : Pointer → Nat → Prop}
    {m m' : Contents} {list : MemberList} {msg msg' : Pointer} {path : CString}
    (unwrapped : Unwrapped conf list path) (built : list.Built conf Region m msg path)
    (built' : list.Built conf Region' m' msg' path) : list.SameHeaders target m m' msg msg' := by
  induction list generalizing msg msg' path with
  | nil => trivial
  | basic type field rest ih =>
    obtain ⟨here, restBuilt⟩ := built
    obtain ⟨here', restBuilt'⟩ := built'
    have restUnwrapped : Unwrapped conf rest path := fun n member =>
      unwrapped n (List.mem_append_right _ member)
    refine ⟨fun header => ?_, ih restUnwrapped restBuilt restBuilt'⟩
    obtain ⟨headerBuilt, zero⟩ := here header
    obtain ⟨headerBuilt', zero'⟩ := here' header
    have exact : target.mul (conf.basicCapacity path type field) type.plannedSize =
        conf.basicCapacity path type field * type.plannedSize :=
      Target.mul_of_lt (unwrapped _ (by
        rw [requests, if_pos header]
        exact List.mem_append_left _ (List.mem_singleton_self _)))
    refine ⟨headerBuilt.same headerBuilt', fun i bound => ?_⟩
    rw [headerBuilt.holdsCapacity, ← exact] at bound
    exact ⟨zero i bound, zero' i bound⟩
  | message info members field rest ihMembers ih =>
    obtain ⟨inSequence, inPlace, restBuilt⟩ := built
    obtain ⟨inSequence', inPlace', restBuilt'⟩ := built'
    have restUnwrapped : Unwrapped conf rest path := fun n member =>
      unwrapped n (List.mem_append_right _ member)
    refine ⟨fun sequence => ?_, fun single => ?_, ih restUnwrapped restBuilt restBuilt'⟩
    · obtain ⟨headerBuilt, elements⟩ := inSequence sequence
      obtain ⟨headerBuilt', elements'⟩ := inSequence' sequence
      simp only [Unwrapped, requests, if_pos sequence, List.forall_mem_append, List.forall_mem_cons,
        List.forall_mem_flatMap, List.mem_range] at unwrapped
      obtain ⟨⟨whole, inner⟩, -⟩ := unwrapped
      refine ⟨headerBuilt.same headerBuilt', fun j bound => ?_⟩
      rw [headerBuilt.holdsCapacity] at bound
      obtain ⟨element, zero⟩ := elements whole j bound
      obtain ⟨element', zero'⟩ := elements' whole j bound
      refine ⟨ihMembers (inner j bound) element element', fun o below notHeader => ?_⟩
      rw [Pointer.plus_plus, Pointer.plus_plus]
      exact ⟨zero o below notHeader, zero' o below notHeader⟩
    · refine ihMembers (fun n member => unwrapped n ?_) (inPlace single) (inPlace' single)
      simp only [requests, single, Bool.false_eq_true, if_false]
      exact List.mem_append_left _ member

theorem Core.created_same {conf : MemoryConf target} {type : MessageMembers} {msg msg' buffer : Pointer}
    {bufferLen : Nat} {w w' : Core} (layout : type.Layout target) (unbounded : type.members.NoBounded)
    (grants : w.heap.Grants) (live : w.heap.Backed msg type.info.sizeOf)
    (suits : w'.Suits conf type msg' buffer bufferLen) :
    SameMessage target type (w.create conf type msg).2.memory
      (w'.createStatic conf type msg' buffer bufferLen).2.memory msg msg' := by
  obtain ⟨_, _, built, _⟩ := (create_builds conf layout unbounded grants live).finished
  obtain ⟨_, _, built', _⟩ := (createStatic_builds layout unbounded suits).finished
  refine ⟨built.same (unwrapped_of_sum suits.dynamicRequirement_lt) built', fun o inside notHeader => ?_⟩
  exact ⟨create_blank layout unbounded grants live inside notHeader,
    createStatic_blank layout unbounded suits inside notHeader⟩

/-- Both calls use their name trees as they should and the two creation modes succeed and agree, whatever the
states in which they are called, if and only if the name trees of both are served. -/
theorem creations_agree_iff (conf : MemoryConf target) (type : MessageMembers) (msg msg' buffer : Pointer)
    (bufferLen : Nat) (core core' : Core) (s s' : StringHeap) (layout : type.Layout target)
    (unbounded : type.members.NoBounded) (grants : core.heap.Grants)
    (live : core.heap.Backed msg type.info.sizeOf) (suits : core'.Suits conf type msg' buffer bufferLen) :
    let created := createMessageMemory target (heapStrings target) conf type msg ⟨core, s⟩
    let created' := createStaticMessageMemory target (heapStrings target) conf type msg' buffer bufferLen ⟨core', s'⟩
    Lifetimes (s.since created.2.scratch) ∧ Lifetimes (s'.since created'.2.scratch) ∧
        created.1 = true ∧ created'.1 = true ∧
        SameMessage target type created.2.core.memory created'.2.core.memory msg msg' ↔
      s.Serves ((PlannerCall.create msg).demands conf type core) ∧
        s'.Serves ((PlannerCall.createStatic msg' buffer bufferLen).demands conf type core') := by
  intro created created'
  apply (createMessageMemory_ends conf type core s msg).lifetimes_and_iff
  rintro ⟨answer, reached⟩
  apply (createStaticMessageMemory_ends conf type core' s' msg' buffer bufferLen).lifetimes_and_iff_serves
  rintro ⟨answer', reached'⟩
  rw [answer, reached, answer', reached']
  exact ⟨Core.create_succeeds conf type msg grants, Core.createStatic_succeeds suits,
    Core.created_same layout unbounded grants live suits⟩

/-- `MultiArrayLayout` with a rule for the labels: dynamic creation, whose resizes move the name tree, gives the
second label 20 characters, static creation, whose resizes do not, gives it 7. Both succeed. -/
theorem creations_disagree :
    let core := ((Core.boot fun _ _ => true).allocate 1 16).2
    let core' := (core.allocate 1 200).2
    let created := createMessageMemory cortexM (heapStrings cortexM) labelRule (multiArrayLayout cortexM)
      ⟨.object 1 0, 0⟩ ⟨core, .boot fun _ => true⟩
    let created' := createStaticMessageMemory cortexM (heapStrings cortexM) labelRule (multiArrayLayout cortexM)
      ⟨.object 1 0, 0⟩ ⟨.object 1 1, 0⟩ 200 ⟨core', .boot fun _ => false⟩
    created.1 = true ∧ created'.1 = true ∧
      ¬ SameMessage cortexM (multiArrayLayout cortexM) created.2.core.memory created'.2.core.memory
        ⟨.object 1 0, 0⟩ ⟨.object 1 0, 0⟩ := by
  intro core core' created created'
  refine ⟨by decide +kernel, by decide +kernel, ?_⟩
  rintro ⟨⟨dim, -⟩, -⟩
  -- The header of the label in the second element.
  obtain ⟨-, elements⟩ := dim rfl
  obtain ⟨⟨label, -⟩, -⟩ := elements 1 (by decide +kernel)
  obtain ⟨same, -⟩ := label rfl
  exact absurd same.capacity (by decide +kernel)

/-- `MultiArrayLayout`, created dynamically and in a buffer of 200 bytes. -/
theorem creations_agree_multiArrayLayout :
    let core := ((Core.boot fun _ _ => true).allocate 1 16).2
    let core' := (core.allocate 1 200).2
    let s := StringHeap.boot fun _ => false
    let created := createMessageMemory cortexM (heapStrings cortexM) labelRule (multiArrayLayout cortexM)
      ⟨.object 1 0, 0⟩ ⟨core, s⟩
    let created' := createStaticMessageMemory cortexM (heapStrings cortexM) labelRule (multiArrayLayout cortexM)
      ⟨.object 1 0, 0⟩ ⟨.object 1 1, 0⟩ 200 ⟨core', s⟩
    Lifetimes (s.since created.2.scratch) ∧ Lifetimes (s.since created'.2.scratch) ∧
        created.1 = true ∧ created'.1 = true ∧
        SameMessage cortexM (multiArrayLayout cortexM) created.2.core.memory created'.2.core.memory
          ⟨.object 1 0, 0⟩ ⟨.object 1 0, 0⟩ ↔
      s.Serves ((PlannerCall.create ⟨.object 1 0, 0⟩).demands labelRule (multiArrayLayout cortexM) core) ∧
        s.Serves ((PlannerCall.createStatic ⟨.object 1 0, 0⟩ ⟨.object 1 1, 0⟩ 200).demands labelRule
          (multiArrayLayout cortexM) core') :=
  creations_agree_iff labelRule (multiArrayLayout cortexM) ⟨.object 1 0, 0⟩ ⟨.object 1 0, 0⟩
    ⟨.object 1 1, 0⟩ 200 _ _ _ _ multiArrayLayout_layout multiArrayLayout_unbounded (fun _ _ => rfl) (by decide)
    ⟨by decide, by decide, by decide, by decide, fun _ _ _ _ => by simp [Pointer.plus]⟩

end MicroRos
