import MicroRos.Planning.Obtaining
import MicroRos.Planning.Destruction
import MicroRos.Planning.Coverage

/-! Creating a message and destroying it again.

What creation obtained is what the finished message holds, and destroying releases what the
message holds, so nothing is left over and nothing is released twice, whatever has happened
to the rest of the message in between.
-/

set_option autoImplicit false

namespace MicroRos

open Memory (Pointer Contents Block Heap Byte)

variable {target : Target}

namespace MemberList

variable {conf : MemoryConf target}

/-- Sizes that do not wrap keep elements apart. -/
theorem Spread.of_unwrapped {list : MemberList} {path : CString} (unwrapped : Unwrapped conf list path) :
    list.Spread conf path := by
  induction list generalizing path with
  | nil => trivial
  | basic type field rest ih =>
    exact ih fun n member => unwrapped n (List.mem_append_right _ member)
  | message info members field rest ihMembers ih =>
    refine ⟨fun sequence positive => ?_, fun single => ihMembers fun n member => unwrapped n ?_,
      ih fun n member => unwrapped n (List.mem_append_right _ member)⟩
    · simp only [Unwrapped, requests, if_pos sequence, List.forall_mem_append, List.forall_mem_cons,
        List.forall_mem_flatMap, List.mem_range] at unwrapped
      obtain ⟨⟨whole, inner⟩, -⟩ := unwrapped
      exact ⟨fun _ => whole, ihMembers (inner 0 positive)⟩
    · simp only [requests, single, Bool.false_eq_true, if_false]
      exact List.mem_append_left _ member

theorem HeaderBuilt.held {owner : Nat} {w : Core} {header : Pointer} {capacity bytes : Nat}
    (built : HeaderBuilt target (WholeObject owner w.heap.extent) w.memory header capacity bytes)
    (backed : w.heap.Backed header target.headerSize) :
    HeaderHeld target owner w.heap w.memory header := by
  obtain ⟨start, owned, found⟩ := built.region
  exact ⟨backed, Or.inr ⟨start, owned, by rw [found]; simp⟩⟩

/-- A message that was built from whole objects holds them. -/
theorem Built.held {owner : Nat} {w : Core} {list : MemberList} {size : Nat}
    (layout : list.Layout target size) (unbounded : list.NoBounded) {msg : Pointer} {path : CString}
    (unwrapped : Unwrapped conf list path) (live : w.heap.Backed msg size)
    (built : list.Built conf (WholeObject owner w.heap.extent) w.memory msg path) :
    list.Held conf owner w.heap w.memory msg path := by
  induction list generalizing size msg path with
  | nil => trivial
  | basic type field rest ih =>
    refine ⟨fun header => ?_, ih layout.2.2 unbounded.2
      (fun n member => unwrapped n (List.mem_append_right _ member)) live built.2⟩
    have long := header_le_basicExtent target header
    have fits := layout.1
    exact HeaderBuilt.held (built.1 header).1 (live.plus (i := field.offset) (by omega))
  | message info members field rest ihMembers ih =>
    obtain ⟨inSequence, inPlace, restBuilt⟩ := built
    obtain ⟨fits, _, _, membersLayout, restLayout⟩ := layout
    refine ⟨fun sequence => ?_, fun single => ?_, ih restLayout unbounded.2.2
      (fun n member => unwrapped n (List.mem_append_right _ member)) live restBuilt⟩
    · obtain ⟨headerBuilt, elements⟩ := inSequence sequence
      rw [sequence_extent sequence] at fits
      simp only [Unwrapped, requests, if_pos sequence, List.forall_mem_append, List.forall_mem_cons,
        List.forall_mem_flatMap, List.mem_range] at unwrapped
      obtain ⟨⟨whole, inner⟩, -⟩ := unwrapped
      refine ⟨HeaderBuilt.held headerBuilt (live.plus (i := field.offset) fits), fun j bound => ?_⟩
      have le := element_within info.sizeOf bound
      rw [Target.mul_of_lt (by omega)]
      obtain ⟨start, _, found⟩ := headerBuilt.region
      exact ihMembers membersLayout unbounded.2.1 (inner j bound)
        ⟨_, found, by rw [Pointer.plus_offset, start, Target.mul_of_lt whole]; omega⟩ (elements whole j bound).1
    · have long := size_le_inlineExtent target info single unbounded.1
      refine ihMembers membersLayout unbounded.2.1 (fun n member => unwrapped n ?_)
        (live.plus (i := field.offset) (by omega)) (inPlace single)
      simp only [requests, single, Bool.false_eq_true, if_false]
      exact List.mem_append_left _ member

end MemberList

/-- Data pointers of a whole message, in the order in which destroying releases them. -/
def owned (conf : MemoryConf target) (type : MessageMembers) (msg : Pointer) (m : Contents) : List Pointer :=
  type.members.releases conf.getConfiguration m msg .empty

/-- The message is in live memory, and its headers hold different blocks, none of which it stands in. -/
structure Possesses (conf : MemoryConf target) (type : MessageMembers) (msg : Pointer) (w : Core) :
    Prop where
  live : w.heap.Backed msg type.info.sizeOf
  held : type.members.Held conf.getConfiguration conf.owner w.heap w.memory msg .empty
  nodup : (blocks (owned conf type msg w.memory)).Nodup
  apart : msg.block ∉ blocks (owned conf type msg w.memory)

/-- Data pointers at the same places have the same values. -/
def KeepsPointers (conf : MemoryConf target) (type : MessageMembers) (msg : Pointer) (m m' : Contents) :
    Prop := type.members.SamePointers conf.getConfiguration m m' msg .empty

/-- The addresses of the message instance. -/
def instanceSpan (type : MessageMembers) (msg : Pointer) : Set Pointer :=
  {q | msg.Spans type.info.sizeOf q}

section

variable {conf : MemoryConf target} {type : MessageMembers} {msg : Pointer} {w : Core}

/-- Changes that keep the data pointers keep what the message possesses. -/
theorem Possesses.modify (possesses : Possesses conf type msg w) {m : Contents}
    (keeps : KeepsPointers conf type msg w.memory m) : Possesses conf type msg { w with memory := m } := by
  have same : owned conf type msg m = owned conf type msg w.memory :=
    MemberList.SamePointers.releases keeps
  exact ⟨possesses.live, MemberList.SamePointers.held keeps (fun _ _ _ => rfl) possesses.held,
    by rw [same]; exact possesses.nodup, by rw [same]; exact possesses.apart⟩

theorem Destroys.of_quiet {w w' : Core} (quiet : Core.Quiet w w') : Destroys ∅ [] w w' := by
  obtain ⟨same, events, log, resolved⟩ := quiet
  refine ⟨fun b => ?_, fun q _ _ _ => ?_, ?_, events, log, ?_, fun event member => ?_⟩
  · rw [same]; simp
  · rw [same]
  · rw [same]
  · refine List.filterMap_eq_nil_iff.mpr fun event member => ?_
    obtain ⟨_, _, rfl⟩ := resolved event member
    rfl
  · obtain ⟨_, _, rfl⟩ := resolved event member
    trivial

theorem Destroys.of_fillZero {p : Pointer} {n : Nat} (backed : w.heap.Backed p n) :
    Destroys {q | p.Spans n q} [] w (w.fillZero p n) := by
  have touched : w.touch p n = w := Core.touch_backed w p n backed
  simp only [Core.fillZero, touched]
  exact ⟨fun b => by simp, fun q _ outside _ => Contents.fillZero_outside _ outside, rfl,
    [], by simp, rfl, by simp⟩

namespace Core

theorem heads_subset (layout : type.Layout target) (unbounded : type.members.NoBoundedMessage) :
    heads target type.members msg ⊆ instanceSpan type msg := by
  rintro q ⟨o, header, rfl⟩
  exact Pointer.spans_plus (layout.1.covers_lt (MemberList.covers_of_headerAt layout.1 unbounded header))

/-- Destroying a message that possesses its blocks releases these and clears the message. -/
theorem destroy_destroys (layout : type.Layout target) (unbounded : type.members.NoBounded)
    (spread : type.members.Spread conf.getConfiguration .empty) (possesses : Possesses conf type msg w) :
    Destroys (instanceSpan type msg) (owned conf type msg w.memory) w (w.destroy conf type msg).2 ∧
      ∀ i < type.info.sizeOf, (w.destroy conf type msg).2.memory (msg.plus i) = .zero := by
  refine ⟨?_, fun i bound => Contents.fillZero_inside _ bound⟩
  have sized := Destroys.of_quiet (dynamicSize_quiet conf type w)
  have heap : (w.dynamicSize conf type).2.heap = w.heap := dynamicSize_heap conf type w
  have memory : (w.dynamicSize conf type).2.memory = w.memory := dynamicSize_memory conf type w
  have released : Destroys _ _ _ (planOver conf .destroy type msg (w.dynamicSize conf type).2).2 :=
    MemberList.destroys layout.1 unbounded msg .empty spread [] 0 0 _
      (by rw [heap, memory]; exact possesses.held) (by rw [memory]; exact possesses.nodup)
      (by rw [memory]; exact possesses.apart)
  rw [memory] at released
  change Destroys _ (owned conf type msg w.memory) _ _ at released
  have live : (planOver conf .destroy type msg (w.dynamicSize conf type).2).2.heap.Backed msg
      type.info.sizeOf := by
    obtain ⟨size, found, fits⟩ := possesses.live
    exact ⟨size, by rw [released.extent, if_neg possesses.apart, heap]; exact found, fits⟩
  have whole := (sized.seq released).seq (.of_fillZero live)
  simp only [List.nil_append, List.append_nil, Set.empty_union] at whole
  exact whole.mono _ fun q inside _ => inside.elim
    (fun head => Or.inl (heads_subset layout unbounded.messages head)) Or.inl

theorem create_grants (conf : MemoryConf target) (type : MessageMembers) (msg : Pointer) (w : Core) :
    (w.create conf type msg).2.heap.grants = w.heap.grants := by simp [create, planOver_grants]

theorem destroy_grants (conf : MemoryConf target) (type : MessageMembers) (msg : Pointer) (w : Core) :
    (w.destroy conf type msg).2.heap.grants = w.heap.grants := by simp [destroy, planOver_grants]

theorem destroy_succeeds (conf : MemoryConf target) (type : MessageMembers) (msg : Pointer) (w : Core) :
    (w.destroy conf type msg).1 = true := by
  have counts : Operation.destroy.CountsBytes (w.dynamicSize conf type).2 := trivial
  simp only [destroy, dynamicSize_eq, planOver_used conf type msg counts, beq_self_eq_true]

/-- Creation keeps the bytes of live objects, apart from the message. -/
theorem create_kept (layout : type.Layout target) (unbounded : type.members.NoBounded)
    (grants : w.heap.Grants) (live : w.heap.Backed msg type.info.sizeOf) {q : Pointer}
    (outside : q ∉ instanceSpan type msg) (alive : w.heap.extent q.block ≠ none) :
    (w.create conf type msg).2.memory q = w.memory q := by
  rw [(create_builds conf layout unbounded grants live).kept
    (fun head => outside (heads_subset layout unbounded.messages head)) ?_]
  · simp only [prepareDynamic, fillZero_memory, dynamicSize_memory]
    exact Contents.fillZero_outside _ outside
  · rintro ⟨number, later, same⟩
    simp only [prepareDynamic, fillZero_heap, dynamicSize_heap] at later
    exact alive (by rw [same]; exact w.heap.freshDead _ number later)

/-- A message that was created possesses the blocks that were obtained for it. -/
theorem create_possesses (conf : MemoryConf target) (layout : type.Layout target) (unbounded : type.members.NoBounded)
    (fits : dynamicRequirement conf type < target.modulus) (grants : w.heap.Grants)
    (live : w.heap.Backed msg type.info.sizeOf) :
    ∃ numbers, Obtains conf.owner numbers w (w.create conf type msg).2 ∧
      (owned conf type msg (w.create conf type msg).2.memory).Perm (objects conf.owner numbers) ∧
      Possesses conf type msg (w.create conf type msg).2 := by
  have runs := create_builds conf layout unbounded grants live
  obtain ⟨numbers, obtains⟩ := create_obtains conf type msg w
  obtain ⟨given, supply, built, released⟩ := runs.finished
  have unwrapped : Unwrapped conf.getConfiguration type.members .empty := unwrapped_of_sum fits
  have start : (w.prepareDynamic conf type msg).given = w.given := by
    obtain ⟨events, log, silent⟩ := prepareDynamic_silent conf type msg w
    rw [Core.given, log, suppliedData_append, (obtained_silent silent).2, List.append_nil]
    rfl
  have these : given = objects conf.owner numbers := by
    have := obtains.given
    rw [supply, start] at this
    exact List.append_cancel_left this
  subst these
  have perm := released unwrapped
  have stillLive := runs.live (p := msg) (n := type.info.sizeOf) (by simpa [prepareDynamic] using live)
  refine ⟨numbers, obtains, perm, stillLive, ?_, ?_, ?_⟩
  · exact MemberList.Built.held layout.1 unbounded unwrapped stillLive built
  · refine (blocks_perm perm).nodup_iff.mpr ?_
    rw [blocks_objects]
    exact obtains.nodup.map fun _ _ same => by simpa using same
  · intro member
    obtain ⟨number, isNumber, same⟩ := mem_blocks_objects.mp ((blocks_perm perm).mem_iff.mp member)
    obtain ⟨size, found, _⟩ := live
    rw [same] at found
    have := Heap.number_lt_fresh found
    have := (obtains.numbered number isNumber).1
    omega

end Core

end

end MicroRos
