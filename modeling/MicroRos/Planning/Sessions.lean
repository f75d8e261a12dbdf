import MicroRos.Planning.RoundTrip
import Mathlib.Logic.Relation

/-! Messages that are created, changed and destroyed in any order.

Each message has its own type, configuration and place. The invariant of a session is that
the blocks of the existing messages are alive and all different, and that every other
block is as it was at the start.
-/

set_option autoImplicit false

namespace MicroRos

open Memory (Pointer Contents Block Heap Byte)

variable {target : Target}

/-- A place for a message with its type and the configuration used for it. -/
structure MessageSlot (target : Target) where
  conf : MemoryConf target
  type : MessageMembers
  msg : Pointer
  layout : type.Layout target
  unbounded : type.members.NoBounded
  fits : dynamicRequirement conf type < target.modulus

namespace MessageSlot

variable (slot : MessageSlot target)

def span : Set Pointer := instanceSpan slot.type slot.msg

def owned (m : Contents) : List Pointer := MicroRos.owned slot.conf slot.type slot.msg m

/-- Blocks that the message holds. -/
def blocks (m : Contents) : List Block := MicroRos.blocks (slot.owned m)

/-- The message itself and everything that it holds. -/
def footprint (m : Contents) : Set Pointer := {q | q ∈ slot.span ∨ q.block ∈ slot.blocks m}

def Possesses (w : Core) : Prop := MicroRos.Possesses slot.conf slot.type slot.msg w

def KeepsPointers (m m' : Contents) : Prop := MicroRos.KeepsPointers slot.conf slot.type slot.msg m m'

instance (m m' : Contents) : Decidable (slot.KeepsPointers m m') :=
  MemberList.decidableSamePointers slot.conf.getConfiguration m m' slot.type.members slot.msg .empty

variable {slot} {w w' : Core}

theorem heads_span : heads target slot.type.members slot.msg ⊆ slot.span :=
  Core.heads_subset slot.layout slot.unbounded.messages

/-- What happens outside of its footprint does not matter to a message. -/
theorem Possesses.preserved (possesses : slot.Possesses w)
    (memory : ∀ q : Pointer, q.block ≠ .null → q ∈ slot.footprint w.memory → w'.memory q = w.memory q)
    (extent : ∀ b, b = slot.msg.block ∨ b ∈ slot.blocks w.memory → w'.heap.extent b = w.heap.extent b) :
    slot.Possesses w' ∧ slot.owned w'.memory = slot.owned w.memory := by
  obtain ⟨live, held, nodup, apart⟩ := possesses
  have same : slot.KeepsPointers w.memory w'.memory :=
    MemberList.SamePointers.of_agree held fun q notNull among =>
      memory q notNull (among.imp (fun head => heads_span head) id)
  have owns : slot.owned w'.memory = slot.owned w.memory := MemberList.SamePointers.releases same
  refine ⟨⟨?_, MemberList.SamePointers.held same (fun b _ among => extent b among) held, ?_, ?_⟩, owns⟩
  · obtain ⟨size, found, fits⟩ := live
    exact ⟨size, by rw [extent _ (Or.inl rfl)]; exact found, fits⟩
  · change (MicroRos.blocks (slot.owned w'.memory)).Nodup
    rw [owns]
    exact nodup
  · change slot.msg.block ∉ MicroRos.blocks (slot.owned w'.memory)
    rw [owns]
    exact apart

end MessageSlot

/-- The program's state and the messages that exist. -/
structure Session (target : Target) where
  core : Core
  live : List (MessageSlot target)

namespace Session

/-- Blocks that the existing messages hold. -/
def blocks (core : Core) (live : List (MessageSlot target)) : List Block :=
  live.flatMap fun slot => slot.blocks core.memory

/-- A message is created in live memory that no other message uses; an existing message is changed,
except for its data pointers; or it is destroyed. -/
inductive Step : Session target → Session target → Prop where
  | create {core : Core} {live : List (MessageSlot target)} (slot : MessageSlot target)
      (behind : Nat → Nat → Byte) (placed : core.heap.Backed slot.msg slot.type.info.sizeOf)
      (apart : ∀ other ∈ live, Disjoint slot.span other.span)
      (outside : slot.msg.block ∉ blocks core live) :
      Step ⟨core, live⟩ ⟨(createMessageMemory target (valueStrings target) slot.conf slot.type slot.msg
        ⟨core, behind⟩).2.core, slot :: live⟩
  | modify {core : Core} {live rest : List (MessageSlot target)} (slot : MessageSlot target)
      (among : live.Perm (slot :: rest)) (m : Contents) (keeps : slot.KeepsPointers core.memory m)
      (within : ∀ q, m q ≠ core.memory q → q ∈ slot.footprint core.memory) :
      Step ⟨core, live⟩ ⟨{ core with memory := m }, live⟩
  | destroy {core : Core} {live rest : List (MessageSlot target)} (slot : MessageSlot target)
      (behind : Nat → Nat → Byte) (among : live.Perm (slot :: rest)) :
      Step ⟨core, live⟩ ⟨(destroyMessageMemory target (valueStrings target) slot.conf slot.type slot.msg
        ⟨core, behind⟩).2.core, rest⟩

/-- The existing messages hold different live blocks; all else is as in the starting heap. -/
structure Sound (start : Heap) (core : Core) (live : List (MessageSlot target)) : Prop where
  grants : core.heap.Grants
  fresh : start.fresh ≤ core.heap.fresh
  possesses : ∀ slot ∈ live, slot.Possesses core
  apart : live.Pairwise fun slot other => Disjoint slot.span other.span
  nodup : (blocks core live).Nodup
  outside : ∀ slot ∈ live, slot.msg.block ∉ blocks core live
  others : ∀ b ∉ blocks core live, core.heap.extent b = start.extent b
  own : ∀ b ∈ blocks core live, start.extent b = none ∧ core.heap.extent b ≠ none

variable {start : Heap} {core core' : Core} {live live' rest : List (MessageSlot target)}
  {slot : MessageSlot target}

theorem mem_blocks_iff {b : Block} :
    b ∈ blocks core live ↔ ∃ slot ∈ live, b ∈ slot.blocks core.memory := List.mem_flatMap

theorem blocks_cons : blocks core (slot :: live) = slot.blocks core.memory ++ blocks core live :=
  List.flatMap_cons

theorem blocks_congr (same : ∀ slot ∈ live, slot.owned core'.memory = slot.owned core.memory) :
    blocks core' live = blocks core live :=
  List.flatMap_congr fun slot member => by rw [MessageSlot.blocks, same slot member, MessageSlot.blocks]

theorem Sound.perm (sound : Sound start core live) (same : live.Perm live') : Sound start core live' := by
  have blocksSame : (blocks core live).Perm (blocks core live') := same.flatMap_right _
  obtain ⟨grants, fresh, possesses, apart, nodup, outside, others, own⟩ := sound
  refine ⟨grants, fresh, fun slot member => possesses slot (same.mem_iff.mpr member), ?_,
    blocksSame.nodup_iff.mp nodup, fun slot member inside => ?_, fun b absent => ?_, fun b present => ?_⟩
  · exact (same.pairwise_iff fun disjoint => disjoint.symm).mp apart
  · exact outside slot (same.mem_iff.mpr member) (blocksSame.mem_iff.mpr inside)
  · exact others b fun inside => absent (blocksSame.mem_iff.mp inside)
  · exact own b (blocksSame.mem_iff.mpr present)

theorem blocks_head {b : Block} (inside : b ∈ slot.blocks core.memory) :
    b ∈ blocks core (slot :: rest) := mem_blocks_iff.mpr ⟨slot, List.mem_cons_self, inside⟩

theorem blocks_tail {other : MessageSlot target} (member : other ∈ rest) {b : Block}
    (inside : b ∈ other.blocks core.memory) : b ∈ blocks core (slot :: rest) :=
  mem_blocks_iff.mpr ⟨other, List.mem_cons_of_mem _ member, inside⟩

/-- No block of one message is a block of another. -/
theorem Sound.separate (sound : Sound start core (slot :: rest)) {b : Block}
    (inside : b ∈ slot.blocks core.memory) : b ∉ blocks core rest := fun later => by
  have nodup := sound.nodup
  rw [blocks_cons] at nodup
  exact (List.nodup_append.mp nodup).2.2 b inside b later rfl

theorem Sound.footprints (sound : Sound start core (slot :: rest)) {other : MessageSlot target}
    (member : other ∈ rest) :
    Disjoint (slot.footprint core.memory) (other.footprint core.memory) := by
  refine Set.disjoint_left.mpr ?_
  rintro q (here | here) (there | there)
  · exact Set.disjoint_left.mp ((List.pairwise_cons.mp sound.apart).1 other member) here there
  · rw [here.1] at there
    exact sound.outside slot List.mem_cons_self (blocks_tail member there)
  · rw [there.1] at here
    exact sound.outside other (List.mem_cons_of_mem _ member) (blocks_head here)
  · exact sound.separate here (mem_blocks_iff.mpr ⟨other, member, there⟩)

theorem Sound.modify (sound : Sound start core (slot :: rest)) {m : Contents}
    (keeps : slot.KeepsPointers core.memory m)
    (within : ∀ q, m q ≠ core.memory q → q ∈ slot.footprint core.memory) :
    Sound start { core with memory := m } (slot :: rest) := by
  have every : ∀ other ∈ slot :: rest, other.Possesses { core with memory := m } ∧
      other.owned m = other.owned core.memory := by
    intro other member
    have possesses := sound.possesses other member
    rcases List.mem_cons.mp member with rfl | later
    · exact ⟨Possesses.modify possesses keeps, MemberList.SamePointers.releases keeps⟩
    · have unchanged : ∀ q ∈ other.footprint core.memory, m q = core.memory q := by
        intro q inside
        by_contra changed
        exact Set.disjoint_left.mp (sound.footprints later) (within q changed) inside
      exact possesses.preserved (fun q _ inside => unchanged q inside) fun _ _ => rfl
  have same : blocks { core with memory := m } (slot :: rest) = blocks core (slot :: rest) :=
    blocks_congr fun other member => (every other member).2
  exact ⟨sound.grants, sound.fresh, fun other member => (every other member).1, sound.apart,
    by rw [same]; exact sound.nodup, by rw [same]; exact sound.outside, by rw [same]; exact sound.others,
    by rw [same]; exact sound.own⟩

theorem Sound.destroy (sound : Sound start core (slot :: rest))
    (grants : core'.heap.Grants)
    (destroys : Destroys slot.span (slot.owned core.memory) core core') : Sound start core' rest := by
  have every : ∀ other ∈ rest, other.Possesses core' ∧ other.owned core'.memory = other.owned core.memory := by
    intro other member
    have possesses := sound.possesses other (List.mem_cons_of_mem _ member)
    refine possesses.preserved (fun q notNull inside => ?_) fun b among => ?_
    · have outside := Set.disjoint_right.mp (sound.footprints member) inside
      exact destroys.kept q notNull (fun here => outside (Or.inl here)) fun freed => outside (Or.inr freed)
    · rw [destroys.extent, if_neg]
      rintro freed
      rcases among with rfl | inside
      · exact sound.outside other (List.mem_cons_of_mem _ member) (blocks_head freed)
      · exact sound.separate freed (mem_blocks_iff.mpr ⟨other, member, inside⟩)
  have same : blocks core' rest = blocks core rest := blocks_congr fun other member => (every other member).2
  have nodup := sound.nodup
  rw [blocks_cons] at nodup
  refine ⟨grants, by rw [destroys.fresh]; exact sound.fresh, fun other member => (every other member).1,
    (List.pairwise_cons.mp sound.apart).2, by rw [same]; exact (List.nodup_append.mp nodup).2.1, ?_, ?_, ?_⟩
  · intro other member inside
    rw [same] at inside
    exact sound.outside other (List.mem_cons_of_mem _ member)
      (by rw [blocks_cons]; exact List.mem_append_right _ inside)
  · intro b absent
    rw [same] at absent
    rw [destroys.extent]
    split
    next freed => exact (sound.own b (blocks_head freed)).1.symm
    next kept =>
      exact sound.others b (by rw [blocks_cons]; exact fun inside => (List.mem_append.mp inside).elim kept absent)
  · intro b present
    rw [same] at present
    obtain ⟨notStart, live⟩ := sound.own b (by rw [blocks_cons]; exact List.mem_append_right _ present)
    have kept : b ∉ MicroRos.blocks (slot.owned core.memory) := fun freed => sound.separate freed present
    exact ⟨notStart, by rwa [destroys.extent, if_neg kept]⟩

theorem Sound.create (sound : Sound start core live)
    (placed : core.heap.Backed slot.msg slot.type.info.sizeOf)
    (apart : ∀ other ∈ live, Disjoint slot.span other.span) (outside : slot.msg.block ∉ blocks core live)
    (created : core' = (core.create slot.conf slot.type slot.msg).2) :
    Sound start core' (slot :: live) := by
  subst created
  obtain ⟨numbers, obtains, perm, possesses⟩ := Core.create_possesses slot.conf slot.layout
    slot.unbounded slot.fits sound.grants placed
  have isNew : ∀ b, b ∈ slot.blocks (core.create slot.conf slot.type slot.msg).2.memory ↔
      ∃ number ∈ numbers, b = .object slot.conf.owner number :=
    fun b => (blocks_perm perm).mem_iff.trans mem_blocks_objects
  -- A block that was alive before is none of the new ones.
  have older : ∀ b, core.heap.extent b ≠ none →
      b ∉ slot.blocks (core.create slot.conf slot.type slot.msg).2.memory := by
    intro b alive member
    obtain ⟨number, isNumber, rfl⟩ := (isNew b).mp member
    exact alive (core.heap.freshDead _ number (obtains.numbered number isNumber).1)
  have kept : ∀ b, core.heap.extent b ≠ none →
      (core.create slot.conf slot.type slot.msg).2.heap.extent b = core.heap.extent b := fun b alive =>
    obtains.others b fun member => older b alive ((blocks_perm perm).mem_iff.mpr member)
  have instanceAlive : ∀ other ∈ live, core.heap.extent other.msg.block ≠ none := by
    intro other member
    obtain ⟨size, found, _⟩ := (sound.possesses other member).live
    rw [found]
    simp
  have every : ∀ other ∈ live, other.Possesses (core.create slot.conf slot.type slot.msg).2 ∧
      other.owned (core.create slot.conf slot.type slot.msg).2.memory = other.owned core.memory := by
    intro other member
    refine (sound.possesses other member).preserved (fun q _ inside => ?_) fun b among => kept b ?_
    · refine Core.create_kept slot.layout slot.unbounded sound.grants placed ?_ ?_
      · rcases inside with here | here
        · exact Set.disjoint_right.mp (apart other member) here
        · intro inInstance
          rw [inInstance.1] at here
          exact outside (mem_blocks_iff.mpr ⟨other, member, here⟩)
      · rcases inside with here | here
        · rw [here.1]
          exact instanceAlive other member
        · exact (sound.own _ (mem_blocks_iff.mpr ⟨other, member, here⟩)).2
    · rcases among with rfl | here
      · exact instanceAlive other member
      · exact (sound.own b (mem_blocks_iff.mpr ⟨other, member, here⟩)).2
  have same : blocks (core.create slot.conf slot.type slot.msg).2 live = blocks core live :=
    blocks_congr fun other member => (every other member).2
  have grants : (core.create slot.conf slot.type slot.msg).2.heap.Grants := by
    intro request size
    rw [Core.create_grants]
    exact sound.grants request size
  refine ⟨grants, Nat.le_trans sound.fresh obtains.fresh, ?_, List.pairwise_cons.mpr ⟨apart, sound.apart⟩,
    ?_, ?_, ?_, ?_⟩
  · exact List.forall_mem_cons.mpr ⟨possesses, fun other member => (every other member).1⟩
  · rw [blocks_cons, same]
    refine List.nodup_append.mpr ⟨possesses.nodup, sound.nodup, ?_⟩
    rintro b here _ there rfl
    exact older b (sound.own b there).2 here
  · rw [blocks_cons, same]
    refine List.forall_mem_cons.mpr ⟨fun inside => ?_, fun other member inside => ?_⟩
    · exact (List.mem_append.mp inside).elim possesses.apart outside
    · exact (List.mem_append.mp inside).elim (older _ (instanceAlive other member))
        (sound.outside other member)
  · intro b absent
    rw [blocks_cons, same, List.mem_append, not_or] at absent
    rw [obtains.others b fun member => absent.1 ((blocks_perm perm).mem_iff.mpr member)]
    exact sound.others b absent.2
  · intro b present
    rw [blocks_cons, same, List.mem_append] at present
    rcases present with here | there
    · obtain ⟨number, isNumber, rfl⟩ := (isNew b).mp here
      refine ⟨start.freshDead _ number ?_, obtains.live number isNumber⟩
      exact Nat.le_trans sound.fresh (obtains.numbered number isNumber).1
    · obtain ⟨notStart, alive⟩ := sound.own b there
      exact ⟨notStart, by rwa [kept b alive]⟩

/-- One step keeps the invariant. -/
theorem Sound.step {x y : Session target} (sound : Sound start x.core x.live) (step : Step x y) :
    Sound start y.core y.live := by
  cases step with
  | create slot behind placed apart outside =>
    exact sound.create placed apart outside (createMessageMemory_value slot.conf slot.type _ slot.msg).2
  | modify slot among m keeps within =>
    exact ((sound.perm among).modify keeps within).perm among.symm
  | @destroy core live rest slot behind among =>
    have headed := sound.perm among
    have reached := (destroyMessageMemory_value slot.conf slot.type ⟨core, behind⟩ slot.msg).2
    simp only [reached]
    refine headed.destroy ?_ (Core.destroy_destroys slot.layout slot.unbounded
      (.of_unwrapped (unwrapped_of_sum slot.fits)) (headed.possesses slot List.mem_cons_self)).1
    intro request size
    rw [Core.destroy_grants]
    exact headed.grants request size

/-- Any number of steps keeps the invariant. -/
theorem Sound.steps {x y : Session target} (sound : Sound start x.core x.live)
    (steps : Relation.ReflTransGen Step x y) : Sound start y.core y.live := by
  induction steps with
  | refl => exact sound
  | tail _ step ih => exact ih.step step

theorem Sound.initial (target : Target) (grants : core.heap.Grants) : Sound core.heap core ([] : List (MessageSlot target)) :=
  ⟨grants, Nat.le_refl _, by simp, .nil, List.nodup_nil, by simp, fun _ _ => rfl, by simp [blocks]⟩

end Session

/-- Creating a message and destroying it, with any change in between that keeps the data pointers,
releases exactly what was obtained and leaves the message zero; and when all messages of a session
are destroyed, the live blocks are those of its start. -/
theorem messages_roundTrip (core : Core) (grants : core.heap.Grants) :
    (∀ (slot : MessageSlot target) (behind behind' : Nat → Nat → Byte) (m : Contents),
      core.heap.Backed slot.msg slot.type.info.sizeOf →
      let created := (createMessageMemory target (valueStrings target) slot.conf slot.type slot.msg
        ⟨core, behind⟩).2.core
      slot.KeepsPointers created.memory m →
      let modified : Core := { created with memory := m }
      let destroyed := destroyMessageMemory target (valueStrings target) slot.conf slot.type slot.msg
        ⟨modified, behind'⟩
      destroyed.1 = true ∧ (obtained (core.since created)).Nodup ∧
        (releasedBy (modified.since destroyed.2.core)).Perm (obtained (core.since created)) ∧
        (∀ event ∈ modified.since destroyed.2.core, event.Sound) ∧
        ∀ i < slot.type.info.sizeOf, destroyed.2.core.memory (slot.msg.plus i) = .zero) ∧
    ∀ session : Session target, Relation.ReflTransGen Session.Step ⟨core, []⟩ session →
      session.live = [] → session.core.heap.extent = core.heap.extent := by
  constructor
  · intro slot behind behind' m placed created keeps modified destroyed
    obtain ⟨numbers, obtains, perm, possesses⟩ := Core.create_possesses slot.conf slot.layout
      slot.unbounded slot.fits grants placed
    have isCreated : created = (core.create slot.conf slot.type slot.msg).2 :=
      (createMessageMemory_value slot.conf slot.type ⟨core, behind⟩ slot.msg).2
    rw [← isCreated] at obtains perm possesses
    obtain ⟨success, reached⟩ := destroyMessageMemory_value slot.conf slot.type ⟨modified, behind'⟩ slot.msg
    obtain ⟨destroys, zero⟩ := Core.destroy_destroys slot.layout slot.unbounded
      (.of_unwrapped (unwrapped_of_sum slot.fits)) (possesses.modify keeps)
    obtain ⟨events, log, got, _⟩ := obtains.logged
    obtain ⟨events', log', released, sound⟩ := destroys.logged
    have same : owned slot.conf slot.type slot.msg m = owned slot.conf slot.type slot.msg created.memory :=
      MemberList.SamePointers.releases keeps
    have since : core.since created = events := Core.since_of_log log
    have since' : modified.since (modified.destroy slot.conf slot.type slot.msg).2 = events' :=
      Core.since_of_log log'
    simp only [destroyed, success, reached, since, since', got, released]
    refine ⟨Core.destroy_succeeds _ _ _ _, ?_, ?_, sound, zero⟩
    · exact obtains.nodup.map fun _ _ same => by simpa using same
    · rwa [same]
  · intro session steps none
    have sound := (Session.Sound.initial target grants).steps steps
    funext b
    exact sound.others b (by simp [none, Session.blocks])

/-- `MultiArrayLayout` in the first object of an application. -/
def multiArraySlot : MessageSlot cortexM :=
  ⟨boardDefault, multiArrayLayout cortexM, ⟨.object 1 0, 0⟩, multiArrayLayout_layout,
    multiArrayLayout_unbounded, by decide⟩

/-- Created, changed, and destroyed: one dimension with the label `ABC`, its size 7 and a data offset of 9. -/
theorem messages_roundTrip_multiArray :
    let core := ((Core.boot fun _ _ => true).allocate 1 16).2
    let slot := multiArraySlot
    let created := (createMessageMemory cortexM (valueStrings cortexM) slot.conf slot.type slot.msg
      ⟨core, fun _ _ => 0⟩).2.core
    let dim : Pointer := ⟨.object 0 1, 0⟩
    let label : Pointer := ⟨.object 0 2, 0⟩
    let texts := (created.memory.write label 3 fun i => .byte (Fin.ofNat 256 (65 + i))).storeSize 4 (dim.plus 4) 3
    let sizes := (texts.storeSize 4 (slot.msg.plus 4) 1).storeSize 4 (dim.plus 12) 7
    let modified : Core := { created with memory := sizes.storeSize 4 (slot.msg.plus 12) 9 }
    let destroyed := destroyMessageMemory cortexM (valueStrings cortexM) slot.conf slot.type slot.msg
      ⟨modified, fun _ _ => 0⟩
    destroyed.1 = true ∧ (obtained (core.since created)).Nodup ∧
      (releasedBy (modified.since destroyed.2.core)).Perm (obtained (core.since created)) ∧
      (∀ event ∈ modified.since destroyed.2.core, event.Sound) ∧
      ∀ i < slot.type.info.sizeOf, destroyed.2.core.memory (slot.msg.plus i) = .zero :=
  (messages_roundTrip ((Core.boot fun _ _ => true).allocate 1 16).2 fun _ _ => rfl).1 multiArraySlot
    (fun _ _ => 0) (fun _ _ => 0) _ (by decide) (by decide +kernel)

end MicroRos
