import MicroRos.Planning.Sessions
import MicroRos.Planning.StaticLayout
import Mathlib.Data.List.Pairwise

/-! Messages of both kinds side by side: with blocks of the allocator, and in buffers of the program.

The invariant is that of a session, together with the places of the messages in buffers. From it
every call is seen to touch nothing but the message that it is for.
-/

set_option autoImplicit false

namespace MicroRos

open Memory (Pointer Contents Block Heap Byte)

variable {target : Target}

/-- A place for a message, with the buffer that its data is placed in. -/
structure StaticSlot (target : Target) where
  conf : MemoryConf target
  type : MessageMembers
  msg : Pointer
  buffer : Pointer
  bufferLen : Nat
  layout : type.Layout target
  unbounded : type.members.NoBounded
  fits : staticRequirement conf type < target.modulus
  small : bufferLen < target.modulus

/-- The message itself and its buffer. -/
def StaticSlot.footprint (slot : StaticSlot target) : Set Pointer :=
  {q | q ∈ instanceSpan slot.type slot.msg ∨ slot.buffer.Spans slot.bufferLen q}

/-- The buffer is as long as the message needs. -/
def StaticSlot.Enough (slot : StaticSlot target) : Prop := staticRequirement slot.conf slot.type ≤ slot.bufferLen

instance (slot : StaticSlot target) : Decidable slot.Enough := by
  unfold StaticSlot.Enough
  infer_instance

namespace Core

variable {w : Core}

/-- Handing out pieces of a buffer does not concern the allocator. -/
theorem preallocatedRule (conf : MemoryConf target) :
    TraversalRule conf .createPreallocated AnyFrame fun w w' => w'.heap = w.heap where
  toFrameRule := anyFrame conf _
  refl _ := rfl
  trans one two := two.trans one
  plan _ _ w := by
    simp only [planHeader, setUpHeader, getStaticMemory]
    split <;> split <;> simp
  load _ w := by simp [elementData, Operation.calculates, loadPointer]
  tear _ _ _ := rfl

theorem createStatic_heap (conf : MemoryConf target) (type : MessageMembers) (msg buffer : Pointer) (bufferLen : Nat)
    (w : Core) : (w.createStatic conf type msg buffer bufferLen).2.heap = w.heap := by
  simp only [createStatic]
  split
  · simp
  · have run := (preallocatedRule conf.getConfiguration).runOver type msg trivial
      ((w.staticSize conf type).2.prepareStatic type msg buffer (w.staticSize conf type).1)
    rw [run]
    simp [prepareStatic, placeBuffer]

end Core

theorem MemberList.SamePointers.trans {conf : MemoryConf target} {m m' m'' : Contents} {list : MemberList}
    {msg : Pointer} {path : CString} (first : list.SamePointers conf m m' msg path)
    (second : list.SamePointers conf m' m'' msg path) : list.SamePointers conf m m'' msg path := by
  induction list generalizing msg path with
  | nil => trivial
  | basic type field rest ih =>
    exact ⟨fun header => (second.1 header).trans (first.1 header), ih first.2 second.2⟩
  | message info members field rest ihMembers ih =>
    obtain ⟨inSequence, inPlace, restSame⟩ := first
    obtain ⟨inSequence', inPlace', restSame'⟩ := second
    refine ⟨fun sequence => ?_, fun single => ihMembers (inPlace single) (inPlace' single), ih restSame restSame'⟩
    obtain ⟨pointer, elements⟩ := inSequence sequence
    obtain ⟨pointer', elements'⟩ := inSequence' sequence
    refine ⟨pointer'.trans pointer, fun j bound => ihMembers (elements j bound) ?_⟩
    rw [← pointer]
    exact elements' j bound

namespace StaticSlot

variable {slot : StaticSlot target} {w : Core}

theorem block_of_mem {q : Pointer} (inside : q ∈ slot.footprint) :
    q.block = slot.msg.block ∨ q.block = slot.buffer.block :=
  inside.imp And.left And.left

/-- Static creation on a place: its answer, and what it leaves alone. -/
theorem creates (message : w.heap.Backed slot.msg slot.type.info.sizeOf)
    (backed : w.heap.Backed slot.buffer slot.bufferLen)
    (apart : Core.Apart slot.type slot.msg slot.buffer slot.bufferLen) :
    let made := w.createStatic slot.conf slot.type slot.msg slot.buffer slot.bufferLen
    made.1 = decide slot.Enough ∧ made.2.heap = w.heap ∧ ∀ q ∉ slot.footprint, made.2.memory q = w.memory q := by
  have notNull : slot.buffer ≠ .null := by
    intro isNull
    rw [isNull] at backed
    exact Memory.Heap.not_backed_null _ rfl _ backed
  have placed := Core.createStatic_placed slot.fits slot.msg notNull slot.bufferLen w
  simp only at placed
  refine ⟨?_, Core.createStatic_heap .., fun q outside => ?_⟩
  · split at placed
    next long => exact placed.1.trans (decide_eq_true long).symm
    next short => exact placed.1.trans (decide_eq_false short).symm
  · split at placed
    next long =>
      have builds := Core.createStatic_builds slot.layout slot.unbounded ⟨long, slot.small, message, backed, apart⟩
      have notMessage : ¬ slot.msg.Spans slot.type.info.sizeOf q := fun inside => outside (Or.inl inside)
      have notBuffer : ¬ slot.buffer.Spans (staticRequirement slot.conf slot.type) q :=
        fun inside => outside
          (Or.inr ⟨inside.1, inside.2.1, Nat.lt_of_lt_of_le inside.2.2 (Nat.add_le_add_left long _)⟩)
      rw [builds.kept (fun head => notMessage (Core.heads_subset slot.layout slot.unbounded.messages head)) ?_]
      · simp only [Core.prepared, Core.prepareStatic, Core.placeBuffer, Core.fillZero_memory, Core.staticSize_memory]
        rw [Contents.fillZero_outside _ notMessage, Contents.fillZero_outside _ notBuffer]
      · rintro ⟨i, _, below, rfl⟩
        exact notBuffer (Pointer.spans_plus below)
    next short => rw [placed.2.1]

end StaticSlot

/-- What a program did with its messages: the message that a call was for, and the answer. -/
inductive SessionEvent (target : Target) where
  | created (slot : MessageSlot target) (answer : Bool)
  | createdStatic (slot : StaticSlot target) (answer : Bool)
  | changed (slot : MessageSlot target)
  | changedStatic (slot : StaticSlot target)
  | destroyed (slot : MessageSlot target) (answer : Bool)
  | discarded (slot : StaticSlot target)
  | measured (conf : MemoryConf target) (type : MessageMembers) (dynamic static : Nat)

/-- The answer is the one that the program waits for: a call fails only where a buffer is too short. -/
def SessionEvent.Answered : SessionEvent target → Prop
  | .created _ answer | .destroyed _ answer => answer = true
  | .createdStatic slot answer => answer = decide slot.Enough
  | .measured conf type dynamic static =>
    dynamic = dynamicRequirement conf type % target.modulus ∧ static = staticRequirement conf type % target.modulus
  | .changed _ | .changedStatic _ | .discarded _ => True

/-- The program's state, the messages that have blocks and those that have buffers. -/
structure MixedSession (target : Target) where
  core : Core
  live : List (MessageSlot target)
  placed : List (StaticSlot target)

namespace MixedSession

/-- New messages stand in live memory that no other message uses; a message with blocks keeps its data
pointers when it is changed, one with a buffer may be changed in any way. -/
inductive Step : MixedSession target → SessionEvent target → MixedSession target → Prop where
  | create {core : Core} {live : List (MessageSlot target)} {placed : List (StaticSlot target)}
      (slot : MessageSlot target) (behind : Nat → Nat → Byte)
      (backed : core.heap.Backed slot.msg slot.type.info.sizeOf)
      (apart : ∀ other ∈ live, Disjoint slot.span other.span) (outside : slot.msg.block ∉ Session.blocks core live)
      (clear : ∀ other ∈ placed, Disjoint slot.span other.footprint) :
      Step ⟨core, live, placed⟩
        (.created slot (createMessageMemory target (valueStrings target) slot.conf slot.type slot.msg ⟨core, behind⟩).1)
        ⟨(createMessageMemory target (valueStrings target) slot.conf slot.type slot.msg ⟨core, behind⟩).2.core,
          slot :: live, placed⟩
  | createStatic {core : Core} {live : List (MessageSlot target)} {placed : List (StaticSlot target)}
      (slot : StaticSlot target) (behind : Nat → Nat → Byte)
      (message : core.heap.Backed slot.msg slot.type.info.sizeOf)
      (backed : core.heap.Backed slot.buffer slot.bufferLen)
      (apart : Core.Apart slot.type slot.msg slot.buffer slot.bufferLen)
      (outside : slot.msg.block ∉ Session.blocks core live ∧ slot.buffer.block ∉ Session.blocks core live)
      (clear : ∀ other ∈ live, Disjoint slot.footprint other.span)
      (separate : ∀ other ∈ placed, Disjoint slot.footprint other.footprint) :
      Step ⟨core, live, placed⟩
        (.createdStatic slot (createStaticMessageMemory target (valueStrings target) slot.conf slot.type slot.msg
          slot.buffer slot.bufferLen ⟨core, behind⟩).1)
        ⟨(createStaticMessageMemory target (valueStrings target) slot.conf slot.type slot.msg slot.buffer
            slot.bufferLen ⟨core, behind⟩).2.core,
          live, if slot.Enough then slot :: placed else placed⟩
  | change {core : Core} {live rest : List (MessageSlot target)} {placed : List (StaticSlot target)}
      (slot : MessageSlot target) (among : live.Perm (slot :: rest)) (m : Contents)
      (keeps : slot.KeepsPointers core.memory m) (within : ∀ q, m q ≠ core.memory q → q ∈ slot.footprint core.memory) :
      Step ⟨core, live, placed⟩ (.changed slot) ⟨{ core with memory := m }, live, placed⟩
  | changeStatic {core : Core} {live : List (MessageSlot target)} {placed : List (StaticSlot target)}
      (slot : StaticSlot target) (member : slot ∈ placed) (m : Contents)
      (within : ∀ q, m q ≠ core.memory q → q ∈ slot.footprint) :
      Step ⟨core, live, placed⟩ (.changedStatic slot) ⟨{ core with memory := m }, live, placed⟩
  | destroy {core : Core} {live rest : List (MessageSlot target)} {placed : List (StaticSlot target)}
      (slot : MessageSlot target) (behind : Nat → Nat → Byte) (among : live.Perm (slot :: rest)) :
      Step ⟨core, live, placed⟩
        (.destroyed slot
          (destroyMessageMemory target (valueStrings target) slot.conf slot.type slot.msg ⟨core, behind⟩).1)
        ⟨(destroyMessageMemory target (valueStrings target) slot.conf slot.type slot.msg ⟨core, behind⟩).2.core,
          rest, placed⟩
  | discard {core : Core} {live : List (MessageSlot target)} {placed rest : List (StaticSlot target)}
      (slot : StaticSlot target) (among : placed.Perm (slot :: rest)) :
      Step ⟨core, live, placed⟩ (.discarded slot) ⟨core, live, rest⟩
  | measure {core : Core} {live : List (MessageSlot target)} {placed : List (StaticSlot target)}
      (conf : MemoryConf target) (type : MessageMembers) (behind behind' : Nat → Nat → Byte) :
      Step ⟨core, live, placed⟩
        (.measured conf type (getDynamicSize target (valueStrings target) conf type ⟨core, behind⟩).1
          (getStaticSize target (valueStrings target) conf type
            ⟨(getDynamicSize target (valueStrings target) conf type ⟨core, behind⟩).2.core, behind'⟩).1)
        ⟨(getStaticSize target (valueStrings target) conf type
            ⟨(getDynamicSize target (valueStrings target) conf type ⟨core, behind⟩).2.core, behind'⟩).2.core,
          live, placed⟩

/-- A run with what happened in it. -/
inductive Run : MixedSession target → List (SessionEvent target) → MixedSession target → Prop where
  | done (x : MixedSession target) : Run x [] x
  | next {x y z : MixedSession target} {event : SessionEvent target} {events : List (SessionEvent target)}
      (step : Step x event y) (run : Run y events z) : Run x (event :: events) z

/-- A session whose messages in buffers stand apart from all others, in memory that was there at the start. -/
structure Sound (start : Heap) (x : MixedSession target) : Prop extends Session.Sound start x.core x.live where
  old : ∀ slot ∈ x.placed, start.extent slot.msg.block ≠ none ∧ start.extent slot.buffer.block ≠ none
  clear : ∀ slot ∈ x.placed, ∀ other ∈ x.live, Disjoint slot.footprint other.span
  separate : x.placed.Pairwise fun slot other => Disjoint slot.footprint other.footprint

variable {start : Heap} {x y z : MixedSession target} {core core' : Core} {live rest : List (MessageSlot target)}
  {placed : List (StaticSlot target)} {event : SessionEvent target} {events : List (SessionEvent target)}

/-- Memory that was there at the start belongs to no message with blocks, and is still there. -/
theorem old_block (sound : Session.Sound start core live) {b : Block} (old : start.extent b ≠ none) :
    b ∉ Session.blocks core live ∧ core.heap.extent b ≠ none := by
  have outside : b ∉ Session.blocks core live := fun held => old (sound.own b held).1
  exact ⟨outside, by rwa [sound.others b outside]⟩

theorem Sound.old_of_mem (sound : Sound start x) {slot : StaticSlot target} (member : slot ∈ x.placed) {q : Pointer}
    (inside : q ∈ slot.footprint) : start.extent q.block ≠ none := by
  rcases StaticSlot.block_of_mem inside with same | same
  · rw [same]
    exact (sound.old slot member).1
  · rw [same]
    exact (sound.old slot member).2

/-- No byte of a message in a buffer belongs to a message with blocks. -/
theorem Sound.disjoint (sound : Sound start x) {slot : StaticSlot target} (member : slot ∈ x.placed)
    {other : MessageSlot target} (member' : other ∈ x.live) :
    Disjoint slot.footprint (other.footprint x.core.memory) := by
  refine Set.disjoint_left.mpr fun q here there => ?_
  rcases there with there | there
  · exact Set.disjoint_left.mp (sound.clear slot member other member') here there
  · exact (old_block sound.toSound (sound.old_of_mem member here)).1
      (Session.mem_blocks_iff.mpr ⟨other, member', there⟩)

/-- Messages with blocks are not concerned by what happens outside of their footprints. -/
theorem preserved (sound : Session.Sound start core live) (heap : core'.heap = core.heap)
    (memory : ∀ slot ∈ live, ∀ q ∈ slot.footprint core.memory, core'.memory q = core.memory q) :
    Session.Sound start core' live := by
  have every : ∀ slot ∈ live, slot.Possesses core' ∧ slot.owned core'.memory = slot.owned core.memory :=
    fun slot member => (sound.possesses slot member).preserved (fun q _ inside => memory slot member q inside)
      fun _ _ => by rw [heap]
  have same : Session.blocks core' live = Session.blocks core live :=
    Session.blocks_congr fun slot member => (every slot member).2
  obtain ⟨grants, fresh, -, apart, nodup, outside, others, own⟩ := sound
  refine ⟨by rwa [heap], by rwa [heap], fun slot member => (every slot member).1, apart, ?_, ?_, ?_, ?_⟩
  · rwa [same]
  · rwa [same]
  · rwa [same, heap]
  · rwa [same, heap]

theorem measured_core (conf : MemoryConf target) (type : MessageMembers) (core : Core)
    (behind behind' : Nat → Nat → Byte) :
    let sized := getDynamicSize target (valueStrings target) conf type ⟨core, behind⟩
    let measured := getStaticSize target (valueStrings target) conf type ⟨sized.2.core, behind'⟩
    measured.2.core.heap = core.heap ∧ measured.2.core.memory = core.memory ∧
      (SessionEvent.measured conf type sized.1 measured.1).Answered := by
  obtain ⟨dynamic, reached⟩ := getDynamicSize_value conf type ⟨core, behind⟩
  obtain ⟨static, reached'⟩ := getStaticSize_value conf type
    ⟨(getDynamicSize target (valueStrings target) conf type ⟨core, behind⟩).2.core, behind'⟩
  rw [reached] at static reached'
  simp only [reached, reached', Core.staticSize_heap, Core.dynamicSize_heap, Core.staticSize_memory,
    Core.dynamicSize_memory, true_and]
  constructor
  · rw [dynamic, Core.dynamicSize_eq]
  · rw [static, (Core.staticSize_wrapped conf type _).1]

/-- One step keeps the invariant. -/
theorem Sound.step (sound : Sound start x) (step : Step x event y) : Sound start y := by
  cases step with
  | @create core live placed slot behind backed apart outside clear =>
    have created := (createMessageMemory_value slot.conf slot.type ⟨core, behind⟩ slot.msg).2
    refine ⟨sound.toSound.create backed apart outside created, sound.old, ?_, sound.separate⟩
    intro other member
    exact List.forall_mem_cons.mpr ⟨(clear other member).symm, sound.clear other member⟩
  | @createStatic core live placed slot behind message backed apart outside clear separate =>
    obtain ⟨-, heap, kept⟩ := slot.creates message backed apart
    have created := (createStaticMessageMemory_value slot.conf slot.type ⟨core, behind⟩ slot.msg slot.buffer
      slot.bufferLen).2
    rw [← created] at heap kept
    have before := sound.toSound
    -- Both blocks are older than the session: those that it allocated belong to its messages.
    have old : start.extent slot.msg.block ≠ none ∧ start.extent slot.buffer.block ≠ none := by
      rw [← before.others _ outside.1, ← before.others _ outside.2]
      obtain ⟨_, found, -⟩ := message
      obtain ⟨_, found', -⟩ := backed
      simp [Option.mem_def.mp found, Option.mem_def.mp found']
    have after : Session.Sound start (createStaticMessageMemory target (valueStrings target) slot.conf slot.type
        slot.msg slot.buffer slot.bufferLen ⟨core, behind⟩).2.core live := by
      refine preserved before heap fun other member q inside => kept q fun here => ?_
      rcases inside with inside | inside
      · exact Set.disjoint_left.mp (clear other member) here inside
      · have held : q.block ∈ Session.blocks core live := Session.mem_blocks_iff.mpr ⟨other, member, inside⟩
        rcases StaticSlot.block_of_mem here with same | same
        · exact outside.1 (same ▸ held)
        · exact outside.2 (same ▸ held)
    split
    · refine ⟨after, List.forall_mem_cons.mpr ⟨old, sound.old⟩, List.forall_mem_cons.mpr ⟨clear, sound.clear⟩, ?_⟩
      exact List.pairwise_cons.mpr ⟨separate, sound.separate⟩
    · exact ⟨after, sound.old, sound.clear, sound.separate⟩
  | change slot among m keeps within =>
    have after := ((sound.toSound.perm among).modify keeps within).perm among.symm
    exact ⟨after, sound.old, sound.clear, sound.separate⟩
  | @changeStatic core live placed slot member m within =>
    refine ⟨preserved sound.toSound rfl ?_, sound.old, sound.clear, sound.separate⟩
    intro other member' q inside
    by_contra changed
    exact Set.disjoint_left.mp (sound.disjoint member member') (within q changed) inside
  | @destroy core live rest placed slot behind among =>
    -- The part about messages with blocks is a step of a session without buffers.
    have after := sound.toSound.step (.destroy slot behind among)
    refine ⟨after, sound.old, fun other member other' member' => ?_, sound.separate⟩
    exact sound.clear other member other' (among.mem_iff.mpr (List.mem_cons_of_mem _ member'))
  | discard slot among =>
    have inside {other : StaticSlot target} (member : other ∈ _) := among.mem_iff.mpr (List.mem_cons_of_mem slot member)
    refine ⟨sound.toSound, fun other member => sound.old other (inside member),
      fun other member => sound.clear other (inside member), ?_⟩
    exact ((among.pairwise_iff fun apart => apart.symm).mp sound.separate).of_cons
  | measure conf type behind behind' =>
    obtain ⟨heap, memory, -⟩ := measured_core conf type _ behind behind'
    exact ⟨preserved sound.toSound heap fun _ _ q _ => by rw [memory], sound.old, sound.clear, sound.separate⟩

/-- Every call has the answer that the program waits for. -/
theorem Sound.answered (sound : Sound start x) (step : Step x event y) : event.Answered := by
  cases step with
  | @create core live placed slot behind =>
    have answer := (createMessageMemory_value slot.conf slot.type ⟨core, behind⟩ slot.msg).1
    exact answer.trans (Core.create_succeeds slot.conf slot.type slot.msg sound.grants)
  | @createStatic core live placed slot behind message backed apart =>
    have answer := (createStaticMessageMemory_value slot.conf slot.type ⟨core, behind⟩ slot.msg slot.buffer
      slot.bufferLen).1
    exact answer.trans (slot.creates message backed apart).1
  | @destroy core live rest placed slot behind =>
    have answer := (destroyMessageMemory_value slot.conf slot.type ⟨core, behind⟩ slot.msg).1
    exact answer.trans (Core.destroy_succeeds slot.conf slot.type slot.msg core)
  | @measure core live placed conf type behind behind' => exact (measured_core conf type core behind behind').2.2
  | change | changeStatic | discard => trivial

/-- Nothing that happened to other messages has changed a message: one with blocks keeps its data pointers
as long as it is not destroyed, and each byte of a message stays unless the program changed that message. -/
structure Isolated (events : List (SessionEvent target)) (x y : MixedSession target) : Prop where
  live : ∀ slot ∈ x.live, (∀ answer, .destroyed slot answer ∉ events) →
    slot ∈ y.live ∧ slot.KeepsPointers x.core.memory y.core.memory ∧
      (.changed slot ∉ events → ∀ q ∈ slot.footprint x.core.memory, y.core.memory q = x.core.memory q)
  placed : ∀ slot ∈ x.placed, .discarded slot ∉ events →
    slot ∈ y.placed ∧ (.changedStatic slot ∉ events → ∀ q ∈ slot.footprint, y.core.memory q = x.core.memory q)

/-- The footprint of a message that has blocks is in memory that is alive. -/
theorem alive_of_mem (sound : Session.Sound start core live) {slot : MessageSlot target} (member : slot ∈ live)
    {q : Pointer} (inside : q ∈ slot.footprint core.memory) : core.heap.extent q.block ≠ none := by
  rcases inside with here | here
  · obtain ⟨size, found, _⟩ := (sound.possesses slot member).live
    rw [here.1, Option.mem_def.mp found]
    exact Option.some_ne_none size
  · exact (sound.own _ (Session.mem_blocks_iff.mpr ⟨slot, member, here⟩)).2

theorem notNull_of_alive {h : Heap} {q : Pointer} (alive : h.extent q.block ≠ none) : q.block ≠ .null := by
  intro null
  rw [null] at alive
  exact alive h.nullDead

/-- A message whose bytes stay keeps its data pointers. -/
theorem keepsPointers_of_bytes {slot : MessageSlot target} (possesses : slot.Possesses core) {m : Contents}
    (bytes : ∀ q ∈ slot.footprint core.memory, m q = core.memory q) : slot.KeepsPointers core.memory m :=
  MemberList.SamePointers.of_agree possesses.held fun q _ among =>
    bytes q (among.imp (fun head => MessageSlot.heads_span head) id)

/-- The bytes of every message but the one that the step is for. -/
theorem Sound.bytes (sound : Sound start x) (step : Step x event y) :
    (∀ slot ∈ x.live, event ≠ .changed slot → (∀ answer, event ≠ .destroyed slot answer) →
      ∀ q ∈ slot.footprint x.core.memory, y.core.memory q = x.core.memory q) ∧
    ∀ slot ∈ x.placed, event ≠ .changedStatic slot → ∀ q ∈ slot.footprint, y.core.memory q = x.core.memory q := by
  cases step with
  | @create core live placed slot behind backed apart outside clear =>
    have created := (createMessageMemory_value slot.conf slot.type ⟨core, behind⟩ slot.msg).2
    have kept (q : Pointer) (notHere : q ∉ slot.span) (alive : core.heap.extent q.block ≠ none) :
        (core.create slot.conf slot.type slot.msg).2.memory q = core.memory q :=
      Core.create_kept slot.layout slot.unbounded sound.grants backed notHere alive
    rw [created]
    refine ⟨fun other member _ _ q inside => kept q ?_ (alive_of_mem sound.toSound member inside), ?_⟩
    · rcases inside with here | here
      · exact Set.disjoint_right.mp (apart other member) here
      · intro inInstance
        rw [inInstance.1] at here
        exact outside (Session.mem_blocks_iff.mpr ⟨other, member, here⟩)
    · intro other member _ q inside
      exact kept q (Set.disjoint_right.mp (clear other member) inside)
        (old_block sound.toSound (sound.old_of_mem member inside)).2
  | @createStatic core live placed slot behind message backed apart outside clear separate =>
    have created := (createStaticMessageMemory_value slot.conf slot.type ⟨core, behind⟩ slot.msg slot.buffer
      slot.bufferLen).2
    obtain ⟨-, -, kept⟩ := slot.creates message backed apart
    rw [created]
    refine ⟨fun other member _ _ q inside => kept q fun here => ?_, fun other member _ q inside =>
      kept q (Set.disjoint_right.mp (separate other member) inside)⟩
    rcases inside with inside | inside
    · exact Set.disjoint_left.mp (clear other member) here inside
    · have held : q.block ∈ Session.blocks core live := Session.mem_blocks_iff.mpr ⟨other, member, inside⟩
      rcases StaticSlot.block_of_mem here with same | same
      · exact outside.1 (same ▸ held)
      · exact outside.2 (same ▸ held)
  | @change core live rest placed slot among m keeps within =>
    refine ⟨fun other member different _ q inside => ?_, fun other member _ q inside => ?_⟩
    · have later : other ∈ rest := by
        rcases List.mem_cons.mp (among.mem_iff.mp member) with rfl | later
        · exact absurd rfl different
        · exact later
      by_contra changed
      exact Set.disjoint_left.mp ((sound.toSound.perm among).footprints later) (within q changed) inside
    · by_contra changed
      exact Set.disjoint_left.mp (sound.disjoint member (among.mem_iff.mpr List.mem_cons_self)) inside
        (within q changed)
  | @changeStatic core live placed slot member m within =>
    refine ⟨fun other member' _ _ q inside => ?_, fun other member' different q inside => ?_⟩
    · by_contra changed
      exact Set.disjoint_left.mp (sound.disjoint member member') (within q changed) inside
    · by_contra changed
      have symmetric : Std.Symm fun slot other : StaticSlot target => Disjoint slot.footprint other.footprint :=
        ⟨fun _ _ apart => apart.symm⟩
      have apart := sound.separate.forall member member' fun same => different (same ▸ rfl)
      exact Set.disjoint_left.mp apart (within q changed) inside
  | @destroy core live rest placed slot behind among =>
    have headed := sound.toSound.perm among
    have destroys := (Core.destroy_destroys slot.layout slot.unbounded
      (.of_unwrapped (unwrapped_of_sum slot.fits)) (headed.possesses slot List.mem_cons_self)).1
    have destroyed := (destroyMessageMemory_value slot.conf slot.type ⟨core, behind⟩ slot.msg).2
    rw [destroyed]
    refine ⟨fun other member _ different q inside => ?_, fun other member _ q inside => ?_⟩
    · have later : other ∈ rest := by
        rcases List.mem_cons.mp (among.mem_iff.mp member) with rfl | later
        · exact absurd rfl (different _)
        · exact later
      have outside := Set.disjoint_right.mp (headed.footprints later) inside
      exact destroys.kept q (notNull_of_alive (alive_of_mem sound.toSound member inside))
        (fun here => outside (Or.inl here)) fun freed => outside (Or.inr freed)
    · have alive := (old_block sound.toSound (sound.old_of_mem member inside)).2
      have outside := Set.disjoint_left.mp
        (sound.disjoint member (among.mem_iff.mpr List.mem_cons_self)) inside
      exact destroys.kept q (notNull_of_alive alive) (fun here => outside (Or.inl here))
        fun freed => outside (Or.inr freed)
  | discard slot among => exact ⟨fun _ _ _ _ _ _ => rfl, fun _ _ _ _ _ => rfl⟩
  | @measure core live placed conf type behind behind' =>
    obtain ⟨-, memory, -⟩ := measured_core conf type core behind behind'
    exact ⟨fun _ _ _ _ q _ => by rw [memory], fun _ _ _ q _ => by rw [memory]⟩

/-- A message stays in its list until it is destroyed or discarded. -/
theorem Step.stays (step : Step x event y) :
    (∀ slot ∈ x.live, (∀ answer, event ≠ .destroyed slot answer) → slot ∈ y.live) ∧
      ∀ slot ∈ x.placed, event ≠ .discarded slot → slot ∈ y.placed := by
  cases step with
  | create slot => exact ⟨fun other member _ => List.mem_cons_of_mem slot member, fun _ member _ => member⟩
  | createStatic slot =>
    refine ⟨fun _ member _ => member, fun other member _ => ?_⟩
    dsimp only
    split
    · exact List.mem_cons_of_mem slot member
    · exact member
  | destroy slot behind among =>
    refine ⟨fun other member different => ?_, fun _ member _ => member⟩
    rcases List.mem_cons.mp (among.mem_iff.mp member) with rfl | later
    · exact absurd rfl (different _)
    · exact later
  | discard slot among =>
    refine ⟨fun _ member _ => member, fun other member different => ?_⟩
    rcases List.mem_cons.mp (among.mem_iff.mp member) with rfl | later
    · exact absurd rfl different
    · exact later
  | change | changeStatic | measure => exact ⟨fun _ member _ => member, fun _ member _ => member⟩

theorem Sound.isolated_step (sound : Sound start x) (step : Step x event y) : Isolated [event] x y := by
  obtain ⟨bytes, bytesStatic⟩ := sound.bytes step
  obtain ⟨stays, staysStatic⟩ := step.stays
  refine ⟨fun slot member survives => ?_, fun slot member kept => ?_⟩
  · have survives' (answer : Bool) : event ≠ .destroyed slot answer := fun same =>
      survives answer (List.mem_singleton.mpr same.symm)
    refine ⟨stays slot member survives', ?_, fun unchanged => ?_⟩
    · -- The message that was changed keeps its data pointers, and every other one keeps its bytes.
      by_cases changed : event = .changed slot
      · subst changed
        cases step with
        | change slot among m keeps within => exact keeps
      · exact keepsPointers_of_bytes (sound.possesses slot member) (bytes slot member changed survives')
    · exact bytes slot member (fun same => unchanged (List.mem_singleton.mpr same.symm)) survives'
  · refine ⟨staysStatic slot member fun same => kept (List.mem_singleton.mpr same.symm), fun unchanged => ?_⟩
    exact bytesStatic slot member fun same => unchanged (List.mem_singleton.mpr same.symm)

/-- A run, from a sound state on. -/
theorem Sound.run (sound : Sound start x) (run : Run x events y) :
    Sound start y ∧ (∀ event ∈ events, event.Answered) ∧ Isolated events x y := by
  induction run with
  | done x =>
    refine ⟨sound, List.forall_mem_nil _, ?_, ?_⟩
    · exact fun slot member _ => ⟨member, MemberList.SamePointers.refl _ _ _ _ _, fun _ _ _ => rfl⟩
    · exact fun slot member _ => ⟨member, fun _ _ _ => rfl⟩
  | @next x y z event events step run ih =>
    have here := sound.isolated_step step
    obtain ⟨sound', answered, later⟩ := ih (sound.step step)
    refine ⟨sound', List.forall_mem_cons.mpr ⟨sound.answered step, answered⟩, ?_, ?_⟩
    · intro slot member survives
      obtain ⟨member', keeps, bytes⟩ := here.live slot member fun answer first =>
        survives answer (List.mem_cons.mpr (Or.inl (List.mem_singleton.mp first)))
      obtain ⟨member'', keeps', bytes'⟩ := later.live slot member' fun answer among =>
        survives answer (List.mem_cons_of_mem _ among)
      refine ⟨member'', MemberList.SamePointers.trans keeps keeps', fun unchanged q inside => ?_⟩
      have owns : slot.owned y.core.memory = slot.owned x.core.memory := MemberList.SamePointers.releases keeps
      have inside' : q ∈ slot.footprint y.core.memory := by
        rw [MessageSlot.footprint, MessageSlot.blocks, owns]
        exact inside
      rw [bytes' (fun among => unchanged (List.mem_cons_of_mem _ among)) q inside']
      exact bytes (fun first => unchanged (List.mem_cons.mpr (Or.inl (List.mem_singleton.mp first)))) q inside
    · intro slot member kept
      obtain ⟨member', bytes⟩ := here.placed slot member fun first =>
        kept (List.mem_cons.mpr (Or.inl (List.mem_singleton.mp first)))
      obtain ⟨member'', bytes'⟩ := later.placed slot member' fun among => kept (List.mem_cons_of_mem _ among)
      refine ⟨member'', fun unchanged q inside => ?_⟩
      rw [bytes' (fun among => unchanged (List.mem_cons_of_mem _ among)) q inside]
      exact bytes (fun first => unchanged (List.mem_cons.mpr (Or.inl (List.mem_singleton.mp first)))) q inside

theorem Sound.initial (grants : core.heap.Grants) : Sound core.heap (⟨core, [], []⟩ : MixedSession target) :=
  ⟨Session.Sound.initial target grants, by simp, by simp, .nil⟩

end MixedSession

/-- Messages with blocks and messages in buffers, created, changed, destroyed and discarded in any order with
any size queries in between: every call has the answer that the program waits for, every message that exists
possesses what it refers to, and the blocks that are alive are those of the start and those of the messages. -/
theorem mixedSessions_sound (core : Core) (grants : core.heap.Grants) (session : MixedSession target)
    (events : List (SessionEvent target)) (run : MixedSession.Run ⟨core, [], []⟩ events session) :
    (∀ event ∈ events, event.Answered) ∧ (∀ slot ∈ session.live, slot.Possesses session.core) ∧
      (Session.blocks session.core session.live).Nodup ∧
      ∀ b, session.core.heap.extent b ≠ none ↔
        core.heap.extent b ≠ none ∨ b ∈ Session.blocks session.core session.live := by
  obtain ⟨sound, answered, -⟩ := (MixedSession.Sound.initial grants).run run
  refine ⟨answered, sound.possesses, sound.nodup, fun b => ?_⟩
  by_cases held : b ∈ Session.blocks session.core session.live
  · exact iff_of_true (sound.own b held).2 (Or.inr held)
  · rw [sound.others b held]
    exact ⟨Or.inl, fun either => either.resolve_right held⟩

/-- Two messages and a buffer in the first objects of an application. -/
def mixedStart : Core := ((((Core.boot fun _ _ => true).allocate 1 16).2.allocate 1 16).2.allocate 1 200).2

/-- `MultiArrayLayout` in the second object, with the third as its buffer. -/
def multiArrayStaticSlot : StaticSlot cortexM :=
  ⟨boardDefault, multiArrayLayout cortexM, ⟨.object 1 1, 0⟩, ⟨.object 1 2, 0⟩, 200, multiArrayLayout_layout,
    multiArrayLayout_unbounded, by decide, by decide⟩

/-- The message in the buffer is created and the other one next to it, which is then destroyed. -/
theorem mixedStart_runs : ∃ before events session later,
    MixedSession.Run (⟨mixedStart, [], []⟩ : MixedSession cortexM) before session ∧
      multiArrayStaticSlot ∈ session.placed ∧ multiArraySlot ∈ session.live ∧
      MixedSession.Run session events later ∧ later.live = [] := by
  have apart : Disjoint multiArraySlot.span multiArrayStaticSlot.footprint := by
    refine Set.disjoint_left.mpr fun q here there => ?_
    rcases StaticSlot.block_of_mem there with same | same
    · exact absurd (here.1.symm.trans same) (by decide)
    · exact absurd (here.1.symm.trans same) (by decide)
  refine ⟨_, _, _, _, .next (.createStatic multiArrayStaticSlot (fun _ _ => 0) ?_ ?_ ?_ ?_ ?_ ?_)
    (.next (.create multiArraySlot (fun _ _ => 0) ?_ ?_ ?_ ?_) (.done _)), ?_, List.mem_cons_self,
    .next (.destroy multiArraySlot (fun _ _ => 0) (List.Perm.refl _)) (.done _), rfl⟩
  · decide
  · decide
  · intro i _ j _ same
    have blocks := congrArg Pointer.block same
    rw [Pointer.plus_block, Pointer.plus_block] at blocks
    exact absurd blocks (by decide)
  · exact ⟨List.not_mem_nil, List.not_mem_nil⟩
  · exact List.forall_mem_nil _
  · exact List.forall_mem_nil _
  · decide +kernel
  · exact List.forall_mem_nil _
  · exact List.not_mem_nil
  · rw [if_pos (by decide)]
    exact List.forall_mem_singleton.mpr apart
  · rw [if_pos (by decide)]
    exact List.mem_cons_self

theorem mixedSessions_sound_multiArray : ∃ events session,
    MixedSession.Run (⟨mixedStart, [], []⟩ : MixedSession cortexM) events session ∧
      multiArraySlot ∈ session.live ∧ multiArrayStaticSlot ∈ session.placed ∧
      (∀ event ∈ events, event.Answered) ∧ (∀ slot ∈ session.live, slot.Possesses session.core) ∧
      (Session.blocks session.core session.live).Nodup ∧
      ∀ b, session.core.heap.extent b ≠ none ↔
        mixedStart.heap.extent b ≠ none ∨ b ∈ Session.blocks session.core session.live := by
  obtain ⟨before, _, session, _, run, placed, live, _⟩ := mixedStart_runs
  exact ⟨before, session, run, live, placed,
    mixedSessions_sound mixedStart (fun _ _ => rfl) session before run⟩

/-- However a session goes on, a message with blocks keeps its data pointers until it is destroyed, and no byte
of a message of either kind is changed unless the program changes that message. -/
theorem mixedSessions_isolated (core : Core) (grants : core.heap.Grants) (session later : MixedSession target)
    (before events : List (SessionEvent target)) (run : MixedSession.Run ⟨core, [], []⟩ before session)
    (run' : MixedSession.Run session events later) : MixedSession.Isolated events session later :=
  (((MixedSession.Sound.initial grants).run run).1.run run').2.2

theorem mixedSessions_isolated_multiArray : ∃ before events session later,
    MixedSession.Run (⟨mixedStart, [], []⟩ : MixedSession cortexM) before session ∧
      multiArrayStaticSlot ∈ session.placed ∧ multiArraySlot ∈ session.live ∧
      MixedSession.Run session events later ∧ later.live = [] ∧ MixedSession.Isolated events session later := by
  obtain ⟨before, events, session, later, run, placed, live, run', empty⟩ := mixedStart_runs
  exact ⟨before, events, session, later, run, placed, live, run', empty,
    mixedSessions_isolated mixedStart (fun _ _ => rfl) session later before events run run'⟩

end MicroRos
