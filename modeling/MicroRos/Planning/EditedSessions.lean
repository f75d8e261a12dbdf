import MicroRos.Planning.StringEdits
import MicroRos.Planning.MixedSessions

/-! Messages whose strings are edited with the string utilities.

The strings of a message that was created with the default allocator are passed to the string
utilities between the calls for whole messages. The messages then hold other blocks than those
that were obtained for them, and destroying a message gives back the ones that it holds.
-/

set_option autoImplicit false

namespace MicroRos

open Memory (Pointer Contents Block Heap Byte)

variable {target : Target}

namespace MessageSlot

variable {slot : MessageSlot target} {w w' : Core} {header : Pointer}

/-- Where the strings of the message stand. -/
def strings (slot : MessageSlot target) (m : Contents) : List Pointer :=
  slot.type.members.strings slot.conf.getConfiguration m slot.msg .empty

/-- What happens elsewhere leaves the bytes and the lengths of all that belongs to a message. -/
structure Spared (slot : MessageSlot target) (w w' : Core) : Prop where
  memory : ∀ q ∈ slot.footprint w.memory, w'.memory q = w.memory q
  extent : ∀ b, b = slot.msg.block ∨ b ∈ slot.blocks w.memory → w'.heap.extent b = w.heap.extent b

theorem Possesses.alive (possesses : slot.Possesses w) : w.heap.extent slot.msg.block ≠ none := by
  obtain ⟨size, found, _⟩ := possesses.live
  exact ne_of_eq_of_ne (Option.mem_def.mp found) (Option.some_ne_none size)

theorem Possesses.place (possesses : slot.Possesses w) (member : header ∈ slot.strings w.memory) :
    StringPlace target slot.conf.owner w.heap w.memory slot.type.members slot.msg (slot.owned w.memory) header :=
  MemberList.place possesses.held member

theorem Possesses.string_footprint (possesses : slot.Possesses w) (member : header ∈ slot.strings w.memory)
    {q : Pointer} (inside : q ∈ headerSpan target header) : q ∈ slot.footprint w.memory := by
  rcases (possesses.place member).inside with spans | inBlock
  · exact Or.inl (heads_span (spans q inside))
  · refine Or.inr ?_
    rw [block_of_headerSpan inside]
    exact inBlock

theorem Possesses.strings_apart (possesses : slot.Possesses w) :
    slot.type.members.StringsApart slot.conf.getConfiguration w.memory slot.msg .empty :=
  MemberList.strings_apart possesses.held possesses.nodup possesses.apart

/-- A message that is spared has the same strings, with the same texts. -/
theorem Possesses.spared (possesses : slot.Possesses w) (spared : slot.Spared w w') :
    slot.strings w'.memory = slot.strings w.memory ∧ ∀ header ∈ slot.strings w.memory, ∀ text,
      StringText target w header text → StringText target w' header text := by
  constructor
  · refine MemberList.SamePointers.strings (MemberList.SamePointers.of_agree possesses.held fun q _ among => ?_)
    exact spared.memory q (among.imp (fun head => heads_span head) id)
  · intro header member text spelled
    refine spelled.congr (fun q inside => spared.memory q (possesses.string_footprint member inside)) fun notNull => ?_
    have inBlock := (possesses.place member).data_block notNull
    exact ⟨spared.extent _ (Or.inr inBlock), fun q same => spared.memory q (Or.inr (same ▸ inBlock))⟩

end MessageSlot

theorem nodup_replace {α : Type} {earlier later : List α} {old new : α} (nodup : (earlier ++ old :: later).Nodup)
    (fresh : new = old ∨ new ∉ earlier ++ old :: later) : (earlier ++ new :: later).Nodup := by
  rcases fresh with rfl | absent
  · exact nodup
  · have rest : (old :: (earlier ++ later)).Nodup := List.perm_middle.nodup_iff.mp nodup
    refine List.perm_middle.nodup_iff.mpr (List.nodup_cons.mpr ⟨fun inside => absent ?_, rest.of_cons⟩)
    rw [List.mem_append, List.mem_cons]
    exact (List.mem_append.mp inside).imp id Or.inr

namespace Session

section Edits

variable {start : Heap} {core core' : Core} {rest : List (MessageSlot target)} {slot : MessageSlot target}
  {header p p' : Pointer} {w' : StringHeap}

theorem Sound.old_mem (sound : Sound start core (slot :: rest)) (member : header ∈ slot.strings core.memory)
    (replaces : Replaces target slot.conf.owner header p p' core core') : p.block ∈ slot.blocks core.memory := by
  have inBlock := ((sound.possesses slot List.mem_cons_self).place member).data_block
    (by rw [replaces.before]; exact replaces.notNull)
  rwa [replaces.before] at inBlock

theorem Sound.edit_spares (sound : Sound start core (slot :: rest)) (member : header ∈ slot.strings core.memory)
    (replaces : Replaces target slot.conf.owner header p p' core core')
    (confined : Confined p.block p'.block core.strings w') {other : MessageSlot target} (later : other ∈ rest) :
    other.Spared core core' := by
  have possesses := sound.possesses slot List.mem_cons_self
  have oldHere := sound.old_mem member replaces
  have separate := Set.disjoint_left.mp (sound.footprints later)
  have notOld (q : Pointer) (inside : q ∈ other.footprint core.memory) : q.block ≠ p.block :=
    fun same => separate (Or.inr (same ▸ oldHere)) inside
  have isOther : other ∈ slot :: rest := List.mem_cons_of_mem _ later
  refine ⟨fun q inside => replaces.kept q (fun here => ?_) ?_, fun b among => ?_⟩
  · exact separate (possesses.string_footprint member here) inside
  · exact confined.ne_new (notOld q inside) (MixedSession.alive_of_mem sound isOther inside)
  · have apart : b ≠ p.block := by
      rintro rfl
      rcases among with here | there
      · exact sound.outside other isOther (here ▸ blocks_head oldHere)
      · exact notOld ⟨p.block, 0⟩ (Or.inr there) rfl
    have live : core.heap.extent b ≠ none := by
      rcases among with rfl | there
      · exact (sound.possesses other isOther).alive
      · exact (sound.own b (blocks_tail later there)).2
    exact replaces.extent b apart (confined.ne_new apart live)

/-- The message itself. -/
theorem Sound.edit_regrows (sound : Sound start core (slot :: rest)) (member : header ∈ slot.strings core.memory)
    (replaces : Replaces target slot.conf.owner header p p' core core')
    (confined : Confined p.block p'.block core.strings w') :
    Regrows slot.conf.getConfiguration slot.conf.owner header p p' core core' slot.type.members slot.msg .empty := by
  have possesses := sound.possesses slot List.mem_cons_self
  have oldHere := sound.old_mem member replaces
  refine regrows replaces slot.layout.1 slot.unbounded (.of_unwrapped (unwrapped_of_sum slot.fits)) possesses.held
    ⟨possesses.nodup, possesses.apart, ?_, ?_⟩ member
  · have apart : slot.msg.block ≠ p.block := by
      intro same
      rw [← same] at oldHere
      exact possesses.apart oldHere
    exact (confined.ne_new apart possesses.alive).symm
  · by_cases same : p'.block = p.block
    · exact Or.inl same
    · refine Or.inr fun inside => ?_
      exact confined.ne_new same (sound.own _ (blocks_head inside)).2 rfl

/-- One block of all those that the messages hold is another. -/
theorem Sound.edit_blocks (sound : Sound start core (slot :: rest)) (member : header ∈ slot.strings core.memory)
    (replaces : Replaces target slot.conf.owner header p p' core core')
    (confined : Confined p.block p'.block core.strings w') :
    (blocks core' (slot :: rest)).Nodup ∧
      ∀ b, b ∈ blocks core' (slot :: rest) ↔ b = p'.block ∨ b ∈ blocks core (slot :: rest) ∧ b ≠ p.block := by
  obtain ⟨-, ⟨earlier, later, released, released'⟩, -, -⟩ := sound.edit_regrows member replaces confined
  have newNull : p'.block ≠ .null := by
    obtain ⟨number, isObject⟩ := replaces.isObject
    simp [isObject]
  have owned : slot.owned core.memory = earlier ++ p :: later := released
  have owned' : slot.owned core'.memory = earlier ++ p' :: later := released'
  -- The others hold the same blocks, and in this message one pointer is exchanged.
  have rests : blocks core' rest = blocks core rest := blocks_congr fun other isLater =>
    ((sound.possesses other (List.mem_cons_of_mem _ isLater)).preserved
      (fun q _ => (sound.edit_spares member replaces confined isLater).memory q)
      (sound.edit_spares member replaces confined isLater).extent).2
  have all : blocks core (slot :: rest) =
      MicroRos.blocks earlier ++ p.block :: (MicroRos.blocks later ++ blocks core rest) := by
    simp [blocks_cons, MessageSlot.blocks, owned, MicroRos.blocks, replaces.notNull]
  have all' : blocks core' (slot :: rest) =
      MicroRos.blocks earlier ++ p'.block :: (MicroRos.blocks later ++ blocks core rest) := by
    simp [blocks_cons, MessageSlot.blocks, owned', MicroRos.blocks, newNull, rests]
  have fresh : p'.block = p.block ∨ p'.block ∉ blocks core (slot :: rest) := by
    by_cases same : p'.block = p.block
    · exact Or.inl same
    · exact Or.inr fun inside => confined.ne_new same (sound.own _ inside).2 rfl
  have nodup := sound.nodup
  rw [all] at nodup fresh ⊢
  rw [all']
  refine ⟨nodup_replace nodup fresh, fun b => ?_⟩
  have once := List.nodup_cons.mp (List.perm_middle.nodup_iff.mp nodup)
  simp only [List.mem_append, List.mem_cons] at once ⊢
  by_cases isOld : b = p.block
  · rw [not_or, not_or] at once
    simp [isOld, once.1]
  · simp only [isOld, false_or, ne_eq, not_false_eq_true, and_true]
    exact or_left_comm

/-- Editing a string of a message keeps the invariant. -/
theorem Sound.edit (sound : Sound start core (slot :: rest)) (member : header ∈ slot.strings core.memory)
    (replaces : Replaces target slot.conf.owner header p p' core core')
    (confined : Confined p.block p'.block core.strings w') (heap : core'.heap = w'.heap) :
    Sound start core' (slot :: rest) := by
  have possesses := sound.possesses slot List.mem_cons_self
  have oldHere : p.block ∈ blocks core (slot :: rest) := blocks_head (sound.old_mem member replaces)
  obtain ⟨nodup, mem_iff⟩ := sound.edit_blocks member replaces confined
  have outside : ∀ other ∈ slot :: rest, other.msg.block ≠ p.block ∧ other.msg.block ≠ p'.block := by
    intro other among
    have notOld : other.msg.block ≠ p.block := fun same => sound.outside other among (same ▸ oldHere)
    exact ⟨notOld, confined.ne_new notOld (sound.possesses other among).alive⟩
  have outsideNew : ∀ other ∈ slot :: rest, other.msg.block ∉ blocks core' (slot :: rest) := by
    intro other among inside
    rcases (mem_iff _).mp inside with isNew | ⟨held, -⟩
    · exact (outside other among).2 isNew
    · exact sound.outside other among held
  refine ⟨heap ▸ confined.grants, heap ▸ Nat.le_trans sound.fresh confined.fresh, List.forall_mem_cons.mpr ⟨?_, ?_⟩,
    sound.apart, nodup, outsideNew, fun b absent => ?_, fun b present => ?_⟩
  · obtain ⟨size, found, fits⟩ := possesses.live
    obtain ⟨notOld, notNew⟩ := outside slot List.mem_cons_self
    refine ⟨⟨size, (replaces.extent _ notOld notNew).trans found, fits⟩,
      (sound.edit_regrows member replaces confined).held, ?_, fun inside =>
      outsideNew slot List.mem_cons_self (blocks_head inside)⟩
    rw [blocks_cons] at nodup
    exact (List.nodup_append.mp nodup).1
  · intro other isLater
    have spared := sound.edit_spares member replaces confined isLater
    exact ((sound.possesses other (List.mem_cons_of_mem _ isLater)).preserved (fun q _ => spared.memory q)
      spared.extent).1
  -- The old block is free again, unless the string kept it.
  · rw [mem_iff, not_or, not_and_not_right] at absent
    by_cases isOld : b = p.block
    · rcases confined.block with same | ⟨_, dead⟩
      · exact absurd (isOld.trans same.symm) absent.1
      · rw [isOld, (sound.own _ oldHere).1, heap]
        exact dead
    · exact (replaces.extent b isOld absent.1).trans (sound.others b fun inside => isOld (absent.2 inside))
  · rcases (mem_iff b).mp present with rfl | ⟨held, notOld⟩
    · exact ⟨confined.new_dead sound.fresh (sound.own _ oldHere).1, replaces.live⟩
    · obtain ⟨notStart, live⟩ := sound.own b held
      exact ⟨notStart, by rwa [replaces.extent b notOld (confined.ne_new notOld live)]⟩

end Edits

end Session

namespace MixedSession

variable {start : Heap} {x y : MixedSession target} {event : SessionEvent target}

/-- A message that is there behind a step is new, was changed, or was spared. -/
theorem Sound.spares (sound : Sound start x) (step : Step x event y) {slot : MessageSlot target}
    (member : slot ∈ y.live) :
    slot ∈ x.live ∧ slot.Spared x.core y.core ∨ event = .changed slot ∨ ∃ answer, event = .created slot answer := by
  have bytes := (sound.bytes step).1
  have alive (other : MessageSlot target) (among : other ∈ x.live) (b : Block)
      (here : b = other.msg.block ∨ b ∈ other.blocks x.core.memory) : x.core.heap.extent b ≠ none := by
    rcases here with rfl | held
    · exact (sound.possesses other among).alive
    · exact (sound.own b (Session.mem_blocks_iff.mpr ⟨other, among, held⟩)).2
  cases step with
  | @create core live placed new behind backed apart outside clear =>
    rcases List.mem_cons.mp member with rfl | older
    · exact Or.inr (Or.inr ⟨_, rfl⟩)
    · refine Or.inl ⟨older, bytes slot older (by rintro ⟨⟩) (by rintro _ ⟨⟩), fun b among => ?_⟩
      rw [(createMessageMemory_value new.conf new.type ⟨core, behind⟩ new.msg).2]
      obtain ⟨numbers, obtains⟩ := Core.create_obtains new.conf new.type new.msg core
      refine obtains.others b fun inside => ?_
      obtain ⟨number, isNumber, rfl⟩ := mem_blocks_objects.mp inside
      exact alive slot older _ among (core.heap.freshDead _ number (obtains.numbered number isNumber).1)
  | createStatic new behind message backed apart outside clear separate =>
    have heap := (new.creates message backed apart).2.1
    refine Or.inl ⟨member, bytes slot member (by rintro ⟨⟩) (by rintro _ ⟨⟩), fun b _ => ?_⟩
    rw [(createStaticMessageMemory_value new.conf new.type ⟨_, behind⟩ new.msg new.buffer new.bufferLen).2, heap]
  | change changed among m keeps within =>
    by_cases same : slot = changed
    · exact Or.inr (Or.inl (by rw [same]))
    · refine Or.inl ⟨member, bytes slot member (fun isEvent => same ?_) (by rintro _ ⟨⟩), fun _ _ => rfl⟩
      cases isEvent
      rfl
  | changeStatic changed among m within =>
    exact Or.inl ⟨member, bytes slot member (by rintro ⟨⟩) (by rintro _ ⟨⟩), fun _ _ => rfl⟩
  | @destroy core live rest placed destroyed behind among =>
    have headed := sound.toSound.perm among
    have older : slot ∈ live := among.mem_iff.mpr (List.mem_cons_of_mem _ member)
    have reached := (destroyMessageMemory_value destroyed.conf destroyed.type ⟨core, behind⟩ destroyed.msg).2
    have destroys := (Core.destroy_destroys destroyed.layout destroyed.unbounded
      (.of_unwrapped (unwrapped_of_sum destroyed.fits)) (headed.possesses destroyed List.mem_cons_self)).1
    have separate := Set.disjoint_left.mp (headed.footprints member)
    refine Or.inl ⟨older, fun q inside => ?_, fun b here => ?_⟩
    · rw [reached]
      refine destroys.kept q (notNull_of_alive (alive_of_mem sound.toSound older inside)) (fun span => ?_)
        fun freed => ?_
      · exact separate (Or.inl span) inside
      · exact separate (Or.inr freed) inside
    · rw [reached, destroys.extent, if_neg]
      rintro freed
      rcases here with rfl | held
      · exact headed.outside slot (List.mem_cons_of_mem _ member) (Session.blocks_head freed)
      · exact separate (a := ⟨b, 0⟩) (Or.inr freed) (Or.inr held)
  | discard discarded among =>
    exact Or.inl ⟨member, bytes slot member (by rintro ⟨⟩) (by rintro _ ⟨⟩), fun _ _ => rfl⟩
  | @measure core live placed conf type behind behind' =>
    have heap := (measured_core conf type core behind behind').1
    exact Or.inl ⟨member, bytes slot member (by rintro ⟨⟩) (by rintro _ ⟨⟩), fun _ _ => by rw [heap]⟩

end MixedSession

/-- The strings of a new message. -/
theorem MessageSlot.create_spelled {slot : MessageSlot target} {w : Core} (grants : w.heap.Grants)
    (placed : w.heap.Backed slot.msg slot.type.info.sizeOf) {header : Pointer} :
    let created := (w.create slot.conf slot.type slot.msg).2
    header ∈ slot.strings created.memory →
      StringText target created header (RuntimeString.load target created.memory header).planned := by
  intro created member
  obtain ⟨_, _, built, _⟩ := (Core.create_builds slot.conf slot.layout slot.unbounded grants placed).finished
  exact MemberList.Built.spelled (unwrapped_of_sum slot.fits) built member

/-- The messages of a program, and the texts that it put into their strings. -/
structure EditedSession (target : Target) where
  messages : MixedSession target
  texts : Pointer → Option CString

namespace EditedSession

/-- The texts behind a step. The strings of a new message are empty, and a program that changes a message puts
texts into its strings or leaves those that are there. -/
def Follows (event : SessionEvent target) (core : Core) (texts texts' : Pointer → Option CString) : Prop :=
  match event with
  | .created slot _ => ∀ header, texts' header =
      if header ∈ slot.strings core.memory then (RuntimeString.load target core.memory header).planned else texts header
  | .changed slot => ∀ header,
      (header ∈ slot.strings core.memory → StringText target core header (texts' header)) ∧
        (header ∉ slot.strings core.memory → texts' header = texts header)
  | _ => texts' = texts

/-- Besides what is done to whole messages, a string of a message with blocks of the default allocator is passed
to a utility. -/
inductive Step : EditedSession target → EditedSession target → Prop where
  | message {x y : MixedSession target} {event : SessionEvent target} {texts texts' : Pointer → Option CString}
      (step : MixedSession.Step x event y) (follows : Follows event y.core texts texts') : Step ⟨x, texts⟩ ⟨y, texts'⟩
  | edit {core : Core} {live : List (MessageSlot target)} {placed : List (StaticSlot target)}
      {texts : Pointer → Option CString} (slot : MessageSlot target) (among : slot ∈ live)
      (default : slot.conf.owner = 0) (header : Pointer) (member : header ∈ slot.strings core.memory) (text : CString)
      (found : texts header = some text) (call : StringCall) (proper : call.Proper text)
      (roomy : call.Roomy text (RuntimeString.load target core.memory header).capacity)
      (fits : call.capacityAfter text (RuntimeString.load target core.memory header).capacity < target.modulus) :
      Step ⟨⟨core, live, placed⟩, texts⟩
        ⟨⟨core.editString target header call, live, placed⟩, Function.update texts header (some (call.applyTo text))⟩

/-- The session of messages is sound, and every string has its text. -/
structure Sound (start : Heap) (x : EditedSession target) : Prop where
  messages : x.messages.Sound start
  texts : ∀ slot ∈ x.messages.live, ∀ header ∈ slot.strings x.messages.core.memory,
    StringText target x.messages.core header (x.texts header)

variable {start : Heap} {x y : EditedSession target}

/-- A string of a message that a step spared has its text. -/
theorem Sound.spared (sound : Sound start x) {core : Core} {slot : MessageSlot target} (older : slot ∈ x.messages.live)
    (spared : slot.Spared x.messages.core core) {header : Pointer} (member : header ∈ slot.strings core.memory) :
    StringText target core header (x.texts header) := by
  obtain ⟨same, spelled⟩ := (sound.messages.possesses slot older).spared spared
  rw [same] at member
  exact spelled header member _ (sound.texts slot older header member)

theorem Sound.message {x y : MixedSession target} {event : SessionEvent target}
    {texts texts' : Pointer → Option CString} (sound : Sound start ⟨x, texts⟩) (step : MixedSession.Step x event y)
    (follows : Follows event y.core texts texts') : Sound start ⟨y, texts'⟩ := by
  refine ⟨sound.messages.step step, fun slot among header member => ?_⟩
  change StringText target y.core header (texts' header)
  -- Only a message that is new or that was changed needs more than that it was spared.
  have which := sound.messages.spares step among
  cases event with
  | created new answer =>
    have created : texts' header = _ := follows header
    rw [created]
    split
    next here =>
      cases step with
      | create new behind backed =>
        simp only [(createMessageMemory_value new.conf new.type ⟨_, behind⟩ new.msg).2] at here ⊢
        exact MessageSlot.create_spelled sound.messages.grants backed here
    next elsewhere =>
      rcases which with ⟨older, spared⟩ | isEvent | ⟨_, isEvent⟩
      · exact sound.spared older spared member
      · cases isEvent
      · cases isEvent
        exact absurd member elsewhere
  | changed changed =>
    by_cases here : header ∈ changed.strings y.core.memory
    · exact (follows header).1 here
    · rw [(follows header).2 here]
      rcases which with ⟨older, spared⟩ | isEvent | ⟨_, isEvent⟩
      · exact sound.spared older spared member
      · cases isEvent
        exact absurd member here
      · cases isEvent
  | createdStatic | changedStatic | destroyed | discarded | measured =>
    have same : texts' = texts := follows
    rw [same]
    rcases which with ⟨older, spared⟩ | isEvent | ⟨_, isEvent⟩
    · exact sound.spared older spared member
    · cases isEvent
    · cases isEvent

theorem Sound.edit {core : Core} {live : List (MessageSlot target)} {placed : List (StaticSlot target)}
    {texts : Pointer → Option CString} (sound : Sound start ⟨⟨core, live, placed⟩, texts⟩) {slot : MessageSlot target}
    (among : slot ∈ live) (default : slot.conf.owner = 0) {header : Pointer}
    (member : header ∈ slot.strings core.memory) {text : CString} (found : texts header = some text) {call : StringCall}
    (proper : call.Proper text) (roomy : call.Roomy text (RuntimeString.load target core.memory header).capacity)
    (fits : call.capacityAfter text (RuntimeString.load target core.memory header).capacity < target.modulus) :
    Sound start ⟨⟨core.editString target header call, live, placed⟩,
      Function.update texts header (some (call.applyTo text))⟩ := by
  obtain ⟨earlier, later, rfl⟩ := List.append_of_mem among
  have headed : Session.Sound start core (slot :: (earlier ++ later)) := sound.messages.toSound.perm List.perm_middle
  have possesses := headed.possesses slot List.mem_cons_self
  have spelled : StringText target core header (texts header) := sound.texts slot among header member
  rw [found] at spelled
  have place := possesses.place member
  have keeps : (RuntimeString.load target core.memory header).Keeps text core.strings := spelled
  have outside := possesses.strings_apart header member header member keeps.ne_null
  obtain ⟨replaces, confined, here⟩ := Core.editString_replaces (default ▸ place.held) keeps headed.grants proper roomy
    fits outside
  rw [← default] at replaces
  have regrows := headed.edit_regrows member replaces confined
  refine ⟨⟨(headed.edit member replaces confined rfl).perm List.perm_middle.symm, sound.messages.old,
    sound.messages.clear, sound.messages.separate⟩, fun other isOther header' member' => ?_⟩
  change StringText target (core.editString target header call) header'
    (Function.update texts header (some (call.applyTo text)) header')
  -- The string of the call, another string of the same message, or one of another message.
  by_cases same : header' = header
  · rw [same, Function.update_self]
    exact here
  · rw [Function.update_of_ne same]
    rcases List.mem_cons.mp (List.perm_middle.mem_iff.mp isOther) with rfl | isLater
    · have stands : header' ∈ other.strings core.memory := by
        have strings : other.strings _ = other.strings core.memory := regrows.strings
        rwa [strings] at member'
      obtain ⟨bytes, apart⟩ := regrows.others header' stands same
      refine (sound.texts other isOther header' stands).congr bytes fun notNull => ?_
      obtain ⟨notOld, notNew⟩ := apart notNull
      refine ⟨replaces.extent _ notOld notNew, fun q inBlock =>
        replaces.kept q (fun inside => ?_) (inBlock ▸ notNew)⟩
      have headerApart := possesses.strings_apart header member header' stands notNull
      exact headerApart ((block_of_headerSpan inside).symm.trans inBlock)
    · exact sound.spared isOther (headed.edit_spares member replaces confined isLater) member'

/-- One step keeps the invariant. -/
theorem Sound.step (sound : Sound start x) (step : Step x y) : Sound start y := by
  cases step with
  | message step follows => exact sound.message step follows
  | edit slot among default header member text found call proper roomy fits =>
    exact sound.edit among default member found proper roomy fits

/-- Any number of steps keeps the invariant. -/
theorem Sound.steps (sound : Sound start x) (steps : Relation.ReflTransGen Step x y) : Sound start y := by
  induction steps with
  | refl => exact sound
  | tail _ step ih => exact ih.step step

end EditedSession

/-- In any run in which messages are created, changed, edited with the string utilities and destroyed, every string
has the text that the program put there, and a further call for it accesses live blocks only if and only if it is
roomy. Each message can be destroyed, which gives back the blocks that it has now, and no block is lost by an edit. -/
theorem editedSessions_texts (core : Core) (grants : core.heap.Grants) (x : EditedSession target)
    (run : Relation.ReflTransGen EditedSession.Step ⟨⟨core, [], []⟩, fun _ => none⟩ x) :
    let w := x.messages.core
    (∀ slot ∈ x.messages.live,
      (∀ header ∈ slot.strings w.memory,
        StringText target w header (x.texts header) ∧ ∀ text ∈ x.texts header, ∀ call : StringCall, call.Proper text →
          let str := RuntimeString.load target w.memory header
          ((∀ event ∈ w.strings.since (call.run str w.strings).2, event.Within) ↔ call.Roomy text str.capacity)) ∧
      ∀ behind : Nat → Nat → Byte,
        let destroyed := destroyMessageMemory target (valueStrings target) slot.conf slot.type slot.msg ⟨w, behind⟩
        destroyed.1 = true ∧ releasedBy (w.since destroyed.2.core) = slot.owned w.memory ∧
          ∀ event ∈ w.since destroyed.2.core, event.Sound) ∧
    (Session.blocks w x.messages.live).Nodup ∧
    ∀ b, (b ∈ Session.blocks w x.messages.live → core.heap.extent b = none ∧ w.heap.extent b ≠ none) ∧
      (b ∉ Session.blocks w x.messages.live → w.heap.extent b = core.heap.extent b) := by
  intro w
  have initial : EditedSession.Sound core.heap (⟨⟨core, [], []⟩, fun _ => none⟩ : EditedSession target) :=
    ⟨⟨Session.Sound.initial target grants, by simp, by simp, .nil⟩, by simp⟩
  have sound := initial.steps run
  have messages := sound.messages
  refine ⟨fun slot member => ⟨fun header inMessage => ?_, fun behind => ?_⟩, messages.nodup, fun b =>
    ⟨messages.own b, messages.others b⟩⟩
  · have spelled := sound.texts slot member header inMessage
    refine ⟨spelled, fun text found call proper => ?_⟩
    rw [Option.mem_def.mp found] at spelled
    exact StringCall.run_within call spelled messages.grants proper
  · obtain ⟨success, reached⟩ := destroyMessageMemory_value slot.conf slot.type ⟨w, behind⟩ slot.msg
    obtain ⟨destroys, _⟩ := Core.destroy_destroys slot.layout slot.unbounded
      (.of_unwrapped (unwrapped_of_sum slot.fits)) (messages.possesses slot member)
    obtain ⟨events, log, released, every⟩ := destroys.logged
    intro destroyed
    have since : w.since destroyed.2.core = events := by
      rw [reached]
      exact Core.since_of_log log
    rw [since]
    exact ⟨success.trans (Core.destroy_succeeds _ _ _ _), released, every⟩

/-- More characters than a string has room for with the default configuration. -/
def thirtyDots : CString := ⟨List.replicate 30 46, by decide⟩

/-- The label of the second dimension is set to them, so that its block is enlarged. -/
theorem editedSessions_texts_multiArray : ∃ header, ∃ x : EditedSession cortexM,
    Relation.ReflTransGen EditedSession.Step ⟨⟨mixedStart, [], []⟩, fun _ => none⟩ x ∧
      header ∈ multiArraySlot.strings x.messages.core.memory ∧
      StringText cortexM x.messages.core header (some thirtyDots) ∧
      ∀ b, (b ∈ Session.blocks x.messages.core x.messages.live →
          mixedStart.heap.extent b = none ∧ x.messages.core.heap.extent b ≠ none) ∧
        (b ∉ Session.blocks x.messages.core x.messages.live →
          x.messages.core.heap.extent b = mixedStart.heap.extent b) := by
  let label : Pointer := ⟨.object 0 3, 20⟩
  let created := (createMessageMemory cortexM (valueStrings cortexM) boardDefault (multiArrayLayout cortexM)
    ⟨.object 1 0, 0⟩ ⟨mixedStart, fun _ _ => 0⟩).2.core
  let texts (header : Pointer) : Option CString :=
    if header ∈ multiArraySlot.strings created.memory then (RuntimeString.load cortexM created.memory header).planned
    else none
  let edited := created.editString cortexM label (.set thirtyDots)
  have creates : EditedSession.Step ⟨⟨mixedStart, [], []⟩, fun _ => none⟩ ⟨⟨created, [multiArraySlot], []⟩, texts⟩ := by
    refine .message (.create multiArraySlot (fun _ _ => 0) ?_ ?_ ?_ ?_) fun _ => rfl
    · decide +kernel
    · exact List.forall_mem_nil _
    · exact List.not_mem_nil
    · exact List.forall_mem_nil _
  have edits : EditedSession.Step ⟨⟨created, [multiArraySlot], []⟩, texts⟩
      ⟨⟨edited, [multiArraySlot], []⟩, Function.update texts label (some thirtyDots)⟩ := by
    refine .edit multiArraySlot List.mem_cons_self rfl label ?_ .empty ?_ (.set thirtyDots) trivial ?_ ?_
    · decide +kernel
    · decide +kernel
    · have room : (RuntimeString.load cortexM created.memory label).capacity = 20 := by decide +kernel
      rw [room]
      exact show thirtyDots.text.length ≠ 20 by decide
    · decide +kernel
  have run := (Relation.ReflTransGen.single creates).tail edits
  obtain ⟨every, -, blocks⟩ := editedSessions_texts mixedStart (fun _ _ => rfl) _ run
  have member : label ∈ multiArraySlot.strings edited.memory := by decide +kernel
  have spelled : StringText cortexM edited label (Function.update texts label (some thirtyDots) label) :=
    ((every multiArraySlot List.mem_cons_self).1 label member).1
  rw [Function.update_self] at spelled
  exact ⟨label, _, run, member, spelled, blocks⟩

end MicroRos
