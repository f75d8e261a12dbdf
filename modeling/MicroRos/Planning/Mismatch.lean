import MicroRos.Planning.Undoing

/-! Destroying a message under another configuration than it was created with.

Without sequences of messages the headers are the same under every configuration, so destroying
releases what creation obtained; only the byte count that it returns is computed from the
configuration that it is given.
-/

set_option autoImplicit false

namespace MicroRos

open Memory (Pointer Contents Byte)

variable {target : Target}

theorem Field.single_of_not_declared {field : Field} (single : field.declaredSequence = false) :
    field.isSequence = false ∧ field.isBounded = false := by
  rw [Bool.eq_false_iff, ne_eq, Field.declaredSequence_iff, not_or] at single
  simpa using single

namespace MemberList

/-- No member is a sequence of messages, with a bound or without one, here or in a nested type. -/
def NoMessageSequence : MemberList → Prop
  | .nil => True
  | .basic _ _ rest => rest.NoMessageSequence
  | .message _ members field rest =>
    field.declaredSequence = false ∧ members.NoMessageSequence ∧ rest.NoMessageSequence

variable {list : MemberList}

theorem NoMessageSequence.messages (noSequence : list.NoMessageSequence) : list.NoBoundedMessage := by
  induction list with
  | nil => trivial
  | basic type field rest ih => exact ih noSequence
  | message info members field rest ihMembers ih =>
    obtain ⟨single, inner, later⟩ := noSequence
    exact ⟨(Field.single_of_not_declared single).2, ihMembers inner, ih later⟩

theorem NoMessageSequence.flat (noSequence : list.NoMessageSequence) (conf : MemoryConf target)
    (path : CString) : list.Flat conf path := by
  induction list generalizing path with
  | nil => trivial
  | basic type field rest ih => exact ih noSequence path
  | message info members field rest ihMembers ih =>
    obtain ⟨single, inner, later⟩ := noSequence
    have notSequence := (Field.single_of_not_declared single).1
    exact ⟨fun sequence => absurd sequence (by simp [notSequence]), fun _ => ihMembers inner _, ih later path⟩

/-- The data pointers to release do not depend on the configuration. -/
theorem NoMessageSequence.releases_congr (noSequence : list.NoMessageSequence) (conf conf' : MemoryConf target)
    (m : Contents) (msg : Pointer) (path path' : CString) :
    list.releases conf m msg path = list.releases conf' m msg path' := by
  induction list generalizing msg path path' with
  | nil => rfl
  | basic type field rest ih => simp only [releases, ih noSequence msg path path']
  | message info members field rest ihMembers ih =>
    obtain ⟨single, inner, later⟩ := noSequence
    have notSequence := (Field.single_of_not_declared single).1
    simp only [releases, notSequence, Bool.false_eq_true, if_false]
    rw [ihMembers inner _ _ (path'.child field.name), ih later msg path path']

/-- Data pointers outside of what was written are the same. -/
theorem NoMessageSequence.releases_kept (noSequence : list.NoMessageSequence) (conf : MemoryConf target)
    {m m' : Contents} {msg : Pointer} (path : CString)
    (kept : ∀ q ∈ heads target list msg, m' q = m q) :
    list.releases conf m' msg path = list.releases conf m msg path := by
  have loads : ∀ header, headerSpan target header ⊆ heads target list msg →
      m'.loadPointer target.word header = m.loadPointer target.word header := by
    intro header inside
    apply Contents.loadPointer_congr target.word_pos
    intro i bound
    apply kept _ (inside (mem_headerSpan.mpr ⟨i, ?_, rfl⟩))
    simp only [Target.headerSize]
    omega
  induction list generalizing msg path with
  | nil => rfl
  | basic type field rest ih =>
    rw [heads_basic] at kept loads
    simp only [releases]
    rw [ih noSequence path (fun q later => kept q (Or.inr later))
      fun header inside => loads header fun q here => Or.inr (inside here)]
    split
    next header =>
      rw [if_pos header] at loads
      rw [loads _ fun q here => Or.inl here]
    next plain => rfl
  | message info members field rest ihMembers ih =>
    obtain ⟨single, inner, later⟩ := noSequence
    have notSequence := (Field.single_of_not_declared single).1
    rw [heads_message, notSequence] at kept loads
    simp only [Bool.false_eq_true, if_false] at kept loads
    simp only [releases, notSequence, Bool.false_eq_true, if_false]
    rw [ihMembers inner _ (fun q here => kept q (Or.inl here))
        fun header inside => loads header fun q here => Or.inl (inside here),
      ih later path (fun q here => kept q (Or.inr here))
        fun header inside => loads header fun q here => Or.inr (inside here)]

end MemberList

/-- Between the two states these pointers were released, by whatever allocator, and nothing was
written but `part`. -/
def Releases (part : Set Pointer) (released : List Pointer) (w w' : Core) : Prop :=
  (∀ q ∉ part, w'.memory q = w.memory q) ∧
    ∃ events, w'.log = w.log ++ events ∧ releasedBy events = released

namespace Releases

variable {part others : Set Pointer} {released later : List Pointer} {w w' w'' : Core}

theorem seq (one : Releases part released w w') (two : Releases others later w' w'') :
    Releases (part ∪ others) (released ++ later) w w'' := by
  obtain ⟨kept, events, log, these⟩ := one
  obtain ⟨kept', events', log', those⟩ := two
  refine ⟨fun q outside => ?_, events ++ events', by rw [log', log, List.append_assoc], ?_⟩
  · rw [kept' q fun inside => outside (Or.inr inside), kept q fun inside => outside (Or.inl inside)]
  · rw [releasedBy_append, these, those]

theorem of_logs {w w' : Core} (same : ∀ q ∉ part, w'.memory q = w.memory q)
    (logs : Core.Logs (fun event => ∀ p, event ≠ .released p) w w') : Releases part [] w w' := by
  obtain ⟨events, log, none⟩ := logs
  refine ⟨same, events, log, List.filterMap_eq_nil_iff.mpr fun event member => ?_⟩
  have notReleased := none event member
  cases event with
  | released p => exact absurd rfl (notReleased p)
  | _ => rfl

end Releases

/-- The end of one header: its data pointer is released and its counts are cleared. -/
theorem Core.tearDownHeader_releases (w : Core) (owner : Nat) (site : Site) (header : Pointer) :
    Releases (headerSpan target header) [w.memory.loadPointer target.word header] w
      (w.tearDownHeader target owner .destroy site header) := by
  have loaded : Releases (headerSpan target header) [] w (w.touch header target.word) :=
    .of_logs (fun _ _ => by simp) (Logs.touch (by simp) header target.word w)
  have checked (w : Core) (data : Pointer) : Releases (headerSpan target header) [] w (w.checkRelease owner data) := by
    apply Releases.of_logs (by simp)
    unfold checkRelease
    split
    · exact Logs.refl w
    · exact Logs.record (by simp) w
  have gone (w : Core) (data : Pointer) : Releases (headerSpan target header) [data] (w.checkRelease owner data)
      (w.deallocate owner data) := ⟨fun _ _ => rfl, [.released data], rfl, rfl⟩
  have counted (w : Core) : Releases (headerSpan target header) [] w
      ((w.storeCounts target header 0).record (.cleared site header)) := by
    refine .of_logs (fun q outside => ?_) ((Logs.storeCounts target (by simp) header 0 w).trans
      (Logs.record (by simp) _))
    have words : ∀ i, i + target.word ≤ target.headerSize → ¬ (header.plus i).Spans target.word q :=
      fun i fits inside => outside (inside.within fits)
    simp only [record_memory, storeCounts_memory]
    rw [Contents.storeSize_outside _ _ _ (words _ (by simp only [Target.headerSize]; omega)),
      Contents.storeSize_outside _ _ _ (words _ (by simp only [Target.headerSize]; omega))]
  have whole := ((loaded.seq (checked _ (w.memory.loadPointer target.word header))).seq (gone _ _)).seq
    (counted _)
  simp only [Set.union_self, List.nil_append, List.append_nil] at whole
  exact whole

/-- Under whatever configuration, destroying releases the data pointer of every header. -/
theorem MemberList.NoMessageSequence.destroy_releases {list : MemberList} {size : Nat}
    (noSequence : list.NoMessageSequence) (layout : list.Layout target size) (conf : MemoryConf target)
    (msg : Pointer) (path : CString) (stack : List Step) (index used : Nat) (w : Core) :
    Releases (heads target list msg) (list.releases conf w.memory msg path) w
      (traverse conf .destroy list msg path stack index used w).2 := by
  induction list generalizing size msg path stack index used w with
  | nil => exact .of_logs (fun _ _ => rfl) (Core.Logs.refl w)
  | basic type field rest ih =>
    obtain ⟨_, clear, restLayout⟩ := layout
    have later : rest.NoMessageSequence := noSequence
    rw [heads_basic]
    simp only [traverse, MemberList.releases]
    split
    next header =>
      have planned : Releases ∅ [] w
          (w.record (.resolved ⟨stack, index⟩ (conf.basicCapacity path type field))) :=
        .of_logs (fun _ _ => rfl) (Core.Logs.record (by simp) w)
      have torn := planned.seq (@Core.tearDownHeader_releases target _ conf.owner ⟨stack, index⟩
        (msg.plus field.offset))
      simp only [Set.empty_union, List.nil_append, Core.record_memory] at torn
      have apart : Disjoint (headerSpan target (msg.plus field.offset)) (heads target rest msg) :=
        heads_apart restLayout later.messages clear
          (headerSpan_inside msg field.offset (header_le_basicExtent target header))
      have same := later.releases_kept conf path fun q there =>
        torn.1 q (Set.disjoint_right.mp apart there)
      rw [← same]
      exact torn.seq (ih later restLayout msg path stack (index + 1) _ _)
    next plain =>
      simp only [Set.empty_union, List.nil_append]
      exact ih later restLayout msg path stack (index + 1) used w
  | message info members field rest ihMembers ih =>
    obtain ⟨_, clear, _, membersLayout, restLayout⟩ := layout
    obtain ⟨single, inner, later⟩ := noSequence
    obtain ⟨notSequence, notBounded⟩ := Field.single_of_not_declared single
    rw [heads_message]
    simp only [traverse, MemberList.releases, notSequence, Bool.false_eq_true, if_false]
    have nested := ihMembers inner membersLayout (msg.plus field.offset) (path.child field.name)
      (stack ++ [.inline index]) 0 0 w
    have apart : Disjoint (heads target members (msg.plus field.offset)) (heads target rest msg) :=
      heads_apart restLayout later.messages clear (heads_inside membersLayout inner.messages
        (size_le_inlineExtent target info notSequence notBounded) msg field.offset)
    have same := later.releases_kept conf path fun q there =>
      nested.1 q (Set.disjoint_right.mp apart there)
    rw [← same]
    exact nested.seq (ih later restLayout msg path stack (index + 1) _ _)

/-- Sizes of the requests that were granted, in order. -/
def grantedSizes (events : List Event) : List Nat :=
  events.filterMap fun
    | .requested size answer => if answer = .null then none else some size
    | _ => none

/-- The bytes that were requested for the block at `p`. -/
def requestedFor (events : List Event) (p : Pointer) : Nat :=
  (events.map fun
    | .requested size answer => if answer = p then size else 0
    | _ => 0).sum

theorem requestedFor_cons (event : Event) (events : List Event) (p : Pointer) :
    requestedFor (event :: events) p = requestedFor [event] p + requestedFor events p := by
  simp [requestedFor]

theorem requestedFor_of_not_mem {events : List Event} {p : Pointer} (notNull : p ≠ .null)
    (fresh : p ∉ obtained events) : requestedFor events p = 0 := by
  induction events with
  | nil => rfl
  | cons event events ih =>
    rw [requestedFor_cons]
    have split : obtained (event :: events) = obtained [event] ++ obtained events :=
      obtained_append [event] events
    rw [split, List.mem_append, not_or] at fresh
    rw [ih fresh.2, Nat.add_zero]
    cases event with
    | requested size answer =>
      have other : answer ≠ p := by
        rintro rfl
        exact fresh.1 (by simp [obtained, notNull])
      simp [requestedFor, other]
    | _ => rfl

/-- Each block was requested once, so the blocks account for every granted byte. -/
theorem sum_requestedFor {events : List Event} (nodup : (obtained events).Nodup) :
    ((obtained events).map (requestedFor events)).sum = (grantedSizes events).sum := by
  induction events with
  | nil => rfl
  | cons event events ih =>
    have split : obtained (event :: events) = obtained [event] ++ obtained events :=
      obtained_append [event] events
    rw [split] at nodup ⊢
    obtain ⟨_, later, apart⟩ := List.nodup_append.mp nodup
    have rest : ((obtained events).map (requestedFor (event :: events))).sum =
        (grantedSizes events).sum := by
      rw [← ih later]
      congr 1
      apply List.map_congr_left
      intro p member
      have none : requestedFor [event] p = 0 := by
        cases event with
        | requested size answer =>
          have other : answer ≠ p := by
            rintro rfl
            have notNull : answer ≠ .null := by
              rintro rfl
              obtain ⟨event, _, isNull⟩ := List.mem_filterMap.mp member
              cases event <;> simp at isNull
            exact apart answer (by simp [obtained, notNull]) answer member rfl
          simp [requestedFor, other]
        | _ => rfl
      rw [requestedFor_cons, none, Nat.zero_add]
    rw [List.map_append, List.sum_append, rest]
    cases event with
    | requested size answer =>
      by_cases isNull : answer = .null
      · simp [obtained, grantedSizes, isNull]
      · have fresh : answer ∉ obtained events := fun member =>
          apart answer (by simp [obtained, isNull]) answer member rfl
        have own : requestedFor (.requested size answer :: events) answer = size := by
          rw [requestedFor_cons, requestedFor_of_not_mem isNull fresh]
          simp [requestedFor]
        simp [obtained, grantedSizes, isNull, own]
    | _ => exact Nat.zero_add _

/-- What creation counts is at most what it was granted, and that is at most what it should ask for. -/
def Tallied (target : Target) (visits : List Visit) (used : Nat) (w : Core) (result : Nat) (w' : Core) : Prop :=
  ∃ events, w'.log = w.log ++ events ∧
    (used + (visits.map Visit.bytes).sum < target.modulus →
      result ≤ used + (grantedSizes events).sum ∧
        (grantedSizes events).sum ≤ (visits.map Visit.bytes).sum)

theorem grantedSizes_silent {events : List Event} (silent : ∀ event ∈ events, event.Silent) :
    grantedSizes events = [] := by
  apply List.filterMap_eq_nil_iff.mpr
  intro event member
  have quiet := silent event member
  cases event with
  | requested | stored => exact quiet.elim
  | _ => rfl

theorem grantedSizes_append (events later : List Event) :
    grantedSizes (events ++ later) = grantedSizes events ++ grantedSizes later := List.filterMap_append

namespace Tallied

theorem of_silent (used : Nat) {w w' : Core} (logs : Core.Logs Event.Silent w w') :
    Tallied target [] used w used w' := by
  obtain ⟨events, log, silent⟩ := logs
  exact ⟨events, log, fun _ => by simp [grantedSizes_silent silent]⟩

theorem trans {visits later : List Visit} {used used' used'' : Nat} {w w' w'' : Core}
    (first : Tallied target visits used w used' w') (second : Tallied target later used' w' used'' w'') :
    Tallied target (visits ++ later) used w used'' w'' := by
  obtain ⟨events, log, tally⟩ := first
  obtain ⟨events', log', tally'⟩ := second
  refine ⟨events ++ events', by rw [log', log, List.append_assoc], fun fits => ?_⟩
  simp only [List.map_append, List.sum_append, grantedSizes_append] at fits ⊢
  have here := tally (by omega)
  have there := tally' (by omega)
  omega

theorem nested {visits : List Visit} {result : Nat} {w w' : Core} (used : Nat)
    (inner : Tallied target visits 0 w result w') :
    Tallied target visits used w (target.add used result) w' := by
  obtain ⟨events, log, tally⟩ := inner
  refine ⟨events, log, fun fits => ?_⟩
  have here := tally (by omega)
  rw [Target.add_of_lt (by omega)]
  omega

end Tallied

theorem tallyingRule (conf : MemoryConf target) :
    VisitRule conf .create AnyFrame fun visits _ => Tallied target visits where
  toFrameRule := anyFrame conf .create
  refl used w := .of_silent used (Core.Logs.refl w)
  trans := .trans
  nested used inner := .nested used inner
  plan {_ _ _ _ _ _ capacity memberSize} _ _ used w bytes after planned := by
    obtain ⟨rfl, data, noise, _, notNull, silent, log⟩ := Core.planHeader_create_some planned
    refine ⟨_, log, fun fits => ?_⟩
    have counted : (grantedSizes noise).sum = 0 := by rw [grantedSizes_silent silent]; rfl
    have exact' : target.mul capacity memberSize = capacity * memberSize :=
      Target.mul_of_lt (by simp [Visit.bytes] at fits; omega)
    simp only [Visit.bytes, List.map_cons, List.map_nil, List.sum_cons, List.sum_nil] at fits ⊢
    rw [exact', Target.add_of_lt (by omega)]
    simp only [grantedSizes] at counted
    simp [grantedSizes, List.filterMap_append, notNull, counted]
  refuse _ _ missed _ used w after planned := by
    obtain ⟨_, noise, silent, log⟩ := Core.planHeader_create_none planned
    refine ⟨_, log, fun _ => ⟨Nat.zero_le _, ?_⟩⟩
    have none := grantedSizes_silent silent
    simp only [grantedSizes] at none
    simp [grantedSizes, List.filterMap_append, none]
  load header used w := .of_silent used (Core.Logs.elementData (fun _ _ => trivial) .create header w)
  tear _ _ used w := .of_silent used (Core.Logs.refl w)

namespace Core

variable {conf : MemoryConf target} {type : MessageMembers} {msg : Pointer} {w : Core}

/-- A creation that succeeds was granted what it asked for. -/
theorem create_granted (fits : dynamicRequirement conf type < target.modulus)
    (success : (w.create conf type msg).1 = true) :
    (grantedSizes (w.since (w.create conf type msg).2)).sum = dynamicRequirement conf type := by
  obtain ⟨early, log, silent⟩ := prepareDynamic_silent conf type msg w
  obtain ⟨events, log', tally⟩ := (tallyingRule conf.getConfiguration).runOver type msg trivial
    (w.prepareDynamic conf type msg)
  rw [plannedVisits_bytes, Nat.zero_add] at tally
  have bounds := tally fits
  rw [create, dynamicSize_eq, Nat.mod_eq_of_lt fits, beq_iff_eq] at success
  change (planOver conf .create type msg (w.prepareDynamic conf type msg)).1 = _ at success
  have since : w.since (w.create conf type msg).2 = early ++ events := by
    apply since_of_log
    rw [← List.append_assoc, ← log]
    exact log'
  rw [since, grantedSizes_append, grantedSizes_silent silent, List.nil_append]
  rw [success, Nat.zero_add] at bounds
  exact Nat.le_antisymm bounds.2 bounds.1

/-- Destroying a message releases the data pointers that it has. -/
theorem destroy_releases (layout : type.Layout target) (noSequence : type.members.NoMessageSequence) :
    releasedBy (w.since (w.destroy conf type msg).2) = owned conf type msg w.memory := by
  have sized : Releases ∅ [] w (w.dynamicSize conf type).2 :=
    .of_logs (by simp) ((dynamicSize_quiet conf type w).2.mono (by rintro _ ⟨_, _, rfl⟩; simp))
  have released := noSequence.destroy_releases layout.1 conf.getConfiguration msg .empty [] 0 0
    (w.dynamicSize conf type).2
  have cleared (w : Core) : Releases {q | msg.Spans type.info.sizeOf q} [] w (w.fillZero msg type.info.sizeOf) :=
    .of_logs (fun _ outside => Contents.fillZero_outside _ outside) (Logs.fillZero (by simp) _ _ w)
  have whole : Releases _ _ w (w.destroy conf type msg).2 := (sized.seq released).seq (cleared _)
  obtain ⟨_, events, log, these⟩ := whole
  rw [since_of_log log, these, dynamicSize_memory, List.nil_append, List.append_nil]
  rfl

end Core

/-- Destroying reports success whatever it released. -/
theorem Core.destroy_detects_iff (conf conf' : MemoryConf target) {type : MessageMembers}
    (layout : type.Layout target) (noSequence : type.members.NoMessageSequence) (msg : Pointer)
    {core later : Core} (live : core.heap.Backed msg type.info.sizeOf)
    (keeps : KeepsPointers conf type msg (core.create conf type msg).2.memory later.memory) (size : Nat) :
    let requests := core.since (core.create conf type msg).2
    let destroyed := later.destroy conf' type msg
    (destroyed.1 = true ↔ ((freed (later.since destroyed.2)).map (requestedFor requests)).sum = size) ↔
      (grantedSizes requests).sum = size := by
  dsimp only
  rw [Core.destroy_succeeds]
  have these : freed (later.since (later.destroy conf' type msg).2) =
      obtained (core.since (core.create conf type msg).2) := by
    obtain ⟨_, numbers, _, all, held⟩ := Core.create_attempted layout noSequence.messages
      (noSequence.flat conf.getConfiguration _) live
    have same : owned conf' type msg later.memory = owned conf type msg (core.create conf type msg).2.memory :=
      (noSequence.releases_congr _ _ _ _ _ _).trans (MemberList.SamePointers.releases keeps)
    rw [freed, Core.destroy_releases layout noSequence, same, held, all]
  have nodup : (obtained (core.since (core.create conf type msg).2)).Nodup := by
    obtain ⟨numbers, obtains⟩ := Core.create_obtains conf type msg core
    obtain ⟨events, log, got, -⟩ := obtains.logged
    rw [Core.since_of_log log, got]
    exact obtains.nodup.map fun _ _ same => by simpa using same
  rw [these, sum_requestedFor nodup]
  simp

/-- A message is created, its data pointers are kept, and it is destroyed under another configuration. The calls
use their name trees as they should, and the result of the last one says whether the released bytes are those
that its configuration needs, if and only if the name trees are served and the creation obtained as many bytes;
one that succeeds obtains the dynamic size of its own configuration. -/
theorem destroy_detects_mismatch_iff (conf conf' : MemoryConf target) {type : MessageMembers}
    (layout : type.Layout target) (noSequence : type.members.NoMessageSequence) (msg : Pointer)
    {core later : Core} (s s' s'' : StringHeap) (live : core.heap.Backed msg type.info.sizeOf)
    (keeps : KeepsPointers conf type msg
      (createMessageMemory target (heapStrings target) conf type msg ⟨core, s⟩).2.core.memory later.memory) :
    let created := createMessageMemory target (heapStrings target) conf type msg ⟨core, s⟩
    let destroyed := destroyMessageMemory target (heapStrings target) conf' type msg ⟨later, s'⟩
    let sized := getDynamicSize target (heapStrings target) conf' type ⟨later, s''⟩
    let requests := core.since created.2.core
    let released := freed (later.since destroyed.2.core)
    (Lifetimes (s.since created.2.scratch) ∧ Lifetimes (s'.since destroyed.2.scratch) ∧
        Lifetimes (s''.since sized.2.scratch) ∧
        (destroyed.1 = true ↔ (released.map (requestedFor requests)).sum = sized.1) ↔
      s.Serves ((PlannerCall.create msg).demands conf type core) ∧
        s'.Serves ((PlannerCall.destroy msg).demands conf' type later) ∧
        s''.Serves (PlannerCall.getDynamicSize.demands conf' type later) ∧
        (grantedSizes requests).sum = dynamicRequirement conf' type % target.modulus) ∧
    (s.Serves ((PlannerCall.create msg).demands conf type core) → created.1 = true →
      dynamicRequirement conf type < target.modulus →
      (grantedSizes requests).sum = dynamicRequirement conf type) := by
  intro created destroyed sized requests released
  have creates := createMessageMemory_ends conf type core s msg
  constructor
  · apply creates.lifetimes_and_iff
    rintro ⟨-, reached⟩
    apply (destroyMessageMemory_ends conf' type later s' msg).lifetimes_and_iff
    rintro ⟨answer', reached'⟩
    apply (getDynamicSize_ends conf' type later s'').lifetimes_and_iff
    rintro ⟨size, -⟩
    rw [reached] at keeps
    simp only [released, requests, created, destroyed, sized, reached, answer', reached', size, Core.dynamicSize_eq]
    exact Core.destroy_detects_iff conf conf' layout noSequence msg live keeps _
  · intro served success fits
    obtain ⟨answer, reached⟩ := creates.of_served served
    simp only [requests, created, reached]
    exact Core.create_granted fits (answer.symm.trans success)

/-- A rule for the label of a `MultiArrayDimension`. -/
def labelCharacters (characters : cortexM.SizeT) : MemoryConf cortexM :=
  { boardDefault with rules := [⟨.ofString "label", fun _ => 0, characters⟩] }

/-- A label of 20 bytes is destroyed for labels of 30, and that reports success. -/
theorem mismatch_not_detected :
    let core := ((Core.boot fun _ _ => true).allocate 1 20).2
    let created := createMessageMemory cortexM (heapStrings cortexM) (labelCharacters ⟨20, by decide⟩)
      (multiArrayDimension cortexM) ⟨.object 1 0, 0⟩ ⟨core, .boot fun _ => false⟩
    let destroyed := destroyMessageMemory cortexM (heapStrings cortexM) (labelCharacters ⟨30, by decide⟩)
      (multiArrayDimension cortexM) ⟨.object 1 0, 0⟩ created.2
    let sized := getDynamicSize cortexM (heapStrings cortexM) (labelCharacters ⟨30, by decide⟩)
      (multiArrayDimension cortexM) created.2
    let sum := ((freed (created.2.core.since destroyed.2.core)).map (requestedFor (core.since created.2.core))).sum
    created.1 = true ∧ destroyed.1 = true ∧ sum = 20 ∧ sized.1 = 30 ∧
      ¬ (destroyed.1 = true ↔ sum = sized.1) := by
  decide +kernel

theorem destroy_detects_mismatch_iff_multiArrayDimension :
    let conf := labelCharacters ⟨20, by decide⟩
    let conf' := labelCharacters ⟨30, by decide⟩
    let core := ((Core.boot fun _ _ => true).allocate 1 20).2
    let s := StringHeap.boot fun _ => false
    let created := createMessageMemory cortexM (heapStrings cortexM) conf (multiArrayDimension cortexM)
      ⟨.object 1 0, 0⟩ ⟨core, s⟩
    let destroyed := destroyMessageMemory cortexM (heapStrings cortexM) conf' (multiArrayDimension cortexM)
      ⟨.object 1 0, 0⟩ ⟨created.2.core, s⟩
    let sized := getDynamicSize cortexM (heapStrings cortexM) conf' (multiArrayDimension cortexM)
      ⟨created.2.core, s⟩
    let requests := core.since created.2.core
    let released := freed (created.2.core.since destroyed.2.core)
    (Lifetimes (s.since created.2.scratch) ∧ Lifetimes (s.since destroyed.2.scratch) ∧
        Lifetimes (s.since sized.2.scratch) ∧
        (destroyed.1 = true ↔ (released.map (requestedFor requests)).sum = sized.1) ↔
      s.Serves ((PlannerCall.create ⟨.object 1 0, 0⟩).demands conf (multiArrayDimension cortexM) core) ∧
        s.Serves ((PlannerCall.destroy ⟨.object 1 0, 0⟩).demands conf' (multiArrayDimension cortexM)
          created.2.core) ∧
        s.Serves (PlannerCall.getDynamicSize.demands conf' (multiArrayDimension cortexM) created.2.core) ∧
        (grantedSizes requests).sum =
          dynamicRequirement conf' (multiArrayDimension cortexM) % cortexM.modulus) ∧
    (s.Serves ((PlannerCall.create ⟨.object 1 0, 0⟩).demands conf (multiArrayDimension cortexM) core) →
      created.1 = true → dynamicRequirement conf (multiArrayDimension cortexM) < cortexM.modulus →
      (grantedSizes requests).sum = dynamicRequirement conf (multiArrayDimension cortexM)) :=
  destroy_detects_mismatch_iff _ _ multiArrayDimension_layout
    (by simp [multiArrayDimension, MemberList.NoMessageSequence]) _ _ _ _ (by decide)
    (MemberList.SamePointers.refl _ _ _ _ _)

end MicroRos
