import MicroRos.Planning.BufferRefinement
import MicroRos.Planning.Footprint
import MicroRos.Planning.Instances
import MicroRos.Planning.RuleResolution

/-! Whether a header that is written belongs to the instance it is written to.

The headers that a run writes are those that the planner means, and all of them as long as no
memory is refused. They are headers of their instances exactly when the planner's view of the
type agrees with the declarations wherever it leads to a header.
-/

set_option autoImplicit false

namespace MicroRos

open Memory (Pointer Byte Contents)

variable {target : Target}

/-- The header that is written is the one that the planner means. -/
def HeaderPlanned (target : Target) (root : MemberList) (start : Pointer) (event : Event) : Prop :=
  ∀ site header, event.header? = some (site, header) → ∃ list base member,
    root.plannedAt target start site.stack = some (list, base) ∧
    list.get? site.member = some member ∧ member.HasHeader ∧ header = base.plus member.field.offset

/-- The header that is written belongs to a string or sequence member of the instance. -/
def OwnHeader (root : MemberList) (start : Pointer) (event : Event) : Prop :=
  ∀ site header, event.header? = some (site, header) → ∃ list base member,
    root.instanceAt start site.stack = some (list, base) ∧
    list.get? site.member = some member ∧ member.Declared ∧ header = base.plus member.field.offset

def PlannedFrame (target : Target) (root : MemberList) (start : Pointer) (list : MemberList)
    (msg : Pointer) (_ : CString) (stack : List Step) (index : Nat) : Prop :=
  ∃ reached, root.plannedAt target start stack = some (reached, msg) ∧ reached.drop index = list

theorem plannedFrame {operation : Operation} (writes : operation.calculates = false)
    (conf : MemoryConf target) (root : MemberList) (start : Pointer) :
    FrameRule conf operation (PlannedFrame target root start) where
  next := by
    rintro list msg path stack index ⟨reached, found, dropped⟩
    refine ⟨reached, found, ?_⟩
    cases list with
    | nil => exact MemberList.drop_succ_of_nil dropped
    | basic _ _ _ => exact (MemberList.get?_of_drop_basic dropped).2
    | message _ _ _ _ => exact (MemberList.get?_of_drop_message dropped).2
  inline := by
    rintro info members field rest msg path stack index ⟨reached, found, dropped⟩ single
    have here := (MemberList.get?_of_drop_message dropped).1
    refine ⟨members, ?_, members.drop_zero⟩
    simp [MemberList.plannedAt_append, found, MemberList.plannedAt, here, single]
  element := by
    rintro info members field rest msg path stack index data j ⟨reached, found, dropped⟩ sequence _
    have here := (MemberList.get?_of_drop_message dropped).1
    refine ⟨members, ?_, members.drop_zero⟩
    simp [MemberList.plannedAt_append, found, MemberList.plannedAt, here, sequence, Core.elementAddress,
      writes]

theorem headerPlanned_of_frame {conf : MemoryConf target} {root list : MemberList}
    {start msg : Pointer} {path : CString} {stack : List Step} {index capacity memberSize : Nat}
    {field : Field} (frame : PlannedFrame target root start list msg path stack index)
    (header : HeaderOf conf path list field capacity memberSize) {event : Event}
    (written : event.header? = some (⟨stack, index⟩, msg.plus field.offset)) :
    HeaderPlanned target root start event := by
  obtain ⟨reached, found, dropped⟩ := frame
  intro site address same
  rw [written] at same
  cases same
  cases header with
  | basic isHeader =>
    exact ⟨reached, msg, _, found, (MemberList.get?_of_drop_basic dropped).1, isHeader, rfl⟩
  | message sequence =>
    exact ⟨reached, msg, _, found, (MemberList.get?_of_drop_message dropped).1, sequence, rfl⟩

theorem headerPlanned_of_none {root : MemberList} {start : Pointer} {event : Event}
    (none : event.header? = none) : HeaderPlanned target root start event := by
  intro site header found
  rw [none] at found
  cases found

theorem plannedRule {operation : Operation} (writes : operation.calculates = false)
    (conf : MemoryConf target) (root : MemberList) (start : Pointer) :
    TraversalRule conf operation (PlannedFrame target root start)
      (Core.Logs (HeaderPlanned target root start)) where
  toFrameRule := plannedFrame writes conf root start
  refl := Core.Logs.refl
  trans := Core.Logs.trans
  plan frame header w := Core.Logs.planHeader conf operation
    (fun _ _ => headerPlanned_of_none rfl) (fun _ _ => headerPlanned_of_none rfl)
    (fun _ _ => headerPlanned_of_none rfl) (headerPlanned_of_none rfl)
    (fun _ _ => headerPlanned_of_frame frame header rfl) (headerPlanned_of_frame frame header rfl) _ w
  load header w := Core.Logs.elementData (fun _ _ => headerPlanned_of_none rfl) operation header w
  tear frame header w := Core.Logs.tearDownHeader (fun _ _ => headerPlanned_of_none rfl)
    (fun _ => headerPlanned_of_none rfl) (fun _ => headerPlanned_of_none rfl)
    (headerPlanned_of_frame frame header rfl) conf.owner operation w

/-- The headers written by a run over a type. -/
structure HeadersWritten (conf : MemoryConf target) (type : MessageMembers) (msg : Pointer)
    (events : List Event) : Prop where
  planned : ∀ event ∈ events, HeaderPlanned target type.members msg event
  only : ∀ event ∈ events, ∀ site header, event.header? = some (site, header) →
    ∃ visit ∈ plannedVisits false conf type, visit.At site

/-- Every header that the recursion should meet was written. -/
def AllWritten (conf : MemoryConf target) (type : MessageMembers) (events : List Event) : Prop :=
  ∀ visit ∈ plannedVisits false conf type, ∃ event ∈ events, ∃ site header,
    event.header? = some (site, header) ∧ visit.At site

section Runs

variable {conf : MemoryConf target} {type : MessageMembers} {msg : Pointer} {events : List Event}

theorem HeadersWritten.own (written : HeadersWritten conf type msg events)
    (owned : type.members.Owned conf.getConfiguration .empty) :
    ∀ event ∈ events, OwnHeader type.members msg event := by
  intro event member site header isHeader
  obtain ⟨visit, met, sameStack, _⟩ := written.only event member site header isHeader
  obtain ⟨list, base, here, planned, found, keeps, rfl⟩ := written.planned event member site header isHeader
  obtain ⟨marks, same, proper⟩ := owned.proper type.members.drop_zero met
  rw [List.nil_append] at same
  rw [← same, sameStack] at proper
  exact ⟨list, base, here, MemberList.instanceAt_of_proper proper planned, found, keeps.declared, rfl⟩

theorem AllWritten.owned (all : AllWritten conf type events)
    (planned : ∀ event ∈ events, HeaderPlanned target type.members msg event)
    (own : ∀ event ∈ events, OwnHeader type.members msg event) :
    type.members.Owned conf.getConfiguration .empty := by
  by_contra notOwned
  obtain ⟨visit, met, marks, same, broken⟩ :=
    MemberList.broken_of_not_owned [] 0 notOwned type.members.drop_zero
  obtain ⟨event, member, site, header, isHeader, sameStack, _⟩ := all visit met
  rw [List.nil_append] at same
  rw [← same, sameStack] at broken
  obtain ⟨list, base, here, atPlan, found, _, address⟩ := planned event member site header isHeader
  obtain ⟨list', base', here', atOwn, found', _, address'⟩ := own event member site header isHeader
  obtain ⟨rfl, differ⟩ := broken.differ atPlan atOwn
  rw [found] at found'
  cases found'
  rw [address] at address'
  have sameOffset := congrArg Pointer.offset address'
  simp only [Pointer.plus_offset] at sameOffset
  omega

theorem HeadersWritten.prepend {before : List Event} (written : HeadersWritten conf type msg events)
    (quiet : ∀ event ∈ before, event.NoHeader) : HeadersWritten conf type msg (before ++ events) where
  planned event member := (List.mem_append.mp member).elim
    (fun early => headerPlanned_of_none (quiet event early)) (written.planned event)
  only event member site header isHeader := by
    rcases List.mem_append.mp member with early | late
    · rw [quiet event early] at isHeader
      cases isHeader
    · exact written.only event late site header isHeader

theorem AllWritten.prepend (all : AllWritten conf type events) (before : List Event) :
    AllWritten conf type (before ++ events) := by
  intro visit met
  obtain ⟨event, member, here⟩ := all visit met
  exact ⟨event, List.mem_append_right _ member, here⟩

theorem planOver_headers {operation : Operation} (writes : operation.calculates = false)
    (conf : MemoryConf target) (type : MessageMembers) (msg : Pointer) (w : Core) :
    ∃ events, (planOver conf operation type msg w).2.log = w.log ++ events ∧
      HeadersWritten conf type msg events ∧ (operation.WritesAll w → AllWritten conf type events) := by
  obtain ⟨events, log, planned⟩ := (plannedRule writes conf.getConfiguration type.members msg).runOver
    type msg ⟨type.members, rfl, type.members.drop_zero⟩ w
  obtain ⟨others, log', only, all⟩ :=
    ((writtenRule conf.getConfiguration operation).runOver type msg trivial w).written
  obtain rfl : others = events := List.append_cancel_left (log'.symm.trans log)
  have order : ∀ visit, visit ∈ operation.written (plannedVisits false conf type)
      (plannedVisits true conf type) ↔ visit ∈ plannedVisits false conf type := by
    intro visit
    cases operation with
    | create | createPreallocated => exact Iff.rfl
    | destroy => exact (visits_perm true _ _ _ _ _).mem_iff
    | calculateSize | calculateSizePreallocated => cases writes
  refine ⟨others, log, ⟨planned, fun event member site header isHeader => ?_⟩, fun everything visit met => ?_⟩
  · obtain ⟨visit, met, same⟩ := only event member site header isHeader
    exact ⟨visit, (order visit).mp met, same⟩
  · exact all everything visit ((order visit).mpr met)

/-- What is known of a run from its events: which headers it wrote, that it wrote nothing else, and
the capacities. -/
structure Traced (conf : MemoryConf target) (type : MessageMembers) (msg : Pointer)
    (before after : Contents) (events : List Event) : Prop where
  headers : HeadersWritten conf type msg events
  covered : ∀ q, after q ≠ before q → ∃ event ∈ events, event.Writes target q
  resolved : ∀ event ∈ events, ResolvedEvent conf.getConfiguration type.members event

theorem planOver_traced (operation : Operation) (writes : operation.calculates = false)
    (conf : MemoryConf target) (type : MessageMembers) (msg : Pointer) (w : Core) :
    ∃ events, (planOver conf operation type msg w).2.log = w.log ++ events ∧
      Traced conf type msg w.memory (planOver conf operation type msg w).2.memory events ∧
      (operation.WritesAll w → AllWritten conf type events) := by
  obtain ⟨events, log, headers, all⟩ := planOver_headers writes conf type msg w
  obtain ⟨events', log', covered⟩ := (Core.recordedRule conf.getConfiguration operation).runOver type
    msg trivial w
  obtain ⟨others, log'', resolved⟩ := planOver_resolves conf operation type msg w
  obtain rfl : events' = events := List.append_cancel_left (log'.symm.trans log)
  obtain rfl : others = events' := List.append_cancel_left (log''.symm.trans log)
  exact ⟨others, log, ⟨headers, covered, resolved⟩, all⟩

theorem Traced.prepend {before after : Contents} {early : List Event}
    (traced : Traced conf type msg before after events)
    (quiet : ∀ event ∈ early, event.NoHeader ∧
      ResolvedEvent conf.getConfiguration type.members event) :
    Traced conf type msg before after (early ++ events) where
  headers := traced.headers.prepend fun event member => (quiet event member).1
  covered q changed := by
    obtain ⟨event, member, writes⟩ := traced.covered q changed
    exact ⟨event, List.mem_append_right _ member, writes⟩
  resolved event member := (List.mem_append.mp member).elim
    (fun first => (quiet event first).2) (traced.resolved event)

/-- Filling the message with zeros at the end adds no change. -/
theorem Traced.clear {before after : Contents} {late : List Event}
    (traced : Traced conf type msg before after events)
    (quiet : ∀ event ∈ late, event.NoHeader ∧ ResolvedEvent conf.getConfiguration type.members event)
    (size : Nat) : Traced conf type msg (before.fillZero msg size) (after.fillZero msg size)
      (events ++ late) where
  headers.planned event member := (List.mem_append.mp member).elim (traced.headers.planned event)
    fun last => headerPlanned_of_none (quiet event last).1
  headers.only event member site header isHeader := by
    rcases List.mem_append.mp member with first | last
    · exact traced.headers.only event first site header isHeader
    · rw [(quiet event last).1] at isHeader
      cases isHeader
  covered q changed := by
    obtain ⟨event, member, writes⟩ := traced.covered q fun same => changed (by
      simp only [Contents.fillZero, Contents.write, same])
    exact ⟨event, List.mem_append_left _ member, writes⟩
  resolved event member := (List.mem_append.mp member).elim (traced.resolved event)
    fun last => (quiet event last).2

/-- Size calculations write no header. -/
theorem planOver_sizing (operation : Operation) (sizes : operation.calculates = true)
    (conf : MemoryConf target) (type : MessageMembers) (w : Core) :
    Core.Logs (fun event => event.NoHeader ∧ ResolvedEvent conf.getConfiguration type.members event)
      w (planOver conf operation type .null w).2 := by
  refine Core.Logs.and ?_ (planOver_resolves conf operation type .null w)
  obtain ⟨events, log, only, _⟩ :=
    ((writtenRule conf.getConfiguration operation).runOver type .null trivial w).written
  refine ⟨events, log, fun event member => ?_⟩
  by_contra isHeader
  obtain ⟨⟨site, header⟩, found⟩ := Option.ne_none_iff_exists'.mp isHeader
  obtain ⟨visit, met, _⟩ := only event member site header found
  cases operation with
  | calculateSize | calculateSizePreallocated => cases met
  | create | createPreallocated | destroy => cases sizes

end Runs
namespace Core

variable (conf : MemoryConf target) (type : MessageMembers) (msg : Pointer) (core : Core)

theorem create_traced :
    let created := core.create conf type msg
    Traced conf type msg (core.memory.fillZero msg type.info.sizeOf) created.2.memory
        (core.since created.2) ∧
      (core.heap.Grants → AllWritten conf type (core.since created.2)) := by
  obtain ⟨early, log, quiet⟩ := (planOver_sizing .calculateSize rfl conf type core).trans
    (Logs.fillZero (fun _ _ => ⟨rfl, trivial⟩) msg type.info.sizeOf (core.dynamicSize conf type).2)
  obtain ⟨events, log', traced, all⟩ := planOver_traced .create rfl conf type msg
    ((core.dynamicSize conf type).2.fillZero msg type.info.sizeOf)
  have since : core.since (core.create conf type msg).2 = early ++ events :=
    since_of_log (by simp [create, log', log])
  simp only [since]
  refine ⟨?_, fun grants => (all ?_).prepend early⟩
  · simpa [create] using traced.prepend quiet
  · simpa [Operation.WritesAll] using grants

theorem createStatic_traced (buffer : Pointer) (bufferLen : Nat) :
    let created := core.createStatic conf type msg buffer bufferLen
    let size := (core.staticSize conf type).1
    Traced conf type msg
        (if size ≤ bufferLen then
          (core.memory.fillZero buffer size).fillZero msg type.info.sizeOf else core.memory)
        created.2.memory (core.since created.2) ∧
      (size ≤ bufferLen → buffer ≠ .null → AllWritten conf type (core.since created.2)) := by
  intro created size
  have sizing := planOver_sizing .calculateSizePreallocated rfl conf type
    (core.placeBuffer .null)
  by_cases long : size ≤ bufferLen
  · obtain ⟨early, log, quiet⟩ := sizing.trans
      ((Logs.fillZero (fun _ _ => ⟨rfl, trivial⟩) buffer size _).trans
        (Logs.fillZero (fun _ _ => ⟨rfl, trivial⟩) msg type.info.sizeOf
          (((core.staticSize conf type).2.fillZero buffer size).placeBuffer buffer)))
    obtain ⟨events, log', traced, all⟩ := planOver_traced .createPreallocated rfl conf
      type msg ((core.staticSize conf type).2.prepareStatic type msg buffer size)
    have reached : created.2 = (planOver conf .createPreallocated type msg
        ((core.staticSize conf type).2.prepareStatic type msg buffer size)).2 := by
      simp only [created, createStatic, size, if_neg (Nat.not_lt.mpr long)]
    have since : core.since created.2 = early ++ events := by
      refine since_of_log ?_
      rw [reached, log', prepareStatic, log, List.append_assoc]
      rfl
    rw [since, reached, if_pos long]
    refine ⟨?_, fun _ notNull => (all ?_).prepend early⟩
    · simpa [prepareStatic, placeBuffer] using traced.prepend quiet
    · simpa [Operation.WritesAll, prepareStatic, placeBuffer] using notNull
  · obtain ⟨events, log, quiet⟩ := sizing
    have reached : created.2 = (core.staticSize conf type).2 := by
      simp only [created, createStatic, size, if_pos (Nat.lt_of_not_le long)]
    have since : core.since created.2 = events := by
      refine since_of_log ?_
      rw [reached]
      exact log
    rw [since, reached, if_neg long, staticSize_memory]
    refine ⟨⟨⟨fun event member => headerPlanned_of_none (quiet event member).1,
      fun event member site header isHeader => ?_⟩, fun q changed => absurd rfl changed,
      fun event member => (quiet event member).2⟩, fun short => absurd short long⟩
    rw [(quiet event member).1] at isHeader
    cases isHeader

theorem destroy_traced :
    let destroyed := core.destroy conf type msg
    Traced conf type msg (core.memory.fillZero msg type.info.sizeOf) destroyed.2.memory
        (core.since destroyed.2) ∧ AllWritten conf type (core.since destroyed.2) := by
  obtain ⟨early, log, quiet⟩ := planOver_sizing .calculateSize rfl conf type core
  obtain ⟨events, log', traced, all⟩ := planOver_traced .destroy rfl conf type msg
    (core.dynamicSize conf type).2
  obtain ⟨final, log'', invalid⟩ := Logs.fillZero
    (P := fun event => event.NoHeader ∧ ResolvedEvent conf.getConfiguration type.members event)
    (fun _ _ => ⟨rfl, trivial⟩) msg type.info.sizeOf
    (planOver conf .destroy type msg (core.dynamicSize conf type).2).2
  have since : core.since (core.destroy conf type msg).2 = early ++ events ++ final := by
    refine since_of_log ?_
    rw [destroy, log'', log', dynamicSize, log]
    simp
  simp only [since]
  refine ⟨?_, fun visit met => ?_⟩
  · simpa [destroy] using (traced.prepend quiet).clear invalid type.info.sizeOf
  · obtain ⟨event, member, here⟩ := all trivial visit met
    exact ⟨event, by simp [member], here⟩

end Core

/-- Every change to memory is a header or new data that the log names, and every header that is
written is that of a string or sequence member of the instance, with that member's capacity. -/
def WritesOnlyOwn (conf : MemoryConf target) (type : MessageMembers) (msg : Pointer)
    (before after : Contents) (events : List Event) : Prop :=
  (∀ q, after q ≠ before q → ∃ event ∈ events, event.Writes target q) ∧
    ∀ event ∈ events, OwnHeader type.members msg event ∧
      ResolvedEvent conf.getConfiguration type.members event

section Own

variable {conf : MemoryConf target} {type : MessageMembers} {msg : Pointer} {before after : Contents}
  {events : List Event}

theorem Traced.writesOnlyOwn (traced : Traced conf type msg before after events)
    (owned : type.members.Owned conf.getConfiguration .empty) :
    WritesOnlyOwn conf type msg before after events :=
  ⟨traced.covered, fun event member =>
    ⟨traced.headers.own owned event member, traced.resolved event member⟩⟩

theorem Traced.owned (traced : Traced conf type msg before after events)
    (all : AllWritten conf type events) (own : WritesOnlyOwn conf type msg before after events) :
    type.members.Owned conf.getConfiguration .empty :=
  all.owned traced.headers.planned fun event member => (own.2 event member).1

end Own

/-- In creation, static creation and destruction, every run with served name trees, and no other, uses them as it
should and writes, apart from zero fills, only the headers of the instances' own string and sequence members,
if and only if no header is met inside an upper-bounded sequence or behind an element offset that wraps. -/
theorem writes_only_own_iff (conf : MemoryConf target) (type : MessageMembers) :
    ((∀ (msg : Pointer) (core : Core) (s : StringHeap),
        let created := createMessageMemory target (heapStrings target) conf type msg ⟨core, s⟩
        Lifetimes (s.since created.2.scratch) ∧
            WritesOnlyOwn conf type msg (core.memory.fillZero msg type.info.sizeOf)
              created.2.core.memory (core.since created.2.core) ↔
          s.Serves ((PlannerCall.create msg).demands conf type core)) ↔
      type.members.Owned conf.getConfiguration .empty) ∧
    ((∀ (msg buffer : Pointer) (bufferLen : Nat) (core : Core) (s : StringHeap),
        let size := staticRequirement conf type % target.modulus
        let created := createStaticMessageMemory target (heapStrings target) conf type msg buffer
          bufferLen ⟨core, s⟩
        Lifetimes (s.since created.2.scratch) ∧
            WritesOnlyOwn conf type msg
              (if size ≤ bufferLen then
                (core.memory.fillZero buffer size).fillZero msg type.info.sizeOf else core.memory)
              created.2.core.memory (core.since created.2.core) ↔
          s.Serves ((PlannerCall.createStatic msg buffer bufferLen).demands conf type core)) ↔
      type.members.Owned conf.getConfiguration .empty) ∧
    ((∀ (msg : Pointer) (core : Core) (s : StringHeap),
        let destroyed := destroyMessageMemory target (heapStrings target) conf type msg ⟨core, s⟩
        Lifetimes (s.since destroyed.2.scratch) ∧
            WritesOnlyOwn conf type msg (core.memory.fillZero msg type.info.sizeOf)
              destroyed.2.core.memory (core.since destroyed.2.core) ↔
          s.Serves ((PlannerCall.destroy msg).demands conf type core)) ↔
      type.members.Owned conf.getConfiguration .empty) := by
  refine ⟨⟨fun own => ?_, fun owned msg core s => ?_⟩,
    ⟨fun own => ?_, fun owned msg buffer bufferLen core s => ?_⟩,
    ⟨fun own => ?_, fun owned msg core s => ?_⟩⟩
  -- Where the condition fails, a run shows it whose allocators refuse nothing and move nothing.
  · have run := ((own .null (.boot fun _ _ => true) (.boot fun _ => false)).mpr (StringHeap.boot_serves _)).2
    obtain ⟨-, reached⟩ := (createMessageMemory_ends conf type (.boot fun _ _ => true) (.boot fun _ => false)
      .null).of_served (StringHeap.boot_serves _)
    obtain ⟨traced, all⟩ := Core.create_traced conf type .null (.boot fun _ _ => true)
    rw [reached] at run
    exact traced.owned (all fun _ _ => rfl) run
  · intro created
    apply (createMessageMemory_ends conf type core s msg).lifetimes_and_iff_serves
    rintro ⟨-, reached⟩
    rw [reached]
    exact (Core.create_traced conf type msg core).1.writesOnlyOwn owned
  · -- Any buffer that is long enough shows the same headers.
    have run := ((own .null ⟨.object 0 0, 0⟩ (staticRequirement conf type % target.modulus)
      (.boot fun _ _ => true) (.boot fun _ => false)).mpr (StringHeap.boot_serves _)).2
    obtain ⟨-, reached⟩ := (createStaticMessageMemory_ends conf type (.boot fun _ _ => true) (.boot fun _ => false)
      .null ⟨.object 0 0, 0⟩ (staticRequirement conf type % target.modulus)).of_served (StringHeap.boot_serves _)
    obtain ⟨traced, all⟩ := Core.createStatic_traced conf type .null (.boot fun _ _ => true)
      ⟨.object 0 0, 0⟩ (staticRequirement conf type % target.modulus)
    rw [(Core.staticSize_wrapped conf type _).1] at traced all
    rw [reached] at run
    exact traced.owned (all (Nat.le_refl _) (by decide)) run
  · intro size created
    apply (createStaticMessageMemory_ends conf type core s msg buffer bufferLen).lifetimes_and_iff_serves
    rintro ⟨-, reached⟩
    have traced := (Core.createStatic_traced conf type msg core buffer bufferLen).1
    rw [(Core.staticSize_wrapped conf type core).1] at traced
    rw [reached]
    exact traced.writesOnlyOwn owned
  · have run := ((own .null (.boot fun _ _ => true) (.boot fun _ => false)).mpr (StringHeap.boot_serves _)).2
    obtain ⟨-, reached⟩ := (destroyMessageMemory_ends conf type (.boot fun _ _ => true) (.boot fun _ => false)
      .null).of_served (StringHeap.boot_serves _)
    obtain ⟨traced, all⟩ := Core.destroy_traced conf type .null (.boot fun _ _ => true)
    rw [reached] at run
    exact traced.owned all run
  · intro destroyed
    apply (destroyMessageMemory_ends conf type core s msg).lifetimes_and_iff_serves
    rintro ⟨-, reached⟩
    rw [reached]
    exact (Core.destroy_traced conf type msg core).1.writesOnlyOwn owned

/-- A bounded sequence of `MultiArrayDimension`: its header is taken for the first element, and the
label's header is written over it. -/
theorem writes_foreign_header :
    let created := createMessageMemory cortexM (heapStrings cortexM) boardDefault
      (boundedLayout cortexM) ⟨.object 1 0, 0⟩ ⟨.boot fun _ _ => true, .boot fun _ => false⟩
    ¬ WritesOnlyOwn boardDefault (boundedLayout cortexM) ⟨.object 1 0, 0⟩
      (Contents.fillZero (fun _ => .zero) ⟨.object 1 0, 0⟩ (boundedLayout cortexM).info.sizeOf)
      created.2.core.memory (Core.since (.boot fun _ _ => true) created.2.core) := by
  intro created own
  obtain ⟨traced, all⟩ := Core.create_traced boardDefault (boundedLayout cortexM) ⟨.object 1 0, 0⟩
    (.boot fun _ _ => true)
  obtain ⟨-, reached⟩ := (createMessageMemory_ends boardDefault (boundedLayout cortexM) (.boot fun _ _ => true)
    (.boot fun _ => false) ⟨.object 1 0, 0⟩).of_served (StringHeap.boot_serves _)
  rw [reached] at own
  obtain ⟨-, inPlace, -⟩ := traced.owned (all fun _ _ => rfl) own
  exact (inPlace rfl).1 rfl (Or.inl rfl)

end MicroRos
