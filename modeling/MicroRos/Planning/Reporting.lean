import MicroRos.Planning.Requirement
import MicroRos.Introspection.Messages
import Mathlib.Algebra.Order.BigOperators.Group.List

/-! How dynamic creation reports failure.

The recursion has no error code: a call that is refused memory yields zero and the callers
go on. `Accounted` is what the byte count of a piece of a run says about the requests in
it, and it is kept when pieces of a run are put together.
-/

set_option autoImplicit false

namespace MicroRos

open Memory (Pointer Byte)

variable {target : Target}

/-- The sizes passed to `allocate`, in order. -/
def demanded (events : List Event) : List Nat :=
  events.filterMap fun
    | .requested size _ => some size
    | _ => none

/-- A request for at least one byte was refused. -/
def Refused (events : List Event) : Prop := ∃ size ≠ 0, .requested size .null ∈ events

/-- No request was refused. -/
def Granted (events : List Event) : Prop :=
  ∀ size answer, .requested size answer ∈ events → answer ≠ .null

/-- The event is the header's: it was set up with this capacity and this many bytes. -/
def Visit.StoredBy (visit : Visit) : Event → Prop
  | .stored site _ _ bytes capacity =>
    site.stack.map Step.mark = visit.stack ∧ site.member = visit.member ∧
      capacity = visit.capacity ∧ bytes = visit.bytes
  | _ => False

def Event.isStored : Event → Bool
  | .stored .. => true
  | _ => false

/-- Neither a request nor a header that was set up. -/
def Event.Silent : Event → Prop
  | .requested .. | .stored .. => False
  | _ => True

/-- Headers were set up only for these visits. -/
def StoredOnly (events : List Event) (visits : List Visit) : Prop :=
  ∀ event ∈ events, event.isStored = true → ∃ visit ∈ visits, visit.StoredBy event

theorem StoredOnly.append {events later : List Event} {visits others : List Visit}
    (first : StoredOnly events visits) (second : StoredOnly later others) :
    StoredOnly (events ++ later) (visits ++ others) := by
  intro event member isStored
  rcases List.mem_append.mp member with member | member
  · obtain ⟨visit, found, stored⟩ := first event member isStored
    exact ⟨visit, List.mem_append_left _ found, stored⟩
  · obtain ⟨visit, found, stored⟩ := second event member isStored
    exact ⟨visit, List.mem_append_right _ found, stored⟩

theorem StoredOnly.of_silent {events : List Event} (silent : ∀ event ∈ events, event.Silent)
    (visits : List Visit) : StoredOnly events visits := by
  intro event member isStored
  have quiet := silent event member
  cases event with
  | stored => exact quiet.elim
  | _ => cases isStored

/-- Requests in a piece of a run whose byte count goes from `used` to `result` and that should
have set up the headers of `visits`. -/
structure Accounted (events : List Event) (used result : Nat) (visits : List Visit) : Prop where
  le : result ≤ used + (visits.map Visit.bytes).sum
  refused : Refused events → result < used + (visits.map Visit.bytes).sum
  granted : Granted events → result = used + (visits.map Visit.bytes).sum ∧
    demanded events = visits.map Visit.bytes
  only : StoredOnly events visits
  complete : result = used + (visits.map Visit.bytes).sum →
    ∀ visit ∈ visits, visit.bytes ≠ 0 → ∃ event ∈ events, visit.StoredBy event

namespace Accounted

theorem empty {events : List Event} (silent : ∀ event ∈ events, event.Silent) (used : Nat) :
    Accounted events used used [] where
  le := by simp
  refused := by
    rintro ⟨size, _, member⟩
    exact (silent _ member).elim
  granted _ := by
    refine ⟨by simp, List.filterMap_eq_nil_iff.mpr fun event member => ?_⟩
    have quiet := silent event member
    cases event with
    | requested => exact quiet.elim
    | _ => rfl
  only := .of_silent silent []
  complete _ _ member := by cases member

theorem append {events later : List Event} {visits others : List Visit} {used used' used'' : Nat}
    (first : Accounted events used used' visits) (second : Accounted later used' used'' others) :
    Accounted (events ++ later) used used'' (visits ++ others) := by
  have firstLe := first.le
  have secondLe := second.le
  have sum : ((visits ++ others).map Visit.bytes).sum =
      (visits.map Visit.bytes).sum + (others.map Visit.bytes).sum := by simp
  refine ⟨by omega, ?_, ?_, first.only.append second.only, ?_⟩
  · rintro ⟨size, positive, member⟩
    rcases List.mem_append.mp member with member | member
    · have := first.refused ⟨size, positive, member⟩
      omega
    · have := second.refused ⟨size, positive, member⟩
      omega
  · intro granted
    obtain ⟨one, sizes⟩ := first.granted fun size answer member =>
      granted size answer (List.mem_append_left _ member)
    obtain ⟨two, sizes'⟩ := second.granted fun size answer member =>
      granted size answer (List.mem_append_right _ member)
    refine ⟨by omega, ?_⟩
    simp only [demanded] at sizes sizes' ⊢
    rw [List.filterMap_append, sizes, sizes', List.map_append]
  · intro exact' visit member positive
    rcases List.mem_append.mp member with member | member
    · obtain ⟨event, found, stored⟩ := first.complete (by omega) visit member positive
      exact ⟨event, List.mem_append_left _ found, stored⟩
    · obtain ⟨event, found, stored⟩ := second.complete (by omega) visit member positive
      exact ⟨event, List.mem_append_right _ found, stored⟩

theorem nested {events : List Event} {visits : List Visit} {result : Nat} (used : Nat)
    (inner : Accounted events 0 result visits) : Accounted events used (used + result) visits := by
  obtain ⟨le, refused, granted, only, complete⟩ := inner
  refine ⟨by omega, fun some => ?_, fun all => ?_, only, fun exact' => complete (by omega)⟩
  · have := refused some
    omega
  · obtain ⟨total, sizes⟩ := granted all
    exact ⟨by omega, sizes⟩

end Accounted

namespace Core

theorem allocate_log (owner size : Nat) (w : Core) :
    (w.allocate owner size).2.log = w.log ++ [.requested size (w.allocate owner size).1] := rfl

variable {conf : MemoryConf target} {site : Site} {header : Pointer} {capacity memberSize : Nat}
  {w after : Core}

/-- What creation records about a header, according to the answer to its request. -/
theorem planHeader_create_cases (conf : MemoryConf target) (site : Site) (header : Pointer)
    (capacity memberSize : Nat) (w : Core) :
    let bytes := target.mul capacity memberSize
    let data := (w.heap.allocate conf.owner bytes).1
    let planned := w.planHeader conf .create site header capacity memberSize
    ∃ noise, (∀ event ∈ noise, event.Silent) ∧
      (data = .null ∧ planned.1 = none ∧ planned.2.log = w.log ++ (.resolved site capacity ::
          .requested bytes .null :: (noise ++ [.refused site header])) ∨
        data ≠ .null ∧ planned.1 = some bytes ∧ planned.2.log = w.log ++ (.resolved site capacity ::
          .requested bytes data :: (noise ++ [.stored site header data bytes capacity]))) := by
  intro bytes data planned
  have invalid : ∀ p n, Event.Silent (.invalid p n) := fun _ _ => trivial
  have asked := allocate_log conf.owner bytes (w.record (.resolved site capacity))
  have answered : ((w.record (.resolved site capacity)).allocate conf.owner bytes).1 = data := rfl
  have same : planned = (w.record (.resolved site capacity)).setUpHeader target conf.owner .create site
    header capacity memberSize := rfl
  simp only [setUpHeader] at same
  generalize (w.record (.resolved site capacity)).allocate conf.owner bytes = answer at same asked answered
  by_cases isNull : answer.1 = .null
  · obtain ⟨noise, log, silent⟩ := Logs.storePointer target invalid header answer.1 answer.2
    rw [if_pos isNull] at same
    refine ⟨noise, silent, Or.inl ⟨answered.symm.trans isNull, by rw [same], ?_⟩⟩
    rw [same, record_log, log, asked, isNull]
    simp
  · obtain ⟨noise, log, silent⟩ := (Logs.storePointer target invalid header answer.1 answer.2).trans
      ((Logs.fillZero invalid answer.1 bytes _).trans (Logs.storeCounts target invalid header capacity _))
    rw [if_neg isNull] at same
    refine ⟨noise, silent, Or.inr ⟨answered ▸ isNull, by rw [same], ?_⟩⟩
    rw [same, record_log, log, asked, answered]
    simp [bytes]

theorem planHeader_create_some {bytes : Nat} (planned :
    w.planHeader conf .create site header capacity memberSize = (some bytes, after)) :
    bytes = target.mul capacity memberSize ∧ ∃ data noise,
      data = (w.heap.allocate conf.owner bytes).1 ∧ data ≠ Pointer.null ∧
      (∀ event ∈ noise, event.Silent) ∧
      after.log = w.log ++ (.resolved site capacity :: .requested bytes data ::
        (noise ++ [.stored site header data bytes capacity])) := by
  obtain ⟨noise, silent, cases⟩ := planHeader_create_cases conf site header capacity memberSize w
  rw [planned] at cases
  rcases cases with ⟨_, none, _⟩ | ⟨granted, made, log⟩
  · cases none
  · cases made
    exact ⟨rfl, _, noise, rfl, granted, silent, log⟩

theorem planHeader_create_none (planned :
    w.planHeader conf .create site header capacity memberSize = (none, after)) :
    (w.heap.allocate conf.owner (target.mul capacity memberSize)).1 = .null ∧
      ∃ noise, (∀ event ∈ noise, event.Silent) ∧
      after.log = w.log ++ (.resolved site capacity ::
        .requested (target.mul capacity memberSize) .null :: (noise ++ [.refused site header])) := by
  obtain ⟨noise, silent, cases⟩ := planHeader_create_cases conf site header capacity memberSize w
  rw [planned] at cases
  rcases cases with ⟨refused, _, log⟩ | ⟨_, some, _⟩
  · exact ⟨refused, noise, silent, log⟩
  · cases some

end Core

/-- The requests of one header that was set up. -/
theorem Accounted.header {site : Site} {header data : Pointer} {capacity memberSize : Nat}
    {noise : List Event} (silent : ∀ event ∈ noise, event.Silent) (notNull : data ≠ .null)
    (used : Nat) :
    Accounted (.resolved site capacity :: .requested (capacity * memberSize) data ::
        (noise ++ [.stored site header data (capacity * memberSize) capacity]))
      used (used + capacity * memberSize)
      [⟨site.stack.map Step.mark, site.member, capacity, memberSize⟩] := by
  have quiet : demanded noise = [] := ((Accounted.empty silent 0).granted
    fun size answer member => (silent _ member).elim).2
  refine ⟨by simp [Visit.bytes], ?_, ?_, ?_, ?_⟩
  · rintro ⟨size, _, member⟩
    simp only [List.mem_cons, List.mem_append, reduceCtorEq, false_or, List.not_mem_nil, or_false,
      Event.requested.injEq] at member
    rcases member with ⟨_, isNull⟩ | inNoise
    · exact absurd isNull.symm notNull
    · exact (silent _ inNoise).elim
  · intro _
    simp only [demanded] at quiet
    simp [demanded, Visit.bytes, List.filterMap_append, quiet]
  · intro event member isStored
    simp only [List.mem_cons, List.mem_append, List.not_mem_nil, or_false] at member
    rcases member with rfl | rfl | inNoise | rfl
    · cases isStored
    · cases isStored
    · exact StoredOnly.of_silent silent _ event inNoise isStored
    · exact ⟨_, List.mem_singleton_self _, rfl, rfl, rfl, rfl⟩
  · intro _ visit member _
    cases List.mem_singleton.mp member
    exact ⟨.stored site header data (capacity * memberSize) capacity, by simp, rfl, rfl, rfl, rfl⟩

/-- A refused header gives up the count of its whole call. -/
theorem Accounted.refusal {site : Site} {header : Pointer} {capacity memberSize : Nat}
    {noise : List Event} (silent : ∀ event ∈ noise, event.Silent) (missed : List Visit)
    (used : Nat) :
    Accounted (.resolved site capacity :: .requested (capacity * memberSize) .null ::
        (noise ++ [.refused site header]))
      used 0 (⟨site.stack.map Step.mark, site.member, capacity, memberSize⟩ :: missed) := by
  have sum : ((⟨site.stack.map Step.mark, site.member, capacity, memberSize⟩ :: missed).map
      Visit.bytes).sum = capacity * memberSize + (missed.map Visit.bytes).sum := by simp [Visit.bytes]
  refine ⟨by omega, ?_, ?_, ?_, ?_⟩
  · rintro ⟨size, positive, member⟩
    simp only [List.mem_cons, List.mem_append, reduceCtorEq, false_or, List.not_mem_nil, or_false,
      Event.requested.injEq] at member
    rcases member with ⟨rfl, _⟩ | inNoise
    · omega
    · exact (silent _ inNoise).elim
  · intro granted
    exact absurd rfl (granted (capacity * memberSize) .null (by simp))
  · intro event member isStored
    simp only [List.mem_cons, List.mem_append, List.not_mem_nil, or_false] at member
    rcases member with rfl | rfl | inNoise | rfl
    · cases isStored
    · cases isStored
    · exact StoredOnly.of_silent silent _ event inNoise isStored
    · cases isStored
  · -- The total is reached only when nothing was to be had.
    intro exact' visit member positive
    have small : visit.bytes ≤ (((⟨site.stack.map Step.mark, site.member, capacity, memberSize⟩ :
        Visit) :: missed).map Visit.bytes).sum :=
      List.le_sum_of_mem (List.mem_map_of_mem member)
    omega

/-- Accounting over the recursion, as long as the exact sum does not wrap. -/
def AccountedRun (target : Target) (visits : List Visit) (used : Nat) (w : Core) (result : Nat)
    (w' : Core) : Prop :=
  used + (visits.map Visit.bytes).sum < target.modulus →
    ∃ events, w'.log = w.log ++ events ∧ Accounted events used result visits

theorem accountingRule (conf : MemoryConf target) :
    VisitRule conf .create AnyFrame fun visits _ => AccountedRun target visits where
  toFrameRule := anyFrame conf .create
  refl used w _ := ⟨[], by simp, .empty (by simp) used⟩
  trans := by
    intro visits later _ _ used used' used'' w w' w'' first second fits
    simp only [List.map_append, List.sum_append] at fits
    obtain ⟨events, log, accounted⟩ := first (by omega)
    have := accounted.le
    obtain ⟨events', log', accounted'⟩ := second (by omega)
    exact ⟨events ++ events', by simp [log', log], accounted.append accounted'⟩
  nested := by
    intro visits _ result w w' used inner fits
    obtain ⟨events, log, accounted⟩ := inner (by omega)
    have := accounted.le
    rw [Target.add_of_lt (by omega)]
    exact ⟨events, log, accounted.nested used⟩
  plan {_ _ _ stack index _ capacity memberSize} _ _ used w bytes after planned := by
    intro fits
    have fits : used + capacity * memberSize < target.modulus := by simpa [Visit.bytes] using fits
    obtain ⟨rfl, data, noise, _, notNull, silent, log⟩ := Core.planHeader_create_some planned
    rw [Target.mul_of_lt (by omega)] at log ⊢
    rw [Target.add_of_lt fits]
    exact ⟨_, log, Accounted.header silent notNull used⟩
  refuse {_ _ _ stack index _ capacity memberSize} _ _ missed _ used w after planned := by
    intro fits
    simp only [List.map_cons, Visit.bytes, List.sum_cons] at fits
    obtain ⟨_, noise, silent, log⟩ := Core.planHeader_create_none planned
    rw [Target.mul_of_lt (by omega)] at log
    exact ⟨_, log, Accounted.refusal silent missed used⟩
  load header used w _ := by
    obtain ⟨events, log, silent⟩ : Core.Logs Event.Silent w (w.elementData target .create header).2 :=
      Core.Logs.elementData (fun _ _ => trivial) .create header w
    exact ⟨events, log, .empty silent used⟩
  tear _ _ used w _ := ⟨[], by simp [Core.tearDownHeader], .empty (by simp) used⟩

/-- The run of dynamic creation is accounted for, and its count is compared with the requirement. -/
theorem Core.create_accounted {conf : MemoryConf target} {type : MessageMembers}
    (fits : dynamicRequirement conf type < target.modulus) (msg : Pointer) (core : Core) :
    ∃ used, (core.create conf type msg).1 = (used == dynamicRequirement conf type) ∧
      Accounted (core.since (core.create conf type msg).2) 0 used (plannedVisits false conf type) := by
  have total : ((plannedVisits false conf type).map Visit.bytes).sum = dynamicRequirement conf type := by
    rw [plannedVisits_bytes, dynamicRequirement]
  obtain ⟨events, log, silent⟩ := ((Core.dynamicSize_quiet conf type core).2.mono (Q := Event.Silent)
    (by rintro _ ⟨_, _, rfl⟩; trivial)).trans
      (Logs.fillZero (fun _ _ => trivial) msg type.info.sizeOf _)
  obtain ⟨later, laterLog, accounted⟩ := (accountingRule conf.getConfiguration).runOver type msg
    trivial ((core.dynamicSize conf type).2.fillZero msg type.info.sizeOf) (by omega)
  refine ⟨_, by rw [create, dynamicSize_eq, Nat.mod_eq_of_lt fits], ?_⟩
  have since : core.since (core.create conf type msg).2 = events ++ later := by
    simp [Core.since, create, laterLog, log]
  rw [since]
  exact (Accounted.empty silent 0).append accounted

/-- When every request is granted creation succeeds and has asked for exactly the dynamic size; when
any request for at least one byte is refused, at whatever depth, it reports failure. -/
theorem Core.create_reports {conf : MemoryConf target} {type : MessageMembers}
    (fits : dynamicRequirement conf type < target.modulus) (msg : Pointer) (core sizing : Core) :
    let created := core.create conf type msg
    let events := core.since created.2
    (Granted events → created.1 = true ∧ (demanded events).sum = (sizing.dynamicSize conf type).1) ∧
      (Refused events → created.1 = false) := by
  intro created events
  obtain ⟨used, compared, accounted⟩ := Core.create_accounted fits msg core
  have total : ((plannedVisits false conf type).map Visit.bytes).sum = dynamicRequirement conf type := by
    rw [plannedVisits_bytes, dynamicRequirement]
  simp only [created, events, compared, Core.dynamicSize_eq, Nat.mod_eq_of_lt fits] at *
  refine ⟨fun granted => ?_, fun refused => ?_⟩
  · obtain ⟨same, sizes⟩ := accounted.granted granted
    exact ⟨by simp [same, total], by rw [sizes, total]⟩
  · have := accounted.refused refused
    simp
    omega

end MicroRos
