import MicroRos.Planning.Instances
import MicroRos.Planning.Reporting
import MicroRos.Planning.Capacities
import MicroRos.Utilities.TypeInfoLines

/-! The printed type and the planner.

The recursion that prints a type meets a member once, the one that creates a message meets it
in every element. In a run that is granted its requests and finds no capacity of zero, the
headers that are set up belong to the members whose lines have the mark, and to no others.
-/

set_option autoImplicit false

namespace MicroRos

open Memory (Pointer Byte)

variable {target : Target}

theorem Occurrence.marked_iff (occurrence : Occurrence) :
    initMark <:+ occurrence.line ↔ occurrence.member.HasHeader := by
  obtain ⟨calls, index, member⟩ := occurrence
  cases member with
  | basic type field =>
    refine (memberPieces_mark _ field type.typeId none).trans ?_
    have string : type.typeId = 16 ↔ type = .string := by cases type <;> decide
    simp [Member.HasHeader, isHeader, Field.isSequence, string]
  | message type field =>
    refine (memberPieces_mark _ field 18 (some type.info)).trans ?_
    simp [Member.HasHeader, Field.isSequence]

/-- Creation set up a header for the member. -/
def GivenMemory (events : List Event) (occurrence : Occurrence) : Prop :=
  ∃ site header data bytes capacity, .stored site header data bytes capacity ∈ events ∧
    site.calls = occurrence.calls ∧ site.member = occurrence.index

/-- The capacities that were decided, in order. -/
def decided (events : List Event) : List Nat :=
  events.filterMap fun
    | .resolved _ capacity => some capacity
    | _ => none

instance (events : List Event) : Decidable (Granted events) :=
  decidable_of_iff (∀ size ∈ demanded events, .requested size .null ∉ events) <| by
    constructor
    · intro every size answer member isNull
      subst isNull
      exact every size (List.mem_filterMap.mpr ⟨_, member, rfl⟩) member
    · intro granted size _ member
      exact granted size .null member rfl

def Event.place? : Event → Option (List (Nat × Option Nat) × Nat)
  | .stored site _ _ _ _ => some (site.stack.map Step.mark, site.member)
  | _ => none

def Visit.place (visit : Visit) : List (Nat × Option Nat) × Nat := (visit.stack, visit.member)

/-- When every request in these events was granted they set up the headers of `visits` in order,
each after its capacity was decided. -/
def HeadersStored (events : List Event) (visits : List Visit) : Prop :=
  Granted events → events.filterMap Event.place? = visits.map Visit.place ∧
    ∀ visit ∈ visits, ∃ site, .resolved site visit.capacity ∈ events

theorem places_of_silent {events : List Event} (silent : ∀ event ∈ events, event.Silent) :
    events.filterMap Event.place? = [] := by
  apply List.filterMap_eq_nil_iff.mpr
  intro event member
  have quiet := silent event member
  cases event with
  | stored => exact quiet.elim
  | _ => rfl

theorem HeadersStored.of_silent {events : List Event} (silent : ∀ event ∈ events, event.Silent) :
    HeadersStored events [] :=
  fun _ => ⟨places_of_silent silent, fun _ impossible => by cases impossible⟩

theorem HeadersStored.append {events later : List Event} {visits others : List Visit}
    (first : HeadersStored events visits)
    (second : HeadersStored later others) : HeadersStored (events ++ later) (visits ++ others) := by
  intro granted
  obtain ⟨places, resolved⟩ := first fun size answer member => granted size answer (List.mem_append_left _ member)
  obtain ⟨places', resolved'⟩ := second fun size answer member =>
    granted size answer (List.mem_append_right _ member)
  constructor
  · rw [List.filterMap_append, places, places', List.map_append]
  · intro visit member
    rcases List.mem_append.mp member with here | there
    · obtain ⟨site, found⟩ := resolved visit here
      exact ⟨site, List.mem_append_left _ found⟩
    · obtain ⟨site, found⟩ := resolved' visit there
      exact ⟨site, List.mem_append_right _ found⟩

theorem headersStoredRule (conf : MemoryConf target) :
    VisitRule conf .create AnyFrame fun visits _ _ w _ w' =>
      ∃ events, w'.log = w.log ++ events ∧ HeadersStored events visits where
  toFrameRule := anyFrame conf .create
  refl _ w := ⟨[], by simp, .of_silent (by simp)⟩
  trans := by
    rintro visits later _ _ _ _ _ w w' w'' ⟨events, log, sets⟩ ⟨events', log', sets'⟩
    exact ⟨events ++ events', by simp [log', log], sets.append sets'⟩
  nested _ inner := inner
  plan {_ _ _ stack index _ capacity memberSize} _ _ _ w bytes after planned := by
    obtain ⟨_, data, noise, _, _, silent, log⟩ := Core.planHeader_create_some planned
    refine ⟨_, log, fun _ => ⟨?_, ?_⟩⟩
    · rw [List.filterMap_cons_none rfl, List.filterMap_cons_none rfl, List.filterMap_append, places_of_silent silent]
      rfl
    · intro visit member
      rw [List.mem_singleton.mp member]
      exact ⟨_, List.mem_cons_self⟩
  refuse {_ _ _ stack index _ capacity memberSize} _ _ missed _ _ w after planned := by
    -- The refused request is among the events.
    obtain ⟨_, noise, _, log⟩ := Core.planHeader_create_none planned
    exact ⟨_, log, fun granted => absurd rfl (granted (target.mul capacity memberSize) .null (by simp))⟩
  load header _ w := by
    obtain ⟨events, log, silent⟩ : Core.Logs Event.Silent w (w.elementData target .create header).2 :=
      Core.Logs.elementData (fun _ _ => trivial) .create header w
    exact ⟨events, log, .of_silent silent⟩
  tear _ _ _ w := ⟨[], by simp [Core.tearDownHeader], .of_silent (by simp)⟩

/-- Dynamic creation, its size pass included. -/
theorem Core.create_headersStored (conf : MemoryConf target) (type : MessageMembers) (msg : Pointer) (core : Core) :
    HeadersStored (core.since (core.create conf type msg).2) (plannedVisits false conf type) := by
  obtain ⟨events, log, silent⟩ := ((Core.dynamicSize_quiet conf type core).2.mono (Q := Event.Silent)
    (by rintro _ ⟨_, _, rfl⟩; trivial)).trans
      (Logs.fillZero (fun _ _ => trivial) msg type.info.sizeOf _)
  obtain ⟨later, laterLog, sets⟩ := (headersStoredRule conf.getConfiguration).runOver type msg
    trivial ((core.dynamicSize conf type).2.fillZero msg type.info.sizeOf)
  have since : core.since (core.create conf type msg).2 = events ++ later := by
    simp [Core.since, create, laterLog, log]
  rw [since]
  exact (HeadersStored.of_silent silent).append sets

section Visits

variable (conf : MemoryConf target)

/-- With capacities of at least one the planner meets exactly the members with headers. -/
theorem visits_occurrences {list : MemberList} {path : CString} {stack : List (Nat × Option Nat)} {index : Nat}
    (positive : ∀ visit ∈ visits false conf list path stack index, 1 ≤ visit.capacity) (calls : List Nat)
    (member : Nat) :
    (∃ visit ∈ visits false conf list path stack index, visit.stack.map Prod.fst = calls ∧ visit.member = member) ↔
      ∃ occurrence ∈ list.occurrences (stack.map Prod.fst) index,
        occurrence.calls = calls ∧ occurrence.index = member ∧ occurrence.member.HasHeader := by
  induction list generalizing path stack index with
  | nil => simp [visits, MemberList.occurrences]
  | basic type field rest ih =>
    simp only [visits, List.forall_mem_append] at positive
    have later := ih positive.2
    by_cases header : isHeader type field = true
    · simp [visits, MemberList.occurrences, Member.HasHeader, or_and_right, exists_or, later, header]
    · simp [visits, MemberList.occurrences, Member.HasHeader, or_and_right, exists_or, later, header]
  | message info members field rest ihMembers ih =>
    simp only [visits, List.forall_mem_append, Bool.false_eq_true, if_false] at positive
    have later := ih positive.2
    by_cases sequence : field.isSequence = true
    · simp only [sequence, if_true, List.forall_mem_cons, List.mem_flatMap, List.mem_range] at positive
      obtain ⟨⟨capacity, elements⟩, _⟩ := positive
      -- Every element meets the same members, and there is a first element.
      have each (j : Nat) (bound : j < conf.messageCapacity path field) :=
        @ihMembers (path.child field.name) (stack ++ [(index, some j)]) 0
          fun visit met => elements visit ⟨j, bound, met⟩
      simp only [List.map_append, List.map_cons, List.map_nil] at each
      have inner : (∃ visit ∈ (List.range (conf.messageCapacity path field)).flatMap fun j =>
            visits false conf members (path.child field.name) (stack ++ [(index, some j)]) 0,
            visit.stack.map Prod.fst = calls ∧ visit.member = member) ↔
          ∃ occurrence ∈ members.occurrences (stack.map Prod.fst ++ [index]) 0,
            occurrence.calls = calls ∧ occurrence.index = member ∧ occurrence.member.HasHeader := by
        rw [← each 0 capacity]
        constructor
        · rintro ⟨visit, met, place⟩
          obtain ⟨j, bound, met⟩ := List.mem_flatMap.mp met
          exact (each 0 capacity).mpr ((each j (List.mem_range.mp bound)).mp ⟨visit, met, place⟩)
        · rintro ⟨visit, met, place⟩
          exact ⟨visit, List.mem_flatMap.mpr ⟨0, List.mem_range.mpr capacity, met⟩, place⟩
      simp only [visits, MemberList.occurrences, Member.HasHeader, List.mem_append, List.mem_cons, or_and_right,
        exists_or, exists_eq_left, later, sequence, if_true, Bool.false_eq_true, if_false, inner, and_true, or_assoc]
    · have inner := @ihMembers (path.child field.name) (stack ++ [(index, none)]) 0
        (by simpa [sequence] using positive.1)
      simp only [List.map_append, List.map_cons, List.map_nil] at inner
      simp only [visits, MemberList.occurrences, Member.HasHeader, List.mem_append, List.mem_cons, or_and_right,
        exists_or, exists_eq_left, later, sequence, if_false, Bool.false_eq_true, inner, and_false, false_or]

end Visits

theorem givenMemory_iff_place (events : List Event) (occurrence : Occurrence) :
    GivenMemory events occurrence ↔ ∃ place ∈ events.filterMap Event.place?,
      place.1.map Prod.fst = occurrence.calls ∧ place.2 = occurrence.index := by
  constructor
  · rintro ⟨site, header, data, bytes, capacity, stored, calls, member⟩
    refine ⟨_, List.mem_filterMap.mpr ⟨_, stored, rfl⟩, ?_, member⟩
    rw [← Site.calls_of_marks, calls]
  · rintro ⟨place, member, same, index⟩
    obtain ⟨event, stored, isPlace⟩ := List.mem_filterMap.mp member
    cases event with
    | stored site header data bytes capacity =>
      cases isPlace
      exact ⟨site, header, data, bytes, capacity, stored, (Site.calls_of_marks site).trans same, index⟩
    | _ => cases isPlace

/-- Of the members of the type, creation gives memory to those with headers. -/
theorem givenMemory_iff {conf : MemoryConf target} {type : MessageMembers} {msg : Pointer} {core : Core}
    {behind : Nat → Nat → Byte}
    (granted : Granted (core.since (createMessageMemory target (valueStrings target) conf type msg ⟨core, behind⟩).2.core))
    (positive : ∀ capacity ∈ decided
      (core.since (createMessageMemory target (valueStrings target) conf type msg ⟨core, behind⟩).2.core), 1 ≤ capacity)
    {occurrence : Occurrence} (listed : occurrence ∈ type.members.occurrences [] 0) :
    occurrence.member.HasHeader ↔ GivenMemory
      (core.since (createMessageMemory target (valueStrings target) conf type msg ⟨core, behind⟩).2.core) occurrence := by
  rw [(createMessageMemory_value conf type ⟨core, behind⟩ msg).2] at granted positive ⊢
  obtain ⟨places, resolved⟩ := Core.create_headersStored conf type msg core granted
  have capacities : ∀ visit ∈ plannedVisits false conf type, 1 ≤ visit.capacity := by
    intro visit met
    obtain ⟨site, found⟩ := resolved visit met
    exact positive visit.capacity (List.mem_filterMap.mpr ⟨_, found, rfl⟩)
  have met := visits_occurrences conf.getConfiguration capacities occurrence.calls occurrence.index
  have given : GivenMemory (core.since (core.create conf type msg).2) occurrence ↔
      ∃ visit ∈ plannedVisits false conf type,
        visit.stack.map Prod.fst = occurrence.calls ∧ visit.member = occurrence.index := by
    rw [givenMemory_iff_place, places]
    simp only [List.mem_map, exists_exists_and_eq_and, Visit.place]
  rw [given]
  refine Iff.trans ?_ met.symm
  constructor
  · intro header
    exact ⟨occurrence, listed, rfl, rfl, header⟩
  · rintro ⟨other, listed', calls, index, header⟩
    have start : type.members.follow [] = some ([], type.members) := rfl
    obtain ⟨_, here⟩ := MemberList.occurrence_found start type.members.drop_zero listed
    obtain ⟨_, there⟩ := MemberList.occurrence_found start type.members.drop_zero listed'
    rw [calls, index, here] at there
    have same : occurrence.member = other.member := congrArg Prod.snd (Option.some.inj there)
    exact same ▸ header

/-- The printed type says of every member whether creation gives it memory. -/
theorem typeInfo_agrees {type : MessageMembers} (clean : type.NamesClean) (fit : type.LinesFit target)
    (indent outBuffer : Nat → Nat → Byte) :
    let members := type.members.occurrences [] 0
    (typeInfo target (valueStrings target) type indent outBuffer).out.text.splitOn 10 =
        type.headerLine target :: members.map Occurrence.line ++ [[]] ∧
      (∀ occurrence ∈ members, 9 ∉ occurrence.member.body) ∧
      ¬ initMark <:+ type.headerLine target ∧
      ∀ (conf : MemoryConf target) (msg : Pointer) (core : Core) (behind : Nat → Nat → Byte),
        let events := core.since
          (createMessageMemory target (valueStrings target) conf type msg ⟨core, behind⟩).2.core
        Granted events → (∀ capacity ∈ decided events, 1 ≤ capacity) →
          ∀ occurrence ∈ members, initMark <:+ occurrence.line ↔ GivenMemory events occurrence := by
  intro members
  refine ⟨typeInfo_splitOn clean fit indent outBuffer, ?_, type.headerLine_unmarked target, ?_⟩
  · intro occurrence listed
    exact (Member.body_clean (clean.2 occurrence listed)).1
  · intro conf msg core behind events granted positive occurrence listed
    rw [Occurrence.marked_iff]
    exact givenMemory_iff granted positive listed

theorem typeInfo_agrees_multiArrayLayout :
    let members := (multiArrayLayout cortexM).members.occurrences [] 0
    let text := (typeInfo cortexM (valueStrings cortexM) (multiArrayLayout cortexM) (fun _ _ => 0) fun _ _ => 0).out.text
    let core := Core.boot fun _ _ => true
    let events := core.since (createMessageMemory cortexM (valueStrings cortexM) boardDefault
      (multiArrayLayout cortexM) ⟨.object 1 0, 0⟩ ⟨core, fun _ _ => 0⟩).2.core
    text.splitOn 10 = (multiArrayLayout cortexM).headerLine cortexM :: members.map Occurrence.line ++ [[]] ∧
      ∀ occurrence ∈ members, initMark <:+ occurrence.line ↔ GivenMemory events occurrence := by
  intro members text core events
  have clean : (multiArrayLayout cortexM).NamesClean := by decide
  have fit : (multiArrayLayout cortexM).LinesFit cortexM := by decide
  obtain ⟨lines, _, _, agrees⟩ := typeInfo_agrees clean fit (fun _ _ => 0) fun _ _ => 0
  exact ⟨lines, agrees boardDefault ⟨.object 1 0, 0⟩ core (fun _ _ => 0) (by decide +kernel) (by decide +kernel)⟩

end MicroRos
