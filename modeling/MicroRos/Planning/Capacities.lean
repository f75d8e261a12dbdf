import MicroRos.Planning.Instances
import MicroRos.Planning.StaticLayout

/-! Whether a header's capacity is backed by memory.

The planner multiplies the capacity by an entry of `basic_types_size`. That entry is the
size of an element except for the types that `Underplanned` lists, so those are the ones
whose capacity promises more than was obtained. A header that is written where another member
is declared with its own, as happens in place of a bounded sequence, has to do for the elements
of that member too.
-/

set_option autoImplicit false

namespace MicroRos

open Memory (Pointer Byte)

variable {target : Target}

/-- Size in C of one element of a string or sequence member. -/
def Member.elementSize (target : Target) : Member → Nat
  | .basic .string field => if field.declaredSequence then target.headerSize else 1
  | .basic type _ => type.cSize target
  | .message type _ => type.info.sizeOf

/-- Size that the planner assumes for it. -/
def Member.plannedSize : Member → Nat
  | .basic type _ => type.plannedSize
  | .message type _ => type.info.sizeOf

/-- Members whose elements are larger than the planner assumes: sequences of strings, of wide
strings and of wide characters, and of `long double` where it is longer than `double`. -/
def Underplanned (target : Target) (type : BasicType) (field : Field) : Prop :=
  match type with
  | .string => field.declaredSequence = true
  | .wchar | .wstring => True
  | .longDouble => 8 < target.longDouble
  | _ => False

instance (type : BasicType) (field : Field) : Decidable (Underplanned target type field) := by
  unfold Underplanned
  cases type <;> infer_instance

/-- Every header that the recursion meets has capacity zero, or elements that are as large as the planner
assumes and as those of the members declared where it is written. The list's instance is at `base` in the
struct. -/
def MemberList.Provided (conf : MemoryConf target) : MemberList → MemberList → Nat → CString → Prop
  | .nil, _, _, _ => True
  | .basic type field rest, struct, base, path =>
    (isHeader type field = true → conf.basicCapacity path type field = 0 ∨
      ¬ Underplanned target type field ∧
        ∀ member ∈ struct.headersAt target (base + field.offset), member.elementSize target ≤ type.plannedSize) ∧
    rest.Provided conf struct base path
  | .message info members field rest, struct, base, path =>
    (field.isSequence = true → conf.messageCapacity path field = 0 ∨
      (∀ member ∈ struct.headersAt target (base + field.offset), member.elementSize target ≤ info.sizeOf) ∧
        members.Provided conf members 0 (path.child field.name)) ∧
    (field.isSequence = false → members.Provided conf struct (base + field.offset) (path.child field.name)) ∧
    rest.Provided conf struct base path

/-- The region of a header that was set up holds as many elements as its capacity says, of every member that
the header counts for. -/
def CapacityBacked (target : Target) (root : MemberList) : Event → Prop
  | .stored site _ _ bytes capacity =>
    ∃ members, root.membersFor target (site.stack.map Step.mark) site.member = some members ∧
      ∀ member ∈ members, capacity * member.elementSize target ≤ bytes
  | _ => True

/-- The same, of a header that the recursion should set up. -/
def Visit.Sufficient (target : Target) (root : MemberList) (visit : Visit) : Prop :=
  ∃ members, root.membersFor target visit.stack visit.member = some members ∧
    ∀ member ∈ members, visit.capacity * member.elementSize target ≤ visit.bytes

/-- The visit is of a member of the tree, with the size that the planner assumes for it. -/
def Visit.IsOf (root : MemberList) (visit : Visit) : Prop :=
  ∃ names member, root.memberAt (visit.stack.map Prod.fst) visit.member = some (names, member) ∧
    visit.memberSize = member.plannedSize

theorem elementSize_le_iff (type : BasicType) (field : Field) :
    (Member.basic type field).elementSize target ≤ type.plannedSize ↔
      ¬ Underplanned target type field := by
  have wide : 1 < target.headerSize := by
    have := target.word_pos
    simp only [Target.headerSize]
    omega
  cases type with
  | string =>
    cases declared : field.declaredSequence <;>
      simp [Member.elementSize, Underplanned, declared, wide, BasicType.plannedSize, BasicType.typeId,
        BasicType.basicTypesSize]
  | _ =>
    simp [Member.elementSize, Underplanned, wide, BasicType.cSize, BasicType.plannedSize,
      BasicType.typeId, BasicType.basicTypesSize]

section Visits

variable {conf : MemoryConf target} {root : MemberList}

theorem visits_isOf {list reached : MemberList} {names : List CString} {path : CString}
    {stack : List (Nat × Option Nat)} {index : Nat}
    (followed : root.follow (stack.map Prod.fst) = some (names, reached))
    (dropped : reached.drop index = list) :
    ∀ visit ∈ visits false conf list path stack index, visit.IsOf root := by
  induction list generalizing reached names path stack index with
  | nil => simp [visits]
  | basic type field rest ih =>
    obtain ⟨found, tail⟩ := MemberList.get?_of_drop_basic dropped
    intro visit member
    simp only [visits, List.mem_append] at member
    rcases member with here | later
    · split at here
      next header =>
        cases List.mem_singleton.mp here
        exact ⟨_, _, by simp [MemberList.memberAt, followed, found]; exact ⟨rfl, rfl⟩, rfl⟩
      next plain => cases here
    · exact ih followed tail visit later
  | message info members field rest ihMembers ih =>
    obtain ⟨found, tail⟩ := MemberList.get?_of_drop_message dropped
    have inner := MemberList.follow_push followed found
    intro visit member
    simp only [visits, List.mem_append, Bool.false_eq_true, if_false] at member
    rcases member with here | later
    · split at here
      next sequence =>
        rcases List.mem_cons.mp here with rfl | element
        · exact ⟨_, _, by simp [MemberList.memberAt, followed, found]; exact ⟨rfl, rfl⟩, rfl⟩
        · obtain ⟨j, _, element⟩ := List.mem_flatMap.mp element
          exact ihMembers (by simpa using inner) members.drop_zero visit element
      next single => exact ihMembers (by simpa using inner) members.drop_zero visit here
    · exact ih followed tail visit later

theorem visits_sized {list : MemberList} (sized : list.Sized) {path : CString}
    {stack : List (Nat × Option Nat)} {index : Nat} :
    ∀ visit ∈ visits false conf list path stack index, 0 < visit.memberSize := by
  induction list generalizing path stack index with
  | nil => simp [visits]
  | basic type field rest ih =>
    intro visit member
    simp only [visits, List.mem_append] at member
    rcases member with here | later
    · split at here
      next header =>
        cases List.mem_singleton.mp here
        exact type.plannedSize_pos
      next plain => cases here
    · exact ih sized visit later
  | message info members field rest ihMembers ih =>
    intro visit member
    simp only [visits, List.mem_append, Bool.false_eq_true, if_false] at member
    rcases member with here | later
    · split at here
      next sequence =>
        rcases List.mem_cons.mp here with rfl | element
        · exact sized.1
        · obtain ⟨j, _, element⟩ := List.mem_flatMap.mp element
          exact ihMembers sized.2.1 visit element
      next single => exact ihMembers sized.2.1 visit here
    · exact ih sized.2.2 visit later

/-- Every header that is met is in a place. -/
theorem visits_membersFor {list : MemberList} {place : Place} {path : CString}
    {stack : List (Nat × Option Nat)} {index : Nat} (entered : root.whole.enter stack = some place)
    (dropped : place.members.drop index = list) :
    ∀ visit ∈ visits false conf list path stack index,
      ∃ members, root.membersFor target visit.stack visit.member = some members := by
  induction list generalizing place path stack index with
  | nil => simp [visits]
  | basic type field rest ih =>
    obtain ⟨found, tail⟩ := MemberList.get?_of_drop_basic dropped
    intro visit member
    simp only [visits, List.mem_append] at member
    rcases member with here | later
    · split at here
      next header =>
        cases List.mem_singleton.mp here
        exact ⟨_, by simp [MemberList.membersFor, entered, found]; rfl⟩
      next plain => cases here
    · exact ih entered tail visit later
  | message info members field rest ihMembers ih =>
    obtain ⟨found, tail⟩ := MemberList.get?_of_drop_message dropped
    intro visit member
    simp only [visits, List.mem_append, Bool.false_eq_true, if_false] at member
    rcases member with here | later
    · split at here
      next sequence =>
        rcases List.mem_cons.mp here with rfl | element
        · exact ⟨_, by simp [MemberList.membersFor, entered, found]; rfl⟩
        · obtain ⟨j, _, element⟩ := List.mem_flatMap.mp element
          have inner : root.whole.enter (stack ++ [(index, some j)]) = some members.whole := by
            simp [Place.enter_append, entered, Place.enter, found]
          exact ihMembers inner members.drop_zero visit element
      next single =>
        have inner : root.whole.enter (stack ++ [(index, none)]) =
            some ⟨place.struct, place.offset + field.offset, members⟩ := by
          simp [Place.enter_append, entered, Place.enter, found]
        exact ihMembers inner members.drop_zero visit here
    · exact ih entered tail visit later

theorem sufficient_iff {place : Place} {stack : List (Nat × Option Nat)} {index capacity memberSize : Nat}
    {member : Member} (entered : root.whole.enter stack = some place)
    (found : place.members.get? index = some member) :
    Visit.Sufficient target root ⟨stack, index, capacity, memberSize⟩ ↔ capacity = 0 ∨
      member.elementSize target ≤ memberSize ∧
        ∀ other ∈ place.struct.headersAt target (place.offset + member.field.offset),
          other.elementSize target ≤ memberSize := by
  simp only [Visit.Sufficient, MemberList.membersFor, entered, found, Option.bind_some, Option.map_some,
    Option.some.injEq, exists_eq_left', Visit.bytes, List.forall_mem_cons]
  rcases Nat.eq_zero_or_pos capacity with rfl | positive
  · simp
  · simp only [Nat.mul_le_mul_left_iff positive, positive.ne', false_or]

/-- Sufficiency of everything that is met is a condition on the type and the configuration. -/
theorem visits_sufficient_iff {list : MemberList} {place : Place} {path : CString}
    {stack : List (Nat × Option Nat)} {index : Nat} (entered : root.whole.enter stack = some place)
    (dropped : place.members.drop index = list) :
    (∀ visit ∈ visits false conf list path stack index, visit.Sufficient target root) ↔
      list.Provided conf place.struct place.offset path := by
  induction list generalizing place path stack index with
  | nil => simp [visits, MemberList.Provided]
  | basic type field rest ih =>
    obtain ⟨found, tail⟩ := MemberList.get?_of_drop_basic dropped
    simp only [visits, List.forall_mem_append, ih entered tail, MemberList.Provided]
    refine and_congr ?_ Iff.rfl
    split
    next header =>
      simp only [List.forall_mem_singleton, header, forall_const]
      rw [sufficient_iff entered found, elementSize_le_iff]
      rfl
    next plain => simp [plain]
  | message info members field rest ihMembers ih =>
    obtain ⟨found, tail⟩ := MemberList.get?_of_drop_message dropped
    simp only [visits, List.forall_mem_append, ih entered tail, MemberList.Provided,
      Bool.false_eq_true, if_false]
    rw [← and_assoc]
    refine and_congr ?_ Iff.rfl
    split
    next sequence =>
      have each (j : Nat) : (∀ visit ∈ visits false conf members (path.child field.name)
          (stack ++ [(index, some j)]) 0, visit.Sufficient target root) ↔
            members.Provided conf members 0 (path.child field.name) := by
        have inner : root.whole.enter (stack ++ [(index, some j)]) = some members.whole := by
          simp [Place.enter_append, entered, Place.enter, found]
        exact ihMembers inner members.drop_zero
      simp only [List.forall_mem_cons, sufficient_iff entered found, List.forall_mem_flatMap, List.mem_range,
        each, sequence, forall_const, Bool.true_eq_false, IsEmpty.forall_iff, and_true]
      have own : (Member.message ⟨info, members⟩ field).elementSize target ≤ info.sizeOf := Nat.le_refl _
      simp only [own, true_and]
      rcases Nat.eq_zero_or_pos (conf.messageCapacity path field) with zero | positive
      · simp [zero]
      · simp only [positive.ne', false_or]
        exact and_congr Iff.rfl ⟨fun every => every 0 positive, fun provided _ _ => provided⟩
    next single =>
      have inner : root.whole.enter (stack ++ [(index, none)]) =
          some ⟨place.struct, place.offset + field.offset, members⟩ := by
        simp [Place.enter_append, entered, Place.enter, found]
      rw [ihMembers inner members.drop_zero]
      simp [single]

end Visits

theorem plannedVisits_isOf (conf : MemoryConf target) (type : MessageMembers) :
    ∀ visit ∈ plannedVisits false conf type, visit.IsOf type.members :=
  visits_isOf (rfl : type.members.follow [] = some ([], type.members)) type.members.drop_zero

theorem Site.calls_of_marks (site : Site) : site.calls = (site.stack.map Step.mark).map Prod.fst := by
  simp only [Site.calls, List.map_map]
  refine List.map_congr_left fun step _ => ?_
  cases step <;> rfl

theorem Visit.StoredBy.backed_iff {root : MemberList} {visit : Visit} {event : Event}
    (stored : visit.StoredBy event) :
    CapacityBacked target root event ↔ visit.Sufficient target root := by
  cases event with
  | stored site header data bytes capacity =>
    obtain ⟨sameStack, sameMember, rfl, rfl⟩ := stored
    simp only [CapacityBacked, Visit.Sufficient, sameStack, sameMember]
  | _ => exact stored.elim

/-- A run that sets up headers only where it should, and every header that needs memory, backs all
capacities exactly when the type and the configuration provide for every header. -/
theorem backed_iff_provided {conf : MemoryConf target} {type : MessageMembers} {events : List Event}
    (sized : type.members.Sized) (only : StoredOnly events (plannedVisits false conf type))
    (complete : ∀ visit ∈ plannedVisits false conf type, visit.bytes ≠ 0 →
      ∃ event ∈ events, visit.StoredBy event) :
    (∀ event ∈ events, CapacityBacked target type.members event) ↔
      type.members.Provided conf.getConfiguration type.members 0 .empty := by
  have start : type.members.whole.enter [] = some type.members.whole := rfl
  have provided : (∀ visit ∈ plannedVisits false conf type, visit.Sufficient target type.members) ↔
      type.members.Provided conf.getConfiguration type.members 0 .empty :=
    visits_sufficient_iff start type.members.drop_zero
  rw [← provided]
  constructor
  · intro backed visit member
    by_cases empty : visit.bytes = 0
    · -- No capacity needs no memory.
      obtain ⟨members, found⟩ := visits_membersFor start type.members.drop_zero visit member
      have zero : visit.capacity = 0 :=
        (Nat.mul_eq_zero.mp empty).resolve_right (visits_sized sized visit member).ne'
      exact ⟨members, found, by simp [zero]⟩
    · obtain ⟨event, found, stored⟩ := complete visit member empty
      exact stored.backed_iff.mp (backed event found)
  · intro sufficient event member
    cases isStored : event.isStored with
    | true =>
      obtain ⟨visit, found, stored⟩ := only event member isStored
      exact stored.backed_iff.mpr (sufficient visit found)
    | false => cases event <;> trivial

theorem Core.create_backed_iff {conf : MemoryConf target} {type : MessageMembers}
    (sized : type.members.Sized) (fits : dynamicRequirement conf type < target.modulus) {msg : Pointer}
    {core : Core} (success : (core.create conf type msg).1 = true) :
    (∀ event ∈ core.since (core.create conf type msg).2, CapacityBacked target type.members event) ↔
      type.members.Provided conf.getConfiguration type.members 0 .empty := by
  obtain ⟨used, compared, accounted⟩ := Core.create_accounted fits msg core
  rw [success, eq_comm, beq_iff_eq] at compared
  refine backed_iff_provided sized accounted.only (accounted.complete ?_)
  rw [plannedVisits_bytes, compared, dynamicRequirement, Nat.zero_add]

/-- Static creation without a buffer sets up nothing and counts nothing. -/
theorem nullBufferRule (conf : MemoryConf target) :
    VisitRule conf .createPreallocated AnyFrame fun _ _ used w result w' =>
      w.operationBuffer = .null →
        w'.operationBuffer = .null ∧ (used = 0 → result = 0) ∧ Core.Logs Event.Silent w w' where
  toFrameRule := anyFrame conf _
  refl used w isNull := ⟨isNull, id, Core.Logs.refl w⟩
  trans first second isNull := by
    obtain ⟨still, zero, quiet⟩ := first isNull
    obtain ⟨still', zero', quiet'⟩ := second still
    exact ⟨still', zero' ∘ zero, quiet.trans quiet'⟩
  nested used inner isNull := by
    obtain ⟨still, zero, quiet⟩ := inner isNull
    exact ⟨still, fun none => by simp [none, zero rfl, Target.add], quiet⟩
  plan _ _ used w bytes after planned isNull := by
    simp only [Core.planHeader, Core.setUpHeader, Core.getStaticMemory, Core.record_buffer, isNull,
      if_true] at planned
    cases planned
  refuse {_ _ _ stack index _ capacity _} _ _ missed _ used w after planned isNull := by
    simp only [Core.planHeader, Core.setUpHeader, Core.getStaticMemory, Core.record_buffer, isNull,
      if_true, Prod.mk.injEq, true_and] at planned
    subst planned
    have resolved : Core.Logs Event.Silent w (w.record (.resolved ⟨stack, index⟩ capacity)) :=
      Core.Logs.record trivial w
    refine ⟨by simp, fun _ => rfl, ?_⟩
    exact (resolved.congr (by rfl)).trans ((Core.Logs.storePointer target (fun _ _ => trivial) _ _ _).trans
      (Core.Logs.record trivial _))
  load header used w isNull := ⟨by simpa [Core.elementData, Operation.calculates, Core.loadPointer] using
    isNull, id, Core.Logs.touch (fun _ _ => trivial) header _ w⟩
  tear _ _ used w isNull := ⟨isNull, id, Core.Logs.refl w⟩

theorem exists_of_paired {α β : Type} {R : α → β → Prop} {xs : List α} {ys : List β}
    (paired : List.Forall₂ R xs ys) : (∀ x ∈ xs, ∃ y ∈ ys, R x y) ∧ ∀ y ∈ ys, ∃ x ∈ xs, R x y := by
  induction paired with
  | nil => simp
  | cons here _ ih =>
    simp only [List.mem_cons, forall_eq_or_imp, exists_eq_or_imp]
    exact ⟨⟨Or.inl here, fun x member => Or.inr (ih.1 x member)⟩,
      Or.inl here, fun y member => Or.inr (ih.2 y member)⟩

/-- Without a buffer nothing is set up, and the creation succeeds only when the size is zero. -/
theorem Core.createStatic_null (conf : MemoryConf target) (type : MessageMembers) (msg : Pointer)
    (bufferLen : Nat) (core : Core) :
    Logs Event.Silent core (core.createStatic conf type msg .null bufferLen).2 ∧
      ((core.createStatic conf type msg .null bufferLen).1 = true →
        staticRequirement conf type % target.modulus = 0) := by
  obtain ⟨size, sizing⟩ := staticSize_wrapped conf type core
  simp only [createStatic, size]
  split
  next short => exact ⟨sizing, fun success => Bool.noConfusion success⟩
  next long =>
    obtain ⟨_, zero, quiet⟩ := (nullBufferRule conf.getConfiguration).runOver type msg trivial
      ((core.staticSize conf type).2.prepareStatic type msg .null
        (staticRequirement conf type % target.modulus)) (by simp [prepareStatic, placeBuffer])
    have prepared : Logs Event.Silent (core.staticSize conf type).2
        ((core.staticSize conf type).2.prepareStatic type msg .null
          (staticRequirement conf type % target.modulus)) :=
      (Logs.fillZero (fun _ _ => trivial) .null _ _).trans
        (Logs.fillZero (fun _ _ => trivial) msg type.info.sizeOf
          (((core.staticSize conf type).2.fillZero .null _).placeBuffer .null))
    refine ⟨(sizing.trans prepared).trans quiet, fun success => ?_⟩
    simp only [Bool.and_eq_true, beq_iff_eq] at success
    exact success.1.symm.trans (zero rfl)

theorem Core.createStatic_backed_iff {conf : MemoryConf target} {type : MessageMembers}
    (sized : type.members.Sized) (fits : staticRequirement conf type < target.modulus) {msg buffer : Pointer}
    {bufferLen : Nat} {core : Core} (success : (core.createStatic conf type msg buffer bufferLen).1 = true) :
    (∀ event ∈ core.since (core.createStatic conf type msg buffer bufferLen).2,
        CapacityBacked target type.members event) ↔
      type.members.Provided conf.getConfiguration type.members 0 .empty := by
  by_cases isNull : buffer = .null
  · subst isNull
    obtain ⟨quiet, zero⟩ := createStatic_null conf type msg bufferLen core
    have none := zero success
    rw [Nat.mod_eq_of_lt fits] at none
    have least := dynamicRequirement_le_static conf type
    refine backed_iff_provided sized (.of_silent quiet.since _) fun visit member positive => ?_
    have bounded := List.le_sum_of_mem (List.mem_map_of_mem (f := Visit.bytes) member)
    rw [plannedVisits_bytes, ← dynamicRequirement] at bounded
    omega
  · have whole := createStatic_placed fits msg isNull bufferLen core
    simp only at whole
    split at whole
    next long =>
      have paired := exists_of_paired whole.2.2
      refine backed_iff_provided sized (fun event member isStored => ?_) (fun visit member _ => ?_)
      · exact paired.2 event (List.mem_filter.mpr ⟨member, isStored⟩)
      · obtain ⟨event, found, same⟩ := paired.1 visit member
        exact ⟨event, (List.mem_filter.mp found).1, same⟩
    next short => rw [whole.1] at success; cases success

end MicroRos
