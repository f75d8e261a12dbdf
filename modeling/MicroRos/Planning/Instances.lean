import MicroRos.Planning.Requirement

/-! Where message instances are, as their types declare it and as the planner takes it.

The planner takes a member for a sequence when it is an array of size zero. A bounded sequence
is an array of nonzero size with an upper bound, so the planner enters the nested type at the
address of the sequence header itself.
-/

set_option autoImplicit false

namespace MicroRos

open Memory (Pointer)

variable {target : Target}

/-- The planner keeps a header for this member. -/
def Member.HasHeader : Member → Prop
  | .basic type field => isHeader type field = true
  | .message _ field => field.isSequence = true

/-- The member is declared a string or a sequence. -/
def Member.Declared : Member → Prop
  | .basic type field => type = .string ∨ field.declaredSequence = true
  | .message _ field => field.declaredSequence = true

theorem Member.HasHeader.declared {member : Member} (header : member.HasHeader) : member.Declared := by
  cases member with
  | basic type field =>
    simp only [HasHeader, isHeader, Bool.or_eq_true, decide_eq_true_eq] at header
    exact header.imp_right Field.declaredSequence_of_isSequence
  | message type field => exact Field.declaredSequence_of_isSequence header

namespace MemberList

/-- The instance that a stack of calls leads to, as the types declare it: nested messages stand in
place, and the elements of a sequence follow one another from its data pointer. -/
def instanceAt : MemberList → Pointer → List Step → Option (MemberList × Pointer)
  | list, msg, [] => some (list, msg)
  | list, msg, .inline index :: stack =>
    match list.get? index with
    | some (.message type field) =>
      if field.declaredSequence then none else type.members.instanceAt (msg.plus field.offset) stack
    | _ => none
  | list, _, .element index j data :: stack =>
    match list.get? index with
    | some (.message type field) =>
      if field.declaredSequence then type.members.instanceAt (data.plus (j * type.info.sizeOf)) stack
      else none
    | _ => none

/-- The instance that the planner takes it to be. -/
def plannedAt (target : Target) : MemberList → Pointer → List Step → Option (MemberList × Pointer)
  | list, msg, [] => some (list, msg)
  | list, msg, .inline index :: stack =>
    match list.get? index with
    | some (.message type field) =>
      if field.isSequence then none
      else type.members.plannedAt target (msg.plus field.offset) stack
    | _ => none
  | list, _, .element index j data :: stack =>
    match list.get? index with
    | some (.message type field) =>
      if field.isSequence then
        type.members.plannedAt target (data.plus (target.mul j type.info.sizeOf)) stack
      else none
    | _ => none

/-- Along these steps there is no bounded sequence in place of a nested message, and no element
offset wraps. -/
def Proper (target : Target) : MemberList → List (Nat × Option Nat) → Prop
  | _, [] => True
  | list, (index, element) :: marks => ∀ type field, list.get? index = some (.message type field) →
    (∀ j, element = some j → j * type.info.sizeOf < target.modulus) ∧
    (element = none → field.isBounded = false) ∧ type.members.Proper target marks

/-- A step goes wrong and nothing puts it right afterwards. -/
def Broken (target : Target) : MemberList → List (Nat × Option Nat) → Prop
  | _, [] => False
  | list, (index, element) :: marks =>
    ∃ type field, list.get? index = some (.message type field) ∧
      (type.members.Broken target marks ∨ element = none ∧ field.isBounded = true ∨
        ∃ j, element = some j ∧ target.modulus ≤ j * type.info.sizeOf ∧ ∀ mark ∈ marks, mark.2 = none)

/-- The condition on types and configuration: an upper-bounded sequence of messages has no headers
in its elements, and where there are headers the offset of the last element does not wrap. Sequences
of capacity zero are not entered. -/
def Owned (conf : MemoryConf target) : MemberList → CString → Prop
  | .nil, _ => True
  | .basic _ _ rest, path => rest.Owned conf path
  | .message info members field rest, path =>
    (field.isSequence = true → conf.messageCapacity path field = 0 ∨
      (members.HasHeader → (conf.messageCapacity path field - 1) * info.sizeOf < target.modulus) ∧
        members.Owned conf (path.child field.name)) ∧
    (field.isSequence = false → (field.isBounded = true → ¬ members.HasHeader) ∧
      members.Owned conf (path.child field.name)) ∧
    rest.Owned conf path

theorem instanceAt_of_proper {list : MemberList} {msg : Pointer} {stack : List Step}
    {reached : MemberList × Pointer} (proper : list.Proper target (stack.map Step.mark))
    (planned : list.plannedAt target msg stack = some reached) :
    list.instanceAt msg stack = some reached := by
  induction stack generalizing list msg with
  | nil => exact planned
  | cons step stack ih =>
    cases step with
    | inline index =>
      simp only [plannedAt] at planned
      cases found : list.get? index with
      | none => simp [found] at planned
      | some member =>
        cases member with
        | basic _ _ => simp [found] at planned
        | message type field =>
          obtain ⟨_, unbounded, inner⟩ := proper type field found
          simp only [found] at planned
          split at planned
          · cases planned
          next single =>
            have declared : field.declaredSequence = false := by
              rw [Bool.eq_false_iff, ne_eq, Field.declaredSequence_iff]
              simp [single, unbounded rfl]
            simp only [instanceAt, found, declared, Bool.false_eq_true, if_false]
            exact ih inner planned
    | element index j data =>
      simp only [plannedAt] at planned
      cases found : list.get? index with
      | none => simp [found] at planned
      | some member =>
        cases member with
        | basic _ _ => simp [found] at planned
        | message type field =>
          obtain ⟨fits, _, inner⟩ := proper type field found
          simp only [found] at planned
          split at planned
          next sequence =>
            simp only [instanceAt, found, Field.declaredSequence_of_isSequence sequence, if_true]
            rw [Target.mul_of_lt (fits j rfl)] at planned
            exact ih inner planned
          · cases planned

/-- Inline steps add the same offset in both views. -/
theorem inline_shift {list reached reached' : MemberList} {msg msg' base base' : Pointer}
    {stack : List Step} (inline : ∀ mark ∈ stack.map Step.mark, mark.2 = none)
    (planned : list.plannedAt target msg stack = some (reached, base))
    (declared : list.instanceAt msg' stack = some (reached', base')) :
    reached' = reached ∧ ∃ n, base = msg.plus n ∧ base' = msg'.plus n := by
  induction stack generalizing list msg msg' with
  | nil =>
    simp only [plannedAt, instanceAt, Option.some.injEq, Prod.mk.injEq] at planned declared
    obtain ⟨rfl, rfl⟩ := planned
    obtain ⟨rfl, rfl⟩ := declared
    exact ⟨rfl, 0, rfl, rfl⟩
  | cons step stack ih =>
    simp only [List.map_cons, List.forall_mem_cons] at inline
    cases step with
    | element index j data => cases inline.1
    | inline index =>
      simp only [plannedAt, instanceAt] at planned declared
      cases found : list.get? index with
      | none => simp [found] at planned
      | some member =>
        cases member with
        | basic _ _ => simp [found] at planned
        | message type field =>
          simp only [found] at planned declared
          split at planned
          · cases planned
          split at declared
          · cases declared
          obtain ⟨same, n, rfl, rfl⟩ := ih inline.2 planned declared
          exact ⟨same, field.offset + n, by rw [Pointer.plus_plus], by rw [Pointer.plus_plus]⟩

theorem Broken.differ {list reached reached' : MemberList} {msg msg' base base' : Pointer}
    {stack : List Step} (broken : list.Broken target (stack.map Step.mark))
    (planned : list.plannedAt target msg stack = some (reached, base))
    (declared : list.instanceAt msg' stack = some (reached', base')) :
    reached' = reached ∧ base'.offset ≠ base.offset := by
  induction stack generalizing list msg msg' with
  | nil => exact broken.elim
  | cons step stack ih =>
    obtain ⟨type, field, found, broken⟩ := broken
    cases step with
    | inline index =>
      simp only at found
      simp only [plannedAt, instanceAt, found] at planned declared
      split at planned
      · cases planned
      split at declared
      · cases declared
      next single =>
        rcases broken with inner | ⟨_, bounded⟩ | ⟨_, isElement, _⟩
        · exact ih inner planned declared
        · exact absurd ((Field.declaredSequence_iff field).mpr (Or.inr bounded)) single
        · cases isElement
    | element index j data =>
      simp only at found
      simp only [plannedAt, instanceAt, found] at planned declared
      split at planned
      · split at declared
        · rcases broken with inner | ⟨isInline, _⟩ | ⟨j', isElement, wraps, inline⟩
          · exact ih inner planned declared
          · cases isInline
          · simp only [Option.some.injEq] at isElement
            subst isElement
            obtain ⟨same, n, rfl, rfl⟩ := inline_shift inline planned declared
            have below := target.mul_lt j type.info.sizeOf
            refine ⟨same, ?_⟩
            simp only [Pointer.plus_offset]
            omega
        · cases declared
      · cases planned

section Visits

variable (conf : MemoryConf target)

/-- A type with headers has one that is reached without entering a sequence. -/
theorem inline_visit {list : MemberList} (header : list.HasHeader) (path : CString)
    (stack : List (Nat × Option Nat)) (index : Nat) :
    ∃ visit ∈ visits false conf list path stack index, ∃ marks, visit.stack = stack ++ marks ∧
      ∀ mark ∈ marks, mark.2 = none := by
  induction list generalizing path stack index with
  | nil => exact header.elim
  | basic type field rest ih =>
    simp only [visits, List.mem_append]
    rcases header with here | later
    · exact ⟨_, Or.inl (by rw [if_pos here]; exact List.mem_singleton_self _), [], by simp, by simp⟩
    · obtain ⟨visit, found, inline⟩ := ih later path stack (index + 1)
      exact ⟨visit, Or.inr found, inline⟩
  | message info members field rest ihMembers ih =>
    simp only [visits, List.mem_append, Bool.false_eq_true, if_false]
    by_cases sequence : field.isSequence = true
    · exact ⟨_, Or.inl (by rw [if_pos sequence]; exact List.mem_cons_self), [], by simp, by simp⟩
    · rcases header with here | inner | later
      · exact absurd here sequence
      · obtain ⟨visit, found, marks, same, inline⟩ := ihMembers inner (path.child field.name)
          (stack ++ [(index, none)]) 0
        refine ⟨visit, Or.inl (by rwa [if_neg sequence]), (index, none) :: marks, ?_, ?_⟩
        · rw [same, List.append_assoc, List.singleton_append]
        · simpa using inline
      · obtain ⟨visit, found, inline⟩ := ih later path stack (index + 1)
        exact ⟨visit, Or.inr found, inline⟩

theorem hasHeader_of_visit {list : MemberList} {path : CString} {stack : List (Nat × Option Nat)}
    {index : Nat} {visit : Visit} (met : visit ∈ visits false conf list path stack index) :
    list.HasHeader := by
  induction list generalizing path stack index with
  | nil => cases met
  | basic type field rest ih =>
    simp only [visits, List.mem_append] at met
    rcases met with here | later
    · split at here
      next header => exact Or.inl header
      next plain => cases here
    · exact Or.inr (ih later)
  | message info members field rest ihMembers ih =>
    simp only [visits, List.mem_append] at met
    rcases met with here | later
    · split at here
      next sequence => exact Or.inl sequence
      next single => exact Or.inr (Or.inl (ihMembers here))
    · exact Or.inr (Or.inr (ih later))

variable {conf}

theorem Owned.proper {list reached : MemberList} {path : CString} {stack : List (Nat × Option Nat)}
    {index : Nat} (owned : list.Owned conf path) (dropped : reached.drop index = list)
    {visit : Visit} (met : visit ∈ visits false conf list path stack index) :
    ∃ marks, visit.stack = stack ++ marks ∧ reached.Proper target marks := by
  induction list generalizing reached path stack index with
  | nil => cases met
  | basic type field rest ih =>
    simp only [visits, List.mem_append] at met
    rcases met with here | later
    · split at here
      · cases List.mem_singleton.mp here
        exact ⟨[], by simp, trivial⟩
      · cases here
    · exact ih owned (get?_of_drop_basic dropped).2 later
  | message info members field rest ihMembers ih =>
    obtain ⟨found, tail⟩ := get?_of_drop_message dropped
    obtain ⟨inSequence, inPlace, restOwned⟩ := owned
    simp only [visits, List.mem_append, Bool.false_eq_true, if_false] at met
    rcases met with here | later
    · split at here
      next sequence =>
        rcases List.mem_cons.mp here with rfl | element
        · exact ⟨[], by simp, trivial⟩
        · obtain ⟨j, bound, element⟩ := List.mem_flatMap.mp element
          simp only [List.mem_range] at bound
          rcases inSequence sequence with zero | ⟨fits, inner⟩
          · omega
          obtain ⟨marks, same, proper⟩ := ihMembers inner members.drop_zero element
          refine ⟨(index, some j) :: marks, by simp [same], fun type' field' found' => ?_⟩
          rw [found] at found'
          cases found'
          refine ⟨fun j' isElement => ?_, (by rintro ⟨⟩), proper⟩
          cases isElement
          have below : j * info.sizeOf ≤ (conf.messageCapacity path field - 1) * info.sizeOf :=
            Nat.mul_le_mul_right _ (by omega)
          have := fits (hasHeader_of_visit conf element)
          exact Nat.lt_of_le_of_lt below this
      next single =>
        obtain ⟨unbounded, inner⟩ := inPlace (by simpa using single)
        obtain ⟨marks, same, proper⟩ := ihMembers inner members.drop_zero here
        refine ⟨(index, none) :: marks, by simp [same], fun type' field' found' => ?_⟩
        rw [found] at found'
        cases found'
        refine ⟨(by rintro _ ⟨⟩), fun _ => ?_, proper⟩
        by_contra bounded
        exact unbounded (by simpa using bounded) (hasHeader_of_visit conf here)
    · exact ih restOwned tail later

theorem broken_of_not_owned {list reached : MemberList} {path : CString}
    (stack : List (Nat × Option Nat)) (index : Nat) (notOwned : ¬ list.Owned conf path)
    (dropped : reached.drop index = list) :
    ∃ visit ∈ visits false conf list path stack index, ∃ marks, visit.stack = stack ++ marks ∧
      reached.Broken target marks := by
  induction list generalizing reached path stack index with
  | nil => exact absurd trivial notOwned
  | basic type field rest ih =>
    obtain ⟨visit, met, broken⟩ := ih _ _ notOwned (get?_of_drop_basic dropped).2
    exact ⟨visit, List.mem_append_right _ met, broken⟩
  | message info members field rest ihMembers ih =>
    obtain ⟨found, tail⟩ := get?_of_drop_message dropped
    simp only [visits, List.mem_append, Bool.false_eq_true, if_false]
    by_cases restOwned : rest.Owned conf path
    · by_cases sequence : field.isSequence = true
      · have bad : conf.messageCapacity path field ≠ 0 ∧ ¬ ((members.HasHeader →
            (conf.messageCapacity path field - 1) * info.sizeOf < target.modulus) ∧
            members.Owned conf (path.child field.name)) := by
          by_contra good
          refine notOwned ⟨fun _ => ?_, fun single => absurd sequence (by simp [single]), restOwned⟩
          tauto
        obtain ⟨positive, bad⟩ := bad
        simp only [sequence, if_true]
        have inElement : ∀ j < conf.messageCapacity path field, ∀ visit ∈ visits false conf members
            (path.child field.name) (stack ++ [(index, some j)]) 0, visit ∈
              (⟨stack, index, conf.messageCapacity path field, info.sizeOf⟩ : Visit) ::
                (List.range (conf.messageCapacity path field)).flatMap fun j =>
                  visits false conf members (path.child field.name) (stack ++ [(index, some j)]) 0 :=
          fun j bound visit met =>
            List.mem_cons_of_mem _ (List.mem_flatMap.mpr ⟨j, List.mem_range.mpr bound, met⟩)
        by_cases inner : members.Owned conf (path.child field.name)
        · -- The offset of the last element wraps, and that element has a header.
          simp only [inner, and_true, Classical.not_imp] at bad
          obtain ⟨header, wraps⟩ := bad
          obtain ⟨visit, met, marks, same, inline⟩ := inline_visit conf header (path.child field.name)
            (stack ++ [(index, some (conf.messageCapacity path field - 1))]) 0
          refine ⟨visit, Or.inl (inElement _ (by omega) visit met),
            (index, some (conf.messageCapacity path field - 1)) :: marks, by simp [same], ?_⟩
          exact ⟨_, _, found, Or.inr (Or.inr ⟨_, rfl, by simpa using wraps, inline⟩)⟩
        · obtain ⟨visit, met, marks, same, broken⟩ := ihMembers
            (stack ++ [(index, some 0)]) 0 inner members.drop_zero
          exact ⟨visit, Or.inl (inElement 0 (by omega) visit met), (index, some 0) :: marks,
            by simp [same], _, _, found, Or.inl broken⟩
      · have single : field.isSequence = false := by simpa using sequence
        simp only [single, Bool.false_eq_true, if_false]
        by_cases inner : members.Owned conf (path.child field.name)
        · have bad : field.isBounded = true ∧ members.HasHeader := by
            by_contra good
            refine notOwned ⟨fun isSequence => absurd isSequence sequence, fun _ => ⟨?_, inner⟩, restOwned⟩
            tauto
          obtain ⟨visit, met, marks, same, _⟩ := inline_visit conf bad.2 (path.child field.name)
            (stack ++ [(index, none)]) 0
          exact ⟨visit, Or.inl met, (index, none) :: marks, by simp [same], _, _, found,
            Or.inr (Or.inl ⟨rfl, bad.1⟩)⟩
        · obtain ⟨visit, met, marks, same, broken⟩ := ihMembers
            (stack ++ [(index, none)]) 0 inner members.drop_zero
          exact ⟨visit, Or.inl met, (index, none) :: marks, by simp [same], _, _, found, Or.inl broken⟩
    · obtain ⟨visit, met, broken⟩ := ih _ _ restOwned tail
      exact ⟨visit, Or.inr met, broken⟩

end Visits

theorem plannedAt_append (list : MemberList) (msg : Pointer) (stack later : List Step) :
    list.plannedAt target msg (stack ++ later) =
      (list.plannedAt target msg stack).bind fun reached => reached.1.plannedAt target reached.2 later := by
  induction stack generalizing list msg with
  | nil => rfl
  | cons step stack ih =>
    cases step with
    | inline index =>
      simp only [List.cons_append, plannedAt]
      cases list.get? index with
      | none => rfl
      | some member => cases member with
        | basic _ _ => rfl
        | message type field =>
          simp only
          split
          · rfl
          · exact ih _ _
    | element index j data =>
      simp only [List.cons_append, plannedAt]
      cases list.get? index with
      | none => rfl
      | some member => cases member with
        | basic _ _ => rfl
        | message type field =>
          simp only
          split
          · exact ih _ _
          · rfl

/-- The strings and sequences that are declared with their header at this offset of a struct, in which
nested messages and the values of arrays stand in place. -/
def headersAt (target : Target) : MemberList → Nat → List Member
  | .nil, _ => []
  | .basic type field rest, o =>
    (if field.declaredSequence then if o = field.offset then [.basic type field] else []
      else if type = .string ∧ ∃ k < field.count, o = field.offset + k * target.headerSize then
        [.basic type field]
      else []) ++ rest.headersAt target o
  | .message info members field rest, o =>
    (if field.declaredSequence then
        if o = field.offset then [.message ⟨info, members⟩ field] else []
      else (List.range field.count).flatMap fun k =>
        if field.offset + k * info.sizeOf ≤ o then
          members.headersAt target (o - (field.offset + k * info.sizeOf))
        else []) ++ rest.headersAt target o

end MemberList

/-- An instance in the struct of a message or of an element: the members of the struct's type, the offset
of the instance, and its own members. -/
structure Place where
  struct : MemberList
  offset : Nat
  members : MemberList

def MemberList.whole (list : MemberList) : Place := ⟨list, 0, list⟩

namespace Place

/-- The place that the planner is at behind these calls. Where it takes a bounded sequence for a nested message,
that is still in the struct around it. -/
def enter : Place → List (Nat × Option Nat) → Option Place
  | place, [] => some place
  | place, (index, element) :: marks =>
    match place.members.get? index with
    | some (.message type field) =>
      match element with
      | none => enter ⟨place.struct, place.offset + field.offset, type.members⟩ marks
      | some _ => enter type.members.whole marks
    | _ => none

theorem enter_append (place : Place) (marks later : List (Nat × Option Nat)) :
    place.enter (marks ++ later) = (place.enter marks).bind fun reached => reached.enter later := by
  induction marks generalizing place with
  | nil => rfl
  | cons mark marks ih =>
    obtain ⟨index, element⟩ := mark
    simp only [List.cons_append, enter]
    cases place.members.get? index with
    | none => rfl
    | some member =>
      cases member with
      | basic _ _ => rfl
      | message type field => cases element <;> exact ih _

end Place

/-- The members that a header counts for: the one that the planner means, and those that are declared with
their header where it is. -/
def MemberList.membersFor (target : Target) (root : MemberList) (marks : List (Nat × Option Nat))
    (index : Nat) : Option (List Member) :=
  (root.whole.enter marks).bind fun place => (place.members.get? index).map fun member =>
    member :: place.struct.headersAt target (place.offset + member.field.offset)

end MicroRos
