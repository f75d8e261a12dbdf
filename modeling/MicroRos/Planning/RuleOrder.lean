import MicroRos.Planning.RuleResolution
import MicroRos.Planning.BufferRefinement

/-! Which changes of the rules have no effect.

The planner takes from the rules only a capacity for the path of each header. Tables that
give the same capacities are therefore interchangeable in every program whose name trees are
served. A table in which no two rules disagree about a header can be written in any order, with
rules repeated, and with the rules of other types among them.
-/

set_option autoImplicit false

namespace MicroRos

open Memory (Pointer Byte)

variable {target : Target}

/-- The members that have headers, in the list and in the types below it, each with the names from the root. -/
def MemberList.headers : MemberList → List CString → List (List CString × Member)
  | .nil, _ => []
  | .basic type field rest, names =>
    (if isHeader type field then [(names ++ [field.name], .basic type field)] else []) ++ rest.headers names
  | .message info members field rest, names =>
    (if field.isSequence then [(names ++ [field.name], .message ⟨info, members⟩ field)] else []) ++
      members.headers (names ++ [field.name]) ++ rest.headers names

/-- The rule is for the member with these names; its path may end in a dot. -/
def Rule.Names (rule : Rule target) (names : List CString) : Prop :=
  rule.rule.text = dotted names ∨ rule.rule.text = dotted names ++ [46]

instance (rule : Rule target) (names : List CString) : Decidable (rule.Names names) :=
  inferInstanceAs (Decidable (_ ∨ _))

section Capacities

variable {conf conf' : MemoryConf target} {path : CString} {names : List CString}

theorem MemoryConf.basicCapacity_eq_resolve (spelled : path.PathOf names) (type : BasicType) (field : Field) :
    conf.basicCapacity path type field = (conf.resolve (names ++ [field.name]) (.basic type field)).val := by
  have resolved := conf.capacityAt_eq_resolve spelled (.basic type field)
  have otherwise : conf.defaultFor (.basic type field) = conf.basicDefault type := by cases type <;> rfl
  rw [otherwise] at resolved
  exact congrArg Fin.val resolved

theorem MemoryConf.messageCapacity_eq_resolve (spelled : path.PathOf names) (type : MessageMembers) (field : Field) :
    conf.messageCapacity path field = (conf.resolve (names ++ [field.name]) (.message type field)).val :=
  congrArg Fin.val (conf.capacityAt_eq_resolve spelled (.message type field))

/-- A run over the members depends on the allocator and on the capacities of the headers. -/
theorem traverse_congr (owner : conf.owner = conf'.owner) (operation : Operation) {list : MemberList}
    (spelled : path.PathOf names)
    (same : ∀ header ∈ list.headers names, conf.resolve header.1 header.2 = conf'.resolve header.1 header.2)
    (msg : Pointer) (stack : List Step) (index used : Nat) (w : Core) :
    traverse conf operation list msg path stack index used w =
      traverse conf' operation list msg path stack index used w := by
  have plans : ∀ site header capacity memberSize (w : Core),
      w.planHeader conf operation site header capacity memberSize =
        w.planHeader conf' operation site header capacity memberSize := by
    intro site header capacity memberSize w
    simp only [Core.planHeader, owner]
  induction list generalizing path names msg stack index used w with
  | nil => rfl
  | basic type field rest ih =>
    have later := ih spelled fun header member => same header (by simp [MemberList.headers, member])
    simp only [traverse]
    split
    next header =>
      have resolved := same (names ++ [field.name], .basic type field) (by simp [MemberList.headers, header])
      have capacity : conf.basicCapacity path type field = conf'.basicCapacity path type field := by
        rw [MemoryConf.basicCapacity_eq_resolve spelled, MemoryConf.basicCapacity_eq_resolve spelled, resolved]
      simp only [capacity, plans, later, owner]
    next plain => exact later msg stack (index + 1) used w
  | message info members field rest ihMembers ih =>
    have later := ih spelled fun header member => same header (by simp [MemberList.headers, member])
    have inner := ihMembers (spelled.child field.name) fun header member =>
      same header (by simp [MemberList.headers, member])
    simp only [traverse]
    split
    next sequence =>
      have resolved := same (names ++ [field.name], .message ⟨info, members⟩ field)
        (by simp [MemberList.headers, sequence])
      have capacity : conf.messageCapacity path field = conf'.messageCapacity path field := by
        rw [MemoryConf.messageCapacity_eq_resolve spelled ⟨info, members⟩,
          MemoryConf.messageCapacity_eq_resolve spelled ⟨info, members⟩, resolved]
      simp only [capacity, plans, inner, later, owner]
    next single => simp only [inner, later]

end Capacities

/-- The configurations have the same allocator, and give the same capacity to each header of the type. -/
structure MemoryConf.Alike (conf conf' : MemoryConf target) (type : MessageMembers) : Prop where
  owner : conf.owner = conf'.owner
  capacities : ∀ header ∈ type.members.headers [],
    conf.getConfiguration.resolve header.1 header.2 = conf'.getConfiguration.resolve header.1 header.2

section Planning

variable {conf conf' : MemoryConf target} {type : MessageMembers}

theorem MemoryConf.Alike.planOver_eq (alike : conf.Alike conf' type) (operation : Operation) (msg : Pointer)
    (core : Core) : planOver conf operation type msg core = planOver conf' operation type msg core := by
  have start : CString.PathOf .empty [] := rfl
  have owner : conf.getConfiguration.owner = conf'.getConfiguration.owner := alike.owner
  exact traverse_congr owner operation start alike.capacities msg [] 0 0 core

theorem MemoryConf.Alike.plan_eq (alike : conf.Alike conf' type) (call : PlannerCall) (core : Core) :
    call.plan conf type core = call.plan conf' type core := by
  cases call with
  | createStatic msg buffer bufferLen =>
    have sized : core.staticSize conf type = core.staticSize conf' type := alike.planOver_eq _ _ _
    simp only [PlannerCall.plan, Core.createStatic]
    rw [sized, alike.planOver_eq]
  | _ =>
    simp only [PlannerCall.plan, Core.dynamicSize, Core.staticSize, Core.create, Core.destroy, alike.planOver_eq]

end Planning

/-- The rules can be exchanged for the others: no two of them disagree about a header of the type, and the sizes
that they give to the headers are those that the others give. -/
structure Rearranged (type : MessageMembers) (rules rules' : List (Rule target)) : Prop where
  agree : ∀ header ∈ type.members.headers [], ∀ r ∈ rules, ∀ r' ∈ rules,
    r.Names header.1 → r'.Names header.1 → r.size = r'.size
  kept : ∀ header ∈ type.members.headers [], ∀ r ∈ rules, r.Names header.1 →
    ∃ r' ∈ rules', r'.Names header.1 ∧ r'.size = r.size
  added : ∀ header ∈ type.members.headers [], ∀ r' ∈ rules', r'.Names header.1 →
    ∃ r ∈ rules, r.Names header.1 ∧ r.size = r'.size

namespace MemoryConf

/-- The first rule for a member is one of those for it. -/
theorem resolve_cases (conf : MemoryConf target) (names : List CString) (member : Member) :
    (∃ r ∈ conf.rules, r.Names names ∧ conf.resolve names member = r.size) ∨
      (∀ r ∈ conf.rules, ¬r.Names names) ∧ conf.resolve names member = conf.defaultFor member := by
  unfold resolve
  cases found : conf.rules.find? _ with
  | some r =>
    left
    exact ⟨r, List.mem_of_find?_eq_some found, by simpa [Rule.Names] using List.find?_some found, rfl⟩
  | none =>
    right
    rw [List.find?_eq_none] at found
    exact ⟨fun r member names => found r member (by simpa [Rule.Names] using names), rfl⟩

/-- A rearrangement gives every header its capacity. -/
theorem resolve_rearranged {conf conf' : MemoryConf target} {type : MessageMembers}
    (rearranged : Rearranged type conf.rules conf'.rules) {header : List CString × Member}
    (reached : header ∈ type.members.headers []) (default : conf.defaultFor header.2 = conf'.defaultFor header.2) :
    conf.resolve header.1 header.2 = conf'.resolve header.1 header.2 := by
  -- The second list has a rule for the header, so the first one has, and all of those have one size.
  rcases conf'.resolve_cases header.1 header.2 with ⟨r', member', names', size'⟩ | ⟨unnamed', size'⟩
  · obtain ⟨s, among, named, same⟩ := rearranged.added header reached r' member' names'
    rcases conf.resolve_cases header.1 header.2 with ⟨r, member, names, size⟩ | ⟨unnamed, _⟩
    · rw [size, size', ← same]
      exact rearranged.agree header reached r member s among names named
    · exact absurd named (unnamed s among)
  · rcases conf.resolve_cases header.1 header.2 with ⟨r, member, names, _⟩ | ⟨_, size⟩
    · obtain ⟨s, among, named, _⟩ := rearranged.kept header reached r member names
      exact absurd named (unnamed' s among)
    · rw [size, size', default]

end MemoryConf

/-- The steps are the same but for the rules, or for a capacity of zero that is written as its default. -/
inductive ProgramStep.Rearranged : ProgramStep target → ProgramStep target → Prop where
  | plan {conf conf' : MemoryConf target} {type : MessageMembers} (call : PlannerCall)
      (others : conf'.getConfiguration = { conf.getConfiguration with rules := conf'.rules })
      (rules : MicroRos.Rearranged type conf.rules conf'.rules) :
      Rearranged (.plan conf type call) (.plan conf' type call)
  | other (change : Core → Core) : Rearranged (.other change) (.other change)

theorem Rearranged.alike {conf conf' : MemoryConf target} {type : MessageMembers}
    (rules : Rearranged type conf.rules conf'.rules)
    (others : conf'.getConfiguration = { conf.getConfiguration with rules := conf'.rules }) :
    conf.Alike conf' type where
  owner := by
    have same := congrArg MemoryConf.owner others
    exact same.symm
  capacities header reached := by
    have same : conf.getConfiguration.defaultFor header.2 = conf'.getConfiguration.defaultFor header.2 := by
      rw [others]
      rfl
    have completed : Rearranged type conf.getConfiguration.rules conf'.getConfiguration.rules := rules
    exact MemoryConf.resolve_rearranged completed reached same

theorem runProgram_rearranged {steps steps' : List (ProgramStep target)}
    (rearranged : List.Forall₂ ProgramStep.Rearranged steps steps') (core : Core) (behind behind' : Nat → Nat → Byte) :
    let ran := runProgram (valueStrings target) steps ⟨core, behind⟩
    let ran' := runProgram (valueStrings target) steps' ⟨core, behind'⟩
    ran.1 = ran'.1 ∧ ran.2.core = ran'.2.core := by
  induction rearranged generalizing core behind behind' with
  | nil => exact ⟨rfl, rfl⟩
  | @cons step step' steps steps' here _ ih =>
    cases here with
    | @plan conf conf' type call others rules =>
      obtain ⟨answer, reached⟩ := call.perform_value conf type ⟨core, behind⟩
      obtain ⟨answer', reached'⟩ := call.perform_value conf' type ⟨core, behind'⟩
      rw [(rules.alike others).plan_eq call core] at answer reached
      simp only [runProgram]
      rcases ran : call.perform (valueStrings target) conf type ⟨core, behind⟩ with ⟨answered, core', left⟩
      rcases ran' : call.perform (valueStrings target) conf' type ⟨core, behind'⟩ with ⟨answered', core'', left'⟩
      rw [ran] at answer reached
      rw [ran'] at answer' reached'
      -- Both calls do what the one planner does, so the two runs go on from one core.
      obtain rfl : answered = answered' := answer.trans answer'.symm
      obtain rfl : core' = core'' := reached.trans reached'.symm
      exact (ih core' left left').imp_left (congrArg (answered :: ·))
    | other change => exact ih (change core) behind behind'

/-- Where its name trees are served in both runs, a program gets the same answers and leaves the same messages,
allocator and memory when the rules of its configurations are written in another order, repeated, or mixed with
rules that name no header of the type, as long as no two of them disagree about a header. -/
theorem programs_rearranged {steps steps' : List (ProgramStep target)}
    (rearranged : List.Forall₂ ProgramStep.Rearranged steps steps') (core : Core) (s s' : StringHeap)
    (served : s.Serves (programDemands steps core)) (served' : s'.Serves (programDemands steps' core)) :
    let ran := runProgram (heapStrings target) steps ⟨core, s⟩
    let ran' := runProgram (heapStrings target) steps' ⟨core, s'⟩
    ran.1 = ran'.1 ∧ ran.2.core = ran'.2.core := by
  intro ran ran'
  obtain ⟨answers, reached⟩ := (runProgram_ends steps core s fun _ _ => 0).of_served served
  obtain ⟨answers', reached'⟩ := (runProgram_ends steps' core s' fun _ _ => 0).of_served served'
  obtain ⟨sameAnswers, sameCore⟩ := runProgram_rearranged rearranged core (fun _ _ => 0) fun _ _ => 0
  exact ⟨answers.trans (sameAnswers.trans answers'.symm), reached.trans (sameCore.trans reached'.symm)⟩

/-- A small number as a size on the board. -/
def boardSize (n : Byte) : cortexM.SizeT := n.castLE cortexM.modulus_ge

/-- Two rules for a `Float64MultiArray`. -/
def dataThenDim : MemoryConf cortexM :=
  { boardDefault with
    rules := [⟨.ofString "data", fun _ => 0, boardSize 3⟩, ⟨.ofString "layout.dim", fun _ => 0, boardSize 2⟩] }

/-- The same rules the other way round, with one twice and one for another type; the default capacities are zeros. -/
def dimThenData : MemoryConf cortexM where
  maxStringCapacity := boardSize 0
  maxRos2TypeSequenceCapacity := boardSize 0
  maxBasicTypeSequenceCapacity := boardSize 0
  rules := [⟨.ofString "layout.dim.", fun _ => 1, boardSize 2⟩, ⟨.ofString "names", fun _ => 2, boardSize 9⟩,
    ⟨.ofString "data.", fun _ => 3, boardSize 3⟩, ⟨.ofString "data", fun _ => 4, boardSize 3⟩]
  allocator := none

/-- A message is created with one configuration and destroyed with the other. -/
theorem programs_rearranged_multiArray :
    let type := float64MultiArray cortexM
    let msg : Pointer := ⟨.object 1 0, 0⟩
    let steps : List (ProgramStep cortexM) := [.plan dataThenDim type (.create msg),
      .other (Core.fillZero msg 4), .plan dataThenDim type (.destroy msg)]
    let steps' : List (ProgramStep cortexM) := [.plan dataThenDim type (.create msg),
      .other (Core.fillZero msg 4), .plan dimThenData type (.destroy msg)]
    let core : Core := .boot fun request _ => request ≠ 3
    let ran := runProgram (heapStrings cortexM) steps ⟨core, .boot fun _ => false⟩
    let ran' := runProgram (heapStrings cortexM) steps' ⟨core, .boot fun _ => false⟩
    ran.1 = ran'.1 ∧ ran.2.core = ran'.2.core := by
  have same : Rearranged (float64MultiArray cortexM) dataThenDim.rules dataThenDim.rules :=
    ⟨by decide, by decide, by decide⟩
  have rules : Rearranged (float64MultiArray cortexM) dataThenDim.rules dimThenData.rules :=
    ⟨by decide, by decide, by decide⟩
  intro type msg steps steps' core
  have creates := ProgramStep.Rearranged.plan (.create msg) rfl same
  have others : dimThenData.getConfiguration =
      { dataThenDim.getConfiguration with rules := dimThenData.rules } := rfl
  have destroys := ProgramStep.Rearranged.plan (.destroy msg) others rules
  have rearranged : List.Forall₂ ProgramStep.Rearranged steps steps' :=
    .cons creates (.cons (.other _) (.cons destroys .nil))
  exact programs_rearranged rearranged core _ _ (StringHeap.boot_serves _) (StringHeap.boot_serves _)

end MicroRos
