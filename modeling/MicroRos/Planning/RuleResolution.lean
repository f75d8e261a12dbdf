import MicroRos.Planning.Functions
import MicroRos.Planning.Log

/-! Which rule decides the capacity of a header.

The statements here are about paths of names: the abstract resolution compares a rule
with the names joined by dots and knows nothing of the name tree, its buffer or the
comparisons that the program makes.
-/

set_option autoImplicit false

namespace MicroRos

open Memory (Pointer Byte)

variable {target : Target}

/-- Names joined by dots, without a trailing dot. -/
def dotted (names : List CString) : List Byte := [46].intercalate (names.map (·.text))

namespace MemoryConf

/-- The capacity without any rule. -/
def defaultFor (conf : MemoryConf target) : Member → target.SizeT
  | .basic .string _ => conf.maxStringCapacity
  | .basic _ _ => conf.maxBasicTypeSequenceCapacity
  | .message _ _ => conf.maxRos2TypeSequenceCapacity

/-- Rule resolution on names: the first rule whose text is the dotted path, with or without a
trailing dot, and otherwise the default. -/
def resolve (conf : MemoryConf target) (names : List CString) (member : Member) : target.SizeT :=
  match conf.rules.find? fun r =>
      r.rule.text = dotted names ∨ r.rule.text = dotted names ++ [46] with
  | some r => r.size
  | none => conf.defaultFor member

end MemoryConf

/-- The path of the names has a dot behind every name. -/
def CString.PathOf (path : CString) (names : List CString) : Prop :=
  path.text = names.flatMap fun name => name.text ++ [46]

theorem flatMap_dot (names : List CString) (last : CString) :
    (names ++ [last]).flatMap (fun name => name.text ++ [46]) = dotted (names ++ [last]) ++ [46] := by
  induction names with
  | nil => simp [dotted]
  | cons name names ih =>
    have tail : dotted (name :: (names ++ [last])) = name.text ++ [46] ++ dotted (names ++ [last]) := by
      cases names <;> simp [dotted, List.intercalate]
    simp only [List.cons_append, List.flatMap_cons, ih, tail, List.append_assoc]

theorem Rule.selects_iff {r : Rule target} {path name : CString} {names : List CString}
    (spelled : path.PathOf names) :
    r.selects (path.child name) = true ↔
      r.rule.text = dotted (names ++ [name]) ∨ r.rule.text = dotted (names ++ [name]) ++ [46] := by
  have text : (path.child name).text = dotted (names ++ [name]) ++ [46] := by
    have start : path.text = names.flatMap fun name => name.text ++ [46] := spelled
    rw [← flatMap_dot, List.flatMap_append, ← start]
    simp [CString.child, CString.dot]
  simp only [selects, decide_eq_true_eq, CString.ext_iff, text, CString.append_text, CString.dot,
    List.append_cancel_right_eq]

theorem MemoryConf.capacityAt_eq_resolve (conf : MemoryConf target) {path : CString}
    {names : List CString} (spelled : path.PathOf names) (member : Member) :
    conf.capacityAt (path.child member.field.name) (conf.defaultFor member) =
      conf.resolve (names ++ [member.field.name]) member := by
  have samePredicate : (fun r : Rule target => r.selects (path.child member.field.name)) =
      fun r => decide (r.rule.text = dotted (names ++ [member.field.name]) ∨
        r.rule.text = dotted (names ++ [member.field.name]) ++ [46]) := by
    funext r
    rw [Bool.eq_iff_iff, Rule.selects_iff spelled, decide_eq_true_eq]
  simp only [capacityAt, resolve, samePredicate]
  cases conf.rules.find? _ <;> rfl

/-- A call of the recursion over `root`: its remaining members are those that its stack leads to,
and its path spells the names on the way. -/
def ResolvedFrame (root : MemberList) (list : MemberList) (_msg : Pointer) (path : CString)
    (stack : List Step) (index : Nat) : Prop :=
  ∃ names reached, root.follow (stack.map Step.member) = some (names, reached) ∧
    reached.drop index = list ∧ path.PathOf names

/-- Capacities decided or stored for a member are the ones that its names resolve to. -/
def ResolvedEvent (conf : MemoryConf target) (root : MemberList) : Event → Prop
  | .resolved site capacity | .stored site _ _ _ capacity =>
    ∃ names member, root.memberAt site.calls site.member = some (names, member) ∧
      capacity = (conf.resolve names member).val
  | _ => True

theorem CString.PathOf.child {path : CString} {names : List CString} (spelled : path.PathOf names)
    (name : CString) : (path.child name).PathOf (names ++ [name]) := by
  have text : path.text = names.flatMap fun name => name.text ++ [46] := spelled
  simp [PathOf, CString.child, CString.dot, text]

theorem resolvedFrame_push {root members rest : MemberList} {info : MessageInfo} {field : Field}
    {msg msg' : Pointer} {path : CString} {stack : List Step} {index : Nat} {step : Step}
    (frame : ResolvedFrame root (.message info members field rest) msg path stack index)
    (here : step.member = index) :
    ResolvedFrame root members msg' (path.child field.name) (stack ++ [step]) 0 := by
  obtain ⟨names, reached, followed, dropped, spelled⟩ := frame
  have found := (MemberList.get?_of_drop_message dropped).1
  rw [← here] at found
  exact ⟨_, members, by simpa using MemberList.follow_push followed found, members.drop_zero,
    spelled.child field.name⟩

theorem resolvedFrame_header {conf : MemoryConf target} {root list : MemberList} {msg : Pointer}
    {path : CString} {stack : List Step} {index capacity memberSize : Nat} {field : Field}
    (frame : ResolvedFrame root list msg path stack index)
    (header : HeaderOf conf path list field capacity memberSize) :
    ∃ names member, root.memberAt (stack.map Step.member) index = some (names, member) ∧
      capacity = (conf.resolve names member).val := by
  obtain ⟨names, reached, followed, dropped, spelled⟩ := frame
  cases header with
  | @basic type field rest header =>
    have found := (MemberList.get?_of_drop_basic dropped).1
    refine ⟨_, _, by simp [MemberList.memberAt, followed, found]; exact ⟨rfl, rfl⟩, ?_⟩
    rw [← conf.capacityAt_eq_resolve spelled (.basic type field)]
    cases type <;> rfl
  | @message info members field rest sequence =>
    have found := (MemberList.get?_of_drop_message dropped).1
    refine ⟨_, _, by simp [MemberList.memberAt, followed, found]; exact ⟨rfl, rfl⟩, ?_⟩
    rw [← conf.capacityAt_eq_resolve spelled (.message ⟨info, members⟩ field)]
    rfl

theorem resolvedRule (conf : MemoryConf target) (operation : Operation) (root : MemberList) :
    TraversalRule conf operation (ResolvedFrame root) (Core.Logs (ResolvedEvent conf root)) where
  refl := Core.Logs.refl
  trans := Core.Logs.trans
  next := by
    rintro list msg path stack index ⟨names, reached, followed, dropped, spelled⟩
    refine ⟨names, reached, followed, ?_, spelled⟩
    cases list with
    | nil => exact MemberList.drop_succ_of_nil dropped
    | basic _ _ _ => exact (MemberList.get?_of_drop_basic dropped).2
    | message _ _ _ _ => exact (MemberList.get?_of_drop_message dropped).2
  inline frame _ := resolvedFrame_push frame rfl
  element _ _ frame _ _ := resolvedFrame_push frame rfl
  plan frame header w := by
    have resolved := resolvedFrame_header frame header
    exact Core.Logs.planHeader conf operation (by intros; trivial) (by intros; trivial)
      (by intros; trivial) resolved (fun _ _ => resolved) trivial _ w
  load header w := Core.Logs.elementData (by intros; trivial) operation header w
  tear _ _ w := Core.Logs.tearDownHeader (by intros; trivial) (by intros; trivial)
    (by intros; trivial) trivial conf.owner operation w

theorem traverse_resolves (conf : MemoryConf target) (operation : Operation) (root : MemberList)
    (msg : Pointer) (core : Core) :
    Core.Logs (ResolvedEvent conf root) core
      (traverse conf operation root msg .empty [] 0 0 core).2 := by
  have start : ResolvedFrame root root msg .empty [] 0 := ⟨[], root, rfl, root.drop_zero, rfl⟩
  exact (resolvedRule conf operation root).run root start 0 core

theorem planOver_resolves (conf : MemoryConf target) (operation : Operation) (type : MessageMembers)
    (msg : Pointer) (core : Core) :
    Core.Logs (ResolvedEvent conf.getConfiguration type.members) core
      (planOver conf operation type msg core).2 :=
  traverse_resolves conf.getConfiguration operation type.members msg core

/-- In every operation, each header that is visited in any instance gets the capacity of the first
rule for its dotted path, or the default, and elements of one sequence do not differ in it. -/
theorem handleMessageMemory_resolves_rules (conf : MemoryConf target) (operation : Operation)
    (type : MessageMembers) (msg : Pointer) (behind : Nat → Nat → Byte) (core : Core) :
    let after := (handleMessageMemory target (valueStrings target) conf.getConfiguration operation
      type.members msg .empty [] 0 0 ⟨core, behind⟩).2.core
    (∀ event ∈ core.since after, ResolvedEvent conf.getConfiguration type.members event) ∧
    ∀ site other capacity capacity', .resolved site capacity ∈ core.since after →
      .resolved other capacity' ∈ core.since after →
      site.calls = other.calls → site.member = other.member → capacity = capacity' := by
  intro after
  have events : ∀ event ∈ core.since after,
      ResolvedEvent conf.getConfiguration type.members event := by
    have run := traverse_resolves conf.getConfiguration operation type.members msg core
    have value := (handleMessageMemory_value conf.getConfiguration operation type.members msg
      (fun _ => rfl : Spells _ CString.empty .empty) [] 0 0
      (rfl : (⟨core, behind⟩ : World (Nat → Nat → Byte)).core = core)).2
    rw [← value] at run
    exact run.since
  refine ⟨events, fun site other capacity capacity' one two sameStack sameMember => ?_⟩
  obtain ⟨names, member, found, rfl⟩ := events _ one
  obtain ⟨names', member', found', rfl⟩ := events _ two
  rw [sameStack, sameMember, found'] at found
  cases found
  rfl

end MicroRos
