import MicroRos.Planning.ScratchBuffers

/-! How many bytes the rule loop asks `memcmp` to compare.

The block of the name tree has the size that the last growth gave it, which may be that of
a copy further down: the size at a member follows from the names that were appended before
it, and at most one comparison of a rule reaches behind the rule or behind the block.
-/

set_option autoImplicit false

namespace MicroRos

variable {target : Target}

/-- The comparisons of a rule with a path stay inside: the rule is not longer than the block of the name
tree, and where it begins the path at most two characters of the path stand behind it. -/
def Rule.StaysInside (r : Rule target) (path : CString) (size : Nat) : Prop :=
  r.rule.text.length ≤ size ∧ (r.rule.text <+: path.text → path.text.length ≤ r.rule.text.length + 2)

/-- So do those of all rules up to the first that matches. -/
def loopStaysInside (path : CString) (size : Nat) : List (Rule target) → Prop
  | [] => True
  | rule :: rules =>
    rule.StaysInside path size ∧ (rule.selects path = false → loopStaysInside path size rules)

/-- So do those at every member with a header that the run meets. The block has `size` bytes when the list is
reached, and the copy of its struct this capacity. -/
def MemberList.RulesStayInside (conf : MemoryConf target) (refused : Nat → Nat → Bool) :
    MemberList → CString → Nat → Nat → Nat → Prop
  | .nil, _, _, _, _ => True
  | .basic type field rest, path, capacity, asked, size =>
    let named := nameCapacity path field.name capacity
    let grown := Demand.sizeAfter size (nameDemands path field.name capacity)
    if isHeader type field then
      loopStaysInside (path.child field.name) grown conf.rules ∧
        (refused asked (target.mul (conf.basicCapacity path type field) type.plannedSize) = false →
          rest.RulesStayInside conf refused path named (asked + 1) grown)
    else rest.RulesStayInside conf refused path named asked grown
  | .message info members field rest, path, capacity, asked, size =>
    let named := nameCapacity path field.name capacity
    let grown := Demand.sizeAfter size (nameDemands path field.name capacity)
    let inner := members.demands conf refused (path.child field.name) named
    if field.isSequence then
      let elements (n : Nat) := rounds inner n (asked + 1)
      loopStaysInside (path.child field.name) grown conf.rules ∧
        (refused asked (target.mul (conf.messageCapacity path field) info.sizeOf) = false →
          (∀ j < conf.messageCapacity path field, members.RulesStayInside conf refused (path.child field.name) named
            (elements j).2 (Demand.sizeAfter grown (elements j).1)) ∧
          rest.RulesStayInside conf refused path named (elements (conf.messageCapacity path field)).2
            (Demand.sizeAfter grown (elements (conf.messageCapacity path field)).1))
    else
      members.RulesStayInside conf refused (path.child field.name) named asked grown ∧
        rest.RulesStayInside conf refused path named (inner asked).2 (Demand.sizeAfter grown (inner asked).1)

theorem le_capacityFor (length capacity : Nat) : length ≤ capacityFor length capacity ∧ capacity ≤ capacityFor length capacity := by
  unfold capacityFor
  split <;> omega

/-- The name tree has room for the path that it spells, so only the rules can reach too far. -/
theorem length_le_nameCapacity (path name : CString) (capacity : Nat) :
    (path.child name).text.length ≤ nameCapacity path name capacity := (le_capacityFor _ _).1

theorem le_nameCapacity (path name : CString) (capacity : Nat) : capacity ≤ nameCapacity path name capacity :=
  Nat.le_trans (le_capacityFor _ _).2 (le_capacityFor _ _).2

/-- A block that is as large as the copy believes stays so. -/
theorem capacityFor_le_sizeAfter {capacity size : Nat} (room : capacity ≤ size) (length : Nat) :
    capacityFor length capacity ≤ Demand.sizeAfter size (growth length capacity) := by
  unfold capacityFor growth
  split
  · exact Nat.le_refl _
  · exact room

theorem nameCapacity_le_sizeAfter {capacity size : Nat} (room : capacity ≤ size) (path name : CString) :
    nameCapacity path name capacity ≤ Demand.sizeAfter size (nameDemands path name capacity) := by
  rw [nameDemands, Demand.sizeAfter_append]
  exact capacityFor_le_sizeAfter (capacityFor_le_sizeAfter room _) _

/-- Comparisons do not change the block. -/
theorem sizeAfter_lookups (size : Nat) (path : CString) (rules : List (Rule target)) :
    Demand.sizeAfter size (lookups path rules) = size := by
  have compares (rule : Rule target) : Demand.sizeAfter size (rule.comparisons path) = size := by
    unfold Rule.comparisons
    split <;> rfl
  induction rules with
  | nil => rfl
  | cons rule rules ih =>
    rw [lookups, Demand.sizeAfter_append, compares]
    split
    · rfl
    · exact ih

theorem le_sizeAfter_rounds {round : Nat → List Demand × Nat} {capacity size : Nat} (room : capacity ≤ size)
    (each : ∀ size asked, capacity ≤ size → capacity ≤ Demand.sizeAfter size (round asked).1) (n asked : Nat) :
    capacity ≤ Demand.sizeAfter size (rounds round n asked).1 := by
  induction n with
  | zero => exact room
  | succ n ih =>
    rw [rounds, followedBy, Demand.sizeAfter_append]
    exact each _ _ ih

/-- The block never becomes smaller than the copies that are still used take it for. -/
theorem MemberList.le_sizeAfter_demands (conf : MemoryConf target) (refused : Nat → Nat → Bool) (list : MemberList)
    (path : CString) {capacity size : Nat} (room : capacity ≤ size) (asked : Nat) :
    capacity ≤ Demand.sizeAfter size (list.demands conf refused path capacity asked).1 := by
  induction list generalizing path capacity asked size with
  | nil => exact room
  | basic type field rest ih =>
    have named := le_nameCapacity path field.name capacity
    have grown := nameCapacity_le_sizeAfter room path field.name
    have behind (asked : Nat) := Nat.le_trans named (ih path grown asked)
    simp only [demands]
    split
    · split
      · rw [Demand.sizeAfter_append, sizeAfter_lookups]
        exact Nat.le_trans named grown
      · simp only [followedBy, Demand.sizeAfter_append, sizeAfter_lookups]
        exact behind _
    · simp only [followedBy, Demand.sizeAfter_append]
      exact behind _
  | message info members field rest ihMembers ih =>
    have named := le_nameCapacity path field.name capacity
    have grown := nameCapacity_le_sizeAfter room path field.name
    simp only [demands]
    split
    · split
      · rw [Demand.sizeAfter_append, sizeAfter_lookups]
        exact Nat.le_trans named grown
      · simp only [followedBy, Demand.sizeAfter_append, sizeAfter_lookups]
        have looped := le_sizeAfter_rounds grown (fun _ asked room => ihMembers (path.child field.name) room asked)
          (conf.messageCapacity path field) (asked + 1)
        exact Nat.le_trans named (ih path looped _)
    · simp only [followedBy, Demand.sizeAfter_append]
      exact Nat.le_trans named (ih path (ihMembers (path.child field.name) grown asked) _)

theorem Rule.fits_comparisons_iff (r : Rule target) {path : CString} {size : Nat} (room : path.text.length ≤ size) :
    Demand.Fits size (r.comparisons path) ↔ r.StaysInside path size := by
  simp only [comparisons, StaysInside, Demand.Fits, CString.cells_length]
  by_cases begins : r.rule.text <+: path.text
  · simp only [begins, if_true, Demand.Fits, forall_const, and_true]
    omega
  · simp [begins, Demand.Fits]

theorem fits_lookups_iff {path : CString} {size : Nat} (room : path.text.length ≤ size) (rules : List (Rule target)) :
    Demand.Fits size (lookups path rules) ↔ loopStaysInside path size rules := by
  induction rules with
  | nil => simp [lookups, loopStaysInside, Demand.Fits]
  | cons rule rules ih =>
    have same : Demand.sizeAfter size (rule.comparisons path) = size := by
      unfold Rule.comparisons
      split <;> rfl
    rw [lookups, Demand.fits_append, rule.fits_comparisons_iff room, same, loopStaysInside]
    cases rule.selects path with
    | true => simp [Demand.Fits]
    | false => simp [ih]

theorem fits_nameDemands (size : Nat) (path name : CString) (capacity : Nat) :
    Demand.Fits size (nameDemands path name capacity) := by
  have grows (size length capacity : Nat) : Demand.Fits size (growth length capacity) := by
    unfold growth
    split <;> trivial
  exact (Demand.fits_append _ _ _).mpr ⟨grows _ _ _, grows _ _ _⟩

/-- A loop stays inside if every round does, on the block that the rounds before leave. -/
theorem fits_rounds_iff (round : Nat → List Demand × Nat) (size n asked : Nat) :
    Demand.Fits size (rounds round n asked).1 ↔ ∀ j < n, Demand.Fits
      (Demand.sizeAfter size (rounds round j asked).1) (round (rounds round j asked).2).1 := by
  induction n with
  | zero => simp [rounds, Demand.Fits]
  | succ n ih => rw [rounds, followedBy, Demand.fits_append, ih, Nat.forall_lt_succ_right]

theorem MemberList.fits_demands_iff (conf : MemoryConf target) (refused : Nat → Nat → Bool) (list : MemberList)
    (path : CString) {capacity size : Nat} (room : capacity ≤ size) (asked : Nat) :
    Demand.Fits size (list.demands conf refused path capacity asked).1 ↔
      list.RulesStayInside conf refused path capacity asked size := by
  induction list generalizing path capacity asked size with
  | nil => simp [demands, RulesStayInside, Demand.Fits]
  | basic type field rest ih =>
    have grown := nameCapacity_le_sizeAfter room path field.name
    have looked := fits_lookups_iff (Nat.le_trans (length_le_nameCapacity path field.name capacity) grown) conf.rules
    have behind (asked : Nat) := ih path grown asked
    simp only [demands, RulesStayInside]
    cases isHeader type field <;>
      cases refused asked (target.mul (conf.basicCapacity path type field) type.plannedSize) <;>
      simp [followedBy, Demand.fits_append, fits_nameDemands, sizeAfter_lookups, looked, behind]
  | message info members field rest ihMembers ih =>
    have grown := nameCapacity_le_sizeAfter room path field.name
    have looked := fits_lookups_iff (Nat.le_trans (length_le_nameCapacity path field.name capacity) grown) conf.rules
    have inner {size : Nat} (enough : nameCapacity path field.name capacity ≤ size) (asked : Nat) :=
      members.le_sizeAfter_demands conf refused (path.child field.name) enough asked
    have elements (n asked : Nat) := le_sizeAfter_rounds grown (fun _ asked enough => inner enough asked) n asked
    simp only [demands, RulesStayInside]
    cases field.isSequence with
    | true =>
      cases refused asked (target.mul (conf.messageCapacity path field) info.sizeOf) with
      | true => simp [Demand.fits_append, fits_nameDemands, looked]
      | false =>
        have each (j : Nat) := ihMembers (path.child field.name) (elements j (asked + 1))
        simp [followedBy, Demand.fits_append, fits_nameDemands, sizeAfter_lookups, looked, fits_rounds_iff, each,
          ih path (elements _ _)]
    | false =>
      simp [followedBy, Demand.fits_append, fits_nameDemands, ihMembers (path.child field.name) grown, ih path (inner grown _)]

/-- In every run that the call makes over the type. -/
def treeStaysInside (conf : MemoryConf target) (type : MessageMembers) (refused : Nat → Nat → Bool) (asked : Nat) :
    Prop := conf.nRules > 0 → type.members.RulesStayInside conf.getConfiguration refused .empty 1 asked 1

namespace PlannerCall

variable (conf : MemoryConf target) (type : MessageMembers)

/-- The runs are those of `demands`, the size calculation first. -/
def RulesStayInside : PlannerCall → Core → Prop
  | .create _, core =>
    treeStaysInside conf type (fun _ _ => false) 0 ∧
      treeStaysInside conf type (fun request size => !core.heap.grants request size) core.heap.asked
  | .createStatic _ buffer bufferLen, _ =>
    treeStaysInside conf type (fun _ _ => false) 0 ∧
      (staticRequirement conf type % target.modulus ≤ bufferLen →
        treeStaysInside conf type (fun _ _ => decide (buffer = .null)) 0)
  | .getDynamicSize, _ | .getStaticSize, _ | .destroy _, _ => treeStaysInside conf type (fun _ _ => false) 0

theorem fits_treeDemands_iff (refused : Nat → Nat → Bool) (asked size : Nat) :
    Demand.Fits size (treeDemands conf type refused asked) ↔ treeStaysInside conf type refused asked := by
  unfold treeDemands treeStaysInside
  split
  next rules =>
    have fits := type.members.fits_demands_iff conf.getConfiguration refused .empty (Nat.le_refl 1) asked
    simpa [rules, Demand.Fits] using fits
  next none => simp [none, Demand.Fits]

theorem fits_demands_iff (call : PlannerCall) (core : Core) (size : Nat) :
    Demand.Fits size (call.demands conf type core) ↔ call.RulesStayInside conf type core := by
  cases call with
  | getDynamicSize | getStaticSize => exact fits_treeDemands_iff conf type _ 0 size
  | create msg =>
    simp only [demands, RulesStayInside, Demand.fits_append, fits_treeDemands_iff]
  | createStatic msg buffer bufferLen =>
    simp only [demands, RulesStayInside, Demand.fits_append, fits_treeDemands_iff]
    split
    next long => simp [long, fits_treeDemands_iff]
    next short => simp [short, Demand.Fits]
  | destroy msg =>
    simp only [demands, RulesStayInside, Demand.fits_append, fits_treeDemands_iff, and_self]

end PlannerCall

/-- In every call, the name tree is used while it is alive and the comparisons of the rule loop stay inside both
buffers if and only if its requests are granted and leave the block in place, and no rule that is tried at a
member is longer than the block is there, or begins the member's path with more than two characters of it left. -/
theorem rule_comparisons_inside_iff (conf : MemoryConf target) (type : MessageMembers) (call : PlannerCall)
    (core : Core) (s : StringHeap) :
    let ran := call.perform (heapStrings target) conf type ⟨core, s⟩
    (Lifetimes (s.since ran.2.scratch) ∧ ∀ event ∈ s.since ran.2.scratch, event.InBoth) ↔
      s.Serves (call.demands conf type core) ∧ call.RulesStayInside conf type core := by
  intro ran
  rw [← call.fits_demands_iff conf type core 0]
  exact (call.perform_ends conf type core s).inBoth_iff 0

/-- A rule for the second sequence of a `ListParametersResult`. -/
def prefixesRule : MemoryConf cortexM :=
  { boardDefault with rules := [⟨.ofString "prefixes", fun _ => 0, ⟨3, by decide⟩⟩] }

/-- A rule for the label of a `MultiArrayDimension` that ends too early. -/
def shortRule : MemoryConf cortexM :=
  { boardDefault with rules := [⟨.ofString "la", fun _ => 0, ⟨3, by decide⟩⟩] }

/-- At the first member, `names.` in a block of six bytes, a rule of eight characters is compared; and five
bytes are compared of a rule that has three. Nothing is refused or moved. -/
theorem rule_comparisons_not_inside :
    let s := StringHeap.boot fun _ => false
    let sized := PlannerCall.getDynamicSize.perform (heapStrings cortexM) prefixesRule
      (listParametersResult cortexM) ⟨.boot fun _ _ => true, s⟩
    let sized' := PlannerCall.getDynamicSize.perform (heapStrings cortexM) shortRule
      (multiArrayDimension cortexM) ⟨.boot fun _ _ => true, s⟩
    let block : Memory.Pointer := ⟨.object 0 0, 0⟩
    (.compared block 8 (some 6) 9 ∈ s.since sized.2.scratch ∧
        ¬ ∀ event ∈ s.since sized.2.scratch, event.InBoth) ∧
      .compared block 5 (some 6) 3 ∈ s.since sized'.2.scratch ∧
        ¬ ∀ event ∈ s.since sized'.2.scratch, event.InBoth := by
  decide +kernel

end MicroRos
