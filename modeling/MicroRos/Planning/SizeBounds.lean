import MicroRos.Planning.BufferRefinement

/-! How the two sizes are related, and how they grow with the configuration.

The dynamic size is the sum of the bytes of all headers and the static size their packing, so
both follow from one list of byte counts; a larger configuration has more and larger entries
in that list. A calculation whose name tree is moved by a resize may stop at other rules.
-/

set_option autoImplicit false

namespace MicroRos

open Memory (Pointer Byte)
open Memory.Packing (packed)

variable {target : Target}

def Event.isResolved : Event → Bool
  | .resolved .. => true
  | _ => false

/-- The event is the header's: this capacity was decided for it. -/
def Visit.ResolvedBy (visit : Visit) : Event → Prop
  | .resolved site capacity =>
    site.stack.map Step.mark = visit.stack ∧ site.member = visit.member ∧ capacity = visit.capacity
  | _ => False

/-- The run decided the capacities of these headers, in order. -/
def Resolves (visits : List Visit) (before after : Core) : Prop :=
  ∃ events, after.log = before.log ++ events ∧
    List.Forall₂ Visit.ResolvedBy visits (events.filter Event.isResolved)

namespace Resolves

theorem trans {visits later : List Visit} {w w' w'' : Core} (first : Resolves visits w w')
    (second : Resolves later w' w'') : Resolves (visits ++ later) w w'' := by
  obtain ⟨events, log, resolved⟩ := first
  obtain ⟨events', log', resolved'⟩ := second
  refine ⟨events ++ events', by rw [log', log, List.append_assoc], ?_⟩
  rw [List.filter_append]
  exact List.rel_append resolved resolved'

theorem of_log_eq {w w' : Core} (same : w'.log = w.log) : Resolves [] w w' :=
  ⟨[], by simp [same], .nil⟩

theorem since {visits : List Visit} {w w' : Core} (resolves : Resolves visits w w') :
    List.Forall₂ Visit.ResolvedBy visits ((w.since w').filter Event.isResolved) := by
  obtain ⟨events, log, resolved⟩ := resolves
  rwa [Core.since_of_log log]

end Resolves

theorem Core.getStaticMemory_resolves (size : Nat) (w : Core) :
    Resolves [] w (w.getStaticMemory target size).2 := by
  unfold getStaticMemory
  split
  · exact .of_log_eq rfl
  · exact ⟨[.handed _ size], rfl, .nil⟩

theorem Core.planHeader_calculates {conf : MemoryConf target} {operation : Operation}
    (calculates : operation.calculates = true) (site : Site) (header : Pointer)
    (capacity memberSize : Nat) (w : Core) :
    (w.planHeader conf operation site header capacity memberSize).1 ≠ none ∧
      Resolves [⟨site.stack.map Step.mark, site.member, capacity, memberSize⟩] w
        (w.planHeader conf operation site header capacity memberSize).2 := by
  have recorded : Resolves [⟨site.stack.map Step.mark, site.member, capacity, memberSize⟩] w
      (w.record (.resolved site capacity)) := ⟨[_], rfl, .cons ⟨rfl, rfl, rfl⟩ .nil⟩
  cases operation with
  | create | createPreallocated | destroy => cases calculates
  | calculateSize => exact ⟨nofun, recorded⟩
  | calculateSizePreallocated =>
    exact ⟨nofun, recorded.trans (@getStaticMemory_resolves target _ _)⟩

/-- A size calculation is never refused anything, so it meets every header. -/
theorem resolvingRule (conf : MemoryConf target) {operation : Operation}
    (calculates : operation.calculates = true) :
    VisitRule conf operation AnyFrame fun visits _ _ w _ w' => Resolves visits w w' where
  toFrameRule := anyFrame conf operation
  refl _ _ := .of_log_eq rfl
  trans := .trans
  nested _ inner := inner
  plan {_ msg _ stack index field capacity memberSize} _ _ used w bytes after planned := by
    have here := (@Core.planHeader_calculates target conf operation calculates ⟨stack, index⟩
      (msg.plus field.offset) capacity memberSize w).2
    rwa [planned] at here
  refuse {_ msg _ stack index field capacity memberSize} _ _ missed _ used w after planned := by
    have here := (@Core.planHeader_calculates target conf operation calculates ⟨stack, index⟩
      (msg.plus field.offset) capacity memberSize w).1
    exact absurd (congrArg Prod.fst planned) here
  load header used w := .of_log_eq (by rw [Core.elementData, if_pos calculates])
  tear _ _ used w := by
    apply Resolves.of_log_eq
    cases operation with
    | create | createPreallocated | destroy => cases calculates
    | calculateSize | calculateSizePreallocated => rfl

theorem Core.calculation_resolves (conf : MemoryConf target) (type : MessageMembers)
    {operation : Operation} (calculates : operation.calculates = true) (msg : Pointer) (w : Core) :
    List.Forall₂ Visit.ResolvedBy (plannedVisits false conf type)
      ((w.since (planOver conf operation type msg w).2).filter Event.isResolved) :=
  ((resolvingRule conf.getConfiguration calculates).runOver type msg trivial w).since

theorem staticRequirement_le (conf : MemoryConf target) (type : MessageMembers)
    (some : plannedVisits false conf type ≠ []) :
    staticRequirement conf type ≤
      dynamicRequirement conf type + 3 * ((plannedVisits false conf type).length - 1) := by
  simp only [staticRequirement, dynamicRequirement, ← plannedVisits_bytes]
  cases visited : plannedVisits false conf type with
  | nil => exact absurd visited some
  | cons first later =>
    have bound := Memory.Packing.packed_cons_le (by decide : 0 < Core.alignment) 0 first.bytes
      (later.map Visit.bytes)
    have start : Memory.Packing.alignUp Core.alignment 0 = 0 := by decide
    rw [start, Nat.zero_add, List.length_map] at bound
    exact bound

theorem staticRequirement_of_aligned {conf : MemoryConf target} {type : MessageMembers}
    (aligned : ∀ visit ∈ plannedVisits false conf type, visit.bytes % Core.alignment = 0) :
    staticRequirement conf type = dynamicRequirement conf type := by
  simp only [staticRequirement, dynamicRequirement, ← plannedVisits_bytes]
  rw [Memory.Packing.packed_of_aligned (Nat.zero_mod _), Nat.zero_add]
  intro size member
  obtain ⟨visit, visited, rfl⟩ := List.mem_map.mp member
  exact aligned visit visited

/-- How the two sizes and the headers that the two calculations visit belong together. -/
structure SizesTied (conf : MemoryConf target) (type : MessageMembers) (dynamic static : Nat)
    (events events' : List Event) : Prop where
  visits : List.Forall₂ Visit.ResolvedBy (plannedVisits false conf type) (events.filter Event.isResolved)
  visits' : List.Forall₂ Visit.ResolvedBy (plannedVisits false conf type) (events'.filter Event.isResolved)
  le : dynamic ≤ static
  le_gaps : 1 ≤ (plannedVisits false conf type).length →
    static ≤ dynamic + 3 * ((plannedVisits false conf type).length - 1)
  none : (plannedVisits false conf type).length = 0 → dynamic = 0 ∧ static = 0
  equal : (∀ visit ∈ plannedVisits false conf type, visit.capacity * visit.memberSize % 4 = 0) → dynamic = static

theorem Core.calculations_tied (conf : MemoryConf target) (type : MessageMembers) (core core' : Core)
    (unwrapped : staticRequirement conf type < target.modulus) :
    SizesTied conf type (core.dynamicSize conf type).1 (core'.staticSize conf type).1
      (core.since (core.dynamicSize conf type).2) (core'.since (core'.staticSize conf type).2) := by
  have le := dynamicRequirement_le_static conf type
  have dynamicExact : (core.dynamicSize conf type).1 = dynamicRequirement conf type := by
    rw [Core.dynamicSize_eq]
    exact Nat.mod_eq_of_lt (Nat.lt_of_le_of_lt le unwrapped)
  have staticExact : (core'.staticSize conf type).1 = staticRequirement conf type := by
    rw [(Core.staticSize_wrapped conf type core').1]
    exact Nat.mod_eq_of_lt unwrapped
  rw [dynamicExact, staticExact]
  refine ⟨Core.calculation_resolves conf type rfl .null core,
    Core.calculation_resolves conf type rfl .null (core'.placeBuffer .null), le, ?_, ?_, ?_⟩
  · intro positive
    apply staticRequirement_le
    exact List.length_pos_iff.mp positive
  · intro empty
    have noVisit : plannedVisits false conf type = [] := List.length_eq_zero_iff.mp empty
    have none : requests conf.getConfiguration type.members .empty = [] := by
      rw [← plannedVisits_bytes, noVisit, List.map_nil]
    simp [dynamicRequirement, staticRequirement, none, packed]
  · intro multiples
    exact (staticRequirement_of_aligned multiples).symm

/-- Both calculations use their name trees as they should, visit the same headers, and the static size is the
dynamic size and at most three bytes for each header but the first, if and only if both name trees are
served. -/
theorem sizes_tied_iff (conf : MemoryConf target) (type : MessageMembers) (core core' : Core) (s s' : StringHeap)
    (unwrapped : staticRequirement conf type < target.modulus) :
    let dynamic := getDynamicSize target (heapStrings target) conf type ⟨core, s⟩
    let static := getStaticSize target (heapStrings target) conf type ⟨core', s'⟩
    Lifetimes (s.since dynamic.2.scratch) ∧ Lifetimes (s'.since static.2.scratch) ∧
        SizesTied conf type dynamic.1 static.1 (core.since dynamic.2.core) (core'.since static.2.core) ↔
      s.Serves (PlannerCall.getDynamicSize.demands conf type core) ∧
        s'.Serves (PlannerCall.getStaticSize.demands conf type core') := by
  intro dynamic static
  apply (getDynamicSize_ends conf type core s).lifetimes_and_iff
  rintro ⟨size, reached⟩
  apply (getStaticSize_ends conf type core' s').lifetimes_and_iff_serves
  rintro ⟨size', reached'⟩
  simp only [dynamic, static, size, reached, size', reached']
  exact Core.calculations_tied conf type core core' unwrapped

/-- The allocator moves the twelve resizes of the first calculation and none of those of the second. -/
theorem sizes_not_tied :
    let dynamic := getDynamicSize cortexM (heapStrings cortexM) labelRule (multiArrayLayout cortexM)
      ⟨.boot fun _ _ => true, .boot fun k => k < 12⟩
    let static := getStaticSize cortexM (heapStrings cortexM) labelRule (multiArrayLayout cortexM) dynamic.2
    staticRequirement labelRule (multiArrayLayout cortexM) < cortexM.modulus ∧
      dynamic.1 = 187 ∧ static.1 = 139 ∧ ¬ dynamic.1 ≤ static.1 := by
  decide +kernel

theorem sizes_tied_multiArrayLayout :
    let core := Core.boot fun _ _ => true
    let s := StringHeap.boot fun _ => false
    let dynamic := getDynamicSize cortexM (heapStrings cortexM) labelRule (multiArrayLayout cortexM) ⟨core, s⟩
    let static := getStaticSize cortexM (heapStrings cortexM) labelRule (multiArrayLayout cortexM) ⟨core, s⟩
    Lifetimes (s.since dynamic.2.scratch) ∧ Lifetimes (s.since static.2.scratch) ∧
        SizesTied labelRule (multiArrayLayout cortexM) dynamic.1 static.1 (core.since dynamic.2.core)
          (core.since static.2.core) ↔
      s.Serves (PlannerCall.getDynamicSize.demands labelRule (multiArrayLayout cortexM) core) ∧
        s.Serves (PlannerCall.getStaticSize.demands labelRule (multiArrayLayout cortexM) core) :=
  sizes_tied_iff labelRule (multiArrayLayout cortexM) _ _ _ _ (by decide)

namespace MemoryConf

/-- The rules are for the same texts, and no capacity or rule size is larger than the other's. -/
structure Below (conf larger : MemoryConf target) : Prop where
  string : conf.maxStringCapacity ≤ larger.maxStringCapacity
  ros2Type : conf.maxRos2TypeSequenceCapacity ≤ larger.maxRos2TypeSequenceCapacity
  basicType : conf.maxBasicTypeSequenceCapacity ≤ larger.maxBasicTypeSequenceCapacity
  rules : List.Forall₂ (fun rule rule' => rule.rule = rule'.rule ∧ rule.size ≤ rule'.size)
    conf.rules larger.rules

/-- No default capacity is left to be filled in. -/
structure Complete (conf : MemoryConf target) : Prop where
  string : conf.maxStringCapacity.val ≠ 0
  ros2Type : conf.maxRos2TypeSequenceCapacity.val ≠ 0
  basicType : conf.maxBasicTypeSequenceCapacity.val ≠ 0

variable {conf larger : MemoryConf target}

theorem Complete.getConfiguration (complete : conf.Complete) : conf.getConfiguration = conf := by
  simp only [MemoryConf.getConfiguration, complete.string, complete.ros2Type, complete.basicType,
    if_false]

theorem Complete.of_below (complete : conf.Complete) (below : conf.Below larger) : larger.Complete where
  string := Nat.ne_of_gt (Nat.lt_of_lt_of_le (Nat.pos_of_ne_zero complete.string) below.string)
  ros2Type := Nat.ne_of_gt (Nat.lt_of_lt_of_le (Nat.pos_of_ne_zero complete.ros2Type) below.ros2Type)
  basicType := Nat.ne_of_gt (Nat.lt_of_lt_of_le (Nat.pos_of_ne_zero complete.basicType) below.basicType)

namespace Below

/-- The same rule is the first one for a path, if there is one. -/
theorem capacityAt_le (below : conf.Below larger) (path : CString) {otherwise otherwise' : target.SizeT}
    (le : otherwise ≤ otherwise') : conf.capacityAt path otherwise ≤ larger.capacityAt path otherwise' := by
  unfold capacityAt
  have rules := below.rules
  generalize conf.rules = smaller at rules ⊢
  generalize larger.rules = others at rules ⊢
  induction rules with
  | nil => exact le
  | @cons rule rule' _ _ here _ ih =>
    obtain ⟨same, sizeLe⟩ := here
    have selected : rule.selects path = rule'.selects path := by
      unfold Rule.selects
      rw [same]
    simp only [List.find?_cons, selected]
    split
    · exact sizeLe
    · exact ih

theorem basicDefault_le (below : conf.Below larger) (type : BasicType) :
    conf.basicDefault type ≤ larger.basicDefault type := by
  unfold basicDefault
  split
  · exact below.string
  · exact below.basicType

/-- Every header of the smaller configuration has one in the larger that asks for as much. -/
theorem requests (below : conf.Below larger) (list : MemberList) (path : CString) :
    List.SublistForall₂ (· ≤ ·) (requests conf list path) (requests larger list path) := by
  induction list generalizing path with
  | nil => exact .nil
  | basic type field rest ih =>
    apply Memory.Packing.below_append _ (ih path)
    split
    · have le := below.capacityAt_le (path.child field.name) (below.basicDefault_le type)
      exact .cons (Nat.mul_le_mul_right _ le) .nil
    · exact .nil
  | message info members field rest ihMembers ih =>
    apply Memory.Packing.below_append _ (ih path)
    split
    · have le := below.capacityAt_le (path.child field.name) below.ros2Type
      apply List.SublistForall₂.cons (Nat.mul_le_mul_right _ le)
      -- One element after the other; the elements that only the larger one has are left out.
      exact Memory.Packing.below_flatMap (fun _ => ihMembers _) (List.range_sublist.mpr le)
    · exact ihMembers _

end Below
end MemoryConf

section

variable {conf larger : MemoryConf target}

theorem dynamicRequirement_mono (complete : conf.Complete) (below : conf.Below larger)
    (type : MessageMembers) : dynamicRequirement conf type ≤ dynamicRequirement larger type := by
  simp only [dynamicRequirement, complete.getConfiguration, (complete.of_below below).getConfiguration]
  exact (below.requests type.members .empty).sum_le_sum fun n _ => Nat.zero_le n

theorem staticRequirement_mono (complete : conf.Complete) (below : conf.Below larger)
    (type : MessageMembers) : staticRequirement conf type ≤ staticRequirement larger type := by
  simp only [staticRequirement, complete.getConfiguration, (complete.of_below below).getConfiguration]
  exact Memory.Packing.packed_mono (by decide) (below.requests type.members .empty) (Nat.le_refl 0)

end

/-- The sizes of the larger configuration are not smaller, and a buffer that is long enough for it is accepted
under the smaller one. -/
structure SizesGrow (dynamic dynamic' static static' bufferLen : Nat) (accepted : Bool) : Prop where
  dynamic_le : dynamic ≤ dynamic'
  static_le : static ≤ static'
  accepts : static' ≤ bufferLen → accepted = true

theorem Core.calculations_grow {conf larger : MemoryConf target} {type : MessageMembers} {msg buffer : Pointer}
    {bufferLen : Nat} (w₁ w₂ w₃ w₄ w₅ : Core) (complete : conf.Complete) (below : conf.Below larger)
    (unwrapped : staticRequirement larger type < target.modulus) (notNull : buffer ≠ .null) :
    SizesGrow (w₁.dynamicSize conf type).1 (w₂.dynamicSize larger type).1 (w₃.staticSize conf type).1
      (w₄.staticSize larger type).1 bufferLen (w₅.createStatic conf type msg buffer bufferLen).1 := by
  have dynamicLe := dynamicRequirement_mono complete below type
  have staticLe := staticRequirement_mono complete below type
  have dynamicBelow := Nat.lt_of_le_of_lt (dynamicRequirement_le_static larger type) unwrapped
  have staticBelow := Nat.lt_of_le_of_lt staticLe unwrapped
  rw [dynamicSize_eq, dynamicSize_eq, (staticSize_wrapped conf type w₃).1, (staticSize_wrapped larger type w₄).1,
    Nat.mod_eq_of_lt dynamicBelow, Nat.mod_eq_of_lt unwrapped, Nat.mod_eq_of_lt staticBelow,
    Nat.mod_eq_of_lt (Nat.lt_of_le_of_lt dynamicLe dynamicBelow)]
  refine ⟨dynamicLe, staticLe, fun long => ?_⟩
  have whole := createStatic_wrapped conf type msg notNull bufferLen w₅
  simp only [Nat.mod_eq_of_lt staticBelow, if_pos (Nat.le_trans staticLe long)] at whole
  exact whole.1

/-- Five calls, in whatever states: they use their name trees as they should and a larger configuration has no
smaller sizes, if and only if the name trees of all five are served. -/
theorem sizes_monotone_iff (conf larger : MemoryConf target) (type : MessageMembers) (msg buffer : Pointer)
    (bufferLen : Nat) (w₁ w₂ w₃ w₄ w₅ : World StringHeap) (complete : conf.Complete) (below : conf.Below larger)
    (unwrapped : staticRequirement larger type < target.modulus) (notNull : buffer ≠ .null) :
    let dynamic := getDynamicSize target (heapStrings target) conf type w₁
    let dynamic' := getDynamicSize target (heapStrings target) larger type w₂
    let static := getStaticSize target (heapStrings target) conf type w₃
    let static' := getStaticSize target (heapStrings target) larger type w₄
    let created := createStaticMessageMemory target (heapStrings target) conf type msg buffer bufferLen w₅
    Lifetimes (w₁.scratch.since dynamic.2.scratch) ∧ Lifetimes (w₂.scratch.since dynamic'.2.scratch) ∧
        Lifetimes (w₃.scratch.since static.2.scratch) ∧ Lifetimes (w₄.scratch.since static'.2.scratch) ∧
        Lifetimes (w₅.scratch.since created.2.scratch) ∧
        SizesGrow dynamic.1 dynamic'.1 static.1 static'.1 bufferLen created.1 ↔
      w₁.scratch.Serves (PlannerCall.getDynamicSize.demands conf type w₁.core) ∧
        w₂.scratch.Serves (PlannerCall.getDynamicSize.demands larger type w₂.core) ∧
        w₃.scratch.Serves (PlannerCall.getStaticSize.demands conf type w₃.core) ∧
        w₄.scratch.Serves (PlannerCall.getStaticSize.demands larger type w₄.core) ∧
        w₅.scratch.Serves ((PlannerCall.createStatic msg buffer bufferLen).demands conf type w₅.core) := by
  intro dynamic dynamic' static static' created
  apply (getDynamicSize_ends conf type w₁.core w₁.scratch).lifetimes_and_iff
  rintro ⟨size₁, -⟩
  apply (getDynamicSize_ends larger type w₂.core w₂.scratch).lifetimes_and_iff
  rintro ⟨size₂, -⟩
  apply (getStaticSize_ends conf type w₃.core w₃.scratch).lifetimes_and_iff
  rintro ⟨size₃, -⟩
  apply (getStaticSize_ends larger type w₄.core w₄.scratch).lifetimes_and_iff
  rintro ⟨size₄, -⟩
  apply (createStaticMessageMemory_ends conf type w₅.core w₅.scratch msg buffer bufferLen).lifetimes_and_iff_serves
  rintro ⟨answer, -⟩
  rw [size₁, size₂, size₃, size₄, answer]
  exact Core.calculations_grow _ _ _ _ _ complete below unwrapped notNull

/-- Seven characters against eight, with an allocator that moves the twelve resizes of the first call only. -/
theorem sizes_not_monotone :
    let larger : MemoryConf cortexM :=
      { boardDefault with rules := [⟨.ofString "dim.label", fun _ => 0, ⟨8, by decide⟩⟩] }
    let dynamic := getDynamicSize cortexM (heapStrings cortexM) labelRule (multiArrayLayout cortexM)
      ⟨.boot fun _ _ => true, .boot fun k => k < 12⟩
    let dynamic' := getDynamicSize cortexM (heapStrings cortexM) larger (multiArrayLayout cortexM) dynamic.2
    labelRule.Complete ∧ labelRule.Below larger ∧
      staticRequirement larger (multiArrayLayout cortexM) < cortexM.modulus ∧
      dynamic.1 = 187 ∧ dynamic'.1 = 140 ∧ ¬ dynamic.1 ≤ dynamic'.1 := by
  refine ⟨⟨by decide, by decide, by decide⟩, ⟨by decide, by decide, by decide, .cons ⟨rfl, by decide⟩ .nil⟩, ?_⟩
  decide +kernel

/-- Labels of 7 characters against labels of 8, and strings of 20 against strings of 30. -/
theorem sizes_monotone_labels :
    let larger : MemoryConf cortexM :=
      { boardDefault with maxStringCapacity := ⟨30, by decide⟩,
                          rules := [⟨.ofString "dim.label", fun _ => 0, ⟨8, by decide⟩⟩] }
    let w : World StringHeap := ⟨.boot fun _ _ => true, .boot fun _ => false⟩
    let dynamic := getDynamicSize cortexM (heapStrings cortexM) labelRule (multiArrayLayout cortexM) w
    let dynamic' := getDynamicSize cortexM (heapStrings cortexM) larger (multiArrayLayout cortexM) w
    let static := getStaticSize cortexM (heapStrings cortexM) labelRule (multiArrayLayout cortexM) w
    let static' := getStaticSize cortexM (heapStrings cortexM) larger (multiArrayLayout cortexM) w
    let created := createStaticMessageMemory cortexM (heapStrings cortexM) labelRule (multiArrayLayout cortexM)
      ⟨.object 1 0, 0⟩ ⟨.object 1 1, 0⟩ 140 w
    Lifetimes (w.scratch.since dynamic.2.scratch) ∧ Lifetimes (w.scratch.since dynamic'.2.scratch) ∧
        Lifetimes (w.scratch.since static.2.scratch) ∧ Lifetimes (w.scratch.since static'.2.scratch) ∧
        Lifetimes (w.scratch.since created.2.scratch) ∧
        SizesGrow dynamic.1 dynamic'.1 static.1 static'.1 140 created.1 ↔
      w.scratch.Serves (PlannerCall.getDynamicSize.demands labelRule (multiArrayLayout cortexM) w.core) ∧
        w.scratch.Serves (PlannerCall.getDynamicSize.demands larger (multiArrayLayout cortexM) w.core) ∧
        w.scratch.Serves (PlannerCall.getStaticSize.demands labelRule (multiArrayLayout cortexM) w.core) ∧
        w.scratch.Serves (PlannerCall.getStaticSize.demands larger (multiArrayLayout cortexM) w.core) ∧
        w.scratch.Serves ((PlannerCall.createStatic ⟨.object 1 0, 0⟩ ⟨.object 1 1, 0⟩ 140).demands labelRule
          (multiArrayLayout cortexM) w.core) :=
  sizes_monotone_iff labelRule _ (multiArrayLayout cortexM) _ _ _ _ _ _ _ _ ⟨by decide, by decide, by decide⟩
    ⟨by decide, by decide, by decide, .cons ⟨rfl, by decide⟩ .nil⟩ (by decide) (by decide)

end MicroRos
