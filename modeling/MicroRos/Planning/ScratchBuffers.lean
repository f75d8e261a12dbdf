import MicroRos.Planning.BufferRefinement
import MicroRos.Utilities.TypeInfo

/-! The lifetime of the scratch buffers of all public functions. -/

set_option autoImplicit false

namespace MicroRos

open Memory (Pointer)

variable {target : Target}

section Indentation

variable {σ S : Type} {ops : StringOps target σ S} {R : σ → σ → Prop}

theorem StringOps.Keeps.entered (keeps : ops.Keeps R) (info : MessageInfo) (count : Nat) (tree : S) (level : UInt32)
    (p : Printing σ S) : R p.indent (enterType target ops info count tree level p).2.indent := by
  have indented := keeps.append tree .tab p.indent
  simp only [enterType]
  split
  · exact keeps.trans indented (keeps.chars _ _)
  · exact indented

theorem StringOps.Keeps.printed (keeps : ops.Keeps R) (list : MemberList) (tree : S) (level : UInt32)
    (p : Printing σ S) : R p.indent (printMembers target ops list tree level p).indent := by
  induction list generalizing tree level p with
  | nil => exact keeps.refl _
  | basic type field rest ih =>
    apply keeps.trans (keeps.chars tree p.indent)
    exact ih tree level (printLine target ops tree (memberPieces field type.typeId none) p)
  | message info members field rest ihMembers ih =>
    apply keeps.trans (keeps.chars tree p.indent)
    refine keeps.trans ?_ (ih tree level _)
    apply keeps.trans (keeps.entered info members.count tree (level + 1)
      (printLine target ops tree (memberPieces field 18 (some info)) p))
    exact keeps.trans (ihMembers _ (level + 1) _) (keeps.removeTailChars _ 1 _)

theorem StringOps.Keeps.printedType (keeps : ops.Keeps R) (type : MessageMembers) (tree : S) (level : UInt32)
    (p : Printing σ S) : R p.indent (printTypeInfo target ops type tree level p).indent :=
  keeps.trans (keeps.entered type.info type.members.count tree level p)
    (keeps.trans (keeps.printed type.members _ level _) (keeps.removeTailChars _ 1 _))

end Indentation

section NameTrees

/-- Resizes while a name and its dot are appended. -/
def nameGrowths (path name : CString) (capacity : Nat) : Nat :=
  growths (path.append name).text.length capacity +
    growths (path.child name).text.length (capacityFor (path.append name).text.length capacity)

/-- Resizes of the name tree while the list is gone through with a copy of this capacity; where headers
are refused, up to the first header of each call. -/
def MemberList.resizes (conf : MemoryConf target) (cut : Bool) : MemberList → CString → Nat → Nat
  | .nil, _, _ => 0
  | .basic type field rest, path, capacity =>
    nameGrowths path field.name capacity +
      if isHeader type field && cut then 0
      else rest.resizes conf cut path (nameCapacity path field.name capacity)
  | .message _ members field rest, path, capacity =>
    let named := nameCapacity path field.name capacity
    nameGrowths path field.name capacity +
      if field.isSequence && cut then 0
      else
        (if field.isSequence then conf.messageCapacity path field else 1) *
            members.resizes conf cut (path.child field.name) named +
          rest.resizes conf cut path named

theorem countP_nameDemands (path name : CString) (capacity : Nat) :
    (nameDemands path name capacity).countP Demand.isResize = nameGrowths path name capacity := by
  rw [nameDemands, List.countP_append, countP_growth, countP_growth, nameGrowths]

theorem countP_lookups (path : CString) (rules : List (Rule target)) :
    (lookups path rules).countP Demand.isResize = 0 := by
  have compares (rule : Rule target) : (rule.comparisons path).countP Demand.isResize = 0 := by
    unfold Rule.comparisons
    split <;> rfl
  induction rules with
  | nil => rfl
  | cons rule rules ih =>
    rw [lookups, List.countP_append, compares, Nat.zero_add]
    split
    · rfl
    · exact ih

theorem countP_rounds {round : Nat → List Demand × Nat} {worth : Nat}
    (each : ∀ asked, (round asked).1.countP Demand.isResize = worth) (n asked : Nat) :
    (rounds round n asked).1.countP Demand.isResize = n * worth := by
  induction n with
  | zero => rw [Nat.zero_mul]; rfl
  | succ n ih => rw [rounds, followedBy, List.countP_append, ih, each, Nat.succ_mul]

/-- Where all headers are answered alike, the resizes depend on the type and the configuration alone. -/
theorem MemberList.countP_demands (conf : MemoryConf target) {refused : Nat → Nat → Bool} {cut : Bool}
    (alike : ∀ request size, refused request size = cut) (list : MemberList) (path : CString) (capacity asked : Nat) :
    (list.demands conf refused path capacity asked).1.countP Demand.isResize = list.resizes conf cut path capacity := by
  induction list generalizing path capacity asked with
  | nil => rfl
  | basic type field rest ih =>
    simp only [demands, resizes, alike]
    cases isHeader type field <;> cases cut <;>
      simp [followedBy, countP_nameDemands, countP_lookups, ih]
  | message info members field rest ihMembers ih =>
    have looped := countP_rounds (ihMembers (path.child field.name) (nameCapacity path field.name capacity))
    simp only [demands, resizes, alike]
    cases field.isSequence <;> cases cut <;>
      simp [followedBy, countP_nameDemands, countP_lookups, looped, ihMembers, ih]

theorem countP_treeDemands {conf : MemoryConf target} (rules : conf.nRules > 0) (type : MessageMembers)
    {refused : Nat → Nat → Bool} {cut : Bool} (alike : ∀ request size, refused request size = cut) (asked : Nat) :
    (treeDemands conf type refused asked).countP Demand.isResize =
      type.members.resizes conf.getConfiguration cut .empty 1 := by
  rw [treeDemands, if_pos rules, List.countP_cons, MemberList.countP_demands _ alike]
  rfl

namespace PlannerCall

variable (conf : MemoryConf target) (type : MessageMembers)

def run (call : PlannerCall) (w : World StringHeap) : World StringHeap :=
  (call.perform (heapStrings target) conf type w).2

/-- Resizes of the name trees of the call. -/
def resizes : PlannerCall → Nat
  | .getDynamicSize | .getStaticSize => type.members.resizes conf.getConfiguration false .empty 1
  | .create _ | .destroy _ =>
    type.members.resizes conf.getConfiguration false .empty 1 +
      type.members.resizes conf.getConfiguration false .empty 1
  | .createStatic _ buffer bufferLen =>
    type.members.resizes conf.getConfiguration false .empty 1 +
      if staticRequirement conf type % target.modulus ≤ bufferLen then
        type.members.resizes conf.getConfiguration (decide (buffer = .null)) .empty 1
      else 0

variable {conf} in
theorem countP_demands (rules : conf.nRules > 0) (call : PlannerCall) {core : Core} (grants : core.heap.Grants) :
    (call.demands conf type core).countP Demand.isResize = call.resizes conf type := by
  have sized := countP_treeDemands rules type (fun _ _ => rfl : ∀ _ _, false = false) 0
  cases call with
  | getDynamicSize | getStaticSize => exact sized
  | destroy msg =>
    simp only [demands, resizes, List.countP_append, sized]
  | create msg =>
    have granted (request size : Nat) : (!core.heap.grants request size) = false := by rw [grants]; rfl
    simp only [demands, resizes, List.countP_append, sized, countP_treeDemands rules type granted]
  | createStatic msg buffer bufferLen =>
    have placed := countP_treeDemands rules type (fun _ _ => rfl : ∀ _ _, decide (buffer = .null) = _) 0
    simp only [demands, resizes, List.countP_append, sized]
    split
    · rw [placed]
    · rfl

end PlannerCall

end NameTrees

/-- The demands of the indentation while the members are printed with a copy of this size and capacity. -/
def MemberList.indentDemands : MemberList → Nat → Nat → List Demand
  | .nil, _, _ => []
  | .basic _ _ rest, size, capacity => rest.indentDemands size capacity
  | .message _ members _ rest, size, capacity =>
    growth (size + 1) capacity ++ members.indentDemands (size + 1) (capacityFor (size + 1) capacity) ++
      rest.indentDemands size capacity

/-- Resizes of the indentation while the members are printed with a copy of this size and capacity. -/
def MemberList.indentResizes : MemberList → Nat → Nat → Nat
  | .nil, _, _ => 0
  | .basic _ _ rest, size, capacity => rest.indentResizes size capacity
  | .message _ members _ rest, size, capacity =>
    growths (size + 1) capacity + members.indentResizes (size + 1) (capacityFor (size + 1) capacity) +
      rest.indentResizes size capacity

theorem MemberList.countP_indentDemands (list : MemberList) (size capacity : Nat) :
    (list.indentDemands size capacity).countP Demand.isResize = list.indentResizes size capacity := by
  induction list generalizing size capacity with
  | nil => rfl
  | basic type field rest ih => exact ih size capacity
  | message info members field rest ihMembers ih =>
    simp only [indentDemands, indentResizes, List.countP_append, countP_growth, ihMembers, ih]

section Indentation

variable {b : Pointer} {held : Nat}

theorem printLine_stays (target : Target) {p : Printing StringHeap RuntimeString} (buffer : Buffer b held p.indent)
    (size capacity : Nat) (pieces : List CString) :
    Stays b held [] p.indent (printLine target (heapStrings target) ⟨b, size, capacity⟩ pieces p).indent :=
  .of_read rfl _ buffer

theorem enterType_runs (target : Target) (info : MessageInfo) (count size capacity : Nat) (level : UInt32)
    {p : Printing StringHeap RuntimeString} (buffer : Buffer b held p.indent) :
    let entered := enterType target (heapStrings target) info count ⟨b, size, capacity⟩ level p
    Runs b held (growth (size + 1) capacity) p.indent entered.2.indent
      (entered.1 = ⟨b, size + 1, capacityFor (size + 1) capacity⟩) := by
  have ready : Buffer (RuntimeString.mk b size capacity).data held p.indent := buffer
  have appended := (RuntimeString.append_runs ready .tab).mono And.left
  have continues := (heapStrings_continues target).chars
  simp only [enterType]
  rcases tabbed : (heapStrings target).append ⟨b, size, capacity⟩ .tab p.indent with ⟨tree, s⟩
  rw [show (⟨b, size, capacity⟩ : RuntimeString).append .tab p.indent = (tree, s) from tabbed] at appended
  split
  · apply appended.after (continues tree s)
    rintro stays rfl
    exact ⟨.of_read rfl _ (stays.buffer buffer), rfl⟩
  · exact appended

/-- A call of `print_type_info`, where its loop behaves. -/
theorem printTypeInfo_runs (target : Target) (type : MessageMembers) (level : UInt32)
    (loop : ∀ size capacity {held : Nat} {p : Printing StringHeap RuntimeString}, Buffer b held p.indent →
      Runs b held (type.members.indentDemands size capacity) p.indent
        (printMembers target (heapStrings target) type.members ⟨b, size, capacity⟩ level p).indent True)
    (size capacity : Nat) {p : Printing StringHeap RuntimeString} (buffer : Buffer b held p.indent) :
    Runs b held
      (growth (size + 1) capacity ++ type.members.indentDemands (size + 1) (capacityFor (size + 1) capacity))
      p.indent (printTypeInfo target (heapStrings target) type ⟨b, size, capacity⟩ level p).indent True := by
  have keeps := heapStrings_continues target
  have entering := enterType_runs target type.info type.members.count size capacity level buffer
  simp only [printTypeInfo]
  rcases taken : enterType target (heapStrings target) type.info type.members.count ⟨b, size, capacity⟩ level p
    with ⟨tree, entered⟩
  rw [taken] at entering
  apply entering.bind
  · exact keeps.trans (keeps.printed type.members tree level entered) (keeps.removeTailChars tree 1 _)
  · rintro stays rfl
    have ready := stays.buffer buffer
    apply (loop (size + 1) (capacityFor (size + 1) capacity) ready).after (keeps.removeTailChars _ 1 _)
    intro stays' _
    exact ⟨.of_write (Pointer.plus_block b _) [0] (stays'.buffer ready), trivial⟩

theorem printMembers_runs (target : Target) (list : MemberList) (size capacity : Nat) (level : UInt32)
    {p : Printing StringHeap RuntimeString} (buffer : Buffer b held p.indent) :
    Runs b held (list.indentDemands size capacity) p.indent
      (printMembers target (heapStrings target) list ⟨b, size, capacity⟩ level p).indent True := by
  have keeps := heapStrings_continues target
  induction list generalizing size capacity level held p with
  | nil => exact (Stays.refl buffer).runs trivial
  | basic type field rest ih =>
    have line := printLine_stays target buffer size capacity (memberPieces field type.typeId none)
    exact line.before (ih size capacity level (line.buffer buffer))
  | message info members field rest ihMembers ih =>
    have line := printLine_stays target buffer size capacity (memberPieces field 18 (some info))
    have ready := line.buffer buffer
    rw [printMembers_message]
    apply line.before
    -- The callee works with its copy, which the caller does not get back.
    have nested := printTypeInfo_runs target ⟨info, members⟩ (level + 1)
      (fun size capacity _ _ buffer => ihMembers size capacity (level + 1) buffer) size capacity ready
    apply nested.bind (keeps.printed rest _ level _)
    intro stays _
    exact ih size capacity level (stays.buffer ready)

/-- Printing a type, from the initialisation of the indentation to its destruction. -/
theorem typeInfo_ends (target : Target) (type : MessageMembers) (indent outBuffer : StringHeap) :
    Ends (.allocate 1 :: type.members.indentDemands 1 1) indent
      (typeInfo target (heapStrings target) type indent outBuffer).indent True := by
  let started : Printing StringHeap RuntimeString :=
    ⟨(RuntimeString.init .empty indent).2, (RuntimeString.init .empty outBuffer).1,
      (RuntimeString.init .empty outBuffer).2⟩
  apply RuntimeString.destroyed_ends .empty
  · exact (heapStrings_continues target).printedType type (RuntimeString.init .empty indent).1 0 started
  · intro buffer
    have ready : Buffer (RuntimeString.init .empty indent).1.data 1 started.indent := buffer
    -- The first tab is as long as the capacity, so it is appended without a resize.
    exact printTypeInfo_runs target type 0
      (fun size capacity _ _ buffer => printMembers_runs target type.members size capacity 0 buffer) 0 1 ready

end Indentation

/-- The buffers of the name trees and of the indentation are used as they should if and only if no resize
that the call asks for moves its block. -/
theorem scratch_lifetimes_iff (target : Target) :
    (∀ (conf : MemoryConf target) (type : MessageMembers) (call : PlannerCall) (core : Core) (s : StringHeap),
      conf.nRules > 0 → core.heap.Grants → s.heap.Grants →
        (Lifetimes (s.since (call.run conf type ⟨core, s⟩).scratch) ↔ ¬ MovesWithin (call.resizes conf type) s)) ∧
    ∀ (type : MessageMembers) (indent outBuffer : StringHeap), indent.heap.Grants →
      (Lifetimes (indent.since (typeInfo target (heapStrings target) type indent outBuffer).indent) ↔
        ¬ MovesWithin (type.members.indentResizes 1 1) indent) := by
  constructor
  · intro conf type call core s rules requests grants
    rw [← call.countP_demands type rules requests, ← StringHeap.serves_iff_not_movesWithin grants]
    exact (call.perform_ends conf type core s).lifetimes_iff
  · intro type indent outBuffer grants
    have ends := typeInfo_ends target type indent outBuffer
    rw [ends.lifetimes_iff, StringHeap.serves_iff_not_movesWithin grants, ← MemberList.countP_indentDemands]
    rfl

/-- One rule, for a name that no type has. -/
def oneRule : MemoryConf cortexM :=
  { boardDefault with rules := [⟨.ofString "none", fun _ => 0, ⟨0, cortexM.modulus_pos⟩⟩] }

/-- With an allocator that moves every block it resizes, the first name gives the block back once too often,
and so does the indentation of a nested type. -/
theorem scratch_given_back_twice :
    let moving := StringHeap.boot fun _ => true
    let sized := PlannerCall.getDynamicSize.run oneRule (multiArrayDimension cortexM)
      ⟨.boot fun _ _ => true, moving⟩
    let printed := typeInfo cortexM (heapStrings cortexM) (multiArrayLayout cortexM) moving moving
    moving.heap.Grants ∧ ¬ Lifetimes (moving.since sized.scratch) ∧ ¬ Lifetimes (moving.since printed.indent) := by
  exact ⟨fun _ _ => rfl, by decide +kernel, by decide +kernel⟩

/-- The same calls, and an allocator that grows every block in place. -/
theorem scratch_lifetimes_multiArrayLayout :
    let still := StringHeap.boot fun _ => false
    let sized := PlannerCall.getDynamicSize.run oneRule (multiArrayDimension cortexM)
      ⟨.boot fun _ _ => true, still⟩
    let printed := typeInfo cortexM (heapStrings cortexM) (multiArrayLayout cortexM) still still
    (Lifetimes (still.since sized.scratch) ↔
        ¬ MovesWithin (PlannerCall.getDynamicSize.resizes oneRule (multiArrayDimension cortexM)) still) ∧
      (Lifetimes (still.since printed.indent) ↔
        ¬ MovesWithin ((multiArrayLayout cortexM).members.indentResizes 1 1) still) :=
  ⟨(scratch_lifetimes_iff cortexM).1 oneRule (multiArrayDimension cortexM) .getDynamicSize
      (.boot fun _ _ => true) (.boot fun _ => false) (by decide) (fun _ _ => rfl) fun _ _ => rfl,
    (scratch_lifetimes_iff cortexM).2 (multiArrayLayout cortexM) (.boot fun _ => false) (.boot fun _ => false)
      fun _ _ => rfl⟩

end MicroRos
