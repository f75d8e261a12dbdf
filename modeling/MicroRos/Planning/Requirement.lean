import MicroRos.Planning.Functions
import MicroRos.Planning.Log
import MicroRos.Memory.Packing
import Mathlib.Data.List.Perm.Basic

/-! The memory that a type and a configuration need, and the totals that the program computes.

The requirements are exact: they are natural numbers and nothing wraps. The number that the
program computes for the dynamic requirement is the requirement modulo the number of values
of `size_t`.
-/

set_option autoImplicit false

namespace MicroRos

open Memory (Pointer Byte)
open Memory.Packing (packed)

variable {target : Target}

/-- The bytes asked for, header by header. -/
def requests (conf : MemoryConf target) : MemberList → CString → List Nat
  | .nil, _ => []
  | .basic type field rest, path =>
    (if isHeader type field then [conf.basicCapacity path type field * type.plannedSize] else []) ++
    requests conf rest path
  | .message info members field rest, path =>
    (if field.isSequence then
      conf.messageCapacity path field * info.sizeOf ::
        (List.range (conf.messageCapacity path field)).flatMap fun _ =>
          requests conf members (path.child field.name)
      else requests conf members (path.child field.name)) ++
    requests conf rest path

theorem visits_bytes (conf : MemoryConf target) (list : MemberList) (path : CString)
    (stack : List (Nat × Option Nat)) (index : Nat) :
    (visits false conf list path stack index).map Visit.bytes = requests conf list path := by
  induction list generalizing path stack index with
  | nil => rfl
  | basic type field rest ih =>
    simp only [visits, requests, List.map_append, ih]
    split <;> simp [Visit.bytes]
  | message info members field rest ihMembers ih =>
    simp only [visits, requests, List.map_append, ih]
    split
    · simp [Visit.bytes, List.map_flatMap, ihMembers]
    · rw [ihMembers]

/-- Dealing with a header before or after its elements makes no difference to which are met. -/
theorem visits_perm (late : Bool) (conf : MemoryConf target) (list : MemberList) (path : CString)
    (stack : List (Nat × Option Nat)) (index : Nat) :
    (visits late conf list path stack index).Perm (visits false conf list path stack index) := by
  induction list generalizing path stack index with
  | nil => exact .nil
  | basic type field rest ih => exact (ih path stack (index + 1)).append_left _
  | message info members field rest ihMembers ih =>
    simp only [visits]
    refine List.Perm.append ?_ (ih path stack (index + 1))
    split
    · have elements := List.Perm.flatMap_left (List.range (conf.messageCapacity path field))
        fun j _ => ihMembers (path.child field.name) (stack ++ [(index, some j)]) 0
      cases late with
      | false => exact elements.cons _
      | true => exact (List.perm_append_singleton _ _).trans (elements.cons _)
    · exact ihMembers _ _ _

/-- Exact number of bytes of all data blocks. -/
def dynamicRequirement (conf : MemoryConf target) (type : MessageMembers) : Nat :=
  (requests conf.getConfiguration type.members .empty).sum

/-- Exact length of a buffer that holds all data regions. -/
def staticRequirement (conf : MemoryConf target) (type : MessageMembers) : Nat :=
  packed Core.alignment 0 (requests conf.getConfiguration type.members .empty)

theorem dynamicRequirement_le_static (conf : MemoryConf target) (type : MessageMembers) :
    dynamicRequirement conf type ≤ staticRequirement conf type := by
  have atLeast := Memory.Packing.sum_le_packed (a := Core.alignment) 0
    (requests conf.getConfiguration type.members .empty)
  rwa [Nat.zero_add] at atLeast

namespace Core

variable (conf : MemoryConf target) (operation : Operation) (site : Site) (header : Pointer)

/-- No operation changes the answers that the allocator is going to give. -/
@[simp] theorem planHeader_grants (capacity memberSize : Nat) (w : Core) :
    (w.planHeader conf operation site header capacity memberSize).2.heap.grants = w.heap.grants := by
  cases operation with
  | create =>
    simp only [planHeader, setUpHeader]
    split <;> simp [Core.allocate]
  | createPreallocated =>
    simp only [planHeader, setUpHeader, getStaticMemory]
    split <;> split <;> simp
  | calculateSizePreallocated =>
    simp only [planHeader, setUpHeader, getStaticMemory]
    split <;> simp
  | destroy | calculateSize => rfl

variable {conf operation site header} in
theorem planHeader_grants_of {capacity memberSize : Nat} {w after : Core} {made : Option Nat}
    (planned : w.planHeader conf operation site header capacity memberSize = (made, after)) :
    after.heap.grants = w.heap.grants := by
  rw [← planHeader_grants conf operation site header capacity memberSize w, planned]

@[simp] theorem elementData_grants (w : Core) :
    (w.elementData target operation header).2.heap.grants = w.heap.grants := by
  unfold elementData
  split <;> simp [loadPointer]

@[simp] theorem tearDownHeader_grants (owner : Nat) (w : Core) :
    (w.tearDownHeader target owner operation site header).heap.grants = w.heap.grants := by
  cases operation with
  | destroy => simp [tearDownHeader, loadPointer, deallocate]
  | create | createPreallocated | calculateSize | calculateSizePreallocated => rfl

end Core

/-- Every call of the recursion, without distinction. -/
def AnyFrame (_ : MemberList) (_ : Pointer) (_ : CString) (_ : List Step) (_ : Nat) : Prop := True

theorem anyFrame (conf : MemoryConf target) (operation : Operation) :
    FrameRule conf operation AnyFrame where
  next _ := trivial
  inline _ _ := trivial
  element _ _ _ _ _ := trivial

/-- The operation reaches every header and accounts for the bytes of each. -/
def Operation.CountsBytes (operation : Operation) (w : Core) : Prop :=
  match operation with
  | .create => w.heap.Grants
  | .destroy | .calculateSize => True
  | .createPreallocated | .calculateSizePreallocated => False

theorem Operation.CountsBytes.congr {operation : Operation} {w w' : Core}
    (counts : operation.CountsBytes w) (same : w'.heap.grants = w.heap.grants) :
    operation.CountsBytes w' := by
  cases operation with
  | create => intro request size; rw [same]; exact counts request size
  | destroy | calculateSize => trivial
  | createPreallocated | calculateSizePreallocated => exact counts

theorem Core.planHeader_counts {conf : MemoryConf target} {operation : Operation} {w after : Core}
    (counts : operation.CountsBytes w) {site : Site} {header : Pointer} {capacity memberSize : Nat}
    {made : Option Nat}
    (planned : w.planHeader conf operation site header capacity memberSize = (made, after)) :
    made = some (target.mul capacity memberSize) := by
  obtain ⟨rfl, -⟩ := Prod.ext_iff.mp planned
  cases operation with
  | create =>
    have granted : w.heap.grants w.heap.asked (target.mul capacity memberSize) = true := counts _ _
    simp [planHeader, setUpHeader, Core.allocate, Memory.Heap.allocate, granted, Memory.Heap.obtain,
      Pointer.null]
  | destroy | calculateSize => rfl
  | createPreallocated | calculateSizePreallocated => cases counts

theorem countingRule (conf : MemoryConf target) (operation : Operation) :
    VisitRule conf operation AnyFrame fun visits _ used w result w' =>
      w'.heap.grants = w.heap.grants ∧ (operation.CountsBytes w → used < target.modulus →
        result = (used + (visits.map Visit.bytes).sum) % target.modulus) where
  toFrameRule := anyFrame conf operation
  refl used w := ⟨rfl, fun _ small => by simp [Nat.mod_eq_of_lt small]⟩
  trans := by
    rintro visits later _ _ used used' used'' w w' w'' ⟨grants, total⟩ ⟨grants', total'⟩
    refine ⟨grants'.trans grants, fun counts small => ?_⟩
    have here := total counts small
    have small' : used' < target.modulus := here ▸ Nat.mod_lt _ target.modulus_pos
    rw [total' (counts.congr grants) small', here]
    simp [Nat.add_assoc]
  nested := by
    rintro visits _ result w w' used ⟨grants, total⟩
    refine ⟨grants, fun counts _ => ?_⟩
    rw [total counts target.modulus_pos]
    simp [Target.add]
  plan _ _ used w bytes after planned := by
    refine ⟨Core.planHeader_grants_of planned, fun counts _ => ?_⟩
    cases Core.planHeader_counts counts planned
    simp [Target.add, Target.mul, Visit.bytes]
  refuse _ _ missed _ used w after planned := by
    refine ⟨Core.planHeader_grants_of planned, fun counts _ => ?_⟩
    cases Core.planHeader_counts counts planned
  load _ _ _ := ⟨by simp, fun _ small => by simp [Nat.mod_eq_of_lt small]⟩
  tear _ _ _ _ := ⟨by simp, fun _ small => by simp [Nat.mod_eq_of_lt small]⟩

theorem plannedVisits_bytes (conf : MemoryConf target) (type : MessageMembers) :
    (plannedVisits false conf type).map Visit.bytes = requests conf.getConfiguration type.members .empty :=
  visits_bytes _ _ _ _ _

/-- The byte total of an operation that reaches every header. -/
theorem planOver_used (conf : MemoryConf target) {operation : Operation} (type : MessageMembers)
    (msg : Pointer) {w : Core} (counts : operation.CountsBytes w) :
    (planOver conf operation type msg w).1 = dynamicRequirement conf type % target.modulus := by
  have total := ((countingRule conf.getConfiguration operation).runOver type msg trivial w).2
    counts target.modulus_pos
  simpa [plannedVisits_bytes, dynamicRequirement] using total

theorem planOver_grants (conf : MemoryConf target) (operation : Operation) (type : MessageMembers)
    (msg : Pointer) (w : Core) : (planOver conf operation type msg w).2.heap.grants = w.heap.grants :=
  ((countingRule conf.getConfiguration operation).runOver type _ trivial w).1

/-- Computing the static size writes nothing. -/
theorem staticSizeRule (conf : MemoryConf target) :
    TraversalRule conf .calculateSizePreallocated AnyFrame fun w w' =>
      w'.memory = w.memory ∧ w'.heap = w.heap where
  toFrameRule := anyFrame conf _
  refl w := ⟨rfl, rfl⟩
  trans one two := ⟨two.1.trans one.1, two.2.trans one.2⟩
  plan _ _ w := by
    simp only [Core.planHeader, Core.setUpHeader, Core.getStaticMemory]
    split <;> exact ⟨rfl, rfl⟩
  load _ w := ⟨rfl, rfl⟩
  tear _ _ w := ⟨rfl, rfl⟩

namespace Core

/-- Nothing but the log differs, and only capacities were recorded. -/
def Quiet (before after : Core) : Prop :=
  after = { before with log := after.log } ∧
    Logs (fun event => ∃ site capacity, event = .resolved site capacity) before after

theorem quietRule (conf : MemoryConf target) :
    TraversalRule conf .calculateSize AnyFrame Quiet where
  toFrameRule := anyFrame conf .calculateSize
  refl w := ⟨rfl, Logs.refl w⟩
  trans := by
    rintro first second third ⟨same, logs⟩ ⟨same', logs'⟩
    refine ⟨?_, logs.trans logs'⟩
    rw [same', same]
  plan _ _ w := ⟨rfl, Logs.record ⟨_, _, rfl⟩ w⟩
  load _ w := ⟨rfl, Logs.refl w⟩
  tear _ _ w := ⟨rfl, Logs.refl w⟩

theorem dynamicSize_quiet (conf : MemoryConf target) (type : MessageMembers) (w : Core) :
    Quiet w (w.dynamicSize conf type).2 :=
  (quietRule conf.getConfiguration).runOver type _ trivial w

@[simp] theorem dynamicSize_memory (conf : MemoryConf target) (type : MessageMembers) (w : Core) :
    (w.dynamicSize conf type).2.memory = w.memory := by rw [(dynamicSize_quiet conf type w).1]

@[simp] theorem dynamicSize_heap (conf : MemoryConf target) (type : MessageMembers) (w : Core) :
    (w.dynamicSize conf type).2.heap = w.heap := by rw [(dynamicSize_quiet conf type w).1]

@[simp] theorem staticSize_memory (conf : MemoryConf target) (type : MessageMembers) (w : Core) :
    (w.staticSize conf type).2.memory = w.memory :=
  ((staticSizeRule conf.getConfiguration).runOver type .null trivial (w.placeBuffer .null)).1

@[simp] theorem staticSize_heap (conf : MemoryConf target) (type : MessageMembers) (w : Core) :
    (w.staticSize conf type).2.heap = w.heap :=
  ((staticSizeRule conf.getConfiguration).runOver type .null trivial (w.placeBuffer .null)).2

theorem dynamicSize_eq (conf : MemoryConf target) (type : MessageMembers) (w : Core) :
    (w.dynamicSize conf type).1 = dynamicRequirement conf type % target.modulus :=
  planOver_used conf type .null (trivial : Operation.calculateSize.CountsBytes w)

/-- An allocator that grants every request makes dynamic creation succeed, also when sizes wrap. -/
theorem create_succeeds (conf : MemoryConf target) (type : MessageMembers) (msg : Pointer)
    {core : Core} (grants : core.heap.Grants) : (core.create conf type msg).1 = true := by
  have counts : Operation.create.CountsBytes
      ((core.dynamicSize conf type).2.fillZero msg type.info.sizeOf) := by
    simpa [Operation.CountsBytes] using grants
  simp only [create, dynamicSize_eq, planOver_used conf type msg counts, beq_self_eq_true]

end Core
end MicroRos
