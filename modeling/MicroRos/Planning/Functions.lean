import MicroRos.Planning.Traversal

/-! The public functions on the planner's state alone.

With string values every function of the utilities is a sequence of traversals and zero
fills of the planner's state; the scratch strings have no influence on it.
-/

set_option autoImplicit false

namespace MicroRos

open Memory (Pointer Byte)

variable {target : Target}

/-- One run over a type, on the completed configuration and from the empty path. -/
def planOver (conf : MemoryConf target) (operation : Operation) (type : MessageMembers)
    (msg : Pointer) (core : Core) : Nat × Core :=
  traverse conf.getConfiguration operation type.members msg .empty [] 0 0 core

/-- The headers that a run over the type meets, in either order. -/
def plannedVisits (late : Bool) (conf : MemoryConf target) (type : MessageMembers) : List Visit :=
  visits late conf.getConfiguration type.members .empty [] 0

theorem VisitRule.runOver {conf : MemoryConf target} {operation : Operation}
    {Frame : MemberList → Pointer → CString → List Step → Nat → Prop}
    {R : List Visit → List Visit → Nat → Core → Nat → Core → Prop}
    (rule : VisitRule conf.getConfiguration operation Frame R) (type : MessageMembers)
    (msg : Pointer) (frame : Frame type.members msg .empty [] 0) (w : Core) :
    R (plannedVisits false conf type) (plannedVisits true conf type) 0 w (planOver conf operation type msg w).1
      (planOver conf operation type msg w).2 := rule.run type.members frame 0 w

theorem TraversalRule.runOver {conf : MemoryConf target} {operation : Operation}
    {Frame : MemberList → Pointer → CString → List Step → Nat → Prop} {R : Core → Core → Prop}
    (rule : TraversalRule conf.getConfiguration operation Frame R) (type : MessageMembers)
    (msg : Pointer) (frame : Frame type.members msg .empty [] 0) (w : Core) :
    R w (planOver conf operation type msg w).2 := rule.run type.members frame 0 w

namespace Core

/-- `operation_buffer` and `operation_buffer_index` take these values. -/
def placeBuffer (buffer : Pointer) (core : Core) : Core :=
  { core with operationBuffer := buffer, operationBufferIndex := 0 }

def dynamicSize (conf : MemoryConf target) (type : MessageMembers) (core : Core) : Nat × Core :=
  planOver conf .calculateSize type .null core

def staticSize (conf : MemoryConf target) (type : MessageMembers) (core : Core) : Nat × Core :=
  planOver conf .calculateSizePreallocated type .null (core.placeBuffer .null)

def create (conf : MemoryConf target) (type : MessageMembers) (msg : Pointer) (core : Core) :
    Bool × Core :=
  let calculated := core.dynamicSize conf type
  let used := planOver conf .create type msg (calculated.2.fillZero msg type.info.sizeOf)
  (used.1 == calculated.1, used.2)

/-- The state in which static creation starts its run. -/
def prepareStatic (type : MessageMembers) (msg buffer : Pointer) (size : Nat) (core : Core) : Core :=
  ((core.fillZero buffer size).placeBuffer buffer).fillZero msg type.info.sizeOf

def createStatic (conf : MemoryConf target) (type : MessageMembers) (msg buffer : Pointer)
    (bufferLen : Nat) (core : Core) : Bool × Core :=
  let calculated := core.staticSize conf type
  if calculated.1 > bufferLen then (false, calculated.2)
  else
    let used := planOver conf .createPreallocated type msg
      (calculated.2.prepareStatic type msg buffer calculated.1)
    (used.1 == calculated.1 && used.1 == used.2.operationBufferIndex, used.2)

def destroy (conf : MemoryConf target) (type : MessageMembers) (msg : Pointer) (core : Core) :
    Bool × Core :=
  let calculated := core.dynamicSize conf type
  let released := planOver conf .destroy type msg calculated.2
  (calculated.1 == released.1, released.2.fillZero msg type.info.sizeOf)

end Core

section Values

variable (conf : MemoryConf target) (type : MessageMembers) (w : World (Nat → Nat → Byte))

theorem runOverType_value (operation : Operation) (msg : Pointer) :
    (runOverType target (valueStrings target) conf operation type msg w).1 =
        (planOver conf operation type msg w.core).1 ∧
      (runOverType target (valueStrings target) conf operation type msg w).2.core =
        (planOver conf operation type msg w.core).2 := by
  have spells : ∀ tree : CString, tree = .empty → Spells conf.getConfiguration tree .empty :=
    fun _ empty _ => empty
  unfold runOverType planOver
  split
  · exact handleMessageMemory_value _ operation type.members msg (spells .empty rfl) [] 0 0
      (w := ⟨w.core, w.scratch⟩) rfl
  · exact handleMessageMemory_value _ operation type.members msg (spells .empty rfl) [] 0 0
      (w := ⟨w.core, w.scratch⟩) rfl

theorem getDynamicSize_value :
    (getDynamicSize target (valueStrings target) conf type w).1 = (w.core.dynamicSize conf type).1 ∧
      (getDynamicSize target (valueStrings target) conf type w).2.core =
        (w.core.dynamicSize conf type).2 := runOverType_value conf type w .calculateSize .null

theorem getStaticSize_value :
    (getStaticSize target (valueStrings target) conf type w).1 = (w.core.staticSize conf type).1 ∧
      (getStaticSize target (valueStrings target) conf type w).2.core =
        (w.core.staticSize conf type).2 :=
  runOverType_value conf type ⟨w.core.placeBuffer .null, w.scratch⟩ .calculateSizePreallocated .null

theorem createMessageMemory_value (msg : Pointer) :
    (createMessageMemory target (valueStrings target) conf type msg w).1 =
        (w.core.create conf type msg).1 ∧
      (createMessageMemory target (valueStrings target) conf type msg w).2.core =
        (w.core.create conf type msg).2 := by
  obtain ⟨size, sized⟩ := getDynamicSize_value conf type w
  obtain ⟨used, reached⟩ := runOverType_value conf type
    { (getDynamicSize target (valueStrings target) conf type w).2 with
      core := (w.core.dynamicSize conf type).2.fillZero msg type.info.sizeOf } .create msg
  simp only [createMessageMemory, Core.create, size, sized, used, reached, and_self]

theorem createStaticMessageMemory_value (msg buffer : Pointer) (bufferLen : Nat) :
    (createStaticMessageMemory target (valueStrings target) conf type msg buffer bufferLen w).1 =
        (w.core.createStatic conf type msg buffer bufferLen).1 ∧
      (createStaticMessageMemory target (valueStrings target) conf type msg buffer bufferLen w).2.core =
        (w.core.createStatic conf type msg buffer bufferLen).2 := by
  obtain ⟨size, sized⟩ := getStaticSize_value conf type w
  obtain ⟨used, reached⟩ := runOverType_value conf type
    { (getStaticSize target (valueStrings target) conf type w).2 with
      core := (w.core.staticSize conf type).2.prepareStatic type msg buffer
        (w.core.staticSize conf type).1 } .createPreallocated msg
  simp only [Core.prepareStatic, Core.placeBuffer] at used reached
  simp only [createStaticMessageMemory, Core.createStatic, Core.prepareStatic, Core.placeBuffer, size, sized]
  split
  · exact ⟨rfl, sized⟩
  · simp only [used, reached, and_self]

theorem destroyMessageMemory_value (msg : Pointer) :
    (destroyMessageMemory target (valueStrings target) conf type msg w).1 =
        (w.core.destroy conf type msg).1 ∧
      (destroyMessageMemory target (valueStrings target) conf type msg w).2.core =
        (w.core.destroy conf type msg).2 := by
  obtain ⟨size, sized⟩ := getDynamicSize_value conf type w
  obtain ⟨used, reached⟩ := runOverType_value conf type
    (getDynamicSize target (valueStrings target) conf type w).2 .destroy msg
  simp only [destroyMessageMemory, Core.destroy, size, used, reached, sized, and_self]

end Values
end MicroRos
