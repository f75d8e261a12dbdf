import MicroRos.Planning.NameBuffers
import MicroRos.Planning.Wrapping

/-! The functions of the planner, and programs that call them, with the name trees in buffers and with
strings as values.

What a call demands for its name trees follows from the type, the configuration and the
answers that its headers get. Where these demands are served, the call has the answer and
the effect that it has with strings as values, and the blocks of its name trees are used as
they should; where they are not, the log shows it.
-/

set_option autoImplicit false

namespace MicroRos

open Memory (Pointer Byte)

variable {target : Target}

/-- A call of one of the functions that plan memory. -/
inductive PlannerCall where
  | getDynamicSize
  | getStaticSize
  | create (msg : Pointer)
  | createStatic (msg buffer : Pointer) (bufferLen : Nat)
  | destroy (msg : Pointer)

/-- What a planning function returns. -/
inductive PlannerAnswer where
  | size (n : Nat)
  | done (result : Bool)
  deriving DecidableEq, Repr

namespace PlannerCall

section

variable {σ S : Type} (ops : StringOps target σ S) (conf : MemoryConf target) (type : MessageMembers)

/-- The call, with its answer. -/
def perform : PlannerCall → World σ → PlannerAnswer × World σ
  | .getDynamicSize, w =>
    let ran := MicroRos.getDynamicSize target ops conf type w
    (.size ran.1, ran.2)
  | .getStaticSize, w =>
    let ran := MicroRos.getStaticSize target ops conf type w
    (.size ran.1, ran.2)
  | .create msg, w =>
    let ran := createMessageMemory target ops conf type msg w
    (.done ran.1, ran.2)
  | .createStatic msg buffer bufferLen, w =>
    let ran := createStaticMessageMemory target ops conf type msg buffer bufferLen w
    (.done ran.1, ran.2)
  | .destroy msg, w =>
    let ran := destroyMessageMemory target ops conf type msg w
    (.done ran.1, ran.2)

/-- The call on the planner's state alone. -/
def plan : PlannerCall → Core → PlannerAnswer × Core
  | .getDynamicSize, core => (.size (core.dynamicSize conf type).1, (core.dynamicSize conf type).2)
  | .getStaticSize, core => (.size (core.staticSize conf type).1, (core.staticSize conf type).2)
  | .create msg, core => (.done (core.create conf type msg).1, (core.create conf type msg).2)
  | .createStatic msg buffer bufferLen, core =>
    (.done (core.createStatic conf type msg buffer bufferLen).1, (core.createStatic conf type msg buffer bufferLen).2)
  | .destroy msg, core => (.done (core.destroy conf type msg).1, (core.destroy conf type msg).2)

/-- What the call demands for its name trees, the one of the size calculation first. No header of a
calculation or of a destruction is refused; those of a creation are where the allocator refuses them, or where
there is no buffer. -/
def demands : PlannerCall → Core → List Demand
  | .getDynamicSize, _ | .getStaticSize, _ => treeDemands conf type (fun _ _ => false) 0
  | .create _, core =>
    treeDemands conf type (fun _ _ => false) 0 ++
      treeDemands conf type (fun request size => !core.heap.grants request size) core.heap.asked
  | .createStatic _ buffer bufferLen, _ =>
    treeDemands conf type (fun _ _ => false) 0 ++
      if staticRequirement conf type % target.modulus ≤ bufferLen then
        treeDemands conf type (fun _ _ => decide (buffer = .null)) 0
      else []
  | .destroy _, _ => treeDemands conf type (fun _ _ => false) 0 ++ treeDemands conf type (fun _ _ => false) 0

end

variable (conf : MemoryConf target) (type : MessageMembers) (call : PlannerCall)

theorem perform_value (w : World (Nat → Nat → Byte)) :
    (call.perform (valueStrings target) conf type w).1 = (call.plan conf type w.core).1 ∧
      (call.perform (valueStrings target) conf type w).2.core = (call.plan conf type w.core).2 := by
  cases call with
  | getDynamicSize => exact (getDynamicSize_value conf type w).imp_left (congrArg PlannerAnswer.size)
  | getStaticSize => exact (getStaticSize_value conf type w).imp_left (congrArg PlannerAnswer.size)
  | create msg => exact (createMessageMemory_value conf type w msg).imp_left (congrArg PlannerAnswer.done)
  | createStatic msg buffer bufferLen =>
    exact (createStaticMessageMemory_value conf type w msg buffer bufferLen).imp_left (congrArg PlannerAnswer.done)
  | destroy msg => exact (destroyMessageMemory_value conf type w msg).imp_left (congrArg PlannerAnswer.done)

/-- Without rules there is no name tree. -/
theorem serves_ruleless {conf : MemoryConf target} (ruleless : conf.nRules = 0) (core : Core) (s : StringHeap) :
    s.Serves (call.demands conf type core) := by
  have none (refused : Nat → Nat → Bool) (asked : Nat) : treeDemands conf type refused asked = [] := by
    simp [treeDemands, ruleless]
  have nothing : call.demands conf type core = [] := by
    cases call <;> simp [demands, none]
  rw [nothing]
  trivial

end PlannerCall

section Calls

variable (conf : MemoryConf target) (type : MessageMembers) (core : Core) (s : StringHeap)

theorem getDynamicSize_ends :
    let ran := getDynamicSize target (heapStrings target) conf type ⟨core, s⟩
    Ends (PlannerCall.getDynamicSize.demands conf type core) s ran.2.scratch
      (ran.1 = (core.dynamicSize conf type).1 ∧ ran.2.core = (core.dynamicSize conf type).2) := by
  have answers : Operation.calculateSize.Answers (fun _ _ => false) 0 core := fun _ _ => rfl
  exact runOverType_ends conf type .null answers s

theorem getStaticSize_ends :
    let ran := getStaticSize target (heapStrings target) conf type ⟨core, s⟩
    Ends (PlannerCall.getStaticSize.demands conf type core) s ran.2.scratch
      (ran.1 = (core.staticSize conf type).1 ∧ ran.2.core = (core.staticSize conf type).2) := by
  have answers : Operation.calculateSizePreallocated.Answers (fun _ _ => false) 0 (core.placeBuffer .null) :=
    fun _ _ => rfl
  exact runOverType_ends conf type .null answers s

theorem createMessageMemory_ends (msg : Pointer) :
    let ran := createMessageMemory target (heapStrings target) conf type msg ⟨core, s⟩
    Ends ((PlannerCall.create msg).demands conf type core) s ran.2.scratch
      (ran.1 = (core.create conf type msg).1 ∧ ran.2.core = (core.create conf type msg).2) := by
  have sized := getDynamicSize_ends conf type core s
  simp only [PlannerCall.demands, createMessageMemory, Core.create]
  rcases ran : getDynamicSize target (heapStrings target) conf type ⟨core, s⟩ with ⟨size, core', s'⟩
  rw [ran] at sized
  refine sized.bind (runOverType_continues conf type .create msg _ s') ?_
  rintro ⟨rfl, rfl⟩
  -- Computing the size does not use the allocator of the messages.
  have answers : Operation.create.Answers (fun request size => !core.heap.grants request size) core.heap.asked
      ((core.dynamicSize conf type).2.fillZero msg type.info.sizeOf) := by
    simp [Operation.Answers, Core.dynamicSize_heap]
  apply (runOverType_ends conf type msg answers s').mono
  rintro ⟨used, reached⟩
  exact ⟨by rw [used], reached⟩

theorem createStaticMessageMemory_ends (msg buffer : Pointer) (bufferLen : Nat) :
    let ran := createStaticMessageMemory target (heapStrings target) conf type msg buffer bufferLen ⟨core, s⟩
    Ends ((PlannerCall.createStatic msg buffer bufferLen).demands conf type core) s ran.2.scratch
      (ran.1 = (core.createStatic conf type msg buffer bufferLen).1 ∧
        ran.2.core = (core.createStatic conf type msg buffer bufferLen).2) := by
  have sized := getStaticSize_ends conf type core s
  simp only [PlannerCall.demands, createStaticMessageMemory, Core.createStatic,
    ← (Core.staticSize_wrapped conf type core).1]
  rcases ran : getStaticSize target (heapStrings target) conf type ⟨core, s⟩ with ⟨size, core', s'⟩
  rw [ran] at sized
  refine sized.bind ?_ ?_
  · split
    · exact .refl s'
    · exact runOverType_continues conf type .createPreallocated msg _ s'
  · rintro ⟨rfl, rfl⟩
    -- The length of the buffer is compared before anything is written.
    by_cases short : (core.staticSize conf type).1 > bufferLen
    · simp only [short, if_true, Nat.not_le.mpr short, if_false]
      exact .nothing ⟨trivial, trivial⟩
    · simp only [short, if_false, Nat.le_of_not_lt short, if_true]
      have answers : Operation.createPreallocated.Answers (fun _ _ => decide (buffer = .null)) 0
          ((core.staticSize conf type).2.prepareStatic type msg buffer (core.staticSize conf type).1) := by
        simp [Operation.Answers, Core.prepareStatic, Core.placeBuffer]
      apply (runOverType_ends conf type msg answers s').mono
      rintro ⟨used, reached⟩
      simp only [Core.prepareStatic, Core.placeBuffer] at used reached ⊢
      exact ⟨by rw [used, reached], reached⟩

theorem destroyMessageMemory_ends (msg : Pointer) :
    let ran := destroyMessageMemory target (heapStrings target) conf type msg ⟨core, s⟩
    Ends ((PlannerCall.destroy msg).demands conf type core) s ran.2.scratch
      (ran.1 = (core.destroy conf type msg).1 ∧ ran.2.core = (core.destroy conf type msg).2) := by
  have sized := getDynamicSize_ends conf type core s
  simp only [PlannerCall.demands, destroyMessageMemory, Core.destroy]
  rcases ran : getDynamicSize target (heapStrings target) conf type ⟨core, s⟩ with ⟨size, core', s'⟩
  rw [ran] at sized
  refine sized.bind (runOverType_continues conf type .destroy msg _ s') ?_
  rintro ⟨rfl, rfl⟩
  have answers : Operation.destroy.Answers (fun _ _ => false) 0 (core.dynamicSize conf type).2 := fun _ _ => rfl
  apply (runOverType_ends conf type msg answers s').mono
  rintro ⟨released, reached⟩
  exact ⟨by rw [released], by rw [reached]⟩

end Calls

namespace PlannerCall

variable (conf : MemoryConf target) (type : MessageMembers) (call : PlannerCall)

theorem perform_continues (w : World StringHeap) :
    Continues w.scratch (call.perform (heapStrings target) conf type w).2.scratch := by
  have sized := runOverType_continues conf type .calculateSize .null w.core w.scratch
  have sizedStatic := runOverType_continues conf type .calculateSizePreallocated .null
    (w.core.placeBuffer .null) w.scratch
  cases call with
  | getDynamicSize => exact sized
  | getStaticSize => exact sizedStatic
  | create msg =>
    simp only [perform, createMessageMemory]
    exact sized.trans (runOverType_continues conf type .create msg _ _)
  | createStatic msg buffer bufferLen =>
    simp only [perform, createStaticMessageMemory]
    split
    · exact sizedStatic
    · exact sizedStatic.trans (runOverType_continues conf type .createPreallocated msg _ _)
  | destroy msg =>
    simp only [perform, destroyMessageMemory]
    exact sized.trans (runOverType_continues conf type .destroy msg _ _)

/-- One call on real buffers. -/
theorem perform_ends (core : Core) (s : StringHeap) :
    let performed := call.perform (heapStrings target) conf type ⟨core, s⟩
    Ends (call.demands conf type core) s performed.2.scratch
      (performed.1 = (call.plan conf type core).1 ∧ performed.2.core = (call.plan conf type core).2) := by
  cases call with
  | getDynamicSize => exact (getDynamicSize_ends conf type core s).mono (And.imp_left (congrArg PlannerAnswer.size))
  | getStaticSize => exact (getStaticSize_ends conf type core s).mono (And.imp_left (congrArg PlannerAnswer.size))
  | create msg =>
    exact (createMessageMemory_ends conf type core s msg).mono (And.imp_left (congrArg PlannerAnswer.done))
  | createStatic msg buffer bufferLen =>
    exact (createStaticMessageMemory_ends conf type core s msg buffer bufferLen).mono
      (And.imp_left (congrArg PlannerAnswer.done))
  | destroy msg =>
    exact (destroyMessageMemory_ends conf type core s msg).mono (And.imp_left (congrArg PlannerAnswer.done))

end PlannerCall

/-- What a program does: it calls the planner, or does something else to memory and to the message allocator. -/
inductive ProgramStep (target : Target) where
  | plan (conf : MemoryConf target) (type : MessageMembers) (call : PlannerCall)
  | other (change : Core → Core)

section

variable {σ S : Type} (ops : StringOps target σ S)

/-- The run of a program, with the answers that it got. -/
def runProgram : List (ProgramStep target) → World σ → List PlannerAnswer × World σ
  | [], w => ([], w)
  | .plan conf type call :: steps, w =>
    let performed := call.perform ops conf type w
    let ran := runProgram steps performed.2
    (performed.1 :: ran.1, ran.2)
  | .other change :: steps, w => runProgram steps { w with core := change w.core }

end

theorem runProgram_continues (steps : List (ProgramStep target)) (w : World StringHeap) :
    Continues w.scratch (runProgram (heapStrings target) steps w).2.scratch := by
  induction steps generalizing w with
  | nil => exact .refl w.scratch
  | cons step steps ih =>
    cases step with
    | plan conf type call => exact (call.perform_continues conf type w).trans (ih _)
    | other change => exact ih ⟨change w.core, w.scratch⟩

/-- What a program demands for its name trees. -/
def programDemands : List (ProgramStep target) → Core → List Demand
  | [], _ => []
  | .plan conf type call :: steps, core =>
    call.demands conf type core ++ programDemands steps (call.plan conf type core).2
  | .other change :: steps, core => programDemands steps (change core)

/-- A whole program on real buffers. -/
theorem runProgram_ends (steps : List (ProgramStep target)) (core : Core) (s : StringHeap)
    (behind : Nat → Nat → Byte) :
    let real := runProgram (heapStrings target) steps ⟨core, s⟩
    let plain := runProgram (valueStrings target) steps ⟨core, behind⟩
    Ends (programDemands steps core) s real.2.scratch (real.1 = plain.1 ∧ real.2.core = plain.2.core) := by
  -- What stands behind the terminators of the values may be different in each call.
  induction steps generalizing core s behind with
  | nil => exact .nothing ⟨rfl, rfl⟩
  | cons step steps ih =>
    cases step with
    | plan conf type call =>
      obtain ⟨answer, reached⟩ := call.perform_value conf type ⟨core, behind⟩
      have performed := call.perform_ends conf type core s
      rcases ran : call.perform (heapStrings target) conf type ⟨core, s⟩ with ⟨answered, core', s'⟩
      rcases valued : call.perform (valueStrings target) conf type ⟨core, behind⟩ with ⟨answered', core'', behind'⟩
      rw [ran] at performed
      rw [valued] at answer reached
      simp only [runProgram, ran, valued]
      refine performed.bind (runProgram_continues steps _) ?_
      rintro ⟨same, same'⟩
      obtain rfl : answered = answered' := same.trans answer.symm
      obtain rfl : core' = core'' := same'.trans reached.symm
      rw [← same']
      exact (ih core' s' behind').mono (And.imp_left (congrArg (answered :: ·)))
    | other change => exact ih (change core) s behind

/-- A program whose name trees are never moved by a resize gets the same answers and leaves the same state as
with strings that are values, and every buffer of a name tree is used as it should. -/
theorem programs_refine (steps : List (ProgramStep target)) (core : Core) (s : StringHeap)
    (behind : Nat → Nat → Byte) (grants : s.heap.Grants)
    (still : ∀ k, s.heap.resized ≤ k →
      k < (runProgram (heapStrings target) steps ⟨core, s⟩).2.scratch.heap.resized → s.heap.moves k = false) :
    let real := runProgram (heapStrings target) steps ⟨core, s⟩
    let plain := runProgram (valueStrings target) steps ⟨core, behind⟩
    real.1 = plain.1 ∧ real.2.core = plain.2.core ∧ Lifetimes (s.since real.2.scratch) := by
  have ends := runProgram_ends steps core s behind
  have served := ends.lifetimes_iff
  rcases ends with ⟨finishes, answers, reached⟩ | fails
  · exact ⟨answers, reached, served.mpr finishes.served⟩
  · obtain ⟨k, lower, upper, moves⟩ := fails.moved grants
    rw [still k lower upper] at moves
    cases moves

/-- The default configuration with a rule for the labels of a `MultiArrayLayout`. -/
def labelRule : MemoryConf cortexM :=
  { boardDefault with rules := [⟨.ofString "dim.label", fun _ => 0, ⟨7, by decide⟩⟩] }

/-- A rule for the labels, and an allocator of message memory that refuses its fourth request. -/
theorem programs_refine_multiArrayLayout :
    let conf : MemoryConf cortexM := { boardDefault with rules :=
      [⟨.ofString "dim.label", fun _ => 0, ⟨3, Nat.lt_of_lt_of_le (by decide) cortexM.modulus_ge⟩⟩] }
    let msg : Pointer := ⟨.object 1 0, 0⟩
    let steps := [.plan conf (multiArrayLayout cortexM) (.create msg), .other (Core.fillZero msg 4),
      .plan conf (multiArrayLayout cortexM) (.destroy msg)]
    let start := StringHeap.boot fun _ => false
    let core : Core := .boot fun request _ => request ≠ 3
    let real := runProgram (heapStrings cortexM) steps ⟨core, start⟩
    let plain := runProgram (valueStrings cortexM) steps ⟨core, fun _ _ => 0⟩
    real.1 = plain.1 ∧ real.2.core = plain.2.core ∧ Lifetimes (start.since real.2.scratch) :=
  programs_refine _ _ _ _ (fun _ _ => rfl) fun _ _ _ => rfl

end MicroRos
