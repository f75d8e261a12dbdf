import MicroRos.Utilities.Core
import MicroRos.Utilities.NameTree

/-! `handle_message_memory` and the five functions that call it.

The recursion follows the source statement by statement; the loop over the members of
a record is the recursion over the rest of its list. The arguments `stack` and `index`
are the call sites of the active calls and the loop counter of this one, which only the
log refers to. `used` is the local variable `used_memory`.
-/

set_option autoImplicit false

namespace MicroRos

open Memory (Pointer)

/-- The planner's state together with the state of the string buffers. -/
structure World (σ : Type) where
  core : Core
  scratch : σ

variable {target : Target} {σ S : Type}

section

variable (target) (ops : StringOps target σ S) (conf : MemoryConf target)

/-- `name` and a dot are appended while there are rules. -/
def pushName (name : CString) (tree : S) (w : World σ) : S × World σ :=
  if conf.nRules > 0 then
    let named := ops.append tree name w.scratch
    let dotted := ops.append named.1 .dot named.2
    (dotted.1, { w with scratch := dotted.2 })
  else (tree, w)

def popName (name : CString) (tree : S) (w : World σ) : S × World σ :=
  if conf.nRules > 0 then
    let trimmed := ops.removeTailChars tree (name.text.length + 1) w.scratch
    (trimmed.1, { w with scratch := trimmed.2 })
  else (tree, w)

/-- The loop over the rules, which stops at the first match. -/
def findCapacity (otherwise : target.SizeT) (tree : S) :
    List (Rule target) → σ → target.SizeT × σ
  | [], scratch => (otherwise, scratch)
  | rule :: rules, scratch =>
    let tested := ops.matchesRule rule tree scratch
    if tested.1 then (rule.size, tested.2) else findCapacity otherwise tree rules tested.2

/-- The capacity of the header at `site`, decided and recorded. -/
def resolveCapacity (otherwise : target.SizeT) (site : Site) (tree : S) (w : World σ) :
    Nat × World σ :=
  let found := findCapacity target ops otherwise tree conf.rules w.scratch
  (found.1.val, ⟨w.core.record (.resolved site found.1.val), found.2⟩)

def handleMessageMemory (operation : Operation) :
    MemberList → Pointer → S → List Step → Nat → Nat → World σ → Nat × World σ
  | .nil, _, _, _, _, used, w => (used, w)
  | .basic type field rest, msg, tree, stack, index, used, w =>
    let pushed := pushName target ops conf field.name tree w
    if isHeader type field then
      let site : Site := ⟨stack, index⟩
      let header := msg.plus field.offset
      let resolved := resolveCapacity target ops conf (conf.basicDefault type) site pushed.1 pushed.2
      let made := resolved.2.core.setUpHeader target conf.owner operation site header
        resolved.1 type.plannedSize
      match made.1 with
      -- The function returns at once; the name stays on its copy of the name tree.
      | none => (0, ⟨made.2, resolved.2.scratch⟩)
      | some bytes =>
        let torn := made.2.tearDownHeader target conf.owner operation site header
        let popped := popName target ops conf field.name pushed.1 ⟨torn, resolved.2.scratch⟩
        handleMessageMemory operation rest msg popped.1 stack (index + 1)
          (target.add used bytes) popped.2
    else
      let popped := popName target ops conf field.name pushed.1 pushed.2
      handleMessageMemory operation rest msg popped.1 stack (index + 1) used popped.2
  | .message info members field rest, msg, tree, stack, index, used, w =>
    let pushed := pushName target ops conf field.name tree w
    let header := msg.plus field.offset
    if field.isSequence then
      let site : Site := ⟨stack, index⟩
      let resolved := resolveCapacity target ops conf conf.maxRos2TypeSequenceCapacity site
        pushed.1 pushed.2
      let made := resolved.2.core.setUpHeader target conf.owner operation site header
        resolved.1 info.sizeOf
      match made.1 with
      | none => (0, ⟨made.2, resolved.2.scratch⟩)
      | some bytes =>
        -- A call for an element that returns early contributes zero, and the loop goes on.
        let elements := Core.forElements target
          (fun j w =>
            let data := w.core.elementData target operation header
            handleMessageMemory operation members
              (Core.elementAddress target operation data.1 j info.sizeOf) pushed.1
              (stack ++ [.element index j data.1]) 0 0 ⟨data.2, w.scratch⟩)
          resolved.1 (target.add used bytes) ⟨made.2, resolved.2.scratch⟩
        let torn := elements.2.core.tearDownHeader target conf.owner operation site header
        let popped := popName target ops conf field.name pushed.1 ⟨torn, elements.2.scratch⟩
        handleMessageMemory operation rest msg popped.1 stack (index + 1) elements.1 popped.2
    else
      let nested := handleMessageMemory operation members header pushed.1
        (stack ++ [.inline index]) 0 0 pushed.2
      let popped := popName target ops conf field.name pushed.1 nested.2
      handleMessageMemory operation rest msg popped.1 stack (index + 1)
        (target.add used nested.1) popped.2

/-- The part that the public functions share: the name tree is initialised while there are
rules, the recursion runs on the completed configuration, and the name tree is destroyed. -/
def runOverType (operation : Operation) (type : MessageMembers) (msg : Pointer) (w : World σ) :
    Nat × World σ :=
  let tree := if conf.nRules > 0 then ops.init .empty w.scratch else (ops.zero, w.scratch)
  let ran := handleMessageMemory target ops conf.getConfiguration operation type.members msg
    tree.1 [] 0 0 ⟨w.core, tree.2⟩
  (ran.1, { ran.2 with
    scratch := if conf.nRules > 0 then ops.destroy tree.1 ran.2.scratch else ran.2.scratch })

def getDynamicSize (type : MessageMembers) (w : World σ) : Nat × World σ :=
  runOverType target ops conf .calculateSize type .null w

def getStaticSize (type : MessageMembers) (w : World σ) : Nat × World σ :=
  runOverType target ops conf .calculateSizePreallocated type .null
    { w with core := { w.core with operationBuffer := .null, operationBufferIndex := 0 } }

def createMessageMemory (type : MessageMembers) (msg : Pointer) (w : World σ) : Bool × World σ :=
  let calculated := getDynamicSize target ops conf type w
  let cleared := { calculated.2 with core := calculated.2.core.fillZero msg type.info.sizeOf }
  let used := runOverType target ops conf .create type msg cleared
  (used.1 == calculated.1, used.2)

def createStaticMessageMemory (type : MessageMembers) (msg buffer : Pointer) (bufferLen : Nat)
    (w : World σ) : Bool × World σ :=
  let calculated := getStaticSize target ops conf type w
  if calculated.1 > bufferLen then (false, calculated.2)
  else
    let zeroed := calculated.2.core.fillZero buffer calculated.1
    let placed : Core := { zeroed with operationBuffer := buffer, operationBufferIndex := 0 }
    let cleared := placed.fillZero msg type.info.sizeOf
    let used := runOverType target ops conf .createPreallocated type msg
      { calculated.2 with core := cleared }
    (used.1 == calculated.1 && used.1 == used.2.core.operationBufferIndex, used.2)

def destroyMessageMemory (type : MessageMembers) (msg : Pointer) (w : World σ) : Bool × World σ :=
  let calculated := getDynamicSize target ops conf type w
  let released := runOverType target ops conf .destroy type msg calculated.2
  let cleared := { released.2 with core := released.2.core.fillZero msg type.info.sizeOf }
  (calculated.1 == released.1, cleared)

end
end MicroRos
