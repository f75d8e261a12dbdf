import MicroRos.Utilities.HandleMemory

/-! The recursion over a type with the path of each member in place of the name tree.

`traverse` decides a capacity from the member's path alone. When the scratch strings are
values, `handleMessageMemory` does the same as `traverse`, whatever stands behind the
terminators of the compared strings; what is proved about `traverse` therefore holds
of the program.
-/

set_option autoImplicit false

namespace MicroRos

open Memory (Pointer Byte)

/-- The path of a member, with the trailing dot that the name tree has there. -/
def CString.child (path name : CString) : CString := (path.append name).append .dot

/-- What `popName` removes is what `pushName` appended. -/
theorem CString.dropTail_child (path name : CString) : (path.child name).dropTail (name.text.length + 1) = path := by
  have child : path.child name = path.append (name.append .dot) := by
    ext1
    simp [CString.child]
  have dropped := CString.dropTail_append path (name.append .dot)
  rw [CString.append_text, List.length_append] at dropped
  rw [child]
  exact dropped

variable {target : Target}

namespace MemoryConf

variable (conf : MemoryConf target)

/-- Capacity of a string or of a sequence of basic type below `path`. -/
def basicCapacity (path : CString) (type : BasicType) (field : Field) : Nat :=
  (conf.capacityAt (path.child field.name) (conf.basicDefault type)).val

/-- Capacity of a sequence of messages below `path`. -/
def messageCapacity (path : CString) (field : Field) : Nat :=
  (conf.capacityAt (path.child field.name) conf.maxRos2TypeSequenceCapacity).val

theorem basicCapacity_lt (path : CString) (type : BasicType) (field : Field) :
    conf.basicCapacity path type field < target.modulus := Fin.isLt _

theorem messageCapacity_lt (path : CString) (field : Field) :
    conf.messageCapacity path field < target.modulus := Fin.isLt _

end MemoryConf

/-- The capacity is recorded and the header is set up with it. -/
def Core.planHeader (conf : MemoryConf target) (operation : Operation) (site : Site)
    (header : Pointer) (capacity memberSize : Nat) (w : Core) : Option Nat × Core :=
  (w.record (.resolved site capacity)).setUpHeader target conf.owner operation site header
    capacity memberSize

def traverse (conf : MemoryConf target) (operation : Operation) :
    MemberList → Pointer → CString → List Step → Nat → Nat → Core → Nat × Core
  | .nil, _, _, _, _, used, w => (used, w)
  | .basic type field rest, msg, path, stack, index, used, w =>
    if isHeader type field then
      let site : Site := ⟨stack, index⟩
      let header := msg.plus field.offset
      let capacity := conf.basicCapacity path type field
      let made := w.planHeader conf operation site header capacity type.plannedSize
      match made.1 with
      | none => (0, made.2)
      | some bytes =>
        traverse conf operation rest msg path stack (index + 1) (target.add used bytes)
          (made.2.tearDownHeader target conf.owner operation site header)
    else traverse conf operation rest msg path stack (index + 1) used w
  | .message info members field rest, msg, path, stack, index, used, w =>
    let header := msg.plus field.offset
    if field.isSequence then
      let site : Site := ⟨stack, index⟩
      let capacity := conf.messageCapacity path field
      let made := w.planHeader conf operation site header capacity info.sizeOf
      match made.1 with
      | none => (0, made.2)
      | some bytes =>
        let elements := Core.forElements target
          (fun j w =>
            let data := w.elementData target operation header
            traverse conf operation members
              (Core.elementAddress target operation data.1 j info.sizeOf) (path.child field.name)
              (stack ++ [.element index j data.1]) 0 0 data.2)
          capacity (target.add used bytes) made.2
        traverse conf operation rest msg path stack (index + 1) elements.1
          (elements.2.tearDownHeader target conf.owner operation site header)
    else
      let nested := traverse conf operation members header (path.child field.name)
        (stack ++ [.inline index]) 0 0 w
      traverse conf operation rest msg path stack (index + 1) (target.add used nested.1) nested.2

/-- The first member of the list has a header; its capacity below `path` and its element size. -/
inductive HeaderOf (conf : MemoryConf target) (path : CString) :
    MemberList → Field → Nat → Nat → Prop where
  | basic {type : BasicType} {field : Field} {rest : MemberList} (header : isHeader type field = true) :
      HeaderOf conf path (.basic type field rest) field (conf.basicCapacity path type field)
        type.plannedSize
  | message {info : MessageInfo} {members : MemberList} {field : Field} {rest : MemberList}
      (sequence : field.isSequence = true) :
      HeaderOf conf path (.message info members field rest) field (conf.messageCapacity path field)
        info.sizeOf

/-- A step without the data pointer of its element. -/
def Step.mark : Step → Nat × Option Nat
  | .inline member => (member, none)
  | .element member index _ => (member, some index)

/-- A header that the recursion meets. -/
structure Visit where
  stack : List (Nat × Option Nat)
  member : Nat
  capacity : Nat
  memberSize : Nat
  deriving DecidableEq, Repr

def Visit.bytes (visit : Visit) : Nat := visit.capacity * visit.memberSize

/-- The headers in the order in which a run sets them up or, when `late`, in the order in which it is
done with them: a header comes before its elements in one and after them in the other. -/
def visits (late : Bool) (conf : MemoryConf target) :
    MemberList → CString → List (Nat × Option Nat) → Nat → List Visit
  | .nil, _, _, _ => []
  | .basic type field rest, path, stack, index =>
    (if isHeader type field then
      [⟨stack, index, conf.basicCapacity path type field, type.plannedSize⟩] else []) ++
    visits late conf rest path stack (index + 1)
  | .message info members field rest, path, stack, index =>
    (if field.isSequence then
      let own : Visit := ⟨stack, index, conf.messageCapacity path field, info.sizeOf⟩
      let elements := (List.range (conf.messageCapacity path field)).flatMap fun j =>
        visits late conf members (path.child field.name) (stack ++ [(index, some j)]) 0
      if late then elements ++ [own] else own :: elements
      else visits late conf members (path.child field.name) (stack ++ [(index, none)]) 0) ++
    visits late conf rest path stack (index + 1)

namespace Core

/-- What every iteration preserves, the loop preserves. -/
theorem forElements_induct {W : Type} {body : Nat → W → Nat × W}
    {motive : Nat → Nat → W → Prop} {n used : Nat} {w : W} (start : motive 0 used w)
    (next : ∀ j < n, ∀ used w, motive j used w →
      motive (j + 1) (target.add used (body j w).1) (body j w).2) :
    motive n (forElements target body n used w).1 (forElements target body n used w).2 := by
  induction n with
  | zero => exact start
  | succ n ih =>
    have before := ih fun j bound => next j (by omega)
    exact next n (by omega) _ _ before

/-- Two loops whose bodies agree after `view` agree after `view`. -/
theorem forElements_view {W V : Type} (view : W → V) (body : Nat → W → Nat × W)
    (body' : Nat → V → Nat × V) (same : ∀ j w, (body j w).1 = (body' j (view w)).1 ∧
      view (body j w).2 = (body' j (view w)).2) (n used : Nat) (w : W) :
    (forElements target body n used w).1 = (forElements target body' n used (view w)).1 ∧
      view (forElements target body n used w).2 = (forElements target body' n used (view w)).2 := by
  induction n with
  | zero => exact ⟨rfl, rfl⟩
  | succ n ih =>
    obtain ⟨usedSame, stateSame⟩ := ih
    have here := same n (forElements target body n used w).2
    rw [stateSame] at here
    simp only [forElements, usedSame, here, and_self]

end Core

/-- The calls of the recursion: `Frame` holds of each of them (its remaining members, message
address, path, stack and loop counter). -/
structure FrameRule (conf : MemoryConf target) (operation : Operation)
    (Frame : MemberList → Pointer → CString → List Step → Nat → Prop) : Prop where
  next : ∀ {list msg path stack index}, Frame list msg path stack index →
    Frame list.tail msg path stack (index + 1)
  inline : ∀ {info members field rest msg path stack index},
    Frame (.message info members field rest) msg path stack index → field.isSequence = false →
    Frame members (msg.plus field.offset) (path.child field.name) (stack ++ [.inline index]) 0
  element : ∀ {info members field rest msg path stack index} (data : Pointer) {j : Nat},
    Frame (.message info members field rest) msg path stack index → field.isSequence = true →
    j < conf.messageCapacity path field →
    Frame members (Core.elementAddress target operation data j info.sizeOf) (path.child field.name)
      (stack ++ [.element index j data]) 0

/-- `R planned torn used w result w'` is kept by everything that a call does between the states `w`
and `w'`, where it plans the headers `planned`, is done with the headers `torn`, and its byte count
goes from `used` to `result`. -/
structure VisitRule (conf : MemoryConf target) (operation : Operation)
    (Frame : MemberList → Pointer → CString → List Step → Nat → Prop)
    (R : List Visit → List Visit → Nat → Core → Nat → Core → Prop) : Prop
    extends FrameRule conf operation Frame where
  refl : ∀ used w, R [] [] used w used w
  trans : ∀ {planned planned' torn torn' used used' used'' w w' w''}, R planned torn used w used' w' →
    R planned' torn' used' w' used'' w'' → R (planned ++ planned') (torn ++ torn') used w used'' w''
  /-- The count of a call is added to that of its caller. -/
  nested : ∀ {planned torn result w w'} used, R planned torn 0 w result w' →
    R planned torn used w (target.add used result) w'
  plan : ∀ {list msg path stack index field capacity memberSize},
    Frame list msg path stack index → HeaderOf conf path list field capacity memberSize →
    ∀ used w bytes after,
    Core.planHeader conf operation ⟨stack, index⟩ (msg.plus field.offset) capacity memberSize w =
      (some bytes, after) →
    R [⟨stack.map Step.mark, index, capacity, memberSize⟩] [] used w (target.add used bytes) after
  /-- A refused header ends its call, whatever was still ahead of it. -/
  refuse : ∀ {list msg path stack index field capacity memberSize},
    Frame list msg path stack index → HeaderOf conf path list field capacity memberSize →
    ∀ missed untorn used w after,
    Core.planHeader conf operation ⟨stack, index⟩ (msg.plus field.offset) capacity memberSize w =
      (none, after) →
    R (⟨stack.map Step.mark, index, capacity, memberSize⟩ :: missed) untorn used w 0 after
  load : ∀ header used w, R [] [] used w used (Core.elementData target operation header w).2
  tear : ∀ {list msg path stack index field capacity memberSize},
    Frame list msg path stack index → HeaderOf conf path list field capacity memberSize →
    ∀ used w, R [] [⟨stack.map Step.mark, index, capacity, memberSize⟩] used w used
      (Core.tearDownHeader target conf.owner operation ⟨stack, index⟩ (msg.plus field.offset) w)

/-- The induction over a type, made once for all properties of this shape. -/
theorem VisitRule.run {conf : MemoryConf target} {operation : Operation}
    {Frame : MemberList → Pointer → CString → List Step → Nat → Prop}
    {R : List Visit → List Visit → Nat → Core → Nat → Core → Prop}
    (rule : VisitRule conf operation Frame R) (list : MemberList) {msg : Pointer} {path : CString}
    {stack : List Step} {index : Nat} (frame : Frame list msg path stack index) (used : Nat)
    (w : Core) :
    R (visits false conf list path (stack.map Step.mark) index)
      (visits true conf list path (stack.map Step.mark) index) used w
      (traverse conf operation list msg path stack index used w).1
      (traverse conf operation list msg path stack index used w).2 := by
  -- The list ends, or its first member is met and the same call goes on; elements are calls of their own.
  induction list generalizing msg path stack index used w with
  | nil => exact rule.refl used w
  | basic type field rest ih =>
    have tail := rule.next frame
    simp only [traverse, visits]
    split
    next header =>
      have planned := rule.plan frame (.basic header) used w
      have refused := fun missed untorn => rule.refuse frame (.basic header) missed untorn used w
      generalize w.planHeader conf operation _ _ _ _ = made at planned refused ⊢
      obtain ⟨_ | bytes, after⟩ := made
      · exact refused _ _ after rfl
      · have torn := rule.trans (planned bytes after rfl) (rule.tear frame (.basic header) _ after)
        exact rule.trans torn (ih tail _ _)
    next plain => exact ih tail used w
  | message info members field rest ihMembers ih =>
    have tail := rule.next frame
    simp only [traverse, visits]
    split
    next sequence =>
      have planned := rule.plan frame (.message sequence) used w
      have refused := fun missed untorn => rule.refuse frame (.message sequence) missed untorn used w
      generalize w.planHeader conf operation _ _ _ _ = made at planned refused ⊢
      obtain ⟨_ | bytes, after⟩ := made
      · exact refused _ _ after rfl
      · -- The loop meets the headers of the elements before it, round by round.
        let elements (late : Bool) (n : Nat) : List Visit := (List.range n).flatMap fun j =>
          visits late conf members (path.child field.name) (stack.map Step.mark ++ [(index, some j)]) 0
        have looped : R (elements false (conf.messageCapacity path field))
            (elements true (conf.messageCapacity path field)) (target.add used bytes) after _ _ :=
          Core.forElements_induct (motive := fun n reached w' =>
              R (elements false n) (elements true n) (target.add used bytes) after reached w')
            (rule.refl _ after) fun j bound reached w' before => by
              have round := ihMembers (rule.element (w'.elementData target operation
                (msg.plus field.offset)).1 frame sequence bound) 0
                (w'.elementData target operation (msg.plus field.offset)).2
              have loaded := rule.trans (rule.load (msg.plus field.offset) reached w')
                (rule.nested reached round)
              simpa [elements, List.range_succ, Step.mark] using rule.trans before loaded
        have torn := rule.trans looped (rule.tear frame (.message sequence) _ _)
        have whole := rule.trans (planned bytes after rfl) (rule.trans torn (ih tail _ _))
        simpa [elements] using whole
    next single =>
      have notSequence : field.isSequence = false := by simpa using single
      have inner := rule.nested used (ihMembers (rule.inline frame notSequence) 0 w)
      simpa [Step.mark] using rule.trans inner (ih tail _ _)

/-- A rule about states alone: every action of a call relates the states around it by `R`. -/
structure TraversalRule (conf : MemoryConf target) (operation : Operation)
    (Frame : MemberList → Pointer → CString → List Step → Nat → Prop) (R : Core → Core → Prop) :
    Prop extends FrameRule conf operation Frame where
  refl : ∀ w, R w w
  trans : ∀ {first second third}, R first second → R second third → R first third
  plan : ∀ {list msg path stack index field capacity memberSize},
    Frame list msg path stack index → HeaderOf conf path list field capacity memberSize → ∀ w,
    R w (Core.planHeader conf operation ⟨stack, index⟩ (msg.plus field.offset) capacity memberSize w).2
  load : ∀ header w, R w (Core.elementData target operation header w).2
  tear : ∀ {list msg path stack index field capacity memberSize},
    Frame list msg path stack index → HeaderOf conf path list field capacity memberSize → ∀ w,
    R w (Core.tearDownHeader target conf.owner operation ⟨stack, index⟩ (msg.plus field.offset) w)

theorem TraversalRule.run {conf : MemoryConf target} {operation : Operation}
    {Frame : MemberList → Pointer → CString → List Step → Nat → Prop} {R : Core → Core → Prop}
    (rule : TraversalRule conf operation Frame R) (list : MemberList) {msg : Pointer}
    {path : CString} {stack : List Step} {index : Nat} (frame : Frame list msg path stack index)
    (used : Nat) (w : Core) :
    R w (traverse conf operation list msg path stack index used w).2 := by
  have visitRule : VisitRule conf operation Frame fun _ _ _ w _ w' => R w w' :=
    { rule.toFrameRule with
      refl := fun _ => rule.refl
      trans := rule.trans
      nested := fun _ inner => inner
      plan := fun frame header _ w bytes after planned => by
        simpa [planned] using rule.plan frame header w
      refuse := fun frame header _ _ _ w after planned => by
        simpa [planned] using rule.plan frame header w
      load := fun header _ => rule.load header
      tear := fun frame header _ => rule.tear frame header }
  exact visitRule.run list frame used w

section Values

variable (conf : MemoryConf target)

/-- While there are rules the name tree spells the path. -/
def Spells (tree path : CString) : Prop := conf.nRules > 0 → tree = path

theorem pushName_value {tree path : CString} (name : CString) (w : World (Nat → Nat → Byte))
    (spells : Spells conf tree path) :
    Spells conf (pushName target (valueStrings target) conf name tree w).1 (path.child name) ∧
      (pushName target (valueStrings target) conf name tree w).2.core = w.core := by
  unfold pushName
  split
  next rules =>
    cases spells rules
    exact ⟨fun _ => rfl, rfl⟩
  next noRules => exact ⟨fun rules => absurd rules noRules, rfl⟩

theorem popName_value {tree path : CString} (name : CString) (w : World (Nat → Nat → Byte))
    (spells : Spells conf tree (path.child name)) :
    Spells conf (popName target (valueStrings target) conf name tree w).1 path ∧
      (popName target (valueStrings target) conf name tree w).2.core = w.core := by
  unfold popName
  split
  next rules =>
    refine ⟨fun _ => ?_, rfl⟩
    rw [spells rules]
    exact CString.dropTail_child path name
  next noRules => exact ⟨fun rules => absurd rules noRules, rfl⟩

theorem findCapacity_value (otherwise : target.SizeT) (path name : CString)
    (rules : List (Rule target)) (behind : Nat → Nat → Byte) :
    (findCapacity target (valueStrings target) otherwise (path.child name) rules behind).1 =
      ((rules.find? (·.selects (path.child name))).map (·.size)).getD otherwise := by
  induction rules generalizing behind with
  | nil => rfl
  | cons rule rules ih =>
    have tested : ((valueStrings target).matchesRule rule (path.child name) behind).1 =
        rule.selects (path.child name) := Rule.matchesBuffer_eq_selects rule (path.append name) _
    simp only [findCapacity, tested, List.find?_cons]
    split
    next hit => simp [hit]
    next miss => simp only [miss]; exact ih _

theorem resolveCapacity_value {tree path name : CString} (otherwise : target.SizeT) (site : Site)
    (w : World (Nat → Nat → Byte)) (spells : Spells conf tree (path.child name)) :
    (resolveCapacity target (valueStrings target) conf otherwise site tree w).1 =
        (conf.capacityAt (path.child name) otherwise).val ∧
      (resolveCapacity target (valueStrings target) conf otherwise site tree w).2.core =
        w.core.record (.resolved site (conf.capacityAt (path.child name) otherwise).val) := by
  have found : (findCapacity target (valueStrings target) otherwise tree conf.rules w.scratch).1 =
      conf.capacityAt (path.child name) otherwise := by
    by_cases rules : conf.nRules > 0
    · rw [spells rules, findCapacity_value]
      rfl
    · have none : conf.rules = [] := List.eq_nil_of_length_eq_zero (by simpa [MemoryConf.nRules] using rules)
      simp [none, findCapacity, MemoryConf.capacityAt]
  simp only [resolveCapacity, found, and_self]

/-- With string values the recursion is `traverse`. -/
theorem handleMessageMemory_value (operation : Operation) (list : MemberList) (msg : Pointer)
    {tree path : CString} (spells : Spells conf tree path) (stack : List Step) (index used : Nat)
    {w : World (Nat → Nat → Byte)} {core : Core} (sameCore : w.core = core) :
    (handleMessageMemory target (valueStrings target) conf operation list msg tree stack index
        used w).1 = (traverse conf operation list msg path stack index used core).1 ∧
      (handleMessageMemory target (valueStrings target) conf operation list msg tree stack index
        used w).2.core = (traverse conf operation list msg path stack index used core).2 := by
  induction list generalizing msg tree path stack index used w core with
  | nil => exact ⟨rfl, sameCore⟩
  | basic type field rest ih =>
    subst sameCore
    obtain ⟨pushed, pushedCore⟩ := pushName_value conf field.name w spells
    simp only [handleMessageMemory, traverse]
    split
    next header =>
      obtain ⟨capacity, core⟩ := resolveCapacity_value conf (conf.basicDefault type) ⟨stack, index⟩
        (pushName target (valueStrings target) conf field.name tree w).2 pushed
      simp only [capacity, core, pushedCore, MemoryConf.basicCapacity, Core.planHeader]
      generalize Core.setUpHeader target conf.owner operation ⟨stack, index⟩ _ _ _ _ = made
      obtain ⟨_ | bytes, after⟩ := made
      · exact ⟨rfl, rfl⟩
      · obtain ⟨popped, poppedCore⟩ := popName_value conf field.name ⟨_, _⟩ pushed
        exact ih msg popped stack (index + 1) _ poppedCore
    next plain =>
      obtain ⟨popped, poppedCore⟩ := popName_value conf field.name _ pushed
      exact ih msg popped stack (index + 1) used (poppedCore.trans pushedCore)
  | message info members field rest ihMembers ih =>
    subst sameCore
    obtain ⟨pushed, pushedCore⟩ := pushName_value conf field.name w spells
    simp only [handleMessageMemory, traverse]
    split
    next sequence =>
      obtain ⟨capacity, core⟩ := resolveCapacity_value conf conf.maxRos2TypeSequenceCapacity
        ⟨stack, index⟩ (pushName target (valueStrings target) conf field.name tree w).2 pushed
      simp only [capacity, core, pushedCore, MemoryConf.messageCapacity, Core.planHeader]
      generalize Core.setUpHeader target conf.owner operation ⟨stack, index⟩ _ _ _ _ = made
      obtain ⟨_ | bytes, after⟩ := made
      · exact ⟨rfl, rfl⟩
      · simp only
        obtain ⟨usedSame, coreSame⟩ := Core.forElements_view World.core
          (fun j (w : World (Nat → Nat → Byte)) =>
            let data := w.core.elementData target operation (msg.plus field.offset)
            handleMessageMemory target (valueStrings target) conf operation members
              (Core.elementAddress target operation data.1 j info.sizeOf)
              (pushName target (valueStrings target) conf field.name tree _).1
              (stack ++ [.element index j data.1]) 0 0 ⟨data.2, w.scratch⟩)
          (fun j w =>
            let data := w.elementData target operation (msg.plus field.offset)
            traverse conf operation members
              (Core.elementAddress target operation data.1 j info.sizeOf) (path.child field.name)
              (stack ++ [.element index j data.1]) 0 0 data.2)
          (fun j w => ihMembers _ pushed _ 0 0 rfl)
          (conf.capacityAt (path.child field.name) conf.maxRos2TypeSequenceCapacity).val
          (target.add used bytes) ⟨after, _⟩
        simp only at usedSame coreSame
        rw [← usedSame, ← coreSame]
        obtain ⟨popped, poppedCore⟩ := popName_value conf field.name ⟨_, _⟩ pushed
        exact ih msg popped stack (index + 1) _ poppedCore
    next single =>
      obtain ⟨nestedUsed, nestedCore⟩ := ihMembers (msg.plus field.offset) pushed
        (stack ++ [.inline index]) 0 0 pushedCore
      rw [← nestedUsed, ← nestedCore]
      obtain ⟨popped, poppedCore⟩ := popName_value conf field.name _ pushed
      exact ih msg popped stack (index + 1) _ poppedCore

end Values
end MicroRos
