import MicroRos.Planning.Functions
import MicroRos.Utilities.Lifetimes
import Mathlib.Data.List.Infix

/-! The name tree as a struct that is passed by value, with its characters in a buffer.

While its demands are served the recursion does the same as `traverse`; what it demands
depends on the type, on the configuration and on the answers that its headers get.
-/

set_option autoImplicit false

namespace MicroRos

open Memory (Pointer Byte Contents)

variable {target : Target}

section Scratch

variable {σ S : Type}

variable {ops : StringOps target σ S} {R : σ → σ → Prop} (conf : MemoryConf target)

theorem StringOps.Keeps.pushed (keeps : ops.Keeps R) (name : CString) (tree : S) (w : World σ) :
    R w.scratch (pushName target ops conf name tree w).2.scratch := by
  unfold pushName
  split
  · exact keeps.trans (keeps.append tree name w.scratch) (keeps.append _ .dot _)
  · exact keeps.refl _

theorem StringOps.Keeps.popped (keeps : ops.Keeps R) (name : CString) (tree : S) (core : Core) (s : σ) :
    R s (popName target ops conf name tree ⟨core, s⟩).2.scratch := by
  unfold popName
  split
  · exact keeps.removeTailChars _ _ _
  · exact keeps.refl _

theorem StringOps.Keeps.looped (keeps : ops.Keeps R) {body : Nat → World σ → Nat × World σ}
    (each : ∀ j w, R w.scratch (body j w).2.scratch) (n used : Nat) (core : Core) (s : σ) :
    R s (Core.forElements target body n used ⟨core, s⟩).2.scratch :=
  Core.forElements_induct (motive := fun _ _ w' => R s w'.scratch) (keeps.refl s)
    fun j _ _ w' before => keeps.trans before (each j w')

theorem StringOps.Keeps.resolved (keeps : ops.Keeps R) (otherwise : target.SizeT) (site : Site)
    (tree : S) (w : World σ) : R w.scratch (resolveCapacity target ops conf otherwise site tree w).2.scratch := by
  have found (rules : List (Rule target)) (s : σ) : R s (findCapacity target ops otherwise tree rules s).2 := by
    induction rules generalizing s with
    | nil => exact keeps.refl s
    | cons rule rules ih =>
      have tested := keeps.matchesRule rule tree s
      simp only [findCapacity]
      split
      · exact tested
      · exact keeps.trans tested (ih _)
  exact found conf.rules w.scratch

/-- The name that the recursion appends first. -/
def MemberList.firstName : MemberList → Option CString
  | .nil => none
  | .basic _ field _ | .message _ _ field _ => some field.name

/-- What every operation extends, the recursion extends, and so does what it does behind its first name. -/
theorem StringOps.Keeps.handled (keeps : ops.Keeps R) (operation : Operation) (list : MemberList) (msg : Pointer)
    (tree : S) (stack : List Step) (index used : Nat) (w : World σ) :
    let ran := handleMessageMemory target ops conf operation list msg tree stack index used w
    R w.scratch ran.2.scratch ∧
      ∀ name ∈ list.firstName, R (pushName target ops conf name tree w).2.scratch ran.2.scratch := by
  -- What happens behind the first name is looked at first; the name itself comes in front of it.
  have whole {list : MemberList} {name : CString} (first : list.firstName = some name) {tree : S} {w : World σ}
      {s : σ} (behind : R (pushName target ops conf name tree w).2.scratch s) :
      R w.scratch s ∧ ∀ name ∈ list.firstName, R (pushName target ops conf name tree w).2.scratch s := by
    refine ⟨keeps.trans (keeps.pushed conf name tree w) behind, fun other named => ?_⟩
    rw [first] at named
    cases named
    exact behind
  induction list generalizing msg tree stack index used w with
  | nil => exact ⟨keeps.refl _, fun _ none => nomatch none⟩
  | basic type field rest ih =>
    apply whole rfl
    simp only [handleMessageMemory]
    split
    · have resolved := keeps.resolved conf (conf.basicDefault type) ⟨stack, index⟩
        (pushName target ops conf field.name tree w).1 (pushName target ops conf field.name tree w).2
      generalize Core.setUpHeader target conf.owner operation ⟨stack, index⟩ _ _ _ _ = made
      obtain ⟨_ | bytes, after⟩ := made
      · exact resolved
      · apply keeps.trans resolved
        refine keeps.trans ?_ (ih _ _ _ _ _ _).1
        exact keeps.popped conf field.name _ _ _
    · refine keeps.trans ?_ (ih _ _ _ _ _ _).1
      exact keeps.popped conf field.name _ _ _
  | message info members field rest ihMembers ih =>
    apply whole rfl
    simp only [handleMessageMemory]
    split
    · have resolved := keeps.resolved conf conf.maxRos2TypeSequenceCapacity ⟨stack, index⟩
        (pushName target ops conf field.name tree w).1 (pushName target ops conf field.name tree w).2
      generalize Core.setUpHeader target conf.owner operation ⟨stack, index⟩ _ _ _ _ = made
      obtain ⟨_ | bytes, after⟩ := made
      · exact resolved
      · apply keeps.trans resolved
        refine keeps.trans ?_ (ih _ _ _ _ _ _).1
        refine keeps.trans ?_ (keeps.popped conf field.name _ _ _)
        apply keeps.looped
        intro j w'
        exact (ihMembers _ _ _ _ _ ⟨(w'.core.elementData target operation (msg.plus field.offset)).2, w'.scratch⟩).1
    · apply keeps.trans (ihMembers (msg.plus field.offset) _ (stack ++ [.inline index]) 0 0 _).1
      refine keeps.trans ?_ (ih _ _ _ _ _ _).1
      exact keeps.popped conf field.name _ _ _

end Scratch

section Demands

/-- Demands, with the number of requests that headers have made behind them. -/
def followedBy (first : List Demand × Nat) (rest : Nat → List Demand × Nat) : List Demand × Nat :=
  (first.1 ++ (rest first.2).1, (rest first.2).2)

/-- The demands of so many rounds of a loop. -/
def rounds (round : Nat → List Demand × Nat) : Nat → Nat → List Demand × Nat
  | 0, asked => ([], asked)
  | n + 1, asked => followedBy (rounds round n asked) round

/-- The demands while a name and its dot are appended. -/
def nameDemands (path name : CString) (capacity : Nat) : List Demand :=
  growth (path.append name).text.length capacity ++
    growth (path.child name).text.length (capacityFor (path.append name).text.length capacity)

/-- The capacity of the copy behind that. -/
def nameCapacity (path name : CString) (capacity : Nat) : Nat :=
  capacityFor (path.child name).text.length (capacityFor (path.append name).text.length capacity)

/-- The comparisons of a rule with a path: the second one is made only where the rule begins the path. -/
def Rule.comparisons (rule : Rule target) (path : CString) : List Demand :=
  .compare rule.rule.text.length rule.rule.cells.length ::
    if rule.rule.text <+: path.text then [.compare (path.text.length - 1) rule.rule.cells.length] else []

/-- The comparisons of the loop over the rules, which ends with the first rule that matches. -/
def lookups (path : CString) : List (Rule target) → List Demand
  | [] => []
  | rule :: rules => rule.comparisons path ++ if rule.selects path then [] else lookups path rules

/-- The demands of the name tree while the list is gone through with a copy of this capacity. The headers make
requests of their own, `asked` of them so far, and one that is refused ends its call. -/
def MemberList.demands (conf : MemoryConf target) (refused : Nat → Nat → Bool) :
    MemberList → CString → Nat → Nat → List Demand × Nat
  | .nil, _, _, asked => ([], asked)
  | .basic type field rest, path, capacity, asked =>
    let own := nameDemands path field.name capacity
    let behind := rest.demands conf refused path (nameCapacity path field.name capacity)
    if isHeader type field then
      let looked := (own ++ lookups (path.child field.name) conf.rules, asked + 1)
      if refused asked (target.mul (conf.basicCapacity path type field) type.plannedSize) then looked
      else followedBy looked behind
    else followedBy (own, asked) behind
  | .message info members field rest, path, capacity, asked =>
    let own := nameDemands path field.name capacity
    let inner := members.demands conf refused (path.child field.name) (nameCapacity path field.name capacity)
    let behind := rest.demands conf refused path (nameCapacity path field.name capacity)
    if field.isSequence then
      let looked := (own ++ lookups (path.child field.name) conf.rules, asked + 1)
      if refused asked (target.mul (conf.messageCapacity path field) info.sizeOf) then looked
      else followedBy (followedBy looked (rounds inner (conf.messageCapacity path field))) behind
    else followedBy (followedBy (own, asked) inner) behind

end Demands

section Buffers

variable (conf : MemoryConf target) {b : Pointer} {size : Nat}

theorem pushName_core (name : CString) (tree : RuntimeString) (w : World StringHeap) :
    (pushName target (heapStrings target) conf name tree w).2.core = w.core := by
  unfold pushName
  split <;> rfl

theorem pushName_runs (rules : conf.nRules > 0) (path name : CString) (capacity : Nat) {w : World StringHeap}
    (buffer : Buffer b size w.scratch) (holds : w.scratch.memory.Holds b path.text) :
    let pushed := pushName target (heapStrings target) conf name ⟨b, path.text.length, capacity⟩ w
    Runs b size (nameDemands path name capacity) w.scratch pushed.2.scratch
      (pushed.1 = ⟨b, (path.child name).text.length, nameCapacity path name capacity⟩ ∧
        pushed.2.scratch.memory.Holds b (path.child name).cells) := by
  simp only [pushName, rules, if_true]
  -- Two appends, and the capacity that the first leaves decides whether the second asks for a resize.
  apply (RuntimeString.append_spells buffer capacity holds name).bind ((heapStrings_continues target).append _ _ _)
  rintro stays ⟨named, holds'⟩
  have front := (Contents.holds_append_iff.mp holds').1
  have dotted := RuntimeString.append_spells (stays.buffer buffer)
    (capacityFor (path.append name).text.length capacity) front .dot
  rw [← named] at dotted
  exact dotted

theorem popName_stays (rules : conf.nRules > 0) (path name : CString) (capacity : Nat) {w : World StringHeap}
    (buffer : Buffer b size w.scratch) (holds : w.scratch.memory.Holds b (path.child name).text) :
    let popped := popName target (heapStrings target) conf name ⟨b, (path.child name).text.length, capacity⟩ w
    Stays b size [] w.scratch popped.2.scratch ∧ popped.1 = ⟨b, path.text.length, capacity⟩ ∧
      popped.2.core = w.core ∧ popped.2.scratch.memory.Holds b path.text := by
  have child : path.child name = path.append (name.append .dot) := by
    ext1
    simp [CString.child]
  have dotted : (name.append .dot).text.length = name.text.length + 1 := by simp [CString.dot]
  rw [child] at holds ⊢
  obtain ⟨stays, same, front⟩ := RuntimeString.removeTailChars_spells buffer capacity holds
  rw [dotted] at stays same front
  simp only [popName, rules, if_true]
  exact ⟨stays, same, trivial, front⟩

theorem holds_path {m : Contents} {path name : CString} (holds : m.Holds b (path.child name).cells) :
    m.Holds b path.text ∧ m.Holds b (path.child name).text := by
  have child := (Contents.holds_append_iff.mp holds).1
  refine ⟨?_, child⟩
  rw [CString.child, CString.append_text, CString.append_text, List.append_assoc, Contents.holds_append_iff] at child
  exact child.1

/-- What stands in the block is a C string with some bytes behind it. -/
theorem byteAt_eq_bytes {m : Contents} {s : CString} (holds : m.Holds b s.cells) :
    (fun i => m.byteAt (b.plus i)) = s.bytes fun i => m.byteAt (b.plus i) := by
  funext i
  obtain ⟨characters, terminator⟩ := Contents.holds_append_iff.mp holds
  by_cases last : i = s.text.length
  · have zero := terminator 0 Nat.one_pos
    rw [Pointer.plus_zero, ← last] at zero
    simp [CString.bytes, last, Contents.byteAt, last ▸ zero]
  · by_cases inside : i < s.text.length
    · rw [CString.bytes_lt _ inside, Contents.byteAt, characters i inside]
    · simp [CString.bytes, last, List.getElem?_eq_none (Nat.le_of_not_lt inside)]

/-- The first comparison finds no difference exactly where the rule begins the path. -/
theorem Rule.begins_iff (r : Rule target) (path : CString) (after : Nat → Byte) :
    memcmpEq (r.rule.bytes r.after) (path.bytes after) r.rule.text.length = true ↔
      r.rule.text <+: path.text := by
  rw [memcmpEq, decide_eq_true_eq]
  exact CString.bytes_agree_iff r.rule path r.after after

theorem matchesRule_stays (rule : Rule target) (path name : CString) (capacity : Nat) {w : StringHeap}
    (buffer : Buffer b size w) (holds : w.memory.Holds b (path.child name).cells) :
    let tested := (heapStrings target).matchesRule rule ⟨b, (path.child name).text.length, capacity⟩ w
    tested.1 = rule.selects (path.child name) ∧
      Stays b size (rule.comparisons (path.child name)) w tested.2 ∧ tested.2.memory = w.memory := by
  have selected : rule.matchesBuffer ((path.child name).bytes fun i => w.memory.byteAt (b.plus i))
      (path.child name).text.length = rule.selects (path.child name) :=
    Rule.matchesBuffer_eq_selects rule (path.append name) _
  rw [Rule.matchesBuffer] at selected
  have first := Stays.of_compare rule.rule.text.length rule.rule.cells.length buffer
  have begins := Rule.begins_iff rule (path.child name) fun i => w.memory.byteAt (b.plus i)
  simp only [heapStrings]
  rw [byteAt_eq_bytes holds]
  simp only [Rule.comparisons, ← begins]
  -- The second comparison is made only if the first found no difference.
  split
  next agrees =>
    rw [agrees, Bool.true_and] at selected
    exact ⟨selected, first.trans (Stays.of_compare _ _ (first.buffer buffer)), rfl⟩
  next differs =>
    rw [Bool.eq_false_iff.mpr differs, Bool.false_and] at selected
    exact ⟨selected, first, rfl⟩

theorem findCapacity_stays (otherwise : target.SizeT) (rules : List (Rule target)) (path name : CString)
    (capacity : Nat) {w : StringHeap} (buffer : Buffer b size w)
    (holds : w.memory.Holds b (path.child name).cells) :
    let found := findCapacity target (heapStrings target) otherwise ⟨b, (path.child name).text.length, capacity⟩
      rules w
    found.1 = ((rules.find? (·.selects (path.child name))).map (·.size)).getD otherwise ∧
      Stays b size (lookups (path.child name) rules) w found.2 ∧ found.2.memory = w.memory := by
  induction rules generalizing size w with
  | nil => exact ⟨rfl, .refl buffer, rfl⟩
  | cons rule rules ih =>
    obtain ⟨tested, stays, memory⟩ := matchesRule_stays rule path name capacity buffer holds
    simp only [findCapacity, tested, List.find?_cons, lookups]
    cases rule.selects (path.child name) with
    | true =>
      simp only [if_true, List.append_nil]
      exact ⟨rfl, stays, memory⟩
    | false =>
      obtain ⟨found, stays', memory'⟩ := ih (stays.buffer buffer) (memory.symm ▸ holds)
      exact ⟨found, stays.trans stays', memory'.trans memory⟩

theorem resolveCapacity_stays (otherwise : target.SizeT) (site : Site) (path name : CString) (capacity : Nat)
    {w : World StringHeap} (buffer : Buffer b size w.scratch)
    (holds : w.scratch.memory.Holds b (path.child name).cells) :
    let resolved := resolveCapacity target (heapStrings target) conf otherwise site
      ⟨b, (path.child name).text.length, capacity⟩ w
    resolved.1 = (conf.capacityAt (path.child name) otherwise).val ∧
      resolved.2.core = w.core.record (.resolved site (conf.capacityAt (path.child name) otherwise).val) ∧
      Stays b size (lookups (path.child name) conf.rules) w.scratch resolved.2.scratch ∧
      resolved.2.scratch.memory = w.scratch.memory := by
  obtain ⟨found, stays, memory⟩ := findCapacity_stays otherwise conf.rules path name capacity buffer holds
  have decided : _ = conf.capacityAt (path.child name) otherwise := found
  simp only [resolveCapacity, decided]
  exact ⟨trivial, trivial, stays, memory⟩

end Buffers

/-- A header that is set up behind `asked` requests is refused exactly where `refused` says so, and so are
those that follow. -/
def Operation.Answers (operation : Operation) (refused : Nat → Nat → Bool) (asked : Nat) (w : Core) : Prop :=
  match operation with
  | .create => (∀ request size, refused request size = !w.heap.grants request size) ∧ w.heap.asked = asked
  | .createPreallocated => ∀ request size, refused request size = decide (w.operationBuffer = .null)
  | .destroy | .calculateSize | .calculateSizePreallocated => ∀ request size, refused request size = false

section Answers

variable {operation : Operation} {refused : Nat → Nat → Bool} {asked : Nat} {w : Core}

theorem Core.planHeader_answers (conf : MemoryConf target) (answers : operation.Answers refused asked w)
    (site : Site) (header : Pointer) (capacity memberSize : Nat) :
    let made := w.planHeader conf operation site header capacity memberSize
    made.1.isNone = refused asked (target.mul capacity memberSize) ∧
      operation.Answers refused (asked + 1) made.2 := by
  cases operation with
  | create =>
    obtain ⟨same, rfl⟩ := answers
    cases granted : w.heap.grants w.heap.asked (target.mul capacity memberSize) with
    | true =>
      have allocated : w.heap.allocate conf.owner (target.mul capacity memberSize) = _ :=
        Memory.Heap.allocate_granted granted
      simp [planHeader, setUpHeader, Core.allocate, Operation.Answers, allocated, Memory.Heap.obtain,
        Pointer.null, same, granted]
    | false =>
      have allocated : w.heap.allocate conf.owner (target.mul capacity memberSize) = _ :=
        Memory.Heap.allocate_refused granted
      simp [planHeader, setUpHeader, Core.allocate, Operation.Answers, allocated, same, granted]
  | createPreallocated =>
    have same : ∀ request size, refused request size = decide (w.operationBuffer = .null) := answers
    by_cases isNull : w.operationBuffer = .null
    · simp [planHeader, setUpHeader, getStaticMemory, Operation.Answers, same, isNull]
    · simp [planHeader, setUpHeader, getStaticMemory, Operation.Answers, same, isNull, Pointer.plus_ne_null isNull]
  | destroy | calculateSize | calculateSizePreallocated =>
    have never : ∀ request size, refused request size = false := answers
    exact ⟨(never _ _).symm, never⟩

/-- Nothing is requested while a header is torn down. -/
theorem Core.tearDownHeader_answers (target : Target) (answers : operation.Answers refused asked w) (owner : Nat)
    (site : Site) (header : Pointer) :
    operation.Answers refused asked (w.tearDownHeader target owner operation site header) := by
  cases operation with
  | create | createPreallocated | destroy | calculateSize | calculateSizePreallocated => exact answers

theorem Core.elementData_answers (target : Target) (answers : operation.Answers refused asked w) (header : Pointer) :
    operation.Answers refused asked (w.elementData target operation header).2 := by
  cases operation with
  | create => simpa [elementData, Operation.calculates, loadPointer, Operation.Answers] using answers
  | createPreallocated => simpa [elementData, Operation.calculates, loadPointer, Operation.Answers] using answers
  | destroy | calculateSize | calculateSizePreallocated => exact answers

end Answers

section Recursion

variable {conf : MemoryConf target} {operation : Operation} {refused : Nat → Nat → Bool} {b : Pointer} {size : Nat}

/-- The run has the result of the planned one, and the characters of the path stand in the block. -/
def Follows (b : Pointer) (path : CString) (planned : Nat × Core) (ran : Nat × World StringHeap) : Prop :=
  ran.1 = planned.1 ∧ ran.2.core = planned.2 ∧ ran.2.scratch.memory.Holds b path.text

/-- A loop over elements, with buffers and without. -/
theorem elements_run (target : Target) {path : CString} (round : Nat → List Demand × Nat)
    (body : Nat → World StringHeap → Nat × World StringHeap) (body' : Nat → Core → Nat × Core)
    (each : ∀ j w asked size, operation.Answers refused asked w.core → Buffer b size w.scratch →
      w.scratch.memory.Holds b path.text →
      Runs b size (round asked).1 w.scratch (body j w).2.scratch
        (Follows b path (body' j w.core) (body j w) ∧ operation.Answers refused (round asked).2 (body' j w.core).2))
    (continues : ∀ j w, Continues w.scratch (body j w).2.scratch) (n used asked : Nat) {core : Core}
    {s : StringHeap} (answers : operation.Answers refused asked core) (buffer : Buffer b size s)
    (holds : s.memory.Holds b path.text) :
    let ran := Core.forElements target body n used ⟨core, s⟩
    let planned := Core.forElements target body' n used core
    Runs b size (rounds round n asked).1 s ran.2.scratch
      (Follows b path planned ran ∧ operation.Answers refused (rounds round n asked).2 planned.2) := by
  -- The sum so far is the same in both loops, so a round only has to agree on what it adds.
  induction n with
  | zero => exact (Stays.refl buffer).runs ⟨⟨rfl, rfl, holds⟩, answers⟩
  | succ n ih =>
    apply ih.bind (continues n _)
    rintro stays ⟨⟨sum, same, holds'⟩, answers'⟩
    have here := each n _ _ _ (same.symm ▸ answers') (stays.buffer buffer) holds'
    rw [same] at here
    apply here.mono
    rintro ⟨⟨sum', core', holds''⟩, answers''⟩
    exact ⟨⟨by simp only [Core.forElements, sum, sum'], core', holds''⟩, answers''⟩

/-- The name is taken off again, and the members behind it are gone through with that copy. -/
theorem popName_runs (rules : conf.nRules > 0) {demands : List Demand} {rest : MemberList} {msg : Pointer}
    {path name : CString} {capacity : Nat} {stack : List Step} {index used : Nat} {core : Core} {s : StringHeap}
    {planned : Nat × Core} {A : Prop}
    (later : ∀ {s : StringHeap}, Buffer b size s → s.memory.Holds b path.text →
      let ran := handleMessageMemory target (heapStrings target) conf operation rest msg
        ⟨b, path.text.length, capacity⟩ stack index used ⟨core, s⟩
      Runs b size demands s ran.2.scratch (Follows b path planned ran ∧ A))
    (buffer : Buffer b size s) (holds : s.memory.Holds b (path.child name).text) :
    let popped := popName target (heapStrings target) conf name
      ⟨b, (path.child name).text.length, capacity⟩ ⟨core, s⟩
    let ran := handleMessageMemory target (heapStrings target) conf operation rest msg popped.1 stack index used
      popped.2
    Runs b size demands s ran.2.scratch (Follows b path planned ran ∧ A) := by
  have ready : Buffer b size (World.mk core s).scratch := buffer
  obtain ⟨stays, popped, same, holds'⟩ := popName_stays conf rules path name capacity ready holds
  rcases taken : popName target (heapStrings target) conf name ⟨b, (path.child name).text.length, capacity⟩
    ⟨core, s⟩ with ⟨tree, core', s'⟩
  rw [taken] at stays popped same holds'
  obtain rfl : core' = core := same
  obtain rfl : tree = ⟨b, path.text.length, capacity⟩ := popped
  exact stays.before (later (stays.buffer buffer) holds')

/-- A call appends its first name; what it does behind that need only be looked at where the name was
appended in place. -/
theorem named_runs (rules : conf.nRules > 0) {list : MemberList} {name : CString}
    (first : list.firstName = some name) {msg : Pointer} {path : CString} {capacity : Nat} {stack : List Step}
    {index used : Nat} {core : Core} {s : StringHeap} {demands : List Demand} {G : Prop}
    (buffer : Buffer b size s) (holds : s.memory.Holds b path.text)
    (later : ∀ size s₁, Buffer b size s₁ → s₁.memory.Holds b (path.child name).cells →
      pushName target (heapStrings target) conf name ⟨b, path.text.length, capacity⟩ ⟨core, s⟩ =
        (⟨b, (path.child name).text.length, nameCapacity path name capacity⟩, ⟨core, s₁⟩) →
      Runs b size demands s₁ (handleMessageMemory target (heapStrings target) conf operation list msg
        ⟨b, path.text.length, capacity⟩ stack index used ⟨core, s⟩).2.scratch G) :
    Runs b size (nameDemands path name capacity ++ demands) s
      (handleMessageMemory target (heapStrings target) conf operation list msg
        ⟨b, path.text.length, capacity⟩ stack index used ⟨core, s⟩).2.scratch G := by
  have behind := ((heapStrings_continues target).handled conf operation list msg ⟨b, path.text.length, capacity⟩
    stack index used ⟨core, s⟩).2 name first
  have ready : Buffer b size (World.mk core s).scratch := buffer
  have same := pushName_core conf name ⟨b, path.text.length, capacity⟩ ⟨core, s⟩
  apply (pushName_runs conf rules path name capacity ready holds).bind behind
  rintro stays ⟨named, holds'⟩
  rcases pushed : pushName target (heapStrings target) conf name ⟨b, path.text.length, capacity⟩ ⟨core, s⟩
    with ⟨tree, core', s₁⟩
  rw [pushed] at stays named holds' same
  obtain rfl : core' = core := same
  obtain rfl : tree = ⟨b, (path.child name).text.length, nameCapacity path name capacity⟩ := named
  exact later _ s₁ (stays.buffer buffer) holds' pushed

theorem named_demands (own looked : List Demand) (cut : Bool) (asked : Nat) (rest : Nat → List Demand × Nat) :
    (if cut then (own ++ looked, asked) else followedBy (own ++ looked, asked) rest) =
      followedBy (own, asked) fun asked => if cut then (looked, asked) else followedBy (looked, asked) rest := by
  cases cut <;> simp [followedBy]

theorem sequence_demands (own looked : List Demand) (cut : Bool) (asked : Nat)
    (elements rest : Nat → List Demand × Nat) :
    (if cut then (own ++ looked, asked)
      else followedBy (followedBy (own ++ looked, asked) elements) rest) =
      followedBy (own, asked) fun asked => if cut then (looked, asked)
        else followedBy (looked, asked) fun asked => followedBy (elements asked) rest := by
  cases cut <;> simp [followedBy]

variable (conf) in
/-- The recursion on buffers has the demands of its list, and if they are served, it does what `traverse` does. -/
theorem handleMessageMemory_runs (rules : conf.nRules > 0) (list : MemberList) (msg : Pointer) (path : CString)
    (capacity : Nat) (stack : List Step) (index used asked : Nat) {core : Core} {s : StringHeap}
    (answers : operation.Answers refused asked core) (buffer : Buffer b size s) (holds : s.memory.Holds b path.text) :
    let ran := handleMessageMemory target (heapStrings target) conf operation list msg
      ⟨b, path.text.length, capacity⟩ stack index used ⟨core, s⟩
    let planned := traverse conf operation list msg path stack index used core
    let demands := list.demands conf refused path capacity asked
    Runs b size demands.1 s ran.2.scratch (Follows b path planned ran ∧ operation.Answers refused demands.2 planned.2) := by
  -- The characters of the path stand in the block at the start of every call, so each rule is compared
  -- with the name that `traverse` compares it with.
  induction list generalizing msg path capacity stack index used asked core size s with
  | nil => exact (Stays.refl buffer).runs ⟨⟨rfl, rfl, holds⟩, answers⟩
  | basic type field rest ih =>
    simp only [MemberList.demands]
    by_cases header : isHeader type field = true
    · obtain ⟨answer, answers'⟩ := Core.planHeader_answers conf answers ⟨stack, index⟩
        (msg.plus field.offset) (conf.basicCapacity path type field) type.plannedSize
      simp only [Core.planHeader, MemoryConf.basicCapacity] at answer answers'
      simp only [header, if_true, MemoryConf.basicCapacity, ← answer]
      rw [named_demands]
      apply named_runs rules rfl buffer holds
      intro size s₁ buffer' holds' pushed
      have ready : Buffer b size (World.mk core s₁).scratch := buffer'
      obtain ⟨resolved, recorded, stays₁, memory⟩ := resolveCapacity_stays conf (conf.basicDefault type)
        ⟨stack, index⟩ path field.name (nameCapacity path field.name capacity) ready holds'
      simp only [handleMessageMemory, traverse, pushed, header, if_true, resolved, recorded,
        MemoryConf.basicCapacity, Core.planHeader]
      generalize Core.setUpHeader target conf.owner operation ⟨stack, index⟩ _ _ _ _ = made at answer answers' ⊢
      obtain ⟨_ | bytes, after⟩ := made
      · -- No memory: the call returns with the name still in the block, which its caller cuts off by length.
        exact stays₁.runs ⟨⟨rfl, rfl, memory.symm ▸ (holds_path holds').1⟩, answers'⟩
      · have torn := Core.tearDownHeader_answers target answers' conf.owner ⟨stack, index⟩ (msg.plus field.offset)
        apply stays₁.before
        exact popName_runs rules (ih msg path _ stack (index + 1) _ (asked + 1) torn) (stays₁.buffer buffer')
          (memory.symm ▸ (holds_path holds').2)
    · simp only [header, Bool.false_eq_true, if_false, followedBy]
      apply named_runs rules rfl buffer holds
      intro size s₁ buffer' holds' pushed
      simp only [handleMessageMemory, traverse, pushed, header, Bool.false_eq_true, if_false]
      exact popName_runs rules (ih msg path _ stack (index + 1) used asked answers) buffer' (holds_path holds').2
  | message info members field rest ihMembers ih =>
    -- Behind a callee that moved the block only the log and the allocator matter.
    have continues (tree : RuntimeString) (used : Nat) (core : Core) (s : StringHeap) :
        let popped := popName target (heapStrings target) conf field.name tree ⟨core, s⟩
        Continues s (handleMessageMemory target (heapStrings target) conf operation rest msg
          popped.1 stack (index + 1) used popped.2).2.scratch :=
      ((heapStrings_continues target).popped conf field.name tree core s).trans
        ((heapStrings_continues target).handled conf operation rest msg _ stack (index + 1) used _).1
    simp only [MemberList.demands]
    by_cases sequence : field.isSequence = true
    · obtain ⟨answer, answers'⟩ := Core.planHeader_answers conf answers ⟨stack, index⟩
        (msg.plus field.offset) (conf.messageCapacity path field) info.sizeOf
      simp only [Core.planHeader, MemoryConf.messageCapacity] at answer answers'
      simp only [sequence, if_true, MemoryConf.messageCapacity, ← answer]
      rw [sequence_demands]
      apply named_runs rules rfl buffer holds
      intro size s₁ buffer' holds' pushed
      have ready : Buffer b size (World.mk core s₁).scratch := buffer'
      obtain ⟨resolved, recorded, stays₁, memory⟩ := resolveCapacity_stays conf conf.maxRos2TypeSequenceCapacity
        ⟨stack, index⟩ path field.name (nameCapacity path field.name capacity) ready holds'
      simp only [handleMessageMemory, traverse, pushed, sequence, if_true, resolved, recorded,
        MemoryConf.messageCapacity, Core.planHeader]
      generalize Core.setUpHeader target conf.owner operation ⟨stack, index⟩ _ _ _ _ = made at answer answers' ⊢
      obtain ⟨_ | bytes, after⟩ := made
      · exact stays₁.runs ⟨⟨rfl, rfl, memory.symm ▸ (holds_path holds').1⟩, answers'⟩
      · apply stays₁.before
        -- Every round starts from the copy that this call has, whatever the round before did with its own.
        have looped := elements_run target
          (members.demands conf refused (path.child field.name) (nameCapacity path field.name capacity))
          (fun j w =>
            let data := w.core.elementData target operation (msg.plus field.offset)
            handleMessageMemory target (heapStrings target) conf operation members
              (Core.elementAddress target operation data.1 j info.sizeOf)
              ⟨b, (path.child field.name).text.length, nameCapacity path field.name capacity⟩
              (stack ++ [.element index j data.1]) 0 0 ⟨data.2, w.scratch⟩)
          (fun j w =>
            let data := w.elementData target operation (msg.plus field.offset)
            traverse conf operation members (Core.elementAddress target operation data.1 j info.sizeOf)
              (path.child field.name) (stack ++ [.element index j data.1]) 0 0 data.2)
          (fun j w asked size answers buffer holds => ihMembers _ _ _ _ 0 0 asked
            (Core.elementData_answers target answers (msg.plus field.offset)) buffer holds)
          (fun j w => ((heapStrings_continues target).handled conf operation members _ _ _ 0 0
            ⟨(w.core.elementData target operation (msg.plus field.offset)).2, w.scratch⟩).1)
          (conf.capacityAt (path.child field.name) conf.maxRos2TypeSequenceCapacity).val
          (target.add used bytes) (asked + 1) answers' (stays₁.buffer buffer') (memory.symm ▸ (holds_path holds').2)
        apply looped.bind (continues _ _ _ _)
        rintro stays₂ ⟨⟨sum, same, spelled⟩, answers₂⟩
        have torn := Core.tearDownHeader_answers target answers₂ conf.owner ⟨stack, index⟩ (msg.plus field.offset)
        simp only [sum, same]
        exact popName_runs rules (ih msg path _ stack (index + 1) _ _ torn)
          (stays₂.buffer (stays₁.buffer buffer')) spelled
    · have single : field.isSequence = false := by simpa using sequence
      simp only [single, Bool.false_eq_true, if_false, followedBy, List.append_assoc]
      apply named_runs rules rfl buffer holds
      intro size s₁ buffer' holds' pushed
      simp only [handleMessageMemory, traverse, pushed, single, Bool.false_eq_true, if_false]
      have nested := ihMembers (msg.plus field.offset) (path.child field.name)
        (nameCapacity path field.name capacity) (stack ++ [.inline index]) 0 0 asked answers buffer' (holds_path holds').2
      apply nested.bind (continues _ _ _ _)
      rintro stays₂ ⟨⟨sum, same, spelled⟩, answers₂⟩
      rw [← same] at answers₂
      rw [← sum, ← same]
      exact popName_runs rules (ih msg path _ stack (index + 1) _ _ answers₂) (stays₂.buffer buffer') spelled

end Recursion

section Functions

variable (conf : MemoryConf target) (type : MessageMembers)

/-- Where there are rules, the name tree of a run over the type begins with a block of one byte. -/
def treeDemands (refused : Nat → Nat → Bool) (asked : Nat) : List Demand :=
  if conf.nRules > 0 then
    .allocate 1 :: (type.members.demands conf.getConfiguration refused .empty 1 asked).1
  else []

theorem StringOps.Keeps.runOverType {σ S : Type} {ops : StringOps target σ S} {R : σ → σ → Prop} (keeps : ops.Keeps R)
    (init : ∀ s, R s (ops.init .empty s).2) (destroy : ∀ str s, R s (ops.destroy str s))
    (operation : Operation) (msg : Pointer) (w : World σ) :
    R w.scratch (MicroRos.runOverType target ops conf operation type msg w).2.scratch := by
  have handled (tree : S) (s : σ) :=
    (keeps.handled conf.getConfiguration operation type.members msg tree [] 0 0 ⟨w.core, s⟩).1
  simp only [MicroRos.runOverType]
  split
  · exact keeps.trans (keeps.trans (init w.scratch) (handled _ _)) (destroy _ _)
  · exact handled _ _

theorem runOverType_continues (operation : Operation) (msg : Pointer) (core : Core) (s : StringHeap) :
    Continues s (runOverType target (heapStrings target) conf operation type msg ⟨core, s⟩).2.scratch :=
  (heapStrings_continues target).runOverType conf type (RuntimeString.init_continues .empty)
    RuntimeString.destroy_continues operation msg ⟨core, s⟩

/-- Without rules no name tree is kept, and the state of the strings is not touched. -/
theorem handleMessageMemory_ruleless {σ S : Type} (ops : StringOps target σ S) {conf : MemoryConf target}
    (ruleless : conf.rules = []) (operation : Operation) (list : MemberList) (msg : Pointer) (tree : S)
    (path : CString) (stack : List Step) (index used : Nat) (core : Core) (s : σ) :
    handleMessageMemory target ops conf operation list msg tree stack index used ⟨core, s⟩ =
      ((traverse conf operation list msg path stack index used core).1,
        ⟨(traverse conf operation list msg path stack index used core).2, s⟩) := by
  have none : ¬ conf.nRules > 0 := by simp [MemoryConf.nRules, ruleless]
  have pushed (name : CString) (core : Core) : pushName target ops conf name tree ⟨core, s⟩ = (tree, ⟨core, s⟩) :=
    if_neg none
  have popped (name : CString) (core : Core) : popName target ops conf name tree ⟨core, s⟩ = (tree, ⟨core, s⟩) :=
    if_neg none
  have resolved (otherwise : target.SizeT) (site : Site) (path : CString) (core : Core) :
      resolveCapacity target ops conf otherwise site tree ⟨core, s⟩ =
        ((conf.capacityAt path otherwise).val,
          ⟨core.record (.resolved site (conf.capacityAt path otherwise).val), s⟩) := by
    simp [resolveCapacity, findCapacity, MemoryConf.capacityAt, ruleless]
  induction list generalizing msg path stack index used core with
  | nil => rfl
  | basic type field rest ih =>
    simp only [handleMessageMemory, traverse, pushed, popped, resolved _ _ (path.child field.name),
      MemoryConf.basicCapacity, Core.planHeader]
    split
    · generalize Core.setUpHeader target conf.owner operation ⟨stack, index⟩ _ _ _ _ = made
      obtain ⟨_ | bytes, after⟩ := made
      · rfl
      · exact ih msg path stack (index + 1) _ _
    · exact ih msg path stack (index + 1) used core
  | message info members field rest ihMembers ih =>
    simp only [handleMessageMemory, traverse, pushed, resolved _ _ (path.child field.name),
      MemoryConf.messageCapacity, Core.planHeader]
    split
    · generalize Core.setUpHeader target conf.owner operation ⟨stack, index⟩ _ _ _ _ = made
      obtain ⟨_ | bytes, after⟩ := made
      · rfl
      · obtain ⟨sum, same⟩ := @Core.forElements_view target _ _ (fun core : Core => (⟨core, s⟩ : World σ))
          (fun j w =>
            let data := w.elementData target operation (msg.plus field.offset)
            traverse conf operation members (Core.elementAddress target operation data.1 j info.sizeOf)
              (path.child field.name) (stack ++ [.element index j data.1]) 0 0 data.2)
          (fun j w =>
            let data := w.core.elementData target operation (msg.plus field.offset)
            handleMessageMemory target ops conf operation members
              (Core.elementAddress target operation data.1 j info.sizeOf) tree
              (stack ++ [.element index j data.1]) 0 0 ⟨data.2, w.scratch⟩)
          (fun j w => by simp only [ihMembers _ (path.child field.name), and_self])
          (conf.capacityAt (path.child field.name) conf.maxRos2TypeSequenceCapacity).val (target.add used bytes) after
        simp only [← sum, ← same, popped]
        exact ih msg path stack (index + 1) _ _
    · simp only [ihMembers (msg.plus field.offset) (path.child field.name), popped]
      exact ih msg path stack (index + 1) _ _

/-- One run over a type, from the initialisation of the name tree to its destruction. -/
theorem runOverType_ends {operation : Operation} {refused : Nat → Nat → Bool} {asked : Nat} (msg : Pointer)
    {core : Core} (answers : operation.Answers refused asked core) (s : StringHeap) :
    let ran := runOverType target (heapStrings target) conf operation type msg ⟨core, s⟩
    Ends (treeDemands conf type refused asked) s ran.2.scratch
      (ran.1 = (planOver conf operation type msg core).1 ∧ ran.2.core = (planOver conf operation type msg core).2) := by
  unfold treeDemands
  by_cases rules : conf.nRules > 0
  · simp only [runOverType, rules, if_true]
    apply RuntimeString.destroyed_ends .empty
    · exact ((heapStrings_continues target).handled conf.getConfiguration operation type.members msg _ [] 0 0
        ⟨core, _⟩).1
    · intro buffer
      have holds : (RuntimeString.init .empty s).2.memory.Holds (RuntimeString.init .empty s).1.data
          CString.empty.text := fun i inside => absurd inside (Nat.not_lt_zero i)
      have body := handleMessageMemory_runs conf.getConfiguration rules type.members msg .empty 1 [] 0 0 asked
        answers buffer holds
      exact body.mono fun follows => ⟨follows.1.1, follows.1.2.1⟩
  · have ruleless : conf.getConfiguration.rules = [] := by simpa [MemoryConf.nRules] using rules
    simp only [runOverType, rules, if_false]
    rw [handleMessageMemory_ruleless (heapStrings target) ruleless operation type.members msg _ .empty]
    exact .nothing ⟨rfl, rfl⟩

end Functions

end MicroRos
