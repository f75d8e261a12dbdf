import MicroRos.Planning.Oversized

/-! Dynamic creation with an allocator that refuses exactly the requests for no bytes.

A header that asks for no bytes ends the call it is in: the members behind it are not
reached, and the bytes that the call has counted are given up. Which headers are reached
and what is counted is first said of the type, then shown of the run.
-/

set_option autoImplicit false

namespace MicroRos

open Memory (Pointer Byte)

variable {target : Target}

namespace MemberList

variable (conf : MemoryConf target)

/-- One of the members asks for no bytes, so a call for this list returns there. -/
def EndsEarly : MemberList → CString → Prop
  | .nil, _ => False
  | .basic type field rest, path =>
    isHeader type field = true ∧ target.mul (conf.basicCapacity path type field) type.plannedSize = 0 ∨
      rest.EndsEarly path
  | .message info _ field rest, path =>
    field.isSequence = true ∧ target.mul (conf.messageCapacity path field) info.sizeOf = 0 ∨
      rest.EndsEarly path

instance decidableEndsEarly : (list : MemberList) → (path : CString) → Decidable (list.EndsEarly conf path)
  | .nil, _ => isFalse id
  | .basic _ _ rest, path =>
    have := decidableEndsEarly rest path
    inferInstanceAs (Decidable (_ ∧ _ ∨ rest.EndsEarly conf path))
  | .message _ _ _ rest, path =>
    have := decidableEndsEarly rest path
    inferInstanceAs (Decidable (_ ∧ _ ∨ rest.EndsEarly conf path))

/-- In every call, from the first member that asks for no bytes on, nothing needs memory. -/
def Undisturbed : MemberList → CString → Prop
  | .nil, _ => True
  | .basic type field rest, path =>
    if isHeader type field = true ∧
        target.mul (conf.basicCapacity path type field) type.plannedSize = 0 then
      ∀ n ∈ requests conf (.basic type field rest) path, n = 0
    else rest.Undisturbed path
  | .message info members field rest, path =>
    if field.isSequence = true ∧ target.mul (conf.messageCapacity path field) info.sizeOf = 0 then
      ∀ n ∈ requests conf (.message info members field rest) path, n = 0
    else members.Undisturbed (path.child field.name) ∧ rest.Undisturbed path

/-- Exact bytes that the calls below this list give up, where it is itself gone through to its end. -/
def lostBelow : MemberList → CString → Nat
  | .nil, _ => 0
  | .basic _ _ rest, path => rest.lostBelow path
  | .message _ members field rest, path =>
    (if field.isSequence then conf.messageCapacity path field else 1) *
      (if members.EndsEarly conf (path.child field.name) then
        (requests conf members (path.child field.name)).sum
        else members.lostBelow (path.child field.name)) +
    rest.lostBelow path

/-- What is needed in the outermost calls that end early: nothing of it is counted. -/
def lost (list : MemberList) (path : CString) : Nat :=
  if list.EndsEarly conf path then (requests conf list path).sum else list.lostBelow conf path

/-- Exact bytes that are counted when the list is gone through to its end. -/
def counted : MemberList → CString → Nat
  | .nil, _ => 0
  | .basic type field rest, path =>
    (if isHeader type field then conf.basicCapacity path type field * type.plannedSize else 0) +
    rest.counted path
  | .message info members field rest, path =>
    let nested := if members.EndsEarly conf (path.child field.name) then 0
      else members.counted (path.child field.name)
    (if field.isSequence then
      conf.messageCapacity path field * info.sizeOf + conf.messageCapacity path field * nested
      else nested) +
    rest.counted path

/-- The headers that are set up, in order. -/
def reached : MemberList → CString → List (Nat × Option Nat) → Nat → List Visit
  | .nil, _, _, _ => []
  | .basic type field rest, path, stack, index =>
    if isHeader type field then
      if target.mul (conf.basicCapacity path type field) type.plannedSize = 0 then []
      else ⟨stack, index, conf.basicCapacity path type field, type.plannedSize⟩ ::
        rest.reached path stack (index + 1)
    else rest.reached path stack (index + 1)
  | .message info members field rest, path, stack, index =>
    if field.isSequence then
      if target.mul (conf.messageCapacity path field) info.sizeOf = 0 then []
      else
        ⟨stack, index, conf.messageCapacity path field, info.sizeOf⟩ ::
          ((List.range (conf.messageCapacity path field)).flatMap fun j =>
            members.reached (path.child field.name) (stack ++ [(index, some j)]) 0) ++
          rest.reached path stack (index + 1)
    else members.reached (path.child field.name) (stack ++ [(index, none)]) 0 ++
      rest.reached path stack (index + 1)

variable {conf}

theorem sum_flatMap_range (n : Nat) (sizes : List Nat) :
    ((List.range n).flatMap fun _ => sizes).sum = n * sizes.sum := by
  induction n with
  | zero => simp
  | succ n ih => rw [List.range_succ, List.flatMap_append, List.sum_append, ih]; simp [Nat.succ_mul]

/-- What is counted and what is given up make the whole. -/
theorem counted_add_lostBelow (conf : MemoryConf target) (list : MemberList) (path : CString) :
    list.counted conf path + list.lostBelow conf path = (requests conf list path).sum := by
  induction list generalizing path with
  | nil => rfl
  | basic type field rest ih =>
    have later := ih path
    simp only [counted, lostBelow, requests, List.sum_append]
    split <;> simp <;> omega
  | message info members field rest ihMembers ih =>
    have later := ih path
    have below := ihMembers (path.child field.name)
    simp only [counted, lostBelow, requests, List.sum_append]
    split
    next sequence =>
      rw [List.sum_cons, sum_flatMap_range]
      split
      next early => omega
      next through =>
        rw [← below, Nat.mul_add]
        omega
    next single =>
      split <;> omega

theorem lost_of_early {list : MemberList} {path : CString} (early : list.EndsEarly conf path) :
    list.lost conf path = (requests conf list path).sum := if_pos early

theorem lost_of_through {list : MemberList} {path : CString} (through : ¬ list.EndsEarly conf path) :
    list.lost conf path = list.lostBelow conf path := if_neg through

end MemberList

/-- The allocator refuses the requests for no bytes, and only these. -/
def Core.RefusesNothing (w : Core) : Prop := ∀ request size, w.heap.grants request size = decide (size ≠ 0)

theorem Core.RefusesNothing.congr {w w' : Core} (zeros : w.RefusesNothing)
    (same : w'.heap.grants = w.heap.grants) : w'.RefusesNothing := by
  intro request size
  rw [same]
  exact zeros request size

/-- The event set up the header, with its capacity. -/
def Visit.SetUpBy (visit : Visit) : Event → Prop
  | .stored site _ _ _ capacity =>
    site.stack.map Step.mark = visit.stack ∧ site.member = visit.member ∧ capacity = visit.capacity
  | _ => False

/-- Between the two states exactly these headers were set up, in order. -/
def SetsUp (visits : List Visit) (w w' : Core) : Prop :=
  ∃ events, w'.log = w.log ++ events ∧ List.Forall₂ Visit.SetUpBy visits (events.filter Event.isStored)

namespace SetsUp

theorem of_silent {w w' : Core} (silent : Core.Logs Event.Silent w w') : SetsUp [] w w' := by
  obtain ⟨events, log, quiet⟩ := silent
  refine ⟨events, log, ?_⟩
  rw [none_stored quiet]
  exact .nil

theorem trans {visits later : List Visit} {w w' w'' : Core} (first : SetsUp visits w w')
    (second : SetsUp later w' w'') : SetsUp (visits ++ later) w w'' := by
  obtain ⟨events, log, these⟩ := first
  obtain ⟨events', log', those⟩ := second
  refine ⟨events ++ events', by rw [log', log, List.append_assoc], ?_⟩
  rw [List.filter_append]
  exact List.rel_append these those

end SetsUp

section Run

variable {conf : MemoryConf target}

theorem Core.planHeader_zero (conf : MemoryConf target) (site : Site) (header : Pointer)
    {capacity memberSize : Nat} {w : Core} (zeros : w.RefusesNothing) (zero : target.mul capacity memberSize = 0) :
    (w.planHeader conf .create site header capacity memberSize).1 = none ∧
      SetsUp [] w (w.planHeader conf .create site header capacity memberSize).2 := by
  obtain ⟨noise, silent, ⟨_, made, log⟩ | ⟨notNull, _⟩⟩ :=
    planHeader_create_cases conf site header capacity memberSize w
  · refine ⟨made, _, log, ?_⟩
    simp [Event.isStored, none_stored silent]
  · have refused : w.heap.grants w.heap.asked (target.mul capacity memberSize) = false := by
      rw [zeros]
      simp [zero]
    rw [Memory.Heap.allocate_refused refused] at notNull
    exact absurd rfl notNull

theorem Core.planHeader_nonzero (conf : MemoryConf target) (site : Site) (header : Pointer)
    {capacity memberSize : Nat} {w : Core} (zeros : w.RefusesNothing)
    (positive : target.mul capacity memberSize ≠ 0) :
    (w.planHeader conf .create site header capacity memberSize).1 = some (target.mul capacity memberSize) ∧
      SetsUp [⟨site.stack.map Step.mark, site.member, capacity, memberSize⟩] w
        (w.planHeader conf .create site header capacity memberSize).2 := by
  obtain ⟨noise, silent, ⟨isNull, _⟩ | ⟨_, made, log⟩⟩ :=
    planHeader_create_cases conf site header capacity memberSize w
  · have granted : w.heap.grants w.heap.asked (target.mul capacity memberSize) = true := by
      rw [zeros]
      simp [positive]
    rw [Memory.Heap.allocate_granted granted] at isNull
    cases isNull
  · refine ⟨made, _, log, ?_⟩
    simp only [List.filter_cons, Event.isStored, List.filter_append, none_stored silent]
    exact .cons ⟨rfl, rfl, rfl⟩ .nil

theorem traverse_refusesNothing (conf : MemoryConf target) {w : Core} (zeros : w.RefusesNothing)
    (list : MemberList) (msg : Pointer) (path : CString) (stack : List Step) (index used : Nat) :
    (traverse conf .create list msg path stack index used w).2.RefusesNothing :=
  zeros.congr ((countingRule conf .create).run list trivial used w).1

/-- Counts may be reduced one by one. -/
theorem Target.add_count (target : Target) (used count later : Nat) :
    (target.add used (count % target.modulus) + later) % target.modulus =
      (used + (count + later)) % target.modulus := by
  rw [Target.add, Nat.mod_add_mod, Nat.add_right_comm, Nat.add_mod_mod, Nat.add_assoc, Nat.add_comm later]

/-- The loop counts every element as far as it is counted at all. -/
theorem elements_reach {members : MemberList} {path : CString} {worth : Nat}
    (round : ∀ msg stack w, w.RefusesNothing →
      (traverse conf .create members msg path stack 0 0 w).1 = worth % target.modulus ∧
        SetsUp (members.reached conf path (stack.map Step.mark) 0) w
          (traverse conf .create members msg path stack 0 0 w).2)
    (header : Pointer) (stack : List Step) (index size n : Nat) {used : Nat} (small : used < target.modulus)
    {w : Core} (zeros : w.RefusesNothing) :
    let ran := Core.forElements target
      (fun j w =>
        let data := w.elementData target .create header
        traverse conf .create members (Core.elementAddress target .create data.1 j size) path
          (stack ++ [.element index j data.1]) 0 0 data.2) n used w
    ran.2.RefusesNothing ∧ ran.1 = (used + n * worth) % target.modulus ∧
      SetsUp ((List.range n).flatMap fun j =>
        members.reached conf path (stack.map Step.mark ++ [(index, some j)]) 0) w ran.2 := by
  apply Core.forElements_induct (motive := fun n total w' => w'.RefusesNothing ∧
    total = (used + n * worth) % target.modulus ∧
    SetsUp ((List.range n).flatMap fun j =>
      members.reached conf path (stack.map Step.mark ++ [(index, some j)]) 0) w w')
  · refine ⟨zeros, ?_, .of_silent (Core.Logs.refl w)⟩
    rw [Nat.zero_mul, Nat.add_zero, Nat.mod_eq_of_lt small]
  · rintro j - total w' ⟨zeros', sum, before⟩
    have loaded : Core.Logs Event.Silent w' (w'.elementData target .create header).2 :=
      Core.Logs.elementData (fun _ _ => trivial) .create header w'
    have still : (w'.elementData target .create header).2.RefusesNothing := zeros'.congr (by simp)
    obtain ⟨inner, made⟩ := round (Core.elementAddress target .create (w'.elementData target .create header).1 j size)
      (stack ++ [.element index j (w'.elementData target .create header).1]) _ still
    refine ⟨traverse_refusesNothing conf still _ _ _ _ _ _, ?_, ?_⟩
    · rw [inner, sum, Target.add, ← Nat.add_mod, Nat.succ_mul, Nat.add_assoc]
    · simpa [List.range_succ, Step.mark] using before.trans ((SetsUp.of_silent loaded).trans made)

/-- A call sets up the headers that are reached, and counts what is counted. -/
theorem traverse_reaches (conf : MemoryConf target) (list : MemberList) (msg : Pointer) (path : CString) (stack : List Step)
    (index : Nat) {used : Nat} (small : used < target.modulus) {w : Core} (zeros : w.RefusesNothing) :
    (traverse conf .create list msg path stack index used w).1 =
        (if list.EndsEarly conf path then 0 else (used + list.counted conf path) % target.modulus) ∧
      SetsUp (list.reached conf path (stack.map Step.mark) index) w
        (traverse conf .create list msg path stack index used w).2 := by
  have added (before count : Nat) : target.add before count < target.modulus :=
    Nat.mod_lt _ target.modulus_pos
  -- A call that ends early returns zero, however much it has counted and set up before.
  induction list generalizing msg path stack index used w with
  | nil =>
    refine ⟨?_, .of_silent (Core.Logs.refl w)⟩
    simp [traverse, MemberList.EndsEarly, MemberList.counted, Nat.mod_eq_of_lt small]
  | basic type field rest ih =>
    simp only [traverse, MemberList.EndsEarly, MemberList.counted, MemberList.reached]
    split
    next header =>
      have kept := Core.planHeader_grants conf .create ⟨stack, index⟩ (msg.plus field.offset)
        (conf.basicCapacity path type field) type.plannedSize w
      by_cases zero : target.mul (conf.basicCapacity path type field) type.plannedSize = 0
      · obtain ⟨made, none⟩ := Core.planHeader_zero conf ⟨stack, index⟩ (msg.plus field.offset) zeros zero
        simp only [made, header, zero]
        exact ⟨by simp, none⟩
      · obtain ⟨made, own⟩ := Core.planHeader_nonzero conf ⟨stack, index⟩ (msg.plus field.offset) zeros zero
        obtain ⟨total, later⟩ := ih msg path stack (index + 1) (added used _) (zeros.congr kept)
        simp only [made, header, zero, true_and, false_or, if_false]
        refine ⟨?_, own.trans later⟩
        rw [← target.add_count]
        exact total
    next plain =>
      simpa [plain] using ih msg path stack (index + 1) small zeros
  | message info members field rest ihMembers ih =>
    have round : ∀ msg stack w, w.RefusesNothing →
        (traverse conf .create members msg (path.child field.name) stack 0 0 w).1 =
            (if members.EndsEarly conf (path.child field.name) then 0
              else members.counted conf (path.child field.name)) % target.modulus ∧
          SetsUp (members.reached conf (path.child field.name) (stack.map Step.mark) 0) w
            (traverse conf .create members msg (path.child field.name) stack 0 0 w).2 := by
      intro msg stack w zeros
      obtain ⟨inner, made⟩ := ihMembers msg (path.child field.name) stack 0 target.modulus_pos zeros
      refine ⟨inner.trans ?_, made⟩
      split
      · exact (Nat.zero_mod _).symm
      · rw [Nat.zero_add]
    simp only [traverse, MemberList.EndsEarly, MemberList.counted, MemberList.reached]
    split
    next sequence =>
      have kept := Core.planHeader_grants conf .create ⟨stack, index⟩ (msg.plus field.offset)
        (conf.messageCapacity path field) info.sizeOf w
      by_cases zero : target.mul (conf.messageCapacity path field) info.sizeOf = 0
      · obtain ⟨made, none⟩ := Core.planHeader_zero conf ⟨stack, index⟩ (msg.plus field.offset) zeros zero
        simp only [made, sequence, zero]
        exact ⟨by simp, none⟩
      · obtain ⟨made, own⟩ := Core.planHeader_nonzero conf ⟨stack, index⟩ (msg.plus field.offset) zeros zero
        obtain ⟨zeros', total', looped⟩ := elements_reach round (msg.plus field.offset) stack index info.sizeOf
          (conf.messageCapacity path field)
          (added used (target.mul (conf.messageCapacity path field) info.sizeOf)) (zeros.congr kept)
        obtain ⟨total, later⟩ := ih msg path stack (index + 1)
          (total'.symm ▸ Nat.mod_lt _ target.modulus_pos) zeros'
        simp only [made, sequence, zero, true_and, false_or, if_false]
        refine ⟨total.trans ?_, own.trans (looped.trans later)⟩
        split
        · rfl
        · rw [total', Nat.mod_add_mod, Nat.add_assoc (target.add used _)]
          rw [Nat.add_assoc (conf.messageCapacity path field * info.sizeOf)]
          exact target.add_count used _ _
    next single =>
      have notSequence : field.isSequence = false := by simpa using single
      obtain ⟨inner, nested⟩ := round (msg.plus field.offset) (stack ++ [.inline index]) w zeros
      have zeros' := traverse_refusesNothing conf zeros members (msg.plus field.offset)
        (path.child field.name) (stack ++ [.inline index]) 0 0
      obtain ⟨total, later⟩ := ih msg path stack (index + 1) (added used _) zeros'
      simp only [notSequence, Bool.false_eq_true, false_and, false_or]
      refine ⟨total.trans ?_, by simpa [Step.mark] using nested.trans later⟩
      split
      · rfl
      · rw [inner, target.add_count]

end Run

section Reached

variable {conf : MemoryConf target}

/-- The way to a header: the calls, and the member in the last of them. -/
def Visit.address (visit : Visit) : List (Nat × Option Nat) := visit.stack ++ [(visit.member, none)]

/-- The way goes on at `place` behind the calls of `stack`. -/
def Visit.Through (stack : List (Nat × Option Nat)) (place : Nat × Option Nat) (visit : Visit) : Prop :=
  ∃ tail, visit.address = stack ++ place :: tail

theorem Visit.Through.unique {stack : List (Nat × Option Nat)} {place other : Nat × Option Nat} {visit : Visit}
    (here : visit.Through stack place) (there : visit.Through stack other) : place = other := by
  obtain ⟨tail, one⟩ := here
  obtain ⟨tail', two⟩ := there
  exact (List.cons.inj (List.append_cancel_left (one.symm.trans two))).1

theorem visits_through {list : MemberList} {path : CString} {stack : List (Nat × Option Nat)} {index : Nat}
    {visit : Visit} (met : visit ∈ visits false conf list path stack index) :
    ∃ place, visit.Through stack place ∧ index ≤ place.1 := by
  induction list generalizing path stack index with
  | nil => cases met
  | basic type field rest ih =>
    rcases List.mem_append.mp met with here | later
    · split at here
      · cases List.mem_singleton.mp here
        exact ⟨(index, none), ⟨[], rfl⟩, Nat.le_refl _⟩
      · cases here
    · obtain ⟨place, reached, behind⟩ := ih later
      exact ⟨place, reached, Nat.le_of_succ_le behind⟩
  | message info members field rest ihMembers ih =>
    rcases List.mem_append.mp met with here | later
    · have nested {mark : Option Nat}
          (met : visit ∈ visits false conf members (path.child field.name) (stack ++ [(index, mark)]) 0) :
          ∃ place, visit.Through stack place ∧ index ≤ place.1 := by
        obtain ⟨place, ⟨tail, way⟩, _⟩ := ihMembers met
        exact ⟨(index, mark), ⟨place :: tail, by simpa using way⟩, Nat.le_refl _⟩
      simp only [Bool.false_eq_true, if_false] at here
      split at here
      · rcases List.mem_cons.mp here with rfl | element
        · exact ⟨(index, none), ⟨[], rfl⟩, Nat.le_refl _⟩
        · obtain ⟨j, _, element⟩ := List.mem_flatMap.mp element
          exact nested element
      · exact nested here
    · obtain ⟨place, reached, behind⟩ := ih later
      exact ⟨place, reached, Nat.le_of_succ_le behind⟩

/-- A visit at one member is none of the visits at the members behind it. -/
theorem Visit.Through.not_behind {rest : MemberList} {path : CString} {stack : List (Nat × Option Nat)}
    {index : Nat} {mark : Option Nat} {visit : Visit} (here : visit.Through stack (index, mark)) :
    visit ∉ visits false conf rest path stack (index + 1) := by
  intro there
  obtain ⟨place, other, after⟩ := visits_through there
  cases here.unique other
  exact absurd after (Nat.not_succ_le_self index)

theorem through_of_nested {members : MemberList} {path : CString} {stack : List (Nat × Option Nat)}
    {place : Nat × Option Nat} {index : Nat} {visit : Visit}
    (met : visit ∈ visits false conf members path (stack ++ [place]) index) : visit.Through stack place := by
  obtain ⟨next, ⟨tail, way⟩, _⟩ := visits_through met
  exact ⟨next :: tail, by simpa using way⟩

theorem flatMap_range_subset {n : Nat} {A A' : Nat → List Visit} (within : ∀ j, A' j ⊆ A j) :
    (List.range n).flatMap A' ⊆ (List.range n).flatMap A := by
  intro visit met
  obtain ⟨j, bound, inside⟩ := List.mem_flatMap.mp met
  exact List.mem_flatMap.mpr ⟨j, bound, within j inside⟩

theorem reached_subset (list : MemberList) (path : CString) (stack : List (Nat × Option Nat)) (index : Nat) :
    list.reached conf path stack index ⊆ visits false conf list path stack index := by
  induction list generalizing path stack index with
  | nil => exact List.Subset.refl _
  | basic type field rest ih =>
    simp only [MemberList.reached, visits]
    split
    · split
      · exact List.nil_subset _
      · exact List.cons_subset_cons _ (ih path stack (index + 1))
    · exact ih path stack (index + 1)
  | message info members field rest ihMembers ih =>
    simp only [MemberList.reached, visits, Bool.false_eq_true, if_false]
    split
    · split
      · exact List.nil_subset _
      · apply List.cons_subset_cons
        apply List.append_subset_of_subset_of_subset
        · apply List.subset_append_of_subset_left
          exact flatMap_range_subset fun j => ihMembers _ _ 0
        · exact List.subset_append_of_subset_right _ (ih path stack (index + 1))
    · apply List.append_subset_of_subset_of_subset
      · exact List.subset_append_of_subset_left _ (ihMembers _ _ 0)
      · exact List.subset_append_of_subset_right _ (ih path stack (index + 1))

/-- Everything is reached exactly when each of two separate parts is. -/
theorem forall_append_iff {A B A' B' : List Visit} {P : Visit → Prop} (within : A' ⊆ A) (within' : B' ⊆ B)
    (apart : ∀ visit ∈ A, visit ∉ B) :
    (∀ visit ∈ A ++ B, P visit → visit ∈ A' ++ B') ↔
      (∀ visit ∈ A, P visit → visit ∈ A') ∧ ∀ visit ∈ B, P visit → visit ∈ B' := by
  constructor
  · intro every
    refine ⟨fun visit met holds => ?_, fun visit met holds => ?_⟩
    · apply (List.mem_append.mp (every visit (List.mem_append_left B met) holds)).resolve_right
      exact fun there => apart visit met (within' there)
    · apply (List.mem_append.mp (every visit (List.mem_append_right A met) holds)).resolve_left
      exact fun here => apart visit (within here) met
  · rintro ⟨first, second⟩ visit met holds
    rcases List.mem_append.mp met with here | there
    · exact List.mem_append_left _ (first visit here holds)
    · exact List.mem_append_right _ (second visit there holds)

theorem forall_flatMap_iff {n : Nat} {A A' : Nat → List Visit} {P : Visit → Prop} (within : ∀ j, A' j ⊆ A j)
    (apart : ∀ i j, ∀ visit ∈ A i, visit ∈ A j → i = j) :
    (∀ visit ∈ (List.range n).flatMap A, P visit → visit ∈ (List.range n).flatMap A') ↔
      ∀ j < n, ∀ visit ∈ A j, P visit → visit ∈ A' j := by
  constructor
  · intro every j bound visit met holds
    have inside := List.mem_flatMap.mpr ⟨j, List.mem_range.mpr bound, met⟩
    obtain ⟨i, _, reached⟩ := List.mem_flatMap.mp (every visit inside holds)
    obtain rfl := apart i j visit (within i reached) met
    exact reached
  · intro each visit met holds
    obtain ⟨j, bound, here⟩ := List.mem_flatMap.mp met
    exact List.mem_flatMap.mpr ⟨j, bound, each j (List.mem_range.mp bound) visit here holds⟩

/-- The elements of a sequence are reached one by one, each at its own place. -/
theorem elements_reached_iff {members : MemberList} {path : CString} {stack : List (Nat × Option Nat)}
    {index n : Nat} {P : Visit → Prop} :
    (∀ visit ∈ (List.range n).flatMap fun j => visits false conf members path (stack ++ [(index, some j)]) 0,
        P visit → visit ∈ (List.range n).flatMap fun j =>
          members.reached conf path (stack ++ [(index, some j)]) 0) ↔
      ∀ j < n, ∀ visit ∈ visits false conf members path (stack ++ [(index, some j)]) 0, P visit →
        visit ∈ members.reached conf path (stack ++ [(index, some j)]) 0 := by
  apply forall_flatMap_iff
  · exact fun j => reached_subset members path _ 0
  · intro i j visit one two
    have place := (through_of_nested one).unique (through_of_nested two)
    exact Option.some.inj (congrArg Prod.snd place)

/-- Nothing is reached of what asks for no memory. -/
theorem none_needed_iff (conf : MemoryConf target) (list : MemberList) (path : CString)
    (stack : List (Nat × Option Nat)) (index : Nat) :
    (∀ visit ∈ visits false conf list path stack index, visit.bytes ≠ 0 → visit ∈ ([] : List Visit)) ↔
      ∀ n ∈ requests conf list path, n = 0 := by
  rw [← visits_bytes conf list path stack index, List.forall_mem_map]
  simp only [List.not_mem_nil, imp_false, not_not]

/-- Every header that needs memory is reached exactly when no call is cut off in front of one. -/
theorem all_reached_iff (list : MemberList) (path : CString) (stack : List (Nat × Option Nat)) (index : Nat) :
    (∀ visit ∈ visits false conf list path stack index, visit.bytes ≠ 0 →
        visit ∈ list.reached conf path stack index) ↔ list.Undisturbed conf path := by
  -- The visits of different members and elements are different, so each part can be asked by itself.
  induction list generalizing path stack index with
  | nil => simp [visits, MemberList.Undisturbed]
  | basic type field rest ih =>
    have later := ih path stack (index + 1)
    by_cases header : isHeader type field = true
    · by_cases zero : target.mul (conf.basicCapacity path type field) type.plannedSize = 0
      · have cut := none_needed_iff conf (.basic type field rest) path stack index
        simpa only [MemberList.reached, MemberList.Undisturbed, header, zero, and_self, if_true] using cut
      · simp only [MemberList.reached, MemberList.Undisturbed, visits, header, zero, and_false, if_true,
          if_false]
        refine (forall_append_iff (List.Subset.refl _) (reached_subset rest path stack (index + 1)) ?_).trans ?_
        · intro visit own
          cases List.mem_singleton.mp own
          exact Visit.Through.not_behind ⟨[], rfl⟩
        · rw [later]
          exact and_iff_right fun visit own _ => own
    · simp only [MemberList.reached, MemberList.Undisturbed, visits, header, false_and, if_false,
        Bool.false_eq_true, List.nil_append]
      exact later
  | message info members field rest ihMembers ih =>
    have later := ih path stack (index + 1)
    by_cases sequence : field.isSequence = true
    · by_cases zero : target.mul (conf.messageCapacity path field) info.sizeOf = 0
      · have cut := none_needed_iff conf (.message info members field rest) path stack index
        simpa only [MemberList.reached, MemberList.Undisturbed, sequence, zero, and_self, if_true] using cut
      · have capacity : 0 < conf.messageCapacity path field := by
          apply Nat.pos_of_ne_zero
          intro none
          exact zero (by rw [none, Target.mul, Nat.zero_mul, Nat.zero_mod])
        simp only [MemberList.reached, MemberList.Undisturbed, visits, sequence, zero, and_false, if_true,
          if_false, Bool.false_eq_true]
        -- The header itself, its elements one by one, and the members behind it.
        let own : Visit := ⟨stack, index, conf.messageCapacity path field, info.sizeOf⟩
        let elements (j : Nat) := visits false conf members (path.child field.name) (stack ++ [(index, some j)]) 0
        let elements' (j : Nat) := members.reached conf (path.child field.name) (stack ++ [(index, some j)]) 0
        have ownAt : own.Through stack (index, none) := ⟨[], rfl⟩
        have elementAt (j : Nat) : ∀ visit ∈ elements j, visit.Through stack (index, some j) :=
          fun visit met => through_of_nested met
        have separate : ∀ visit ∈ [own],
            visit ∉ (List.range (conf.messageCapacity path field)).flatMap elements := by
          intro visit here there
          cases List.mem_singleton.mp here
          obtain ⟨j, _, inside⟩ := List.mem_flatMap.mp there
          cases ownAt.unique (elementAt j own inside)
        have front : ∀ visit ∈ [own] ++ (List.range (conf.messageCapacity path field)).flatMap elements,
            visit ∉ visits false conf rest path stack (index + 1) := by
          intro visit met
          rcases List.mem_append.mp met with here | there
          · cases List.mem_singleton.mp here
            exact ownAt.not_behind
          · obtain ⟨j, _, inside⟩ := List.mem_flatMap.mp there
            exact (elementAt j visit inside).not_behind
        have elementsWithin : (List.range (conf.messageCapacity path field)).flatMap elements' ⊆
            (List.range (conf.messageCapacity path field)).flatMap elements :=
          flatMap_range_subset fun j => reached_subset _ _ _ _
        have each : (∀ visit ∈ (List.range (conf.messageCapacity path field)).flatMap elements, visit.bytes ≠ 0 →
            visit ∈ (List.range (conf.messageCapacity path field)).flatMap elements') ↔
            members.Undisturbed conf (path.child field.name) := by
          rw [elements_reached_iff]
          constructor
          · exact fun all => (ihMembers _ _ 0).mp (all 0 capacity)
          · exact fun through j _ => (ihMembers _ _ 0).mpr through
        have ownReached : ∀ visit ∈ [own], visit.bytes ≠ 0 → visit ∈ [own] := fun visit met _ => met
        have whole := forall_append_iff (P := fun visit => visit.bytes ≠ 0)
          (List.append_subset_of_subset_of_subset (List.subset_append_left [own] _)
            (List.subset_append_of_subset_right [own] elementsWithin))
          (reached_subset rest path stack (index + 1)) front
        have two := forall_append_iff (P := fun visit => visit.bytes ≠ 0) (List.Subset.refl [own])
          elementsWithin separate
        rw [two, each, later] at whole
        rw [← and_iff_right ownReached (b := members.Undisturbed conf (path.child field.name))]
        exact whole
    · have nested : ∀ visit ∈ visits false conf members (path.child field.name) (stack ++ [(index, none)]) 0,
          visit ∉ visits false conf rest path stack (index + 1) :=
        fun visit met => (through_of_nested met).not_behind
      simp only [MemberList.reached, MemberList.Undisturbed, visits, sequence, false_and, if_false,
        Bool.false_eq_true]
      rw [forall_append_iff (reached_subset _ _ _ _) (reached_subset _ _ _ _) nested, ihMembers, later]

/-- Two visits of one member on one way take the same size for its elements. -/
theorem Visit.IsOf.memberSize_eq {root : MemberList} {visit other : Visit} (one : visit.IsOf root)
    (two : other.IsOf root) (stack : visit.stack = other.stack) (member : visit.member = other.member) :
    visit.memberSize = other.memberSize := by
  obtain ⟨names, first, found, size⟩ := one
  obtain ⟨names', second, found', size'⟩ := two
  rw [stack, member, found'] at found
  obtain ⟨-, rfl⟩ := Prod.mk.inj (Option.some.inj found)
  rw [size, size']

/-- Which headers with a size were set up, read from the log and from the type. -/
theorem set_up_iff (type : MessageMembers) {events : List Event}
    (paired : List.Forall₂ Visit.SetUpBy (type.members.reached conf.getConfiguration .empty [] 0)
      (events.filter Event.isStored)) :
    (∀ visit ∈ plannedVisits false conf type, visit.capacity ≠ 0 → visit.memberSize ≠ 0 →
        ∃ event ∈ events, visit.SetUpBy event) ↔
      type.members.Undisturbed conf.getConfiguration .empty := by
  obtain ⟨complete, only⟩ := exists_of_paired paired
  rw [← all_reached_iff type.members .empty [] 0]
  constructor
  · intro every visit met positive
    obtain ⟨capacity, memberSize⟩ := Nat.mul_ne_zero_iff.mp positive
    -- The event belongs to some visit that is reached; one place of the type has one visit.
    obtain ⟨event, member, here⟩ := every visit met capacity memberSize
    cases event with
    | stored site header data bytes count =>
      obtain ⟨other, reached, there⟩ := only _ (List.mem_filter.mpr ⟨member, rfl⟩)
      have stack := here.1.symm.trans there.1
      have place := here.2.1.symm.trans there.2.1
      have count := here.2.2.symm.trans there.2.2
      have size := (plannedVisits_isOf conf type visit met).memberSize_eq
        (plannedVisits_isOf conf type other (reached_subset _ _ _ _ reached)) stack place
      have same : visit = other := by
        cases visit
        cases other
        simp_all
      exact same ▸ reached
    | _ => exact here.elim
  · intro every visit met capacity memberSize
    obtain ⟨event, member, here⟩ := complete visit (every visit met (Nat.mul_ne_zero capacity memberSize))
    exact ⟨event, (List.mem_filter.mp member).1, here⟩

end Reached

/-- Dynamic creation: what it answers, and the headers that it sets up. -/
theorem Core.create_reaches (conf : MemoryConf target) (type : MessageMembers) (msg : Pointer) {w : Core}
    (zeros : w.RefusesNothing) :
    ((w.create conf type msg).1 = true ↔ target.modulus ∣ type.members.lost conf.getConfiguration .empty) ∧
      SetsUp (type.members.reached conf.getConfiguration .empty [] 0) w (w.create conf type msg).2 := by
  let prepared := (w.dynamicSize conf type).2.fillZero msg type.info.sizeOf
  have quiet : Logs Event.Silent w prepared :=
    ((dynamicSize_quiet conf type w).2.mono (by rintro _ ⟨_, _, rfl⟩; trivial)).trans
      (Logs.fillZero (fun _ _ => trivial) msg type.info.sizeOf _)
  have still : prepared.RefusesNothing := zeros.congr (by simp [prepared])
  obtain ⟨used, made⟩ := traverse_reaches conf.getConfiguration type.members msg .empty [] 0
    target.modulus_pos still
  refine ⟨?_, (SetsUp.of_silent quiet).trans made⟩
  have whole := MemberList.counted_add_lostBelow conf.getConfiguration type.members .empty
  change (_ == (w.dynamicSize conf type).1) = true ↔ _
  rw [beq_iff_eq, dynamicSize_eq, dynamicRequirement, ← whole]
  apply (Eq.congr_left used).trans
  by_cases early : type.members.EndsEarly conf.getConfiguration .empty
  · rw [if_pos early, MemberList.lost_of_early early, ← whole, Nat.dvd_iff_mod_eq_zero]
    exact eq_comm
  · rw [if_neg early, MemberList.lost_of_through early, Nat.zero_add]
    apply (Nat.modEq_iff_dvd' (Nat.le_add_right _ _)).trans
    rw [Nat.add_sub_cancel_left]

theorem Core.create_undisturbed_iff (conf : MemoryConf target) (type : MessageMembers) (msg : Pointer) {w : Core}
    (zeros : w.RefusesNothing) :
    let created := w.create conf type msg
    (created.1 = true ∧
      ∀ visit ∈ plannedVisits false conf type, visit.capacity ≠ 0 → visit.memberSize ≠ 0 →
        ∃ event ∈ w.since created.2, visit.SetUpBy event ∧ event.Stocked created.2.heap) ↔
      target.modulus ∣ type.members.lost conf.getConfiguration .empty ∧
        type.members.Undisturbed conf.getConfiguration .empty := by
  intro created
  obtain ⟨answer, events, log, paired⟩ := w.create_reaches conf type msg zeros
  have stocked := (w.create_stocks conf type msg).2.since
  rw [answer, ← set_up_iff type paired]
  rw [since_of_log log] at stocked ⊢
  apply and_congr_right
  intro _
  constructor
  · intro every visit met capacity memberSize
    obtain ⟨event, member, here, _⟩ := every visit met capacity memberSize
    exact ⟨event, member, here⟩
  · intro every visit met capacity memberSize
    obtain ⟨event, member, here⟩ := every visit met capacity memberSize
    exact ⟨event, member, here, stocked event member⟩

/-- With an allocator that refuses the requests for no bytes and grants all others, dynamic creation uses its
name trees as it should, succeeds and sets up every header with a size, with a live object, if and only if its
name trees are served, no call is cut off in front of such a header and what is given up adds up to a multiple
of the range of `size_t`. -/
theorem zero_requests_harmless_iff (conf : MemoryConf target) (type : MessageMembers) (msg : Pointer)
    (core : Core) (s : StringHeap) (zeros : core.RefusesNothing) :
    let created := createMessageMemory target (heapStrings target) conf type msg ⟨core, s⟩
    (Lifetimes (s.since created.2.scratch) ∧ created.1 = true ∧
      ∀ visit ∈ plannedVisits false conf type, visit.capacity ≠ 0 → visit.memberSize ≠ 0 →
        ∃ event ∈ core.since created.2.core, visit.SetUpBy event ∧ event.Stocked created.2.core.heap) ↔
      s.Serves ((PlannerCall.create msg).demands conf type core) ∧
        target.modulus ∣ type.members.lost conf.getConfiguration .empty ∧
        type.members.Undisturbed conf.getConfiguration .empty := by
  intro created
  apply (createMessageMemory_ends conf type core s msg).lifetimes_and_iff
  rintro ⟨answer, reached⟩
  rw [answer, reached]
  exact core.create_undisturbed_iff conf type msg zeros

/-- An allocator on which only the requests for no bytes fail. -/
def Core.stingy : Core := .boot fun _ size => decide (size ≠ 0)

/-- A rule that plans no name for the names of `ListParametersResult`. -/
def noNames : MemoryConf cortexM :=
  { boardDefault with rules := [⟨.ofString "names", fun _ => 0, ⟨0, by decide⟩⟩] }

/-- The prefixes behind the names are then not set up either, and creation fails. -/
theorem zero_request_disturbs :
    let s := StringHeap.boot fun _ => false
    let created := createMessageMemory cortexM (heapStrings cortexM) noNames (listParametersResult cortexM)
      ⟨.object 1 0, 0⟩ ⟨.stingy, s⟩
    Core.stingy.RefusesNothing ∧ (listParametersResult cortexM).members.NoBounded ∧
      Lifetimes (s.since created.2.scratch) ∧ created.1 = false ∧
      (∃ visit ∈ plannedVisits false noNames (listParametersResult cortexM),
        visit.capacity ≠ 0 ∧ visit.memberSize ≠ 0) ∧
      ∀ event ∈ Core.stingy.since created.2.core, event.isStored = false := by
  refine ⟨fun _ _ => rfl, listParametersResult_unbounded, ?_⟩
  decide +kernel

/-- The condition for `MultiArrayLayout` with a rule for the labels. -/
theorem zero_requests_harmless_multiArrayLayout :
    let s := StringHeap.boot fun _ => false
    let created := createMessageMemory cortexM (heapStrings cortexM) labelRule (multiArrayLayout cortexM)
      ⟨.object 1 0, 0⟩ ⟨.stingy, s⟩
    (Lifetimes (s.since created.2.scratch) ∧ created.1 = true ∧
      ∀ visit ∈ plannedVisits false labelRule (multiArrayLayout cortexM), visit.capacity ≠ 0 →
        visit.memberSize ≠ 0 → ∃ event ∈ Core.stingy.since created.2.core,
          visit.SetUpBy event ∧ event.Stocked created.2.core.heap) ↔
      s.Serves ((PlannerCall.create ⟨.object 1 0, 0⟩).demands labelRule (multiArrayLayout cortexM) .stingy) ∧
        cortexM.modulus ∣ (multiArrayLayout cortexM).members.lost labelRule.getConfiguration .empty ∧
        (multiArrayLayout cortexM).members.Undisturbed labelRule.getConfiguration .empty :=
  zero_requests_harmless_iff labelRule (multiArrayLayout cortexM) ⟨.object 1 0, 0⟩ .stingy
    (.boot fun _ => false) fun _ _ => rfl

end MicroRos
