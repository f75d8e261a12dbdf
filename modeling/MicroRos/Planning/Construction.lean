import MicroRos.Planning.Requirement
import MicroRos.Memory.Arena

/-! What creation builds.

`Built` describes a finished message in memory. The two creation modes differ only in where
the memory of a header comes from, so the induction over a type is made for any `Supplier`;
what it shows holds of every later memory that has kept the message and its data.
-/

set_option autoImplicit false

namespace MicroRos

open Memory (Pointer Contents Block Arena)

variable {target : Target}

def headerSpan (target : Target) (header : Pointer) : Set Pointer :=
  {q | header.Spans target.headerSize q}

/-- The addresses in the instance at `msg` that belong to headers. -/
def heads (target : Target) (list : MemberList) (msg : Pointer) : Set Pointer :=
  {q | ∃ o, list.HeaderAt target o ∧ q = msg.plus o}

theorem mem_headerSpan {target : Target} {header q : Pointer} :
    q ∈ headerSpan target header ↔ ∃ i < target.headerSize, q = header.plus i := Pointer.spans_iff

theorem heads_nil (msg : Pointer) : heads target .nil msg = ∅ := by simp [heads, MemberList.HeaderAt]

theorem heads_basic (type : BasicType) (field : Field) (rest : MemberList) (msg : Pointer) :
    heads target (.basic type field rest) msg =
      (if isHeader type field then headerSpan target (msg.plus field.offset) else ∅) ∪
        heads target rest msg := by
  ext q
  simp only [heads, MemberList.HeaderAt, Set.mem_ofPred_eq, Set.mem_union]
  split
  next header =>
    simp only [mem_headerSpan, Pointer.plus_plus]
    constructor
    · rintro ⟨o, ⟨_, lower, upper⟩ | later, rfl⟩
      · exact Or.inl ⟨o - field.offset, by omega, by rw [Nat.add_sub_cancel' lower]⟩
      · exact Or.inr ⟨o, later, rfl⟩
    · rintro (⟨i, bound, rfl⟩ | ⟨o, later, rfl⟩)
      · exact ⟨field.offset + i, Or.inl ⟨header, by omega, by omega⟩, rfl⟩
      · exact ⟨o, Or.inr later, rfl⟩
  next plain =>
    simp [plain]

theorem heads_message (info : MessageInfo) (members : MemberList) (field : Field) (rest : MemberList)
    (msg : Pointer) :
    heads target (.message info members field rest) msg =
      (if field.isSequence then headerSpan target (msg.plus field.offset)
        else heads target members (msg.plus field.offset)) ∪ heads target rest msg := by
  ext q
  simp only [heads, MemberList.HeaderAt, Set.mem_ofPred_eq, Set.mem_union]
  split
  next sequence =>
    simp only [mem_headerSpan, Pointer.plus_plus]
    constructor
    · rintro ⟨o, ⟨lower, upper⟩ | later, rfl⟩
      · exact Or.inl ⟨o - field.offset, by omega, by rw [Nat.add_sub_cancel' lower]⟩
      · exact Or.inr ⟨o, later, rfl⟩
    · rintro (⟨i, bound, rfl⟩ | ⟨o, later, rfl⟩)
      · exact ⟨field.offset + i, Or.inl ⟨by omega, by omega⟩, rfl⟩
      · exact ⟨o, Or.inr later, rfl⟩
  next single =>
    simp only [Set.mem_ofPred_eq, Pointer.plus_plus]
    constructor
    · rintro ⟨o, ⟨lower, inner⟩ | later, rfl⟩
      · exact Or.inl ⟨o - field.offset, inner, by rw [Nat.add_sub_cancel' lower]⟩
      · exact Or.inr ⟨o, later, rfl⟩
    · rintro (⟨i, inner, rfl⟩ | ⟨o, later, rfl⟩)
      · exact ⟨field.offset + i, Or.inl ⟨by omega, by simpa using inner⟩, rfl⟩
      · exact ⟨o, Or.inr later, rfl⟩

/-- A header that was set up: a data pointer to memory of this many bytes, size zero, and the capacity. -/
structure HeaderBuilt (target : Target) (Region : Pointer → Nat → Prop) (m : Contents)
    (header : Pointer) (capacity bytes : Nat) : Prop where
  notNull : m.loadPointer target.word header ≠ .null
  region : Region (m.loadPointer target.word header) bytes
  holdsSize : m.loadSize target.word (header.plus target.word) = 0
  holdsCapacity : m.loadSize target.word (header.plus (2 * target.word)) = capacity

namespace MemberList

/-- The headers that the planner sets in an instance are set up, in the elements of sequences too
where these have memory; everything else in the memory of the headers is zero. -/
def Built (conf : MemoryConf target) (Region : Pointer → Nat → Prop) (m : Contents) :
    MemberList → Pointer → CString → Prop
  | .nil, _, _ => True
  | .basic type field rest, msg, path =>
    (isHeader type field = true →
      let capacity := conf.basicCapacity path type field
      let bytes := target.mul capacity type.plannedSize
      HeaderBuilt target Region m (msg.plus field.offset) capacity bytes ∧
      ∀ i < bytes, m ((m.loadPointer target.word (msg.plus field.offset)).plus i) = .zero) ∧
    rest.Built conf Region m msg path
  | .message info members field rest, msg, path =>
    (field.isSequence = true →
      let capacity := conf.messageCapacity path field
      let data := m.loadPointer target.word (msg.plus field.offset)
      HeaderBuilt target Region m (msg.plus field.offset) capacity (target.mul capacity info.sizeOf) ∧
      (capacity * info.sizeOf < target.modulus → ∀ j < capacity,
        members.Built conf Region m (data.plus (j * info.sizeOf)) (path.child field.name) ∧
        ∀ o < info.sizeOf, ¬ members.HeaderAt target o → m (data.plus (j * info.sizeOf + o)) = .zero)) ∧
    (field.isSequence = false →
      members.Built conf Region m (msg.plus field.offset) (path.child field.name)) ∧
    rest.Built conf Region m msg path

/-- Data pointers in the order in which destroying releases them. -/
def releases (conf : MemoryConf target) (m : Contents) : MemberList → Pointer → CString → List Pointer
  | .nil, _, _ => []
  | .basic type field rest, msg, path =>
    (if isHeader type field then [m.loadPointer target.word (msg.plus field.offset)] else []) ++
    rest.releases conf m msg path
  | .message info members field rest, msg, path =>
    (if field.isSequence then
      let data := m.loadPointer target.word (msg.plus field.offset)
      ((List.range (conf.messageCapacity path field)).flatMap fun j =>
        members.releases conf m (data.plus (target.mul j info.sizeOf)) (path.child field.name)) ++ [data]
      else members.releases conf m (msg.plus field.offset) (path.child field.name)) ++
    rest.releases conf m msg path

end MemberList

/-- Data pointers written to headers, in order. -/
def suppliedData (events : List Event) : List Pointer :=
  events.filterMap fun
    | .stored _ _ data _ _ => some data
    | _ => none

theorem suppliedData_append (events later : List Event) :
    suppliedData (events ++ later) = suppliedData events ++ suppliedData later :=
  List.filterMap_append

namespace Core

/-- Data pointers supplied so far. -/
def given (w : Core) : List Pointer := suppliedData w.log

theorem record_given (w : Core) (event : Event) :
    (w.record event).given = w.given ++ suppliedData [event] := suppliedData_append _ _

@[simp] theorem touch_given (w : Core) (p : Pointer) (n : Nat) : (w.touch p n).given = w.given := by
  unfold touch
  split
  · rfl
  · simp [record_given, suppliedData]

@[simp] theorem storePointer_given (w : Core) (p v : Pointer) :
    (w.storePointer target p v).given = w.given := touch_given w p _

@[simp] theorem fillZero_given (w : Core) (p : Pointer) (n : Nat) :
    (w.fillZero p n).given = w.given := touch_given w p n

@[simp] theorem storeCounts_given (w : Core) (header : Pointer) (capacity : Nat) :
    (w.storeCounts target header capacity).given = w.given :=
  (touch_given _ _ _).trans (touch_given w _ _)

end Core

/-- The arena of a planner state, for a notion of free addresses. -/
def Core.arena (room : Core → Set Pointer) (w : Core) : Arena := ⟨w.memory, w.heap.extent, room w⟩

/-- What setting up one header does when memory is supplied for it. -/
structure Supplied (target : Target) (room : Core → Set Pointer)
    (Region : (Block → Option Nat) → Pointer → Nat → Prop) (header data : Pointer)
    (capacity memberSize : Nat) (w after : Core) : Prop where
  takes : Arena.Takes (headerSpan target header) (w.arena room) (after.arena room)
  notNull : data ≠ .null
  region : Region after.heap.extent data (target.mul capacity memberSize)
  pointer : after.memory.loadPointer target.word header = data
  holdsSize : after.memory.loadSize target.word (header.plus target.word) = 0
  holdsCapacity : after.memory.loadSize target.word (header.plus (2 * target.word)) = capacity
  bytes : ∀ i < target.mul capacity memberSize, data.plus i ∈ room w ∧ data.plus i ∉ room after
  zero : ∀ i < target.mul capacity memberSize, after.memory (data.plus i) = .zero
  elements : ∀ j < capacity, ∀ o < memberSize,
    (data.plus (target.mul j memberSize)).plus o ∈ room w ∧
      (data.plus (target.mul j memberSize)).plus o ∉ room after
  given : after.given = w.given ++ [data]

/-- A creation mode: which addresses are free, which sizes can still be supplied, and what is known
of supplied memory. -/
structure Supplier (conf : MemoryConf target) (operation : Operation) where
  room : Core → Set Pointer
  ready : Core → List Nat → Prop
  Region : (Block → Option Nat) → Pointer → Nat → Prop
  keepsPointers : operation.calculates = false
  keepsHeaders : ∀ owner site header w, Core.tearDownHeader target owner operation site header w = w
  room_touch : ∀ w p n, room (w.touch p n) = room w
  ready_touch : ∀ w p n sizes, ready w sizes → ready (w.touch p n) sizes
  region_mono : ∀ {e e' data n}, Arena.Persists e e' → Region e data n → Region e' data n
  plan : ∀ {w capacity memberSize sizes} (site : Site) (header : Pointer), capacity < target.modulus →
    ready w (capacity * memberSize :: sizes) → Disjoint (headerSpan target header) (room w) →
    ∃ bytes data after, w.planHeader conf operation site header capacity memberSize = (some bytes, after) ∧
      Supplied target room Region header data capacity memberSize w after ∧ ready after sizes

theorem Pointer.plus_left_injective (p : Pointer) : Function.Injective p.plus := by
  intro m n same
  simp only [Memory.Pointer.plus, Memory.Pointer.mk.injEq] at same
  omega

/-- Headers of later members stand apart from what lies inside an earlier member. -/
theorem heads_apart {rest : MemberList} {size lower upper : Nat} (layout : rest.Layout target size)
    (unbounded : rest.NoBoundedMessage) (clear : ∀ o, lower ≤ o → o < upper → ¬ rest.Covers target o)
    {part : Set Pointer} {msg : Pointer}
    (inside : ∀ q ∈ part, ∃ o, lower ≤ o ∧ o < upper ∧ q = msg.plus o) :
    Disjoint part (heads target rest msg) := by
  refine Set.disjoint_left.mpr fun q here there => ?_
  obtain ⟨o, above, below, rfl⟩ := inside q here
  obtain ⟨o', header, same⟩ := there
  obtain rfl := Pointer.plus_left_injective msg same
  exact clear o above below (MemberList.covers_of_headerAt layout unbounded header)

theorem headerSpan_inside (msg : Pointer) (offset : Nat) {extent : Nat}
    (long : target.headerSize ≤ extent) :
    ∀ q ∈ headerSpan target (msg.plus offset), ∃ o, offset ≤ o ∧ o < offset + extent ∧
      q = msg.plus o := by
  intro q inside
  obtain ⟨i, bound, rfl⟩ := mem_headerSpan.mp inside
  exact ⟨offset + i, by omega, by omega, Pointer.plus_plus ..⟩

theorem heads_inside {members : MemberList} {size extent : Nat} (layout : members.Layout target size)
    (unbounded : members.NoBoundedMessage) (fits : size ≤ extent) (msg : Pointer) (offset : Nat) :
    ∀ q ∈ heads target members (msg.plus offset), ∃ o, offset ≤ o ∧ o < offset + extent ∧
      q = msg.plus o := by
  rintro q ⟨o, header, rfl⟩
  have below := layout.covers_lt (MemberList.covers_of_headerAt layout unbounded header)
  exact ⟨offset + o, by omega, by omega, Pointer.plus_plus ..⟩

theorem requests_repeat (sizes : List Nat) (n : Nat) :
    (List.range (n + 1)).flatMap (fun _ => sizes) = sizes ++ (List.range n).flatMap fun _ => sizes := by
  simp [List.range_succ_eq_map, List.flatMap_map]

/-- No size computed for a header wraps. -/
def Unwrapped (conf : MemoryConf target) (list : MemberList) (path : CString) : Prop :=
  ∀ n ∈ requests conf list path, n < target.modulus

section Constructs

variable {conf : MemoryConf target} {operation : Operation} (S : Supplier conf operation)

/-- A piece of a run that takes its memory from the room and leaves `P` behind. -/
def Supplier.Runs (heads : Set Pointer) (P : List Pointer → Contents → (Block → Option Nat) → Prop)
    (sizes : List Nat) (w w' : Core) : Prop :=
  S.ready w' sizes ∧ ∃ given, w'.given = w.given ++ given ∧
    Arena.Builds heads (P given) (w.arena S.room) (w'.arena S.room)

/-- What a creation leaves behind for these members. -/
def Supplier.Finished (list : MemberList) (msg : Pointer) (path : CString) (given : List Pointer)
    (m : Contents) (e : Block → Option Nat) : Prop :=
  list.Built conf (S.Region e) m msg path ∧
    (Unwrapped conf list path → (list.releases conf m msg path).Perm given)

def Supplier.Constructs (list : MemberList) : Prop :=
  ∀ (msg : Pointer) (path : CString) (stack : List Step) (index used : Nat) (w : Core) (sizes : List Nat),
    Disjoint (heads target list msg) (S.room w) → S.ready w (requests conf list path ++ sizes) →
    S.Runs (heads target list msg) (S.Finished list msg path) sizes w
      (traverse conf operation list msg path stack index used w).2

/-- The headers in the first elements of a sequence, as the planner computes their addresses. -/
def elementHeads (target : Target) (members : MemberList) (size : Nat) (data : Pointer) (n : Nat) :
    Set Pointer := {q | ∃ j < n, q ∈ heads target members (data.plus (target.mul j size))}

theorem elementHeads_succ (members : MemberList) (size : Nat) (data : Pointer) (n : Nat) :
    elementHeads target members size data (n + 1) =
      elementHeads target members size data n ∪ heads target members (data.plus (target.mul n size)) := by
  ext q
  simp only [elementHeads, Set.mem_ofPred_eq, Set.mem_union]
  constructor
  · rintro ⟨j, bound, inside⟩
    rcases Nat.lt_succ_iff_lt_or_eq.mp bound with less | rfl
    · exact Or.inl ⟨j, less, inside⟩
    · exact Or.inr inside
  · rintro (⟨j, bound, inside⟩ | inside)
    · exact ⟨j, by omega, inside⟩
    · exact ⟨n, by omega, inside⟩

variable {S}

theorem Supplier.Runs.refl {P : List Pointer → Contents → (Block → Option Nat) → Prop}
    (heads : Set Pointer) {sizes : List Nat} {w : Core} (ready : S.ready w sizes)
    (holds : ∀ m e, P [] m e) : S.Runs heads P sizes w w :=
  ⟨ready, [], by simp, (Arena.Builds.refl heads _).imp fun m e _ => holds m e⟩

/-- One piece after another. -/
theorem Supplier.Runs.seq {C : Prop} {part others : Set Pointer}
    {P Q R : List Pointer → Contents → (Block → Option Nat) → Prop} {sizes later : List Nat}
    {w w' w'' : Core} (one : S.Runs part P later w w') (two : S.Runs others Q sizes w' w'')
    (apart : C → Disjoint part others) (outside : Disjoint part (S.room w))
    (outside' : Disjoint others (S.room w))
    (whole : ∀ given given' m e, (C → P given m e) → Q given' m e → R (given ++ given') m e) :
    S.Runs (part ∪ others) R sizes w w'' := by
  obtain ⟨_, given, first, builds⟩ := one
  obtain ⟨ready, given', second, builds'⟩ := two
  refine ⟨ready, given ++ given', by rw [second, first, List.append_assoc], ?_⟩
  exact (builds.seq builds' apart outside outside').imp fun m e both => whole _ _ m e both.1 both.2

theorem Supplier.Runs.of_touch {heads : Set Pointer}
    {P : List Pointer → Contents → (Block → Option Nat) → Prop} {sizes : List Nat} {w w' : Core}
    {p : Pointer} {n : Nat} (runs : S.Runs heads P sizes (w.touch p n) w') : S.Runs heads P sizes w w' := by
  have same : (w.touch p n).arena S.room = w.arena S.room := by simp [Core.arena, S.room_touch]
  obtain ⟨ready, given, supply, builds⟩ := runs
  rw [Core.touch_given] at supply
  rw [same] at builds
  exact ⟨ready, given, supply, builds⟩

theorem Supplied.same {header data : Pointer} {capacity memberSize : Nat} {w after : Core}
    (supplied : Supplied target S.room S.Region header data capacity memberSize w after)
    {m : Contents} {e : Block → Option Nat}
    (same : ∀ q ∈ headerSpan target header, m q = after.memory q)
    (live : Arena.Persists after.heap.extent e) :
    m.loadPointer target.word header = data ∧
      HeaderBuilt target (S.Region e) m header capacity (target.mul capacity memberSize) := by
  have words : ∀ i, i + target.word ≤ target.headerSize →
      after.memory.Agree m (header.plus i) target.word := by
    intro i fits j bound
    rw [Pointer.plus_plus]
    exact same _ (mem_headerSpan.mpr ⟨i + j, by omega, rfl⟩)
  have pointer : m.loadPointer target.word header = data := by
    have first := words 0 (by simp only [Target.headerSize]; omega)
    rw [Pointer.plus_zero] at first
    rw [Memory.Contents.loadPointer_congr target.word_pos first]
    exact supplied.pointer
  refine ⟨pointer, by rw [pointer]; exact supplied.notNull, ?_, ?_, ?_⟩
  · rw [pointer]
    exact S.region_mono live supplied.region
  · rw [Memory.Contents.loadSize_congr (words _ (by simp only [Target.headerSize]; omega))]
    exact supplied.holdsSize
  · rw [Memory.Contents.loadSize_congr (words _ (by simp only [Target.headerSize]; omega))]
    exact supplied.holdsCapacity

/-- An element of an array ends inside of the array. -/
theorem element_within (size : Nat) {j n : Nat} (bound : j < n) : j * size + size ≤ n * size := by
  rw [← Nat.succ_mul]
  exact Nat.mul_le_mul_right size bound

/-- An index into an array of elements determines the element and the place inside of it. -/
theorem element_unique {size j j' o o' : Nat} (below : o < size) (below' : o' < size)
    (same : j * size + o = j' * size + o') : j = j' ∧ o = o' := by
  have positive : 0 < size := by omega
  have quotient : ∀ j o, o < size → (j * size + o) / size = j := fun j o below => by
    rw [Nat.add_comm, Nat.add_mul_div_right _ _ positive, Nat.div_eq_of_lt below, Nat.zero_add]
  have equal := quotient j o below
  rw [same, quotient j' o' below'] at equal
  subst equal
  exact ⟨rfl, by omega⟩

/-- Elements lie behind one another while the size of the whole does not wrap. -/
theorem elementHeads_apart {members : MemberList} {size capacity n : Nat}
    (layout : members.Layout target size) (unbounded : members.NoBounded)
    (whole : members.HasHeader → capacity * size < target.modulus) (data : Pointer) (bound : n < capacity) :
    Disjoint (elementHeads target members size data n) (heads target members
      (data.plus (target.mul n size))) := by
  refine Set.disjoint_left.mpr ?_
  rintro q ⟨j, less, o, header, rfl⟩ ⟨o', header', same⟩
  have fits := whole (MemberList.hasHeader_of_headerAt header)
  have exact : ∀ j ≤ n, target.mul j size = j * size := fun j le =>
    Target.mul_of_lt (Nat.lt_of_le_of_lt (Nat.mul_le_mul_right _ (by omega)) fits)
  have below := layout.covers_lt (MemberList.covers_of_headerAt layout unbounded.messages header)
  have below' := layout.covers_lt (MemberList.covers_of_headerAt layout unbounded.messages header')
  rw [exact j (by omega), exact n (Nat.le_refl n), Pointer.plus_plus, Pointer.plus_plus] at same
  have := (element_unique below below' (Pointer.plus_left_injective data same)).1
  omega

/-- What is no header in its element is no header in any other element. -/
theorem not_mem_elementHeads {members : MemberList} {size capacity j o : Nat}
    (layout : members.Layout target size) (unbounded : members.NoBounded)
    (fits : capacity * size < target.modulus) (data : Pointer) (below : o < size)
    (notHeader : ¬ members.HeaderAt target o) :
    data.plus (j * size + o) ∉ elementHeads target members size data capacity := by
  rintro ⟨j', bound', o', header, same⟩
  have le := element_within size bound'
  have below' := layout.covers_lt (MemberList.covers_of_headerAt layout unbounded.messages header)
  rw [Target.mul_of_lt (by omega), Pointer.plus_plus] at same
  obtain ⟨rfl, rfl⟩ := element_unique below below' (Pointer.plus_left_injective data same)
  exact notHeader header

/-- The elements of a sequence that has just got its memory. -/
theorem Supplier.Constructs.elements {members : MemberList} (constructs : S.Constructs members)
    {header data : Pointer} {capacity memberSize : Nat} {w after : Core}
    (supplied : Supplied target S.room S.Region header data capacity memberSize w after)
    (layout : members.Layout target memberSize) (unbounded : members.NoBounded)
    (apart : Disjoint (headerSpan target header) (S.room w)) (path : CString) (sizes : List Nat)
    (ready : S.ready after
      ((List.range capacity).flatMap (fun _ => requests conf members path) ++ sizes))
    (stack : List Step) (index used : Nat) :
    S.Runs (elementHeads target members memberSize data capacity)
      (fun given m e => capacity * memberSize < target.modulus →
        (∀ j < capacity, members.Built conf (S.Region e) m (data.plus (j * memberSize)) path) ∧
        ((0 < capacity → Unwrapped conf members path) → ((List.range capacity).flatMap fun j =>
          members.releases conf m (data.plus (target.mul j memberSize)) path).Perm given))
      sizes after
      (Core.forElements target
        (fun j w =>
          let loaded := w.elementData target operation header
          traverse conf operation members
            (Core.elementAddress target operation loaded.1 j memberSize) path
            (stack ++ [.element index j loaded.1]) 0 0 loaded.2) capacity used after).2 := by
  have taken : ∀ n ≤ capacity, ∀ q ∈ elementHeads target members memberSize data n,
      q ∈ S.room w ∧ q ∉ S.room after := by
    rintro n le q ⟨j, bound, o, header, rfl⟩
    exact supplied.elements j (by omega) o
      (layout.covers_lt (MemberList.covers_of_headerAt layout unbounded.messages header))
  suffices looped : S.Runs (elementHeads target members memberSize data capacity) _
      ((List.range (capacity - capacity)).flatMap (fun _ => requests conf members path) ++ sizes) after _ by
    simpa using looped
  refine Core.forElements_induct
    (motive := fun n _ w' => S.Runs (elementHeads target members memberSize data n)
      (fun given m e => capacity * memberSize < target.modulus →
        (∀ j < n, members.Built conf (S.Region e) m (data.plus (j * memberSize)) path) ∧
        ((0 < n → Unwrapped conf members path) → ((List.range n).flatMap fun j =>
          members.releases conf m (data.plus (target.mul j memberSize)) path).Perm given))
      ((List.range (capacity - n)).flatMap (fun _ => requests conf members path) ++ sizes) after w')
    ?_ ?_
  · have none : elementHeads target members memberSize data 0 = ∅ := by simp [elementHeads]
    rw [none]
    exact .refl ∅ ready fun m e _ => by simp
  · intro n bound _ w' before
    obtain ⟨ready', given, supply, builds⟩ := id before
    -- The header still holds its data pointer, since all writes went to what it had been given.
    have kept := supplied.same (m := w'.memory) (e := w'.heap.extent)
      (fun q inside => by
        refine builds.kept q (fun within => ?_) fun free => ?_
        · exact Set.disjoint_left.mp apart inside (taken n (by omega) q within).1
        · exact absurd (supplied.takes.shrink free) (Set.disjoint_left.mp apart inside))
      builds.live
    have loads : w'.elementData target operation header = (data, w'.touch header target.word) := by
      simp [Core.elementData, S.keepsPointers, Core.loadPointer, kept.1]
    have address : Core.elementAddress target operation data n memberSize =
        data.plus (target.mul n memberSize) := by
      simp [Core.elementAddress, S.keepsPointers]
    simp only [loads, address]
    have fresh : Disjoint (heads target members (data.plus (target.mul n memberSize))) (S.room after) :=
      Set.disjoint_left.mpr fun q inside =>
        (taken (n + 1) (by omega) q ⟨n, by omega, inside⟩).2
    have here := constructs (data.plus (target.mul n memberSize)) path
      (stack ++ [.element index n data]) 0 0 (w'.touch header target.word)
      ((List.range (capacity - (n + 1))).flatMap (fun _ => requests conf members path) ++ sizes)
      (by rw [S.room_touch]; exact fresh.mono_right builds.shrink)
      (by
        rw [← List.append_assoc, ← requests_repeat, show capacity - (n + 1) + 1 = capacity - n by omega]
        exact S.ready_touch _ _ _ _ ready')
    rw [elementHeads_succ]
    refine before.seq (C := capacity * memberSize < target.modulus) here.of_touch (fun fits => ?_)
      (Set.disjoint_left.mpr fun q inside => (taken n (by omega) q inside).2) fresh ?_
    · exact elementHeads_apart layout unbounded (fun _ => fits) data bound
    · intro given given' m e earlier last fits
      obtain ⟨built, released⟩ := earlier fits fits
      refine ⟨fun j less => ?_, fun small => ?_⟩
      · rcases Nat.lt_succ_iff_lt_or_eq.mp less with before | rfl
        · exact built j before
        · have exact : target.mul j memberSize = j * memberSize := Target.mul_of_lt
            (Nat.lt_of_le_of_lt (Nat.mul_le_mul_right memberSize (Nat.le_of_lt bound)) fits)
          rw [← exact]
          exact last.1
      · rw [List.range_succ, List.flatMap_append, List.flatMap_singleton]
        exact (released fun _ => small (by omega)).append (last.2 (small (by omega)))

/-- A header together with what is built in its memory. -/
theorem Supplied.runs {header data : Pointer} {capacity memberSize : Nat} {w after w' : Core}
    (supplied : Supplied target S.room S.Region header data capacity memberSize w after)
    (apart : Disjoint (headerSpan target header) (S.room w)) {inner : Set Pointer}
    {Q : List Pointer → Contents → (Block → Option Nat) → Prop} {sizes : List Nat}
    (elements : S.Runs inner Q sizes after w')
    (within : ∀ q ∈ inner, q ∈ S.room w ∧ q ∉ S.room after) :
    S.Runs (headerSpan target header)
      (fun given m e => ∃ rest, given = data :: rest ∧ Q rest m e ∧
        m.loadPointer target.word header = data ∧
        HeaderBuilt target (S.Region e) m header capacity (target.mul capacity memberSize) ∧
        ∀ i < target.mul capacity memberSize, data.plus i ∉ inner → m (data.plus i) = .zero)
      sizes w w' := by
  obtain ⟨ready, rest, given, builds⟩ := elements
  refine ⟨ready, data :: rest, by rw [given, supplied.given, List.append_assoc, List.singleton_append], ?_⟩
  refine (supplied.takes.nest builds within apart).imp fun m e ⟨holds, same, zero, live⟩ => ?_
  obtain ⟨pointer, built⟩ := supplied.same same live
  refine ⟨rest, rfl, holds, pointer, built, fun i bound outside => ?_⟩
  rw [zero _ (supplied.bytes i bound).1 (supplied.bytes i bound).2 outside]
  exact supplied.zero i bound

theorem unwrapped_append {list rest : MemberList} {path path' : CString} {first : List Nat}
    (split : requests conf list path = first ++ requests conf rest path')
    (small : Unwrapped conf list path) :
    (∀ n ∈ first, n < target.modulus) ∧ Unwrapped conf rest path' := by
  simp only [Unwrapped, split, List.forall_mem_append] at small
  exact small

/-- Creation with supplied memory finishes every member, by induction over the type. -/
theorem Supplier.constructs {list : MemberList} {size : Nat} (layout : list.Layout target size)
    (unbounded : list.NoBounded) : S.Constructs list := by
  induction list generalizing size with
  | nil =>
    intro msg path stack index used w sizes _ ready
    rw [heads_nil]
    exact .refl ∅ ready fun m e => ⟨trivial, fun _ => .nil⟩
  | basic type field rest ih =>
    intro msg path stack index used w sizes apart ready
    obtain ⟨inside, clear, restLayout⟩ := layout
    rw [heads_basic] at apart ⊢
    obtain ⟨apartHere, apartRest⟩ := Set.disjoint_union_left.mp apart
    simp only [traverse]
    split
    next header =>
      simp only [header, if_true, requests, List.cons_append, List.nil_append] at apartHere ready
      obtain ⟨bytes, data, after, planned, supplied, ready'⟩ := S.plan ⟨stack, index⟩ _
        (conf.basicCapacity_lt path type field) ready apartHere
      simp only [planned, S.keepsHeaders]
      have here := supplied.runs apartHere (.refl (S := S) ∅ ready' (P := fun given _ _ => given = [])
        fun _ _ => rfl) (by simp)
      have later := ih restLayout unbounded.2 msg path stack (index + 1) (target.add used bytes) after
        sizes (apartRest.mono_right supplied.takes.shrink) ready'
      have spans := headerSpan_inside msg field.offset (MemberList.header_le_basicExtent target header)
      refine here.seq (C := True) later (fun _ => heads_apart restLayout unbounded.2.messages clear spans)
        apartHere apartRest ?_
      rintro given given' m e first ⟨restBuilt, restReleased⟩
      obtain ⟨_, rfl, rfl, pointer, built, zero⟩ := first trivial
      refine ⟨⟨fun _ => ⟨built, ?_⟩, restBuilt⟩, fun small => ?_⟩
      · rw [pointer]
        exact fun i bound => zero i bound (Set.notMem_empty _)
      · simp only [MemberList.releases, header, if_true, pointer]
        refine (restReleased ?_).cons _
        have split : requests conf (.basic type field rest) path =
            [conf.basicCapacity path type field * type.plannedSize] ++ requests conf rest path := by
          simp only [requests, header, if_true]
        exact (unwrapped_append split small).2
    next plain =>
      simp only [plain, Bool.false_eq_true, if_false, requests, List.nil_append, Set.empty_union]
        at apartRest ready ⊢
      have later := ih restLayout unbounded.2 msg path stack (index + 1) used w sizes apartRest ready
      obtain ⟨ready', given, supply, builds⟩ := later
      refine ⟨ready', given, supply, builds.imp ?_⟩
      rintro m e ⟨restBuilt, restReleased⟩
      refine ⟨⟨fun header => absurd header plain, restBuilt⟩, fun small => ?_⟩
      simp only [MemberList.releases, plain, Bool.false_eq_true, if_false, List.nil_append]
      exact restReleased (by simpa [Unwrapped, requests, plain] using small)
  | message info members field rest ihMembers ih =>
    intro msg path stack index used w sizes apart ready
    obtain ⟨inside, clear, small, membersLayout, restLayout⟩ := layout
    obtain ⟨notBounded, membersUnbounded, restUnbounded⟩ := unbounded
    rw [heads_message] at apart ⊢
    obtain ⟨apartHere, apartRest⟩ := Set.disjoint_union_left.mp apart
    simp only [traverse]
    split
    next sequence =>
      simp only [sequence, if_true, requests, List.cons_append, List.append_assoc] at apartHere ready
      obtain ⟨bytes, data, after, planned, supplied, ready'⟩ := S.plan ⟨stack, index⟩ _
        (conf.messageCapacity_lt path field) ready apartHere
      simp only [planned, S.keepsHeaders]
      have elements := (ihMembers membersLayout membersUnbounded).elements supplied membersLayout
        membersUnbounded apartHere (path.child field.name) _ ready' stack index (target.add used bytes)
      have here := supplied.runs apartHere elements (by
        rintro q ⟨j, bound, o, header, rfl⟩
        exact supplied.elements j bound o
          (membersLayout.covers_lt (MemberList.covers_of_headerAt membersLayout membersUnbounded.messages header)))
      obtain ⟨ready'', _, _, builds⟩ := id here
      have later := fun used => ih restLayout restUnbounded msg path stack (index + 1) used _ sizes
        (apartRest.mono_right builds.shrink) ready''
      have long : target.headerSize ≤ field.messageExtent target info :=
        (MemberList.sequence_extent sequence).ge
      have spans := headerSpan_inside msg field.offset long
      refine here.seq (C := True) (later _) (fun _ => heads_apart restLayout restUnbounded.messages clear spans)
        apartHere apartRest ?_
      rintro given given' m e first ⟨restBuilt, restReleased⟩
      obtain ⟨inner, rfl, elementsBuilt, pointer, built, zero⟩ := first trivial
      refine ⟨⟨fun _ => ⟨built, fun fits j bound => ?_⟩, fun single => ?_, restBuilt⟩, fun unwrapped => ?_⟩
      · rw [pointer]
        refine ⟨(elementsBuilt fits).1 j bound, fun o below notHeader => ?_⟩
        have le := element_within info.sizeOf bound
        refine zero _ (by rw [Target.mul_of_lt fits]; omega) ?_
        exact not_mem_elementHeads membersLayout membersUnbounded fits data below notHeader
      · rw [sequence] at single
        cases single
      · have split : requests conf (.message info members field rest) path =
            (conf.messageCapacity path field * info.sizeOf ::
              (List.range (conf.messageCapacity path field)).flatMap fun _ =>
                requests conf members (path.child field.name)) ++ requests conf rest path := by
          simp only [requests, sequence, if_true]
        obtain ⟨smallHere, smallRest⟩ := unwrapped_append split unwrapped
        simp only [List.forall_mem_cons, List.forall_mem_flatMap, List.mem_range] at smallHere
        have released := (elementsBuilt smallHere.1).2 fun positive => smallHere.2 0 positive
        simp only [MemberList.releases, sequence, if_true, pointer]
        exact ((List.perm_append_singleton _ _).trans (released.cons data)).append (restReleased smallRest)
    next single =>
      have notSequence : field.isSequence = false := by simpa using single
      simp only [notSequence, Bool.false_eq_true, if_false, requests, List.append_assoc] at apartHere ready ⊢
      have here := ihMembers membersLayout membersUnbounded (msg.plus field.offset)
        (path.child field.name) (stack ++ [.inline index]) 0 0 w _ apartHere ready
      obtain ⟨ready', _, _, builds⟩ := id here
      have later := fun used => ih restLayout restUnbounded msg path stack (index + 1) used _ sizes
        (apartRest.mono_right builds.shrink) ready'
      have spans := heads_inside membersLayout membersUnbounded.messages
        (MemberList.size_le_inlineExtent target info notSequence notBounded) msg field.offset
      refine here.seq (C := True) (later _) (fun _ => heads_apart restLayout restUnbounded.messages clear spans)
        apartHere apartRest ?_
      rintro given given' m e first ⟨restBuilt, restReleased⟩
      obtain ⟨built, released⟩ := first trivial
      refine ⟨⟨fun sequence => absurd sequence single, fun _ => built, restBuilt⟩, fun unwrapped => ?_⟩
      have split : requests conf (.message info members field rest) path =
          requests conf members (path.child field.name) ++ requests conf rest path := by
        simp only [requests, notSequence, Bool.false_eq_true, if_false]
      obtain ⟨smallHere, smallRest⟩ := unwrapped_append split unwrapped
      simp only [MemberList.releases, notSequence, Bool.false_eq_true, if_false]
      exact (released smallHere).append (restReleased smallRest)

end Constructs

end MicroRos
