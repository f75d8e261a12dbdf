import MicroRos.Planning.Suppliers

/-! Whether creation initialises every header of a message.

`Initialized` asks for all headers that the type declares, in every element of every array
and sequence. The planner enters an array at its first element only and does not enter a
sequence of strings at all, so what it built is complete exactly for the types and
configurations that `Covered` describes.
-/

set_option autoImplicit false

namespace MicroRos

open Memory (Pointer Contents Block Byte)

variable {target : Target}

/-- A header in live memory: a data pointer, no elements, and this capacity. -/
structure HeaderReady (target : Target) (w : Core) (header : Pointer) (capacity : Nat) : Prop where
  backed : w.heap.Backed header target.headerSize
  notNull : w.memory.loadPointer target.word header ≠ .null
  holdsSize : w.memory.loadSize target.word (header.plus target.word) = 0
  holdsCapacity : w.memory.loadSize target.word (header.plus (2 * target.word)) = capacity

namespace MemberList

/-- Every string and every sequence in the message has a header that is ready, with the capacity
that the configuration gives to its member: in all elements of arrays, and in as many elements of a
sequence as its capacity says. -/
def Initialized (conf : MemoryConf target) (w : Core) : MemberList → Pointer → CString → Prop
  | .nil, _, _ => True
  | .basic type field rest, msg, path =>
    let header := msg.plus field.offset
    let capacity := conf.basicCapacity path type field
    (if field.isSequence then
      HeaderReady target w header capacity ∧
      (type = .string → ∀ j < capacity, HeaderReady target w
        ((w.memory.loadPointer target.word header).plus (j * target.headerSize)) capacity)
    else type = .string → ∀ j < field.count,
      HeaderReady target w (header.plus (j * target.headerSize)) capacity) ∧
    rest.Initialized conf w msg path
  | .message info members field rest, msg, path =>
    let header := msg.plus field.offset
    let capacity := conf.messageCapacity path field
    (if field.isSequence then
      HeaderReady target w header capacity ∧
      ∀ j < capacity, members.Initialized conf w
        ((w.memory.loadPointer target.word header).plus (j * info.sizeOf)) (path.child field.name)
    else ∀ j < field.count,
      members.Initialized conf w (header.plus (j * info.sizeOf)) (path.child field.name)) ∧
    rest.Initialized conf w msg path

/-- Arrays of strings, and of messages with headers, have one element; sequences of strings have
none; the size of a sequence of messages with headers does not wrap. -/
def Covered (conf : MemoryConf target) : MemberList → CString → Prop
  | .nil, _ => True
  | .basic type field rest, path =>
    (type = .string →
      if field.isSequence then conf.basicCapacity path type field = 0 else field.count = 1) ∧
    rest.Covered conf path
  | .message info members field rest, path =>
    (if field.isSequence then
      conf.messageCapacity path field = 0 ∨
        (members.HasHeader → conf.messageCapacity path field * info.sizeOf < target.modulus) ∧
        members.Covered conf (path.child field.name)
    else (members.HasHeader → field.count = 1) ∧ members.Covered conf (path.child field.name)) ∧
    rest.Covered conf path

/-- What belongs to the members and not to the headers that the planner sets is zero. -/
def Blank (target : Target) (m : Contents) (list : MemberList) (msg : Pointer) : Prop :=
  ∀ o, list.Covers target o → ¬ list.HeaderAt target o → m (msg.plus o) = .zero

variable {conf : MemoryConf target} {w : Core}

section Blank

variable {m : Contents} {type : BasicType} {info : MessageInfo} {members rest : MemberList}
  {field : Field} {size : Nat} {msg : Pointer}

/-- The headers of later members are not among the bytes of an earlier one. -/
theorem not_headerAt_of_clear {lower upper o : Nat} (layout : rest.Layout target size)
    (unbounded : rest.NoBounded) (clear : ∀ o, lower ≤ o → o < upper → ¬ rest.Covers target o)
    (above : lower ≤ o) (below : o < upper) : ¬ rest.HeaderAt target o :=
  fun header => clear o above below (covers_of_headerAt layout unbounded.messages header)

theorem Blank.rest_basic (layout : (MemberList.basic type field rest).Layout target size)
    (blank : (MemberList.basic type field rest).Blank target m msg) : rest.Blank target m msg := by
  intro o covered notHeader
  refine blank o (Or.inr covered) ?_
  rintro (⟨header, lower, upper⟩ | later)
  · have := header_le_basicExtent target header
    exact layout.2.1 o lower (by omega) covered
  · exact notHeader later

theorem Blank.rest_message (layout : (MemberList.message info members field rest).Layout target size)
    (unbounded : (MemberList.message info members field rest).NoBounded)
    (blank : (MemberList.message info members field rest).Blank target m msg) :
    rest.Blank target m msg := by
  obtain ⟨_, clear, _, membersLayout, _⟩ := layout
  obtain ⟨notBounded, membersUnbounded, _⟩ := unbounded
  intro o covered notHeader
  refine blank o (Or.inr covered) ?_
  rintro (here | later)
  · split at here
    next sequence => exact clear o here.1 (by rw [sequence_extent sequence]; exact here.2) covered
    next single =>
      have below := membersLayout.covers_lt (covers_of_headerAt membersLayout membersUnbounded.messages here.2)
      have fits := size_le_inlineExtent target info (by simpa using single) notBounded
      exact clear o here.1 (by omega) covered
  · exact notHeader later

/-- Elements of an array of strings behind the first. -/
theorem Blank.strings (layout : (MemberList.basic .string field rest).Layout target size)
    (unbounded : (MemberList.basic .string field rest).NoBounded)
    (blank : (MemberList.basic .string field rest).Blank target m msg)
    (single : field.isSequence = false) {j : Nat} (behind : 0 < j) (bound : j < field.count) :
    m ((msg.plus field.offset).plus (j * target.headerSize)) = .zero := by
  have declared : field.declaredSequence = false := by
    rw [Bool.eq_false_iff, ne_eq, Field.declaredSequence_iff]
    simp [single, unbounded.1]
  have extent : field.basicExtent target .string = field.count * target.headerSize := by
    simp [Field.basicExtent, declared, BasicType.cSize]
  have lower : 1 * target.headerSize ≤ j * target.headerSize := Nat.mul_le_mul_right _ behind
  have upper := element_within target.headerSize bound
  have positive : 0 < target.headerSize := Nat.mul_pos (by decide) target.word_pos
  rw [Pointer.plus_plus]
  refine blank _ (Or.inl ⟨by omega, by omega⟩) ?_
  rintro (⟨_, _, above⟩ | later)
  · omega
  · exact not_headerAt_of_clear layout.2.2 unbounded.2 layout.2.1 (by omega) (by omega) later

/-- The first element of an array of messages. -/
theorem Blank.first (layout : (MemberList.message info members field rest).Layout target size)
    (unbounded : (MemberList.message info members field rest).NoBounded)
    (blank : (MemberList.message info members field rest).Blank target m msg)
    (single : field.isSequence = false) : members.Blank target m (msg.plus field.offset) := by
  obtain ⟨_, clear, _, membersLayout, restLayout⟩ := layout
  have fits := size_le_inlineExtent target info single unbounded.1
  intro o covered notHeader
  have below := membersLayout.covers_lt covered
  rw [Pointer.plus_plus]
  refine blank _ (Or.inl ⟨by omega, by omega⟩) ?_
  rintro (here | later)
  · simp only [single, Bool.false_eq_true, if_false, Nat.add_sub_cancel_left] at here
    exact notHeader here.2
  · exact not_headerAt_of_clear restLayout unbounded.2.2 clear (by omega) (by omega) later

/-- Elements of an array of messages behind the first. -/
theorem Blank.later (layout : (MemberList.message info members field rest).Layout target size)
    (unbounded : (MemberList.message info members field rest).NoBounded)
    (blank : (MemberList.message info members field rest).Blank target m msg)
    (single : field.isSequence = false) {j o : Nat} (behind : 0 < j) (bound : j < field.count)
    (below : o < info.sizeOf) :
    m (((msg.plus field.offset).plus (j * info.sizeOf)).plus o) = .zero := by
  obtain ⟨_, clear, _, membersLayout, restLayout⟩ := layout
  obtain ⟨extent, _⟩ := inline_extent target info single unbounded.1
  have lower : 1 * info.sizeOf ≤ j * info.sizeOf := Nat.mul_le_mul_right _ behind
  have upper := element_within info.sizeOf bound
  rw [Pointer.plus_plus, Pointer.plus_plus]
  refine blank _ (Or.inl ⟨by omega, by omega⟩) ?_
  rintro (here | later)
  · simp only [single, Bool.false_eq_true, if_false] at here
    have := membersLayout.covers_lt (covers_of_headerAt membersLayout unbounded.2.1.messages here.2)
    omega
  · exact not_headerAt_of_clear restLayout unbounded.2.2 clear (by omega) (by omega) later

end Blank

/-- A type with headers has one at a fixed place in each of its instances. -/
theorem inline_header (conf : MemoryConf target) (w : Core) {list : MemberList} (header : list.HasHeader) {size : Nat}
    (layout : list.Layout target size) (unbounded : list.NoBounded) :
    ∃ o, o + target.headerSize ≤ size ∧ ∀ (msg : Pointer) (path : CString),
      list.Initialized conf w msg path → ∃ capacity, HeaderReady target w (msg.plus o) capacity := by
  induction list generalizing size with
  | nil => exact header.elim
  | basic type field rest ih =>
    rcases header with here | later
    · have := header_le_basicExtent target here
      refine ⟨field.offset, by have := layout.1; omega, fun msg path ready =>
        ⟨conf.basicCapacity path type field, ?_⟩⟩
      obtain ⟨own, _⟩ := ready
      split at own
      next sequence => exact own.1
      next single =>
        have isString : type = .string := by simpa [isHeader, single] using here
        have positive : 0 < field.count := by
          cases isArray : field.isArray <;> simp_all [Field.count, Field.isSequence]
          omega
        simpa using own isString 0 positive
    · obtain ⟨o, fits, found⟩ := ih later layout.2.2 unbounded.2
      exact ⟨o, fits, fun msg path ready => found msg path ready.2⟩
  | message info members field rest ihMembers ih =>
    obtain ⟨inside, _, _, membersLayout, restLayout⟩ := layout
    by_cases sequence : field.isSequence = true
    · refine ⟨field.offset, by rw [sequence_extent sequence] at inside; exact inside,
        fun msg path ready => ⟨conf.messageCapacity path field, ?_⟩⟩
      simp only [Initialized, sequence, if_true] at ready
      exact ready.1.1
    · have single : field.isSequence = false := by simpa using sequence
      rcases header with here | inner | later
      · exact absurd here sequence
      · obtain ⟨o, fits, found⟩ := ihMembers inner membersLayout unbounded.2.1
        have extent := size_le_inlineExtent target info single unbounded.1
        refine ⟨field.offset + o, by omega, fun msg path ready => ?_⟩
        simp only [Initialized, single, Bool.false_eq_true, if_false] at ready
        have first := ready.1 0 (inline_extent target info single unbounded.1).2
        rw [Nat.zero_mul, Pointer.plus_zero] at first
        simpa [Pointer.plus_plus] using found _ _ first
      · obtain ⟨o, fits, found⟩ := ih later restLayout unbounded.2.2
        exact ⟨o, fits, fun msg path ready => found msg path ready.2⟩

theorem initialized_of_headerless {list : MemberList} (headerless : ¬ list.HasHeader) (msg : Pointer)
    (path : CString) : list.Initialized conf w msg path := by
  induction list generalizing msg path with
  | nil => trivial
  | basic type field rest ih =>
    simp only [HasHeader, not_or, isHeader, Bool.or_eq_true, decide_eq_true_eq] at headerless
    obtain ⟨⟨notString, notSequence⟩, restHeaderless⟩ := headerless
    refine ⟨?_, ih restHeaderless msg path⟩
    rw [if_neg notSequence]
    exact fun isString => absurd isString notString
  | message info members field rest ihMembers ih =>
    simp only [HasHeader, not_or] at headerless
    refine ⟨?_, ih headerless.2.2 msg path⟩
    rw [if_neg headerless.1]
    exact fun j _ => ihMembers headerless.2.1 _ _

theorem covered_of_headerless {list : MemberList} (headerless : ¬ list.HasHeader) (path : CString) :
    list.Covered conf path := by
  induction list generalizing path with
  | nil => trivial
  | basic type field rest ih =>
    simp only [HasHeader, not_or, isHeader, Bool.or_eq_true, decide_eq_true_eq] at headerless
    exact ⟨fun isString => absurd isString headerless.1.1, ih headerless.2 path⟩
  | message info members field rest ihMembers ih =>
    simp only [HasHeader, not_or] at headerless
    refine ⟨?_, ih headerless.2.2 path⟩
    rw [if_neg headerless.1]
    exact ⟨fun header => absurd header headerless.2.1, ihMembers headerless.2.1 _⟩

end MemberList

theorem HeaderBuilt.ready {Region : Pointer → Nat → Prop} {w : Core} {header : Pointer}
    {capacity bytes : Nat} (built : HeaderBuilt target Region w.memory header capacity bytes)
    (backed : w.heap.Backed header target.headerSize) : HeaderReady target w header capacity :=
  ⟨backed, built.notNull, built.holdsSize, built.holdsCapacity⟩

theorem not_ready_of_zero {w : Core} {header : Pointer} {capacity : Nat} (zero : w.memory header = .zero) :
    ¬ HeaderReady target w header capacity :=
  fun ready => ready.notNull (Memory.Contents.loadPointer_zero zero)

/-- Zero memory is no instance of a type with headers. -/
theorem MemberList.not_initialized_of_zero {conf : MemoryConf target} {w : Core} {list : MemberList}
    (header : list.HasHeader) {size : Nat} (layout : list.Layout target size)
    (unbounded : list.NoBounded) {msg : Pointer} (zero : ∀ o < size, w.memory (msg.plus o) = .zero)
    (path : CString) : ¬ list.Initialized conf w msg path := by
  intro ready
  obtain ⟨o, fits, found⟩ := inline_header conf w header layout unbounded
  obtain ⟨capacity, ready⟩ := found msg path ready
  have positive : 0 < target.headerSize := Nat.mul_pos (by decide) target.word_pos
  exact not_ready_of_zero (zero o (by omega)) ready

/-- What is known of the regions that a creation mode hands out: they are live, and they are not
longer than was asked for unless no size wraps. -/
structure Regions (target : Target) (w : Core) (Region : Pointer → Nat → Prop) (unwrapped : Prop) :
    Prop where
  live : ∀ {data n}, Region data n → w.heap.Backed data n
  ends : ¬ unwrapped → ∀ {data n i k}, Region data n → w.heap.Backed (data.plus i) k → i + k ≤ n

theorem Regions.imp {w : Core} {Region : Pointer → Nat → Prop} {unwrapped unwrapped' : Prop}
    (regions : Regions target w Region unwrapped) (weaker : unwrapped → unwrapped') :
    Regions target w Region unwrapped' :=
  ⟨regions.live, fun notUnwrapped => regions.ends fun holds => notUnwrapped (weaker holds)⟩

namespace MemberList

variable {conf : MemoryConf target} {w : Core} {Region : Pointer → Nat → Prop} {field : Field}
  {members : MemberList} {info : MessageInfo} {path : CString}

/-- The last element of a sequence whose size wraps is not in the region. -/
theorem not_initialized_of_wrapped (header : members.HasHeader)
    (layout : members.Layout target info.sizeOf) (unbounded : members.NoBounded)
    (small : info.sizeOf < target.modulus) {unwrapped : Prop}
    (regions : Regions target w Region unwrapped) (notUnwrapped : ¬ unwrapped) {data : Pointer}
    {capacity : Nat} (wraps : ¬ capacity * info.sizeOf < target.modulus)
    (region : Region data (target.mul capacity info.sizeOf)) :
    ¬ ∀ j < capacity, members.Initialized conf w (data.plus (j * info.sizeOf)) path := by
  intro all
  have positive : 0 < capacity := by
    rcases Nat.eq_zero_or_pos capacity with rfl | positive
    · exact absurd (by simpa using target.modulus_pos) wraps
    · exact positive
  obtain ⟨o, fits, found⟩ := inline_header conf w header layout unbounded
  obtain ⟨_, ready⟩ := found _ path (all (capacity - 1) (by omega))
  have inside := ready.backed
  rw [Pointer.plus_plus] at inside
  have ends := regions.ends notUnwrapped region inside
  have below : target.mul capacity info.sizeOf + target.modulus ≤ capacity * info.sizeOf := by
    have shrunk : target.mul capacity info.sizeOf ≤ capacity * info.sizeOf - target.modulus := by
      rw [Target.mul, Nat.mod_eq_sub_mod (by omega)]
      exact Nat.mod_le _ _
    omega
  have last : (capacity - 1) * info.sizeOf + info.sizeOf = capacity * info.sizeOf := by
    rw [← Nat.succ_mul, Nat.succ_eq_add_one, Nat.sub_add_cancel positive]
  omega

/-- The data of a sequence of strings is zero, so none of them is ready. -/
theorem strings_ready_iff {data : Pointer} {capacity : Nat} (small : capacity < target.modulus)
    (zero : ∀ i < target.mul capacity BasicType.string.plannedSize, w.memory (data.plus i) = .zero) :
    (∀ j < capacity, HeaderReady target w (data.plus (j * target.headerSize)) capacity) ↔ capacity = 0 := by
  constructor
  · intro elements
    by_contra positive
    have oneByte : BasicType.string.plannedSize = 1 := rfl
    rw [oneByte, Target.mul_of_lt (by omega)] at zero
    have first := elements 0 (by omega)
    rw [Nat.zero_mul] at first
    exact not_ready_of_zero (zero 0 (by omega)) first
  · intro none j bound
    omega

section Arrays

variable {rest : MemberList} {size : Nat} {msg : Pointer}

/-- Of the strings of an array only the first is ready. -/
theorem array_ready_iff {capacity : Nat} (layout : (MemberList.basic .string field rest).Layout target size)
    (unbounded : (MemberList.basic .string field rest).NoBounded)
    (blank : (MemberList.basic .string field rest).Blank target w.memory msg)
    (single : field.isSequence = false) (ready : HeaderReady target w (msg.plus field.offset) capacity) :
    (∀ j < field.count, HeaderReady target w ((msg.plus field.offset).plus (j * target.headerSize)) capacity) ↔
      field.count = 1 := by
  have positive : 0 < field.count := by
    cases isArray : field.isArray <;> simp_all [Field.count, Field.isSequence]
    omega
  constructor
  · intro elements
    by_contra several
    exact not_ready_of_zero (blank.strings layout unbounded single (by omega) (by omega))
      (elements 1 (by omega))
  · intro one j bound
    obtain rfl : j = 0 := by omega
    simpa using ready

/-- Of the elements of an array of messages with headers only the first is complete. -/
theorem array_initialized_iff (layout : (MemberList.message info members field rest).Layout target size)
    (unbounded : (MemberList.message info members field rest).NoBounded)
    (blank : (MemberList.message info members field rest).Blank target w.memory msg)
    (single : field.isSequence = false) :
    (∀ j < field.count, members.Initialized conf w ((msg.plus field.offset).plus (j * info.sizeOf)) path) ↔
      (members.HasHeader → field.count = 1) ∧ members.Initialized conf w (msg.plus field.offset) path := by
  have extent := inline_extent target info single unbounded.1
  constructor
  · intro elements
    refine ⟨fun header => ?_, by simpa using elements 0 extent.2⟩
    by_contra several
    refine not_initialized_of_zero header layout.2.2.2.1 unbounded.2.1 (fun o below => ?_) _
      (elements 1 (by omega))
    exact blank.later layout unbounded single (by omega) (by omega) below
  · rintro ⟨one, initialized⟩ j bound
    by_cases header : members.HasHeader
    · obtain rfl : j = 0 := by have := one header; omega
      simpa using initialized
    · exact initialized_of_headerless header _ _

end Arrays

/-- Elements of a sequence whose size does not wrap are complete one by one; where it wraps, the last
of them has no memory. -/
theorem elements_initialized_iff (layout : members.Layout target info.sizeOf) (unbounded : members.NoBounded)
    (small : info.sizeOf < target.modulus) {unwrapped : Prop} (regions : Regions target w Region unwrapped)
    {data : Pointer} {capacity : Nat} (fits : unwrapped → capacity * info.sizeOf < target.modulus)
    (region : Region data (target.mul capacity info.sizeOf))
    (element : capacity * info.sizeOf < target.modulus → ∀ j < capacity,
      (members.Initialized conf w (data.plus (j * info.sizeOf)) path ↔ members.Covered conf path)) :
    (∀ j < capacity, members.Initialized conf w (data.plus (j * info.sizeOf)) path) ↔
      capacity = 0 ∨ (members.HasHeader → capacity * info.sizeOf < target.modulus) ∧
        members.Covered conf path := by
  constructor
  · intro all
    rcases Nat.eq_zero_or_pos capacity with none | positive
    · exact Or.inl none
    by_cases whole : capacity * info.sizeOf < target.modulus
    · exact Or.inr ⟨fun _ => whole, (element whole 0 positive).mp (all 0 positive)⟩
    by_cases header : members.HasHeader
    · exact absurd all (not_initialized_of_wrapped header layout unbounded small regions
        (fun unwrapped => whole (fits unwrapped)) whole region)
    · exact Or.inr ⟨fun has => absurd has header, covered_of_headerless header _⟩
  · rintro (none | ⟨whole, covered⟩) j bound
    · omega
    by_cases header : members.HasHeader
    · exact (element (whole header) j bound).mpr covered
    · exact initialized_of_headerless header _ _

/-- A message that was built is complete exactly when the type and the configuration are covered. -/
theorem initialized_iff {list : MemberList} {size : Nat} (layout : list.Layout target size)
    (unbounded : list.NoBounded) {msg : Pointer} {path : CString}
    (regions : Regions target w Region (Unwrapped conf list path))
    (built : list.Built conf Region w.memory msg path) (blank : list.Blank target w.memory msg)
    (live : w.heap.Backed msg size) : list.Initialized conf w msg path ↔ list.Covered conf path := by
  induction list generalizing size msg path with
  | nil => simp [Initialized, Covered]
  | basic type field rest ih =>
    obtain ⟨own, restBuilt⟩ := built
    have later := ih layout.2.2 unbounded.2 (regions.imp fun unwrapped n member =>
      unwrapped n (List.mem_append_right _ member)) restBuilt (blank.rest_basic layout) live
    refine and_congr ?_ later
    have fits := layout.1
    by_cases sequence : field.isSequence = true
    · have header : isHeader type field = true := by simp [isHeader, sequence]
      obtain ⟨headerBuilt, zero⟩ := own header
      have long := header_le_basicExtent target header
      have ready := headerBuilt.ready (live.plus (i := field.offset) (by omega))
      simp only [sequence, if_true, ready, true_and]
      refine forall_congr' fun isString => ?_
      subst isString
      exact strings_ready_iff (conf.basicCapacity_lt path .string field) zero
    · have single : field.isSequence = false := by simpa using sequence
      simp only [single, Bool.false_eq_true, if_false]
      refine forall_congr' fun isString => ?_
      subst isString
      obtain ⟨headerBuilt, _⟩ := own rfl
      have long : target.headerSize ≤ field.basicExtent target .string := header_le_basicExtent target rfl
      have ready := headerBuilt.ready (live.plus (i := field.offset) (by omega))
      exact array_ready_iff layout unbounded blank single ready
  | message info members field rest ihMembers ih =>
    obtain ⟨inSequence, inPlace, restBuilt⟩ := built
    obtain ⟨fits, clear, small, membersLayout, restLayout⟩ := id layout
    have later := ih restLayout unbounded.2.2 (regions.imp fun unwrapped n member =>
      unwrapped n (List.mem_append_right _ member)) restBuilt (blank.rest_message layout unbounded) live
    refine and_congr ?_ later
    by_cases sequence : field.isSequence = true
    · obtain ⟨headerBuilt, elementsBuilt⟩ := inSequence sequence
      rw [sequence_extent sequence] at fits
      have ready := headerBuilt.ready (live.plus (i := field.offset) fits)
      simp only [sequence, if_true, ready, true_and]
      refine elements_initialized_iff membersLayout unbounded.2.1 small regions (fun unwrapped => unwrapped _ ?_)
        headerBuilt.region fun whole j bound => ?_
      · rw [requests, if_pos sequence]
        exact List.mem_append_left _ List.mem_cons_self
      · obtain ⟨builtHere, zero⟩ := elementsBuilt whole j bound
        have le := element_within info.sizeOf bound
        refine ihMembers membersLayout unbounded.2.1 (regions.imp fun unwrapped n member =>
          unwrapped n ?_) builtHere (fun o covered notHeader => ?_) ?_
        · rw [requests, if_pos sequence]
          exact List.mem_append_left _ (List.mem_cons_of_mem _
            (List.mem_flatMap.mpr ⟨j, List.mem_range.mpr bound, member⟩))
        · rw [Pointer.plus_plus]
          exact zero o (membersLayout.covers_lt covered) notHeader
        · refine (regions.live headerBuilt.region).plus ?_
          rw [Target.mul_of_lt whole]
          exact le
    · have single : field.isSequence = false := by simpa using sequence
      have extent := inline_extent target info single unbounded.1
      have long := size_le_inlineExtent target info single unbounded.1
      have first := ihMembers membersLayout unbounded.2.1 (regions.imp fun unwrapped n member =>
        unwrapped n (by
          rw [requests]
          exact List.mem_append_left _ (by rwa [if_neg sequence]))) (inPlace single)
        (blank.first layout unbounded single) (live.plus (i := field.offset) (by omega))
      simp only [single, Bool.false_eq_true, if_false]
      rw [← first]
      exact array_initialized_iff layout unbounded blank single

end MemberList

theorem wholeObject_regions (owner : Nat) (w : Core) (unwrapped : Prop) :
    Regions target w (WholeObject owner w.heap.extent) unwrapped where
  live := fun ⟨start, _, found⟩ => ⟨_, found, by omega⟩
  ends _ _ _ _ _ := by
    rintro ⟨start, _, found⟩ ⟨size, found', fits⟩
    rw [Pointer.plus_block, found, Option.mem_some_iff] at found'
    subst found'
    simp only [Pointer.plus_offset] at fits
    omega

theorem inBuffer_regions (buffer : Pointer) (limit : Nat) (w : Core) {unwrapped : Prop}
    (holds : unwrapped) : Regions target w (InBuffer buffer limit w.heap.extent) unwrapped where
  live := by
    rintro data n ⟨i, rfl, inside, size, found, fits⟩
    exact ⟨size, found, by simp only [Pointer.plus_offset]; omega⟩
  ends notUnwrapped := absurd holds notUnwrapped

theorem unwrapped_of_sum {conf : MemoryConf target} {list : MemberList} {path : CString}
    (fits : (requests conf list path).sum < target.modulus) : Unwrapped conf list path :=
  fun _ member => Nat.lt_of_le_of_lt (List.le_sum_of_mem member) fits

theorem not_heads_of_not_headerAt {list : MemberList} {msg : Pointer} {o : Nat}
    (notHeader : ¬ list.HeaderAt target o) : msg.plus o ∉ heads target list msg := by
  rintro ⟨o', header, same⟩
  obtain rfl := Pointer.plus_left_injective msg same
  exact notHeader header

namespace Core

variable {conf : MemoryConf target} {type : MessageMembers} {msg buffer : Pointer} {bufferLen : Nat}
  {w : Core}

theorem create_blank (layout : type.Layout target) (unbounded : type.members.NoBounded)
    (grants : w.heap.Grants) (live : w.heap.Backed msg type.info.sizeOf) {o : Nat}
    (inside : o < type.info.sizeOf) (notHeader : ¬ type.members.HeaderAt target o) :
    (w.create conf type msg).2.memory (msg.plus o) = .zero := by
  rw [(create_builds conf layout unbounded grants live).kept
    (not_heads_of_not_headerAt notHeader) ?_]
  · exact Memory.Contents.fillZero_inside _ inside
  · rintro ⟨number, later, same⟩
    obtain ⟨size, found, _⟩ := live
    rw [← Pointer.plus_block msg o, same] at found
    have := Memory.Heap.number_lt_fresh found
    simp [prepareDynamic] at later
    omega

theorem createStatic_blank (layout : type.Layout target) (unbounded : type.members.NoBounded)
    (suits : Suits conf type msg buffer bufferLen w) {o : Nat}
    (inside : o < type.info.sizeOf) (notHeader : ¬ type.members.HeaderAt target o) :
    (w.createStatic conf type msg buffer bufferLen).2.memory (msg.plus o) = .zero := by
  rw [(createStatic_builds layout unbounded suits).kept (not_heads_of_not_headerAt notHeader) ?_]
  · exact Memory.Contents.fillZero_inside _ inside
  · rintro ⟨i, _, below, same⟩
    exact suits.apart o inside i (Nat.lt_of_lt_of_le below suits.enough) same

theorem create_initialized_iff (layout : type.Layout target) (unbounded : type.members.NoBounded)
    (grants : w.heap.Grants) (live : w.heap.Backed msg type.info.sizeOf) :
    type.members.Initialized conf.getConfiguration (w.create conf type msg).2 msg .empty ↔
      type.members.Covered conf.getConfiguration .empty := by
  have runs := create_builds conf layout unbounded grants live
  obtain ⟨_, _, built, _⟩ := runs.finished
  exact MemberList.initialized_iff layout.1 unbounded (wholeObject_regions _ _ _) built
    (fun o covered notHeader => create_blank layout unbounded grants live
      (layout.1.covers_lt covered) notHeader) (runs.live (by simpa [prepareDynamic] using live))

theorem createStatic_initialized_iff (layout : type.Layout target) (unbounded : type.members.NoBounded)
    (suits : Suits conf type msg buffer bufferLen w) :
    type.members.Initialized conf.getConfiguration (w.createStatic conf type msg buffer bufferLen).2
        msg .empty ↔ type.members.Covered conf.getConfiguration .empty := by
  have runs := createStatic_builds layout unbounded suits
  obtain ⟨_, _, built, _⟩ := runs.finished
  exact MemberList.initialized_iff layout.1 unbounded
    (inBuffer_regions _ _ _ (unwrapped_of_sum suits.dynamicRequirement_lt)) built (fun o covered notHeader => createStatic_blank layout unbounded suits
      (layout.1.covers_lt covered) notHeader)
    (runs.live (by simpa [prepared, prepareStatic, placeBuffer] using suits.messageLive))

theorem createStatic_succeeds (suits : Suits conf type msg buffer bufferLen w) :
    (w.createStatic conf type msg buffer bufferLen).1 = true := by
  have notNull : buffer ≠ .null := by
    rintro rfl
    exact Memory.Heap.not_backed_null _ rfl _ suits.bufferLive
  have enough := suits.enough
  have small := suits.small
  have fits : staticRequirement conf type < target.modulus := by omega
  have whole := createStatic_placed fits msg notNull bufferLen w
  simp only [enough, if_true] at whole
  exact whole.1

end Core

/-- Where the name trees are served creation succeeds; the run uses them as it should and a reported success
means that every string and sequence of the message is initialised if and only if they are served and the type and
the configuration are covered. -/
theorem created_initialized_iff (conf : MemoryConf target) (type : MessageMembers) (msg : Pointer)
    (core : Core) (s : StringHeap) (layout : type.Layout target) (unbounded : type.members.NoBounded) :
    (core.heap.Grants → core.heap.Backed msg type.info.sizeOf →
      let demands := (PlannerCall.create msg).demands conf type core
      let created := createMessageMemory target (heapStrings target) conf type msg ⟨core, s⟩
      (s.Serves demands → created.1 = true) ∧
        (Lifetimes (s.since created.2.scratch) ∧
            (created.1 = true → type.members.Initialized conf.getConfiguration created.2.core msg .empty) ↔
          s.Serves demands ∧ type.members.Covered conf.getConfiguration .empty)) ∧
    ∀ (buffer : Pointer) (bufferLen : Nat), core.Suits conf type msg buffer bufferLen →
      let demands := (PlannerCall.createStatic msg buffer bufferLen).demands conf type core
      let created := createStaticMessageMemory target (heapStrings target) conf type msg buffer bufferLen ⟨core, s⟩
      (s.Serves demands → created.1 = true) ∧
        (Lifetimes (s.since created.2.scratch) ∧
            (created.1 = true → type.members.Initialized conf.getConfiguration created.2.core msg .empty) ↔
          s.Serves demands ∧ type.members.Covered conf.getConfiguration .empty) := by
  constructor
  · intro grants live demands created
    have ends := createMessageMemory_ends conf type core s msg
    have succeeds := Core.create_succeeds conf type msg grants
    refine ⟨fun served => (ends.of_served served).1.trans succeeds, ends.lifetimes_and_iff ?_⟩
    rintro ⟨answer, reached⟩
    rw [answer, reached, imp_iff_right succeeds]
    exact Core.create_initialized_iff layout unbounded grants live
  · intro buffer bufferLen suits demands created
    have ends := createStaticMessageMemory_ends conf type core s msg buffer bufferLen
    have succeeds := Core.createStatic_succeeds suits
    refine ⟨fun served => (ends.of_served served).1.trans succeeds, ends.lifetimes_and_iff ?_⟩
    rintro ⟨answer, reached⟩
    rw [answer, reached, imp_iff_right succeeds]
    exact Core.createStatic_initialized_iff layout unbounded suits

/-- `MultiArrayLayout` is covered. -/
theorem created_initialized_multiArrayLayout :
    let core := ((Core.boot fun _ _ => true).allocate 1 16).2
    let s := StringHeap.boot fun _ => false
    let conf : MemoryConf cortexM := { boardDefault with rules :=
      [⟨.ofString "dim.label", fun _ => 0, ⟨7, by decide⟩⟩] }
    let demands := (PlannerCall.create ⟨.object 1 0, 0⟩).demands conf (multiArrayLayout cortexM) core
    let created := createMessageMemory cortexM (heapStrings cortexM) conf (multiArrayLayout cortexM)
      ⟨.object 1 0, 0⟩ ⟨core, s⟩
    (s.Serves demands → created.1 = true) ∧
      (Lifetimes (s.since created.2.scratch) ∧
          (created.1 = true → (multiArrayLayout cortexM).members.Initialized conf.getConfiguration created.2.core
            ⟨.object 1 0, 0⟩ .empty) ↔
        s.Serves demands ∧ (multiArrayLayout cortexM).members.Covered conf.getConfiguration .empty) :=
  (created_initialized_iff _ (multiArrayLayout cortexM) ⟨.object 1 0, 0⟩ ((Core.boot fun _ _ => true).allocate 1 16).2
    (.boot fun _ => false) multiArrayLayout_layout multiArrayLayout_unbounded).1 (fun _ _ => rfl) (by decide)

/-- `ListParametersResult` on a 32-bit board: the elements of its sequences of strings have no headers. -/
theorem names_not_initialized :
    let core := ((Core.boot fun _ _ => true).allocate 1 24).2
    let s := StringHeap.boot fun _ => false
    let created := createMessageMemory cortexM (heapStrings cortexM) boardDefault (listParametersResult cortexM)
      ⟨.object 1 0, 0⟩ ⟨core, s⟩
    created.1 = true ∧ ¬ (listParametersResult cortexM).members.Initialized boardDefault.getConfiguration
      created.2.core ⟨.object 1 0, 0⟩ .empty := by
  intro core s created
  have served := PlannerCall.serves_ruleless (listParametersResult cortexM) (.create ⟨.object 1 0, 0⟩)
    (rfl : boardDefault.nRules = 0) core s
  obtain ⟨same, reached⟩ := (createMessageMemory_ends boardDefault (listParametersResult cortexM) core s
    ⟨.object 1 0, 0⟩).of_served served
  have grants : core.heap.Grants := fun _ _ => rfl
  refine ⟨same.trans (Core.create_succeeds _ _ _ grants), ?_⟩
  rw [reached, Core.create_initialized_iff listParametersResult_layout listParametersResult_unbounded grants
    (by decide)]
  rintro ⟨names, -⟩
  exact absurd (names rfl) (by decide)

end MicroRos
