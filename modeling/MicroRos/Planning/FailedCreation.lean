import MicroRos.Planning.RoundTrip

/-! What a creation leaves when the allocator refuses some of its requests.

A refused request ends one call of the recursion only, so the headers that have memory
form no prefix of the traversal. What is left is still a message that holds its blocks,
as long as no header that may have stayed empty is a sequence whose elements have headers.
-/

set_option autoImplicit false

namespace MicroRos

open Memory (Pointer Contents Block Heap Byte)

variable {target : Target}

theorem HeaderHeld.of_null {owner : Nat} {h : Heap} {m : Contents} {header : Pointer}
    (backed : h.Backed header target.headerSize)
    (null : m.loadPointer target.word header = .null) : HeaderHeld target owner h m header :=
  ⟨backed, Or.inl null⟩

theorem first_of_headerSpan {p : Pointer} {part : Set Pointer} (inside : headerSpan target p ⊆ part) :
    p ∈ part :=
  inside (mem_headerSpan.mpr ⟨0, Nat.mul_pos (by decide) target.word_pos, (p.plus_zero).symm⟩)

namespace MemberList

/-- No sequence that stands in an instance itself has memory for elements with headers. -/
def Flat (conf : MemoryConf target) : MemberList → CString → Prop
  | .nil, _ => True
  | .basic _ _ rest, path => rest.Flat conf path
  | .message _ members field rest, path =>
    (field.isSequence = true → 0 < conf.messageCapacity path field → ¬ members.HasHeader) ∧
    (field.isSequence = false → members.Flat conf (path.child field.name)) ∧
    rest.Flat conf path

section Headerless

variable {conf : MemoryConf target} {list : MemberList}

/-- Nothing is done to an instance without headers. -/
theorem traverse_of_headerless (headerless : ¬ list.HasHeader) (operation : Operation) (msg : Pointer)
    (path : CString) (stack : List Step) (index used : Nat) (w : Core) :
    (traverse conf operation list msg path stack index used w).2 = w := by
  induction list generalizing msg path stack index used w with
  | nil => rfl
  | basic type field rest ih =>
    simp only [HasHeader, not_or] at headerless
    simp only [traverse, headerless.1, Bool.false_eq_true, if_false]
    exact ih headerless.2 _ _ _ _ _ _
  | message info members field rest ihMembers ih =>
    simp only [HasHeader, not_or] at headerless
    rw [traverse, if_neg headerless.1]
    simp only [ih headerless.2.2, ihMembers headerless.2.1]

theorem held_of_headerless (headerless : ¬ list.HasHeader) (owner : Nat) (h : Heap) (m : Contents)
    (msg : Pointer) (path : CString) :
    list.Held conf owner h m msg path ∧ list.releases conf m msg path = [] := by
  induction list generalizing msg path with
  | nil => exact ⟨trivial, rfl⟩
  | basic type field rest ih =>
    simp only [HasHeader, not_or] at headerless
    obtain ⟨held, none⟩ := ih headerless.2 msg path
    exact ⟨⟨fun header => absurd header headerless.1, held⟩, by simp [releases, headerless.1, none]⟩
  | message info members field rest ihMembers ih =>
    simp only [HasHeader, not_or] at headerless
    obtain ⟨held, none⟩ := ih headerless.2.2 msg path
    obtain ⟨inner, innerNone⟩ := ihMembers headerless.2.1 (msg.plus field.offset) (path.child field.name)
    exact ⟨⟨fun sequence => absurd sequence headerless.1, fun _ => inner, held⟩,
      by simp [releases, headerless.1, none, innerNone]⟩

theorem spread_of_headerless (headerless : ¬ list.HasHeader) (path : CString) :
    list.Spread conf path := by
  induction list generalizing path with
  | nil => trivial
  | basic type field rest ih => exact ih (fun later => headerless (Or.inr later)) path
  | message info members field rest ihMembers ih =>
    simp only [HasHeader, not_or] at headerless
    exact ⟨fun sequence => absurd sequence headerless.1, fun _ => ihMembers headerless.2.1 _,
      ih headerless.2.2 path⟩

theorem Flat.spread {path : CString} (flat : list.Flat conf path) : list.Spread conf path := by
  induction list generalizing path with
  | nil => trivial
  | basic type field rest ih => exact ih flat
  | message info members field rest ihMembers ih =>
    obtain ⟨inSequence, inPlace, restFlat⟩ := flat
    refine ⟨fun sequence positive => ?_, fun single => ihMembers (inPlace single), ih restFlat⟩
    have headerless := inSequence sequence positive
    exact ⟨fun header => absurd header headerless, spread_of_headerless headerless _⟩

end Headerless

section Blank

variable {conf : MemoryConf target} {owner : Nat} {h : Heap} {m : Contents}

/-- The elements of a flat sequence hold nothing. -/
theorem Flat.elements (owner : Nat) (h : Heap) (m : Contents) {info : MessageInfo} {members rest : MemberList}
    {field : Field} {path : CString}
    (flat : (MemberList.message info members field rest).Flat conf path)
    (sequence : field.isSequence = true) (data : Pointer) :
    (∀ j < conf.messageCapacity path field, members.Held conf owner h m
        (data.plus (target.mul j info.sizeOf)) (path.child field.name)) ∧
      (List.range (conf.messageCapacity path field)).flatMap (fun j =>
        members.releases conf m (data.plus (target.mul j info.sizeOf)) (path.child field.name)) = [] := by
  have headerless : ∀ j < conf.messageCapacity path field, ¬ members.HasHeader :=
    fun j bound => flat.1 sequence (by omega)
  refine ⟨fun j bound => (held_of_headerless (headerless j bound) owner h m _ _).1, ?_⟩
  refine List.flatMap_eq_nil_iff.mpr fun j bound => ?_
  exact (held_of_headerless (headerless j (List.mem_range.mp bound)) owner h m _ _).2

/-- Headers that are zero hold nothing. -/
theorem held_of_blank (owner : Nat) {list : MemberList} {size : Nat} (layout : list.Layout target size)
    (unbounded : list.NoBoundedMessage) {msg : Pointer} {path : CString} (flat : list.Flat conf path)
    (live : h.Backed msg size) (blank : ∀ q ∈ heads target list msg, m q = .zero) :
    list.Held conf owner h m msg path ∧ ∀ p ∈ list.releases conf m msg path, p = .null := by
  induction list generalizing size msg path with
  | nil => exact ⟨trivial, by simp [releases]⟩
  | basic type field rest ih =>
    rw [heads_basic] at blank
    obtain ⟨restHeld, restNull⟩ := ih layout.2.2 unbounded flat live fun q later => blank q (Or.inr later)
    have null : isHeader type field = true → m.loadPointer target.word (msg.plus field.offset) = .null := by
      intro header
      rw [if_pos header] at blank
      exact Memory.Contents.loadPointer_zero (blank _ (first_of_headerSpan fun q here => Or.inl here))
    refine ⟨⟨fun header => ?_, restHeld⟩, fun p among => ?_⟩
    · have long := header_le_basicExtent target header
      have fits := layout.1
      exact .of_null (live.plus (i := field.offset) (by omega)) (null header)
    · rcases List.mem_append.mp among with own | later
      · split at own
        next header => rw [List.mem_singleton.mp own, null header]
        next plain => cases own
      · exact restNull p later
  | message info members field rest ihMembers ih =>
    obtain ⟨fits, _, _, membersLayout, restLayout⟩ := layout
    rw [heads_message] at blank
    obtain ⟨restHeld, restNull⟩ := ih restLayout unbounded.2.2 flat.2.2 live
      fun q later => blank q (Or.inr later)
    by_cases sequence : field.isSequence = true
    · rw [if_pos sequence] at blank
      have null : m.loadPointer target.word (msg.plus field.offset) = .null :=
        Memory.Contents.loadPointer_zero (blank _ (first_of_headerSpan fun q here => Or.inl here))
      have elements := flat.elements owner h m sequence
      rw [sequence_extent sequence] at fits
      refine ⟨⟨fun _ => ⟨.of_null (live.plus (i := field.offset) fits) null, ?_⟩,
        fun single => absurd sequence (by simp [single]), restHeld⟩, fun p among => ?_⟩
      · exact (elements _).1
      · simp only [releases, if_pos sequence, (elements _).2, List.nil_append, List.singleton_append,
          List.mem_cons, null] at among
        exact among.elim id (restNull p)
    · have single : field.isSequence = false := by simpa using sequence
      have long := size_le_inlineExtent target info single unbounded.1
      obtain ⟨held, null⟩ := ihMembers membersLayout unbounded.2.1 (flat.2.1 single)
        (live.plus (i := field.offset) (by omega)) fun q here => blank q (Or.inl (by rwa [if_neg sequence]))
      refine ⟨⟨fun here => absurd here sequence, fun _ => held, restHeld⟩, fun p among => ?_⟩
      simp only [releases, if_neg sequence] at among
      exact (List.mem_append.mp among).elim (null p) (restNull p)

end Blank

end MemberList

/-- Between the two states objects were obtained for some of the headers in `part`, and nothing was
written but these headers and the new objects. -/
structure Acquires (owner : Nat) (numbers : List Nat) (part : Set Pointer) (w w' : Core) : Prop
    extends Obtains owner numbers w w' where
  kept : ∀ q ∉ part, q.block ∉ blocks (objects owner numbers) → w'.memory q = w.memory q

namespace Acquires

variable {owner : Nat} {numbers later : List Nat} {part others : Set Pointer} {w w' w'' : Core}

theorem refl (owner : Nat) (w : Core) : Acquires owner [] ∅ w w :=
  ⟨.of_silent rfl (Core.Logs.refl w), fun _ _ _ => rfl⟩

theorem seq (one : Acquires owner numbers part w w') (two : Acquires owner later others w' w'') :
    Acquires owner (numbers ++ later) (part ∪ others) w w'' where
  toObtains := one.toObtains.seq two.toObtains
  kept q outside old := by
    simp only [mem_blocks_objects, List.mem_append, not_exists, not_and] at old
    rw [two.kept q (fun inside => outside (Or.inr inside)), one.kept q fun inside => outside (Or.inl inside)]
    · simpa [mem_blocks_objects] using fun number member => old number (Or.inl member)
    · simpa [mem_blocks_objects] using fun number member => old number (Or.inr member)

theorem mono (acquires : Acquires owner numbers part w w') (more : part ⊆ others) :
    Acquires owner numbers others w w' :=
  ⟨acquires.toObtains, fun q outside => acquires.kept q fun inside => outside (more inside)⟩

/-- What was alive before is none of the new objects. -/
theorem old (acquires : Acquires owner numbers part w w') {b : Block} (alive : w.heap.extent b ≠ none) :
    b ∉ blocks (objects owner numbers) := by
  intro isNew
  obtain ⟨number, member, rfl⟩ := mem_blocks_objects.mp isNew
  exact alive (w.heap.freshDead owner number (acquires.numbered number member).1)

theorem backed (acquires : Acquires owner numbers part w w') {p : Pointer} {n : Nat}
    (live : w.heap.Backed p n) : w'.heap.Backed p n := by
  obtain ⟨size, found, fits⟩ := live
  refine ⟨size, ?_, fits⟩
  rwa [acquires.others _ (acquires.old (by rw [found]; simp))]

variable {conf : MemoryConf target} {list : MemberList} {msg : Pointer} {path : CString}

/-- Whatever a message holds, it still holds when others have acquired memory. -/
theorem preserves (acquires : Acquires owner numbers part w w')
    (held : list.Held conf owner w.heap w.memory msg path) {n : Nat} (live : w.heap.Backed msg n)
    (alive : ∀ b ∈ blocks (list.releases conf w.memory msg path), w.heap.extent b ≠ none)
    (clear : ∀ q ∈ part, q ∉ heads target list msg ∧
      q.block ∉ blocks (list.releases conf w.memory msg path)) :
    list.Held conf owner w'.heap w'.memory msg path ∧
      list.releases conf w'.memory msg path = list.releases conf w.memory msg path := by
  have here : w.heap.extent msg.block ≠ none := by
    obtain ⟨size, found, _⟩ := live
    rw [found]
    simp
  have same : list.SamePointers conf w.memory w'.memory msg path := by
    refine MemberList.SamePointers.of_agree held fun q _ among => ?_
    rcases among with head | inBlock
    · refine acquires.kept q (fun inside => (clear q inside).1 head) ?_
      obtain ⟨o, _, rfl⟩ := head
      exact acquires.old here
    · exact acquires.kept q (fun inside => (clear q inside).2 inBlock) (acquires.old (alive _ inBlock))
  refine ⟨same.held (fun b _ among => acquires.others b (acquires.old ?_)) held, same.releases⟩
  rcases among with rfl | inBlock
  · exact here
  · exact alive b inBlock

end Acquires

namespace Core

variable {conf : MemoryConf target}

theorem planHeader_create_memory (conf : MemoryConf target) (site : Site) (header : Pointer)
    (capacity memberSize : Nat) (w : Core) :
    let bytes := target.mul capacity memberSize
    let data := (w.heap.allocate conf.owner bytes).1
    (w.planHeader conf .create site header capacity memberSize).2.memory =
      if data = .null then w.memory.storePointer target.word header data
      else (((w.memory.storePointer target.word header data).fillZero data bytes).storeSize
        target.word (header.plus target.word) 0).storeSize target.word (header.plus (2 * target.word)) capacity := by
  intro bytes data
  simp only [planHeader, setUpHeader]
  have answered : ((w.record (.resolved site capacity)).allocate conf.owner bytes).1 = data := rfl
  have untouched : ((w.record (.resolved site capacity)).allocate conf.owner bytes).2.memory = w.memory := rfl
  generalize (w.record (.resolved site capacity)).allocate conf.owner bytes = answer at answered untouched ⊢
  simp only [answered]
  split
  · simp [untouched]
  · simp [untouched, bytes]

/-- One header acquires the object that its request is answered with, or holds nothing. -/
theorem planHeader_acquires {w : Core} {header : Pointer} (live : w.heap.Backed header target.headerSize)
    (site : Site) {capacity : Nat} (small : capacity < target.modulus) (memberSize : Nat) :
    let after := (w.planHeader conf .create site header capacity memberSize).2
    ∃ numbers, Acquires conf.owner numbers (headerSpan target header) w after ∧
      HeaderHeld target conf.owner after.heap after.memory header ∧
      [after.memory.loadPointer target.word header].filter (· ≠ .null) = objects conf.owner numbers := by
  intro after
  have memory := planHeader_create_memory conf site header capacity memberSize w
  obtain ⟨numbers, obtains, these⟩ := planHeader_obtains conf site header capacity memberSize w
  change after.memory = _ at memory
  change Obtains _ _ _ after at obtains
  generalize answered : (w.heap.allocate conf.owner (target.mul capacity memberSize)).1 = data at memory these
  have isObject : data ≠ .null → ∃ number ∈ numbers, ⟨.object conf.owner number, 0⟩ = data := fun notNull =>
    List.mem_map.mp (by rw [← objects, these]; simp [notNull])
  have words : ∀ q ∉ headerSpan target header, ∀ i, i + target.word ≤ target.headerSize →
      ¬ (header.plus i).Spans target.word q := fun q outside i fits inside => outside (inside.within fits)
  have first : ∀ q ∉ headerSpan target header,
      w.memory.storePointer target.word header data q = w.memory q := fun q outside =>
    Contents.storePointer_outside _ _ _ (words q outside 0 (by simp only [Target.headerSize]; omega))
  have kept : ∀ q ∉ headerSpan target header, q.block ∉ blocks (objects conf.owner numbers) →
      after.memory q = w.memory q := by
    intro q outside old
    rw [memory]
    split
    next => exact first q outside
    next notNull =>
      have other : ¬ data.Spans (target.mul capacity memberSize) q := by
        rintro ⟨same, -, -⟩
        obtain ⟨number, isNumber, rfl⟩ := isObject notNull
        exact old (mem_blocks_objects.mpr ⟨number, isNumber, same⟩)
      rw [Contents.storeSize_outside _ _ _ (words q outside _ (by simp only [Target.headerSize]; omega)),
        Contents.storeSize_outside _ _ _ (words q outside _ (by simp only [Target.headerSize]; omega)),
        Contents.fillZero_outside _ other, first q outside]
  have acquires : Acquires conf.owner numbers (headerSpan target header) w after := ⟨obtains, kept⟩
  have pointer : after.memory.loadPointer target.word header = data := by
    have stored := Contents.loadPointer_storePointer target.word_pos w.memory header data
    rw [memory]
    split
    next => exact stored
    next notNull =>
      -- The new object is zeroed, which does not reach the header.
      obtain ⟨number, isNumber, isData⟩ := isObject notNull
      have apart : header.block ≠ data.block := by
        intro same
        obtain ⟨size, found, _⟩ := live
        refine acquires.old (b := header.block) (by rw [found]; simp) ?_
        exact mem_blocks_objects.mpr ⟨number, isNumber, by rw [same, ← isData]⟩
      refine (header_words (.trans ?_ stored) small).1
      exact Contents.loadPointer_congr target.word_pos fun i _ =>
        Contents.fillZero_outside _ fun inside => apart inside.1
  refine ⟨numbers, acquires, ⟨acquires.backed live, ?_⟩, by rw [pointer, these]⟩
  rw [pointer]
  by_cases isNull : data = .null
  · exact Or.inl isNull
  · obtain ⟨number, isNumber, rfl⟩ := isObject isNull
    exact Or.inr ⟨rfl, ⟨number, rfl⟩, obtains.live number isNumber⟩

end Core

namespace MemberList

variable {conf : MemoryConf target}

/-- What a creation leaves of these members, whichever requests are refused: the message holds the
objects that were obtained. -/
def Attempted (conf : MemoryConf target) (list : MemberList) (msg : Pointer) (path : CString)
    (w w' : Core) : Prop :=
  ∃ numbers, Acquires conf.owner numbers (heads target list msg) w w' ∧
    list.Held conf conf.owner w'.heap w'.memory msg path ∧
    (list.releases conf w'.memory msg path).filter (· ≠ .null) = objects conf.owner numbers

theorem blocks_of_filter {pointers : List Pointer} {owner : Nat} {numbers : List Nat}
    (same : pointers.filter (· ≠ .null) = objects owner numbers) :
    ∀ b ∈ blocks pointers, b ∈ blocks (objects owner numbers) := by
  intro b member
  obtain ⟨⟨p, among, rfl⟩, notNull⟩ := mem_blocks.mp member
  rw [← same, mem_blocks]
  refine ⟨⟨p, List.mem_filter.mpr ⟨among, ?_⟩, rfl⟩, notNull⟩
  simpa using fun isNull => notNull (by rw [isNull]; rfl)

/-- A part of the members, and then the rest of them. -/
theorem Attempted.seq {list rest : MemberList} {msg msg' : Pointer} {path path' : CString} {w w' w'' : Core}
    {n : Nat} (one : list.Attempted conf msg path w w') (two : rest.Attempted conf msg' path' w' w'')
    (live : w.heap.Backed msg n) (same : msg'.block = msg.block)
    (apart : Disjoint (heads target list msg) (heads target rest msg')) :
    ∃ numbers, Acquires conf.owner numbers (heads target list msg ∪ heads target rest msg') w w'' ∧
      (list.Held conf conf.owner w''.heap w''.memory msg path ∧
        rest.Held conf conf.owner w''.heap w''.memory msg' path') ∧
      (list.releases conf w''.memory msg path ++ rest.releases conf w''.memory msg' path').filter
        (· ≠ .null) = objects conf.owner numbers := by
  obtain ⟨numbers, acquires, held, these⟩ := one
  obtain ⟨later, acquires', held', these'⟩ := two
  have alive : ∀ b ∈ blocks (list.releases conf w'.memory msg path), w'.heap.extent b ≠ none := by
    intro b member
    obtain ⟨number, isNumber, rfl⟩ := mem_blocks_objects.mp (blocks_of_filter these b member)
    exact acquires.live number isNumber
  have outside : msg.block ∉ blocks (list.releases conf w'.memory msg path) := fun member => by
    obtain ⟨size, found, _⟩ := live
    exact acquires.old (b := msg.block) (by rw [found]; simp) (blocks_of_filter these _ member)
  obtain ⟨still, unchanged⟩ := acquires'.preserves held (acquires.backed live) alive fun q inside =>
    ⟨fun head => Set.disjoint_left.mp apart head inside, by
      obtain ⟨o, _, rfl⟩ := inside
      simpa [same] using outside⟩
  refine ⟨numbers ++ later, acquires.seq acquires', ⟨still, held'⟩, ?_⟩
  rw [List.filter_append, unchanged, these, these', objects, objects, objects, List.map_append]

/-- Members that were not reached hold nothing. -/
theorem Attempted.of_blank {list : MemberList} {size : Nat} (layout : list.Layout target size)
    (unbounded : list.NoBoundedMessage) {msg : Pointer} {path : CString} (flat : list.Flat conf path) {w : Core}
    (live : w.heap.Backed msg size) (blank : ∀ q ∈ heads target list msg, w.memory q = .zero) :
    list.Attempted conf msg path w w := by
  obtain ⟨held, null⟩ := held_of_blank conf.owner layout unbounded flat live blank
  refine ⟨[], (Acquires.refl conf.owner w).mono (Set.empty_subset _), held, ?_⟩
  exact List.filter_eq_nil_iff.mpr fun p among => by simp [null p among]

/-- Memory that later members stand in is as it was. -/
theorem Attempted.blank {list rest : MemberList} {msg : Pointer} {path : CString} {w w' : Core} {n : Nat}
    (attempted : list.Attempted conf msg path w w') (live : w.heap.Backed msg n)
    (apart : Disjoint (heads target list msg) (heads target rest msg))
    (blank : ∀ q ∈ heads target rest msg, w.memory q = .zero) :
    ∀ q ∈ heads target rest msg, w'.memory q = .zero := by
  obtain ⟨numbers, acquires, -, -⟩ := attempted
  intro q inside
  rw [acquires.kept q (Set.disjoint_right.mp apart inside), blank q inside]
  obtain ⟨o, _, rfl⟩ := inside
  obtain ⟨size, found, _⟩ := live
  exact acquires.old (by rw [Pointer.plus_block, found]; simp)

theorem Attempted.cons_basic {type : BasicType} {field : Field} {rest : MemberList} {msg : Pointer}
    {path : CString} {w w' w'' : Core} {n : Nat}
    (one : (MemberList.basic type field .nil).Attempted conf msg path w w')
    (two : rest.Attempted conf msg path w' w'') (live : w.heap.Backed msg n)
    (apart : Disjoint (heads target (.basic type field .nil) msg) (heads target rest msg)) :
    (MemberList.basic type field rest).Attempted conf msg path w w'' := by
  obtain ⟨numbers, acquires, ⟨held, restHeld⟩, these⟩ := one.seq two live rfl apart
  have whole : heads target (.basic type field .nil) msg ∪ heads target rest msg =
      heads target (.basic type field rest) msg := by
    rw [heads_basic, heads_basic, heads_nil, Set.union_empty]
  refine ⟨numbers, whole ▸ acquires, ⟨held.1, restHeld⟩, ?_⟩
  simpa only [releases, List.append_nil] using these

theorem Attempted.cons_message {info : MessageInfo} {members rest : MemberList} {field : Field}
    {msg : Pointer} {path : CString} {w w' w'' : Core} {n : Nat}
    (one : (MemberList.message info members field .nil).Attempted conf msg path w w')
    (two : rest.Attempted conf msg path w' w'') (live : w.heap.Backed msg n)
    (apart : Disjoint (heads target (.message info members field .nil) msg) (heads target rest msg)) :
    (MemberList.message info members field rest).Attempted conf msg path w w'' := by
  obtain ⟨numbers, acquires, ⟨held, restHeld⟩, these⟩ := one.seq two live rfl apart
  have whole : heads target (.message info members field .nil) msg ∪ heads target rest msg =
      heads target (.message info members field rest) msg := by
    rw [heads_message, heads_message, heads_nil, Set.union_empty]
  refine ⟨numbers, whole ▸ acquires, ⟨held.1, held.2.1, restHeld⟩, ?_⟩
  simpa only [releases, List.append_nil] using these

theorem Attempted.basic_header (conf : MemoryConf target) {type : BasicType} {field : Field} (header : isHeader type field = true)
    {msg : Pointer} {w : Core} (live : w.heap.Backed (msg.plus field.offset) target.headerSize)
    (path : CString) (site : Site) :
    (MemberList.basic type field .nil).Attempted conf msg path w
      (w.planHeader conf .create site (msg.plus field.offset) (conf.basicCapacity path type field)
        type.plannedSize).2 := by
  obtain ⟨numbers, acquires, held, these⟩ := Core.planHeader_acquires live site
    (conf.basicCapacity_lt path type field) type.plannedSize
  refine ⟨numbers, acquires.mono ?_, ⟨fun _ => held, trivial⟩, ?_⟩
  · rw [heads_basic, if_pos header]
    exact Set.subset_union_left
  · simpa only [releases, if_pos header, List.append_nil] using these

theorem Attempted.message_header {info : MessageInfo} {members : MemberList} {field : Field}
    {path : CString} (flat : (MemberList.message info members field .nil).Flat conf path)
    (sequence : field.isSequence = true) {msg : Pointer} {w : Core}
    (live : w.heap.Backed (msg.plus field.offset) target.headerSize) (site : Site) :
    (MemberList.message info members field .nil).Attempted conf msg path w
      (w.planHeader conf .create site (msg.plus field.offset) (conf.messageCapacity path field)
        info.sizeOf).2 := by
  obtain ⟨numbers, acquires, held, these⟩ := Core.planHeader_acquires live site
    (conf.messageCapacity_lt path field) info.sizeOf
  obtain ⟨elements, none⟩ := flat.elements conf.owner _ _ sequence _
  refine ⟨numbers, acquires.mono ?_, ⟨fun _ => ⟨held, elements⟩,
    fun single => absurd sequence (by simp [single]), trivial⟩, ?_⟩
  · rw [heads_message, if_pos sequence]
    exact Set.subset_union_left
  · simp only [releases, if_pos sequence, List.append_nil]
    rw [none]
    exact these

theorem Attempted.message_inline (info : MessageInfo) {members : MemberList} {field : Field}
    (single : field.isSequence = false) {msg : Pointer} {path : CString} {w w' : Core}
    (inner : members.Attempted conf (msg.plus field.offset) (path.child field.name) w w') :
    (MemberList.message info members field .nil).Attempted conf msg path w w' := by
  obtain ⟨numbers, acquires, held, these⟩ := inner
  refine ⟨numbers, acquires.mono ?_, ⟨fun sequence => absurd sequence (by simp [single]), fun _ => held,
    trivial⟩, ?_⟩
  · simp [heads_message, single]
  · simpa [releases, single] using these

/-- The loop over the elements of a flat sequence does nothing. -/
theorem Flat.loop {info : MessageInfo} {members : MemberList} {field : Field} {path : CString}
    (flat : (MemberList.message info members field .nil).Flat conf path)
    (sequence : field.isSequence = true) {operation : Operation} {header : Pointer} {w : Core}
    (backed : w.heap.Backed header target.headerSize) (stack : List Step) (index used : Nat) :
    (Core.forElements target
      (fun j w =>
        let data := w.elementData target operation header
        traverse conf operation members
          (Core.elementAddress target operation data.1 j info.sizeOf) (path.child field.name)
          (stack ++ [.element index j data.1]) 0 0 data.2)
      (conf.messageCapacity path field) used w).2 = w := by
  refine Core.forElements_induct (motive := fun _ _ w' => w' = w) rfl fun j bound _ w' same => ?_
  subst same
  rw [traverse_of_headerless (flat.1 sequence (by omega))]
  unfold Core.elementData
  split
  · rfl
  · exact Core.touch_header backed

/-- Creation with any answers of the allocator, by induction over the type. -/
theorem attempts {list : MemberList} {size : Nat} (layout : list.Layout target size)
    (unbounded : list.NoBoundedMessage) {msg : Pointer} {path : CString} (flat : list.Flat conf path)
    (stack : List Step) (index used : Nat) {w : Core} (live : w.heap.Backed msg size)
    (blank : ∀ q ∈ heads target list msg, w.memory q = .zero) :
    list.Attempted conf msg path w (traverse conf .create list msg path stack index used w).2 := by
  -- Each member in turn acquires what it is granted; the headers behind it are still zero then.
  induction list generalizing size msg path stack index used w with
  | nil => exact .of_blank layout unbounded flat live blank
  | basic type field rest ih =>
    obtain ⟨inside, clear, restLayout⟩ := layout
    have blankRest : ∀ q ∈ heads target rest msg, w.memory q = .zero := fun q later =>
      blank q (by rw [heads_basic]; exact Or.inr later)
    simp only [traverse]
    split
    next header =>
      have long := header_le_basicExtent target header
      have made := Attempted.basic_header conf header
        (live.plus (i := field.offset) (by omega)) path ⟨stack, index⟩
      have apart : Disjoint (heads target (.basic type field .nil) msg) (heads target rest msg) := by
        rw [heads_basic, if_pos header, heads_nil, Set.union_empty]
        exact heads_apart restLayout unbounded clear (headerSpan_inside msg field.offset long)
      obtain ⟨_, acquires, -, -⟩ := id made
      have stillBlank := made.blank live apart blankRest
      generalize w.planHeader conf .create _ _ _ _ = answer at made acquires stillBlank ⊢
      obtain ⟨_ | bytes, after⟩ := answer
      · -- A refused header ends this call; the members behind it stay zero.
        exact made.cons_basic (.of_blank restLayout unbounded flat (acquires.backed live) stillBlank)
          live apart
      · exact made.cons_basic (ih restLayout unbounded flat stack (index + 1) _
          (acquires.backed live) stillBlank) live apart
    next plain =>
      obtain ⟨numbers, acquires, held, these⟩ := ih restLayout unbounded flat stack (index + 1) used live
        blankRest
      refine ⟨numbers, acquires.mono ?_, ⟨fun header => absurd header plain, held⟩, ?_⟩
      · rw [heads_basic]
        exact Set.subset_union_right
      · simpa [releases, plain] using these
  | message info members field rest ihMembers ih =>
    obtain ⟨inside, clear, _, membersLayout, restLayout⟩ := layout
    have blankRest : ∀ q ∈ heads target rest msg, w.memory q = .zero := fun q later =>
      blank q (by rw [heads_message]; exact Or.inr later)
    simp only [traverse]
    split
    next sequence =>
      have long : target.headerSize ≤ field.messageExtent target info := (sequence_extent sequence).ge
      have alone : (MemberList.message info members field .nil).Flat conf path :=
        ⟨flat.1, flat.2.1, trivial⟩
      have made := Attempted.message_header alone sequence (w := w)
        (live.plus (i := field.offset) (by omega)) ⟨stack, index⟩
      have apart : Disjoint (heads target (.message info members field .nil) msg)
          (heads target rest msg) := by
        rw [heads_message, if_pos sequence, heads_nil, Set.union_empty]
        exact heads_apart restLayout unbounded.2.2 clear (headerSpan_inside msg field.offset long)
      obtain ⟨_, acquires, -, -⟩ := id made
      have stillBlank := made.blank live apart blankRest
      have stillLive := acquires.backed live
      generalize w.planHeader conf .create _ _ _ _ = answer at made stillLive stillBlank ⊢
      obtain ⟨_ | bytes, after⟩ := answer
      · exact made.cons_message (.of_blank restLayout unbounded.2.2 flat.2.2 stillLive stillBlank) live apart
      · simp only [alone.loop sequence (stillLive.plus (i := field.offset)
          (m := target.headerSize) (by omega)), Core.tearDownHeader]
        exact made.cons_message (ih restLayout unbounded.2.2 flat.2.2 stack (index + 1) _ stillLive
          stillBlank) live apart
    next notSequence =>
      have single : field.isSequence = false := by simpa using notSequence
      have extent := size_le_inlineExtent target info single unbounded.1
      have inner := ihMembers membersLayout unbounded.2.1 (flat.2.1 single) (stack ++ [.inline index]) 0 0
        (live.plus (i := field.offset) (by omega)) fun q here => blank q (by
          rw [heads_message, if_neg notSequence]
          exact Or.inl here)
      have made := Attempted.message_inline info single inner
      have apart : Disjoint (heads target (.message info members field .nil) msg)
          (heads target rest msg) := by
        rw [heads_message, if_neg notSequence, heads_nil, Set.union_empty]
        exact heads_apart restLayout unbounded.2.2 clear
          (heads_inside membersLayout unbounded.2.1 extent msg field.offset)
      obtain ⟨_, acquires, -, -⟩ := id made
      exact made.cons_message (ih restLayout unbounded.2.2 flat.2.2 stack (index + 1) _
        (acquires.backed live) (made.blank live apart blankRest)) live apart

end MemberList

end MicroRos
