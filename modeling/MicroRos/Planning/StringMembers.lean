import MicroRos.Planning.Destruction

/-! The strings in a message.

Each string has its header in the message or in the block of a sequence, and its characters in
a block of its own.
-/

set_option autoImplicit false

namespace MicroRos

open Memory (Pointer Contents Block Heap)

variable {target : Target}

namespace MemberList

/-- Where the strings of an instance stand, in the elements of sequences too. Of an array of strings it is the first. -/
def strings (conf : MemoryConf target) (m : Contents) : MemberList → Pointer → CString → List Pointer
  | .nil, _, _ => []
  | .basic type field rest, msg, path =>
    (if type = .string ∧ field.isSequence = false then [msg.plus field.offset] else []) ++
      rest.strings conf m msg path
  | .message info members field rest, msg, path =>
    (if field.isSequence then
      let data := m.loadPointer target.word (msg.plus field.offset)
      (List.range (conf.messageCapacity path field)).flatMap fun j =>
        members.strings conf m (data.plus (target.mul j info.sizeOf)) (path.child field.name)
      else members.strings conf m (msg.plus field.offset) (path.child field.name)) ++
    rest.strings conf m msg path

/-- The first member alone. -/
def first : MemberList → MemberList
  | .nil => .nil
  | .basic type field _ => .basic type field .nil
  | .message info members field _ => .message info members field .nil

section Parts

variable {conf : MemoryConf target} {owner : Nat} {h : Heap} {m : Contents} {msg : Pointer} {path : CString}

theorem held_parts {list : MemberList} : list.Held conf owner h m msg path ↔
    list.first.Held conf owner h m msg path ∧ list.tail.Held conf owner h m msg path := by
  cases list <;> simp [first, tail, Held, and_assoc]

theorem releases_parts (list : MemberList) :
    list.releases conf m msg path = list.first.releases conf m msg path ++ list.tail.releases conf m msg path := by
  cases list <;> simp [first, tail, releases]

theorem strings_parts (list : MemberList) :
    list.strings conf m msg path = list.first.strings conf m msg path ++ list.tail.strings conf m msg path := by
  cases list <;> simp [first, tail, strings]

theorem heads_parts {list : MemberList} {size : Nat} (layout : list.Layout target size) (unbounded : list.NoBounded) :
    Disjoint (heads target list.first msg) (heads target list.tail msg) := by
  cases list with
  | nil => simp [first, heads_nil]
  | basic type field rest =>
    obtain ⟨_, clear, restLayout⟩ := layout
    refine heads_apart restLayout unbounded.2.messages clear ?_
    rw [first, heads_basic, heads_nil, Set.union_empty]
    split
    next header => exact headerSpan_inside msg field.offset (header_le_basicExtent target header)
    next plain => exact fun _ none => none.elim
  | message info members field rest =>
    obtain ⟨_, clear, _, membersLayout, restLayout⟩ := layout
    obtain ⟨notBounded, membersUnbounded, restUnbounded⟩ := unbounded
    refine heads_apart restLayout restUnbounded.messages clear ?_
    rw [first, heads_message, heads_nil, Set.union_empty]
    split
    next sequence => exact headerSpan_inside msg field.offset (sequence_extent sequence).ge
    next single =>
      exact heads_inside membersLayout membersUnbounded.messages
        (size_le_inlineExtent target info (by simpa using single) notBounded) msg field.offset

theorem SamePointers.strings {m' : Contents} {list : MemberList} (same : list.SamePointers conf m m' msg path) :
    list.strings conf m' msg path = list.strings conf m msg path := by
  induction list generalizing msg path with
  | nil => rfl
  | basic type field rest ih => simp only [MemberList.strings, ih same.2]
  | message info members field rest ihMembers ih =>
    obtain ⟨inSequence, inPlace, restSame⟩ := same
    simp only [MemberList.strings, ih restSame]
    split
    next sequence =>
      obtain ⟨pointer, elements⟩ := inSequence sequence
      rw [pointer]
      congr 1
      exact List.flatMap_congr fun j bound => ihMembers (elements j (List.mem_range.mp bound))
    next single => rw [ihMembers (inPlace (by simpa using single))]

end Parts

end MemberList

/-- Where a string of an instance is: its header among the headers of the instance or in a block, and its data among
what the instance holds. -/
structure StringPlace (target : Target) (owner : Nat) (h : Heap) (m : Contents) (list : MemberList) (msg : Pointer)
    (released : List Pointer) (header : Pointer) : Prop where
  inside : (∀ q ∈ headerSpan target header, q ∈ heads target list msg) ∨ header.block ∈ blocks released
  data : m.loadPointer target.word header ∈ released
  held : HeaderHeld target owner h m header

section Places

variable {conf : MemoryConf target} {owner : Nat} {h : Heap} {m : Contents}

theorem self_mem_headerSpan (header : Pointer) : header ∈ headerSpan target header :=
  mem_headerSpan.mpr ⟨0, by have := target.word_pos; simp only [Target.headerSize]; omega, rfl⟩

theorem block_of_headerSpan {header q : Pointer} (inside : q ∈ headerSpan target header) : q.block = header.block :=
  inside.1

theorem block_of_heads {list : MemberList} {msg q : Pointer} (inside : q ∈ heads target list msg) :
    q.block = msg.block := by
  obtain ⟨o, _, rfl⟩ := inside
  rfl

/-- Every string of a message that holds its memory has such a place. -/
theorem MemberList.place {list : MemberList} {msg : Pointer} {path : CString} {header : Pointer}
    (held : list.Held conf owner h m msg path) (member : header ∈ list.strings conf m msg path) :
    StringPlace target owner h m list msg (list.releases conf m msg path) header := by
  induction list generalizing msg path with
  | nil => cases member
  | basic type field rest ih =>
    simp only [MemberList.strings, List.mem_append] at member
    rcases member with here | later
    · split at here
      next isString =>
        obtain rfl := List.mem_singleton.mp here
        have header : isHeader type field = true := by simp [isHeader, isString.1]
        refine ⟨Or.inl fun q inside => ?_, ?_, held.1 header⟩
        · rw [heads_basic, if_pos header]
          exact Or.inl inside
        · rw [MemberList.releases, if_pos header]
          exact List.mem_append_left _ (List.mem_singleton_self _)
      next other => cases here
    · obtain ⟨inside, data, headerHeld⟩ := ih held.2 later
      refine ⟨inside.imp (fun spans q among => ?_) rest_blocks_basic, ?_, headerHeld⟩
      · rw [heads_basic]
        exact Or.inr (spans q among)
      · rw [MemberList.releases]
        exact List.mem_append_right _ data
  | message info members field rest ihMembers ih =>
    obtain ⟨heldSequence, heldPlace, restHeld⟩ := held
    simp only [MemberList.strings, List.mem_append] at member
    rcases member with here | later
    · split at here
      next sequence =>
        obtain ⟨j, bound, inElement⟩ := List.mem_flatMap.mp here
        replace bound := List.mem_range.mp bound
        obtain ⟨inside, data, headerHeld⟩ := ihMembers ((heldSequence sequence).2 j bound) inElement
        refine ⟨Or.inr ?_, ?_, headerHeld⟩
        · rcases inside with spans | inBlock
          · have same := block_of_heads (spans header (self_mem_headerSpan header))
            rw [Pointer.plus_block] at same
            rw [same]
            exact data_block_message sequence (same ▸ headerHeld.backed.block_ne_null)
          · exact element_blocks sequence bound inBlock
        · rw [MemberList.releases, if_pos sequence]
          refine List.mem_append_left _ (List.mem_append_left _ ?_)
          exact List.mem_flatMap.mpr ⟨j, List.mem_range.mpr bound, data⟩
      next single =>
        have notSequence : field.isSequence = false := by simpa using single
        obtain ⟨inside, data, headerHeld⟩ := ihMembers (heldPlace notSequence) here
        refine ⟨inside.imp (fun spans q among => ?_) (place_blocks notSequence), ?_, headerHeld⟩
        · rw [heads_message, if_neg single]
          exact Or.inl (spans q among)
        · rw [MemberList.releases, if_neg single]
          exact List.mem_append_left _ data
    · obtain ⟨inside, data, headerHeld⟩ := ih restHeld later
      refine ⟨inside.imp (fun spans q among => ?_) rest_blocks_message, ?_, headerHeld⟩
      · rw [heads_message]
        exact Or.inr (spans q among)
      · rw [MemberList.releases]
        exact List.mem_append_right _ data

/-- The header is in the block of the message or in a block that the message holds. -/
theorem StringPlace.block {list : MemberList} {msg header : Pointer} {released : List Pointer}
    (place : StringPlace target owner h m list msg released header) :
    header.block = msg.block ∨ header.block ∈ blocks released :=
  place.inside.imp (fun spans => block_of_heads (spans header (self_mem_headerSpan header))) id

theorem StringPlace.data_block {list : MemberList} {msg header : Pointer} {released : List Pointer}
    (place : StringPlace target owner h m list msg released header)
    (notNull : (m.loadPointer target.word header).block ≠ .null) :
    (m.loadPointer target.word header).block ∈ blocks released :=
  mem_blocks.mpr ⟨⟨_, place.data, rfl⟩, notNull⟩

/-- Between parts of a message that share no block. -/
theorem StringPlace.apart {list other : MemberList} {msg msg' header header' : Pointer}
    {released released' : List Pointer} (place : StringPlace target owner h m list msg released header)
    (place' : StringPlace target owner h m other msg' released' header') (outside : msg.block ∉ blocks released')
    (separate : List.Disjoint (blocks released) (blocks released'))
    (notNull : (m.loadPointer target.word header').block ≠ .null) :
    header.block ≠ (m.loadPointer target.word header').block := by
  intro same
  have inBlock := place'.data_block notNull
  rcases place.block with here | there
  · exact outside (here.symm.trans same ▸ inBlock)
  · exact separate there (same ▸ inBlock)

/-- The header of a sequence, its data and its elements share no block. -/
structure ElementsApart (element : Nat → List Pointer) (capacity : Nat) (header data : Pointer) : Prop where
  own : header.block ≠ data.block
  header : ∀ i < capacity, header.block ∉ blocks (element i)
  data : ∀ i < capacity, data.block ∉ blocks (element i)
  nodup : ∀ i < capacity, (blocks (element i)).Nodup
  disjoint : ∀ i < capacity, ∀ j < capacity, i ≠ j → List.Disjoint (blocks (element i)) (blocks (element j))

theorem mem_elements {element : Nat → List Pointer} {capacity i : Nat} (bound : i < capacity) {b : Block}
    (inside : b ∈ blocks (element i)) : b ∈ blocks ((List.range capacity).flatMap element) := by
  rw [blocks_flatMap]
  exact List.mem_flatMap.mpr ⟨i, List.mem_range.mpr bound, inside⟩

theorem ElementsApart.of_nodup {element : Nat → List Pointer} {capacity : Nat} {header data : Pointer}
    (notNull : header.block ≠ .null) (nodup : (blocks ((List.range capacity).flatMap element ++ [data])).Nodup)
    (apart : header.block ∉ blocks ((List.range capacity).flatMap element ++ [data])) :
    ElementsApart element capacity header data := by
  obtain ⟨dataApart, headerApart, own⟩ := MemberList.sequence_apart notNull nodup apart
  rw [blocks_append, blocks_flatMap] at nodup
  have whole := (List.nodup_append.mp nodup).1
  refine ⟨own, fun i bound inside => headerApart (mem_elements bound inside),
    fun i bound inside => dataApart (mem_elements bound inside),
    fun i bound => (List.nodup_flatMap.mp whole).1 i (List.mem_range.mpr bound), fun i boundI j boundJ different => ?_⟩
  rcases Nat.lt_or_gt_of_ne different with less | greater
  · exact flatMap_range_disjoint whole less boundJ
  · exact fun b here there => flatMap_range_disjoint whole greater boundI there here

/-- No string of an instance stands in the characters of a string. -/
def MemberList.StringsApart (conf : MemoryConf target) (m : Contents) (list : MemberList) (msg : Pointer)
    (path : CString) : Prop :=
  ∀ header ∈ list.strings conf m msg path, ∀ header' ∈ list.strings conf m msg path,
    (m.loadPointer target.word header').block ≠ .null → header.block ≠ (m.loadPointer target.word header').block

theorem MemberList.StringsApart.parts {list : MemberList} {msg : Pointer} {path : CString}
    (held : list.Held conf owner h m msg path) (nodup : (blocks (list.releases conf m msg path)).Nodup)
    (apart : msg.block ∉ blocks (list.releases conf m msg path))
    (first : (blocks (list.first.releases conf m msg path)).Nodup →
      msg.block ∉ blocks (list.first.releases conf m msg path) → list.first.StringsApart conf m msg path)
    (tail : (blocks (list.tail.releases conf m msg path)).Nodup →
      msg.block ∉ blocks (list.tail.releases conf m msg path) → list.tail.StringsApart conf m msg path) :
    list.StringsApart conf m msg path := by
  obtain ⟨heldFirst, heldTail⟩ := MemberList.held_parts.mp held
  rw [list.releases_parts, blocks_append] at nodup apart
  rw [List.mem_append, not_or] at apart
  obtain ⟨firstNodup, tailNodup, disjoint⟩ := List.nodup_append.mp nodup
  intro header member header' member' notNull
  rw [list.strings_parts, List.mem_append] at member member'
  rcases member with here | there
  · rcases member' with here' | there'
    · exact first firstNodup apart.1 header here header' here' notNull
    · refine (MemberList.place heldFirst here).apart (MemberList.place heldTail there') apart.2 ?_ notNull
      exact fun b inFirst inTail => disjoint b inFirst b inTail rfl
  · rcases member' with here' | there'
    · refine (MemberList.place heldTail there).apart (MemberList.place heldFirst here') apart.1 ?_ notNull
      exact fun b inTail inFirst => disjoint b inFirst b inTail rfl
    · exact tail tailNodup apart.2 header there header' there' notNull

theorem MemberList.strings_apart {list : MemberList} {msg : Pointer} {path : CString}
    (held : list.Held conf owner h m msg path) (nodup : (blocks (list.releases conf m msg path)).Nodup)
    (apart : msg.block ∉ blocks (list.releases conf m msg path)) : list.StringsApart conf m msg path := by
  induction list generalizing msg path with
  | nil => exact fun _ none => by cases none
  | basic type field rest ih =>
    refine .parts held nodup apart (fun _ outside header here header' here' notNull same => ?_) fun nodup apart =>
      ih held.2 nodup apart
    have inBlock := (MemberList.place (MemberList.held_parts.mp held).1 here').data_block notNull
    simp only [MemberList.first, MemberList.strings, List.append_nil] at here
    split at here
    next isString =>
      obtain rfl := List.mem_singleton.mp here
      exact outside (same ▸ inBlock)
    next other => cases here
  | message info members field rest ihMembers ih =>
    refine .parts held nodup apart (fun nodup outside header here header' here' notNull => ?_) fun nodup apart =>
      ih held.2.2 nodup apart
    cases sequence : field.isSequence with
    | false =>
      simp only [MemberList.first, MemberList.strings, MemberList.releases, sequence, Bool.false_eq_true, if_false,
        List.append_nil] at nodup outside here here'
      exact ihMembers (held.2.1 sequence) nodup outside header here header' here' notNull
    | true =>
      obtain ⟨headerHeld, elements⟩ := held.1 sequence
      simp only [MemberList.first, MemberList.strings, MemberList.releases, sequence, if_true,
        List.append_nil] at nodup outside here here'
      have elementsApart := ElementsApart.of_nodup headerHeld.backed.block_ne_null nodup outside
      obtain ⟨i, inRange, inElement⟩ := List.mem_flatMap.mp here
      obtain ⟨j, inRange', inElement'⟩ := List.mem_flatMap.mp here'
      have bound := List.mem_range.mp inRange
      have bound' := List.mem_range.mp inRange'
      -- Two strings of one element are apart by induction, those of two elements share no block.
      by_cases same : i = j
      · subst same
        exact ihMembers (elements i bound) (elementsApart.nodup i bound) (elementsApart.data i bound) header inElement
          header' inElement' notNull
      · exact (MemberList.place (elements i bound) inElement).apart (MemberList.place (elements j bound') inElement')
          (elementsApart.data j bound') (elementsApart.disjoint i bound j bound' same) notNull

end Places

end MicroRos
