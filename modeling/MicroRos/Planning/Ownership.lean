import MicroRos.Planning.Suppliers
import Mathlib.Data.List.Nodup

/-! The memory that a message holds.

`Held` says that every header of a message refers to an object of its allocator or to
nothing; `releases` lists these objects in the order in which destroying gives them back.
Both depend on the data pointers only, so they survive every change of the message that
keeps the data pointers.
-/

set_option autoImplicit false

namespace MicroRos

open Memory (Pointer Contents Block Heap)

variable {target : Target}

/-- The objects that these pointers refer to; the null pointer refers to none. -/
def blocks (pointers : List Pointer) : List Block :=
  (pointers.map Pointer.block).filter (· ≠ .null)

@[simp] theorem blocks_nil : blocks [] = [] := rfl

@[simp] theorem blocks_append (pointers later : List Pointer) :
    blocks (pointers ++ later) = blocks pointers ++ blocks later := by simp [blocks]

theorem mem_blocks {pointers : List Pointer} {b : Block} :
    b ∈ blocks pointers ↔ (∃ p ∈ pointers, p.block = b) ∧ b ≠ .null := by
  simp [blocks]

theorem blocks_flatMap {α : Type} (xs : List α) (f : α → List Pointer) :
    blocks (xs.flatMap f) = xs.flatMap fun x => blocks (f x) := by
  induction xs with
  | nil => rfl
  | cons x xs ih => simp only [List.flatMap_cons, blocks_append, ih]

theorem blocks_perm {pointers pointers' : List Pointer} (same : pointers.Perm pointers') :
    (blocks pointers).Perm (blocks pointers') := (same.map _).filter _

/-- A header in live memory whose data pointer is null or the start of a live object of the owner. -/
structure HeaderHeld (target : Target) (owner : Nat) (h : Heap) (m : Contents) (header : Pointer) :
    Prop where
  backed : h.Backed header target.headerSize
  data : m.loadPointer target.word header = .null ∨
    (m.loadPointer target.word header).offset = 0 ∧
      (∃ number, (m.loadPointer target.word header).block = .object owner number) ∧
      h.extent (m.loadPointer target.word header).block ≠ none

namespace MemberList

/-- The headers that the planner sets in an instance are held, in the elements of sequences too. -/
def Held (conf : MemoryConf target) (owner : Nat) (h : Heap) (m : Contents) :
    MemberList → Pointer → CString → Prop
  | .nil, _, _ => True
  | .basic type field rest, msg, path =>
    (isHeader type field = true → HeaderHeld target owner h m (msg.plus field.offset)) ∧
    rest.Held conf owner h m msg path
  | .message info members field rest, msg, path =>
    (field.isSequence = true → HeaderHeld target owner h m (msg.plus field.offset) ∧
      ∀ j < conf.messageCapacity path field, members.Held conf owner h m
        ((m.loadPointer target.word (msg.plus field.offset)).plus (target.mul j info.sizeOf))
        (path.child field.name)) ∧
    (field.isSequence = false →
      members.Held conf owner h m (msg.plus field.offset) (path.child field.name)) ∧
    rest.Held conf owner h m msg path

/-- The data pointers of all these headers are the same in both memories. -/
def SamePointers (conf : MemoryConf target) (m m' : Contents) : MemberList → Pointer → CString → Prop
  | .nil, _, _ => True
  | .basic type field rest, msg, path =>
    (isHeader type field = true → m'.loadPointer target.word (msg.plus field.offset) =
      m.loadPointer target.word (msg.plus field.offset)) ∧
    rest.SamePointers conf m m' msg path
  | .message info members field rest, msg, path =>
    (field.isSequence = true →
      m'.loadPointer target.word (msg.plus field.offset) =
        m.loadPointer target.word (msg.plus field.offset) ∧
      ∀ j < conf.messageCapacity path field, members.SamePointers conf m m'
        ((m.loadPointer target.word (msg.plus field.offset)).plus (target.mul j info.sizeOf))
        (path.child field.name)) ∧
    (field.isSequence = false →
      members.SamePointers conf m m' (msg.plus field.offset) (path.child field.name)) ∧
    rest.SamePointers conf m m' msg path

instance decidableSamePointers (conf : MemoryConf target) (m m' : Contents) :
    (list : MemberList) → (msg : Pointer) → (path : CString) → Decidable (list.SamePointers conf m m' msg path)
  | .nil, _, _ => isTrue trivial
  | .basic _ _ rest, msg, path =>
    have := decidableSamePointers conf m m' rest msg path
    inferInstanceAs (Decidable ((_ → _) ∧ rest.SamePointers conf m m' msg path))
  | .message _ members field rest, msg, path =>
    have (msg : Pointer) := decidableSamePointers conf m m' members msg (path.child field.name)
    have := decidableSamePointers conf m m' rest msg path
    inferInstanceAs (Decidable ((_ → _) ∧ (_ → _) ∧ rest.SamePointers conf m m' msg path))

variable {conf : MemoryConf target} {owner : Nat} {h h' : Heap} {m m' : Contents}

theorem SamePointers.refl (conf : MemoryConf target) (m : Contents) (list : MemberList) (msg : Pointer)
    (path : CString) : list.SamePointers conf m m msg path := by
  induction list generalizing msg path with
  | nil => trivial
  | basic type field rest ih => exact ⟨fun _ => rfl, ih msg path⟩
  | message info members field rest ihMembers ih =>
    exact ⟨fun _ => ⟨rfl, fun _ _ => ihMembers _ _⟩, fun _ => ihMembers _ _, ih msg path⟩

theorem SamePointers.releases {list : MemberList} {msg : Pointer} {path : CString}
    (same : list.SamePointers conf m m' msg path) :
    list.releases conf m' msg path = list.releases conf m msg path := by
  induction list generalizing msg path with
  | nil => rfl
  | basic type field rest ih =>
    simp only [MemberList.releases, ih same.2]
    split
    next header => rw [same.1 header]
    next plain => rfl
  | message info members field rest ihMembers ih =>
    obtain ⟨inSequence, inPlace, restSame⟩ := same
    simp only [MemberList.releases, ih restSame]
    split
    next sequence =>
      obtain ⟨pointer, elements⟩ := inSequence sequence
      rw [pointer]
      congr 2
      exact List.flatMap_congr fun j bound => ihMembers (elements j (List.mem_range.mp bound))
    next single => rw [ihMembers (inPlace (by simpa using single))]

section Blocks

variable {type : BasicType} {info : MessageInfo} {members rest : MemberList} {field : Field}
  {msg : Pointer} {path : CString} {b : Block}

theorem rest_blocks_basic (member : b ∈ blocks (rest.releases conf m msg path)) :
    b ∈ blocks ((MemberList.basic type field rest).releases conf m msg path) := by
  simp only [MemberList.releases, blocks_append]
  exact List.mem_append_right _ member

theorem rest_blocks_message (member : b ∈ blocks (rest.releases conf m msg path)) :
    b ∈ blocks ((MemberList.message info members field rest).releases conf m msg path) := by
  simp only [MemberList.releases, blocks_append]
  exact List.mem_append_right _ member

theorem data_block_basic (header : isHeader type field = true)
    (notNull : (m.loadPointer target.word (msg.plus field.offset)).block ≠ .null) :
    (m.loadPointer target.word (msg.plus field.offset)).block ∈
      blocks ((MemberList.basic type field rest).releases conf m msg path) := by
  simp only [MemberList.releases, if_pos header, blocks_append]
  exact List.mem_append_left _ (mem_blocks.mpr ⟨⟨_, List.mem_singleton_self _, rfl⟩, notNull⟩)

theorem data_block_message (sequence : field.isSequence = true)
    (notNull : (m.loadPointer target.word (msg.plus field.offset)).block ≠ .null) :
    (m.loadPointer target.word (msg.plus field.offset)).block ∈
      blocks ((MemberList.message info members field rest).releases conf m msg path) := by
  simp only [MemberList.releases, if_pos sequence, blocks_append]
  exact List.mem_append_left _ (List.mem_append_right _
    (mem_blocks.mpr ⟨⟨_, List.mem_singleton_self _, rfl⟩, notNull⟩))

theorem element_blocks (sequence : field.isSequence = true) {j : Nat}
    (bound : j < conf.messageCapacity path field)
    (member : b ∈ blocks (members.releases conf m
      ((m.loadPointer target.word (msg.plus field.offset)).plus (target.mul j info.sizeOf))
      (path.child field.name))) :
    b ∈ blocks ((MemberList.message info members field rest).releases conf m msg path) := by
  simp only [MemberList.releases, if_pos sequence, blocks_append, blocks_flatMap]
  exact List.mem_append_left _ (List.mem_append_left _
    (List.mem_flatMap.mpr ⟨j, List.mem_range.mpr bound, member⟩))

theorem place_blocks (single : field.isSequence = false)
    (member : b ∈ blocks (members.releases conf m (msg.plus field.offset) (path.child field.name))) :
    b ∈ blocks ((MemberList.message info members field rest).releases conf m msg path) := by
  simp only [MemberList.releases, single, Bool.false_eq_true, if_false, blocks_append]
  exact List.mem_append_left _ member

end Blocks

/-- The blocks that the message refers to, and the one it stands in, are the same in both heaps. -/
def SameBlocks (conf : MemoryConf target) (h h' : Heap) (m : Contents) (list : MemberList)
    (msg : Pointer) (path : CString) : Prop :=
  ∀ b, b ≠ .null → b = msg.block ∨ b ∈ blocks (list.releases conf m msg path) → h'.extent b = h.extent b

theorem HeaderHeld.congr {header : Pointer} (held : HeaderHeld target owner h m header)
    (same : m'.loadPointer target.word header = m.loadPointer target.word header)
    (here : header.block ≠ .null → h'.extent header.block = h.extent header.block)
    (there : (m.loadPointer target.word header).block ≠ .null →
      h'.extent (m.loadPointer target.word header).block =
        h.extent (m.loadPointer target.word header).block) :
    HeaderHeld target owner h' m' header := by
  refine ⟨?_, ?_⟩
  · obtain ⟨size, found, fits⟩ := id held.backed
    exact ⟨size, by rw [here held.backed.block_ne_null]; exact found, fits⟩
  · rw [same]
    refine held.data.imp id fun ⟨start, ⟨number, isObject⟩, live⟩ => ⟨start, ⟨number, isObject⟩, ?_⟩
    rw [there (by rw [isObject]; simp)]
    exact live

/-- Only the data pointers and the lengths of the blocks matter to what is held. -/
theorem SamePointers.held {list : MemberList} {msg : Pointer} {path : CString}
    (same : list.SamePointers conf m m' msg path) (sameBlocks : list.SameBlocks conf h h' m msg path)
    (held : list.Held conf owner h m msg path) : list.Held conf owner h' m' msg path := by
  induction list generalizing msg path with
  | nil => trivial
  | basic type field rest ih =>
    refine ⟨fun header => ?_, ih same.2 (fun b notNull among =>
      sameBlocks b notNull (among.imp id rest_blocks_basic)) held.2⟩
    exact HeaderHeld.congr (held.1 header) (same.1 header)
      (fun notNull => sameBlocks _ notNull (.inl rfl))
      fun notNull => sameBlocks _ notNull (.inr (data_block_basic header notNull))
  | message info members field rest ihMembers ih =>
    obtain ⟨inSequence, inPlace, restSame⟩ := same
    obtain ⟨heldSequence, heldPlace, restHeld⟩ := held
    refine ⟨fun sequence => ?_, fun single => ?_, ih restSame (fun b notNull among =>
      sameBlocks b notNull (among.imp id rest_blocks_message)) restHeld⟩
    · obtain ⟨pointer, elements⟩ := inSequence sequence
      obtain ⟨headerHeld, heldElements⟩ := heldSequence sequence
      refine ⟨HeaderHeld.congr headerHeld pointer (fun notNull => sameBlocks _ notNull (.inl rfl))
        fun notNull => sameBlocks _ notNull (.inr (data_block_message sequence notNull)),
        fun j bound => ?_⟩
      rw [pointer]
      refine ihMembers (elements j bound) (fun b notNull among => sameBlocks b notNull (.inr ?_))
        (heldElements j bound)
      rcases among with rfl | inElement
      · exact data_block_message sequence notNull
      · exact element_blocks sequence bound inElement
    · exact ihMembers (inPlace single) (fun b notNull among =>
        sameBlocks b notNull (among.imp id (place_blocks single))) (heldPlace single)

/-- Writes outside of the headers and of the blocks of a message keep its data pointers. -/
theorem SamePointers.of_agree {list : MemberList} {msg : Pointer} {path : CString}
    (held : list.Held conf owner h m msg path)
    (agree : ∀ q : Pointer, q.block ≠ .null →
      q ∈ heads target list msg ∨ q.block ∈ blocks (list.releases conf m msg path) → m' q = m q) :
    list.SamePointers conf m m' msg path := by
  have loads : ∀ header : Pointer, HeaderHeld target owner h m header →
      (∀ q ∈ headerSpan target header, q.block ≠ .null → m' q = m q) →
      m'.loadPointer target.word header = m.loadPointer target.word header := by
    intro header headerHeld same
    refine Memory.Contents.loadPointer_congr target.word_pos fun i bound => ?_
    exact same _ (mem_headerSpan.mpr ⟨i, by simp only [Target.headerSize]; omega, rfl⟩)
      headerHeld.backed.block_ne_null
  induction list generalizing msg path with
  | nil => trivial
  | basic type field rest ih =>
    rw [heads_basic] at agree
    refine ⟨fun header => loads _ (held.1 header) fun q inside notNull => ?_,
      ih held.2 fun q notNull among => ?_⟩
    · rw [if_pos header] at agree
      exact agree q notNull (.inl (.inl inside))
    · exact agree q notNull (among.imp Or.inr rest_blocks_basic)
  | message info members field rest ihMembers ih =>
    obtain ⟨heldSequence, heldPlace, restHeld⟩ := held
    rw [heads_message] at agree
    refine ⟨fun sequence => ?_, fun single => ?_, ih restHeld fun q notNull among => ?_⟩
    · rw [if_pos sequence] at agree
      obtain ⟨headerHeld, heldElements⟩ := heldSequence sequence
      refine ⟨loads _ headerHeld fun q inside notNull => agree q notNull (.inl (.inl inside)),
        fun j bound => ihMembers (heldElements j bound) fun q notNull among => agree q notNull (.inr ?_)⟩
      rcases among with ⟨o, _, rfl⟩ | inElement
      · exact data_block_message sequence notNull
      · exact element_blocks sequence bound inElement
    · rw [if_neg (by simp [single])] at agree
      exact ihMembers (heldPlace single) fun q notNull among =>
        agree q notNull (among.imp Or.inl (place_blocks single))
    · exact agree q notNull (among.imp Or.inr rest_blocks_message)

end MemberList

end MicroRos
