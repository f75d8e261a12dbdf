import MicroRos.Planning.StringMembers

/-! What is left of a message when one of its strings gets another block.

A message is changed at the header of one string only. The induction over its type shows that
in the list of blocks that the message holds one is replaced, and that nothing else about the
message is different.
-/

set_option autoImplicit false

namespace MicroRos

open Memory (Pointer Contents Block Heap)

variable {target : Target}

/-- Between the two states one header was written, and the block `old` was replaced by `new`, which may be the same. -/
structure Regrown (target : Target) (header : Pointer) (old new : Block) (w w' : Core) : Prop where
  kept : ∀ q, q ∉ headerSpan target header → q.block ≠ new → w'.memory q = w.memory q
  extent : ∀ b, b ≠ old → b ≠ new → w'.heap.extent b = w.heap.extent b

/-- A part of a message that has nothing to do with the header or with the blocks. -/
structure Clear (target : Target) (header : Pointer) (old new : Block) (list : MemberList) (msg : Pointer)
    (released : List Pointer) : Prop where
  span : ∀ q ∈ headerSpan target header, q ∉ heads target list msg
  header : header.block ∉ blocks released
  old : old ≠ msg.block ∧ old ∉ blocks released
  new : new ≠ msg.block ∧ new ∉ blocks released

/-- The header of this string is as it was, and its data is in another block. -/
def Untouched (target : Target) (old new : Block) (w w' : Core) (other : Pointer) : Prop :=
  (∀ q ∈ headerSpan target other, w'.memory q = w.memory q) ∧
    ((w.memory.loadPointer target.word other).block ≠ .null →
      (w.memory.loadPointer target.word other).block ≠ old ∧ (w.memory.loadPointer target.word other).block ≠ new)

section Changes

variable {conf : MemoryConf target} {owner : Nat} {header : Pointer} {old new : Block} {w w' : Core}

namespace Regrown

variable {list : MemberList} {msg : Pointer} {path : CString}

/-- A part that is clear of the change is held as before. -/
theorem part (regrown : Regrown target header old new w w') (held : list.Held conf owner w.heap w.memory msg path)
    (clear : Clear target header old new list msg (list.releases conf w.memory msg path)) :
    list.Held conf owner w'.heap w'.memory msg path ∧ list.SamePointers conf w.memory w'.memory msg path := by
  have same : list.SamePointers conf w.memory w'.memory msg path := by
    refine MemberList.SamePointers.of_agree held fun q _ among => regrown.kept q (fun inside => ?_) ?_
    · rcases among with head | inBlock
      · exact clear.span q inside head
      · exact clear.header (block_of_headerSpan inside ▸ inBlock)
    · rcases among with head | inBlock
      · rw [block_of_heads head]
        exact clear.new.1.symm
      · rintro rfl
        exact clear.new.2 inBlock
  refine ⟨same.held (fun b _ among => regrown.extent b ?_ ?_) held, same⟩
  · rintro rfl
    exact among.elim clear.old.1 clear.old.2
  · rintro rfl
    exact among.elim clear.new.1 clear.new.2

/-- So are its strings. -/
theorem untouched (regrown : Regrown target header old new w w')
    (held : list.Held conf owner w.heap w.memory msg path)
    (clear : Clear target header old new list msg (list.releases conf w.memory msg path)) {other : Pointer}
    (member : other ∈ list.strings conf w.memory msg path) : Untouched target old new w w' other := by
  obtain ⟨inside, data, _⟩ := MemberList.place held member
  refine ⟨fun q among => regrown.kept q (fun here => ?_) ?_, fun notNull => ?_⟩
  · rcases inside with spans | inBlock
    · exact clear.span q here (spans q among)
    · rw [← block_of_headerSpan among, block_of_headerSpan here] at inBlock
      exact clear.header inBlock
  · rcases inside with spans | inBlock
    · rw [block_of_heads (spans q among)]
      exact clear.new.1.symm
    · rintro same
      rw [block_of_headerSpan among] at same
      exact clear.new.2 (same ▸ inBlock)
  · have inBlock := mem_blocks.mpr ⟨⟨_, data, rfl⟩, notNull⟩
    refine ⟨fun same => clear.old.2 (same ▸ inBlock), fun same => clear.new.2 (same ▸ inBlock)⟩

/-- A header that is clear of the change is held as before, with the same data. -/
theorem keepsHeader (regrown : Regrown target header old new w w') {own : Pointer}
    (held : HeaderHeld target owner w.heap w.memory own) (outside : header.block ≠ own.block)
    (apart : own.block ≠ old ∧ own.block ≠ new)
    (dataApart : (w.memory.loadPointer target.word own).block ≠ .null →
      (w.memory.loadPointer target.word own).block ≠ old ∧ (w.memory.loadPointer target.word own).block ≠ new) :
    w'.memory.loadPointer target.word own = w.memory.loadPointer target.word own ∧
      HeaderHeld target owner w'.heap w'.memory own := by
  have pointer : w'.memory.loadPointer target.word own = w.memory.loadPointer target.word own :=
    Memory.Contents.loadPointer_congr target.word_pos fun i _ =>
      regrown.kept _ (fun inside => outside (block_of_headerSpan inside).symm) apart.2
  refine ⟨pointer, MemberList.HeaderHeld.congr held pointer (fun _ => regrown.extent _ apart.1 apart.2) ?_⟩
  intro notNull
  exact regrown.extent _ (dataApart notNull).1 (dataApart notNull).2

end Regrown

/-- A string of one part leaves a part that shares nothing with it clear. -/
theorem StringPlace.clear {h : Heap} {m : Contents} {list other : MemberList} {msg msg' : Pointer}
    {released released' : List Pointer} (place : StringPlace target owner h m list msg released header)
    (old : (m.loadPointer target.word header).block ≠ .null) (sameBlock : msg.block = msg'.block)
    (heads : Disjoint (heads target list msg) (heads target other msg'))
    (separate : List.Disjoint (blocks released) (blocks released'))
    (apart : msg'.block ∉ blocks released ∧ msg'.block ∉ blocks released')
    (fresh : new ≠ msg'.block ∧
      (new = (m.loadPointer target.word header).block ∨ new ∉ blocks released')) :
    Clear target header (m.loadPointer target.word header).block new other msg' released' := by
  have inBlock := mem_blocks.mpr ⟨⟨_, place.data, rfl⟩, old⟩
  refine ⟨fun q inside head => ?_, fun member => ?_, ⟨fun same => apart.1 (same ▸ inBlock), separate inBlock⟩,
    fresh.1, ?_⟩
  · rcases place.inside with spans | member
    · exact Set.disjoint_left.mp heads (spans q inside) head
    · rw [← block_of_headerSpan inside, block_of_heads head] at member
      exact apart.1 member
  · rcases place.inside with spans | member'
    · rw [block_of_heads (spans header (self_mem_headerSpan header)), sameBlock] at member
      exact apart.2 member
    · exact separate member' member
  · rcases fresh.2 with rfl | absent
    · exact separate inBlock
    · exact absent

end Changes

/-- One string got the data `p'` in place of `p`: an object of the owner, which may be the same or a new one. -/
structure Replaces (target : Target) (owner : Nat) (header p p' : Pointer) (w w' : Core) : Prop
    extends Regrown target header p.block p'.block w w' where
  before : w.memory.loadPointer target.word header = p
  after : w'.memory.loadPointer target.word header = p'
  notNull : p.block ≠ .null
  start : p'.offset = 0
  isObject : ∃ number, p'.block = .object owner number
  live : w'.heap.extent p'.block ≠ none

/-- The blocks of a message are different, the message stands in none of them, and a new one does not belong to it. -/
structure Separate (conf : MemoryConf target) (m : Contents) (old new : Block) (list : MemberList) (msg : Pointer)
    (path : CString) : Prop where
  nodup : (blocks (list.releases conf m msg path)).Nodup
  apart : msg.block ∉ blocks (list.releases conf m msg path)
  fresh : new ≠ msg.block ∧ (new = old ∨ new ∉ blocks (list.releases conf m msg path))

/-- The message behind the change: one of its blocks is another, and its other strings are as they were. -/
structure Regrows (conf : MemoryConf target) (owner : Nat) (header p p' : Pointer) (w w' : Core) (list : MemberList)
    (msg : Pointer) (path : CString) : Prop where
  held : list.Held conf owner w'.heap w'.memory msg path
  releases : ∃ earlier later, list.releases conf w.memory msg path = earlier ++ p :: later ∧
    list.releases conf w'.memory msg path = earlier ++ p' :: later
  strings : list.strings conf w'.memory msg path = list.strings conf w.memory msg path
  others : ∀ other ∈ list.strings conf w.memory msg path, other ≠ header →
    Untouched target p.block p'.block w w' other

section Replacement

variable {conf : MemoryConf target} {owner : Nat} {header p p' : Pointer} {w w' : Core} {msg : Pointer} {path : CString}

theorem Separate.parts {m : Contents} {old new : Block} {list : MemberList}
    (separate : Separate conf m old new list msg path) :
    Separate conf m old new list.first msg path ∧ Separate conf m old new list.tail msg path ∧
      List.Disjoint (blocks (list.first.releases conf m msg path)) (blocks (list.tail.releases conf m msg path)) := by
  obtain ⟨nodup, apart, outside, fresh⟩ := separate
  rw [list.releases_parts, blocks_append] at nodup apart fresh
  rw [List.mem_append, not_or] at apart fresh
  obtain ⟨firstNodup, tailNodup, disjoint⟩ := List.nodup_append.mp nodup
  exact ⟨⟨firstNodup, apart.1, outside, fresh.imp id And.left⟩, ⟨tailNodup, apart.2, outside, fresh.imp id And.right⟩,
    fun b here there => disjoint b here b there rfl⟩

/-- A change in one of the two parts of a list is a change in the list. -/
theorem Regrows.parts (replaces : Replaces target owner header p p' w w') {list : MemberList} {size : Nat}
    (layout : list.Layout target size) (unbounded : list.NoBounded)
    (held : list.Held conf owner w.heap w.memory msg path)
    (separate : Separate conf w.memory p.block p'.block list msg path)
    (member : header ∈ list.strings conf w.memory msg path)
    (first : header ∈ list.first.strings conf w.memory msg path →
      Regrows conf owner header p p' w w' list.first msg path)
    (tail : header ∈ list.tail.strings conf w.memory msg path →
      Regrows conf owner header p p' w w' list.tail msg path) :
    Regrows conf owner header p p' w w' list msg path := by
  obtain ⟨heldFirst, heldTail⟩ := MemberList.held_parts.mp held
  obtain ⟨separateFirst, separateTail, disjoint⟩ := separate.parts
  have heads : Disjoint (heads target list.first msg) (heads target list.tail msg) :=
    MemberList.heads_parts layout unbounded
  have old : (w.memory.loadPointer target.word header).block ≠ .null := by
    rw [replaces.before]
    exact replaces.notNull
  rw [list.strings_parts, List.mem_append] at member
  -- The part with the string is changed, and the other one is clear of what is written.
  rcases member with here | there
  · obtain ⟨firstHeld, ⟨earlier, later, released, released'⟩, strings, others⟩ := first here
    have clear := (MemberList.place heldFirst here).clear old rfl heads disjoint
      ⟨separateFirst.apart, separateTail.apart⟩ (by rw [replaces.before]; exact separateTail.fresh)
    rw [replaces.before] at clear
    obtain ⟨tailHeld, same⟩ := replaces.toRegrown.part heldTail clear
    refine ⟨MemberList.held_parts.mpr ⟨firstHeld, tailHeld⟩,
      ⟨earlier, later ++ list.tail.releases conf w.memory msg path, ?_, ?_⟩, ?_, fun other among ne => ?_⟩
    · rw [list.releases_parts, released, List.append_assoc, List.cons_append]
    · rw [list.releases_parts, released', same.releases, List.append_assoc, List.cons_append]
    · rw [list.strings_parts, list.strings_parts, strings, same.strings]
    · rw [list.strings_parts, List.mem_append] at among
      rcases among with inFirst | inTail
      · exact others other inFirst ne
      · exact replaces.toRegrown.untouched heldTail clear inTail
  · obtain ⟨tailHeld, ⟨earlier, later, released, released'⟩, strings, others⟩ := tail there
    have clear := (MemberList.place heldTail there).clear old rfl heads.symm
      (fun _ inTail inFirst => disjoint inFirst inTail) ⟨separateTail.apart, separateFirst.apart⟩
      (by rw [replaces.before]; exact separateFirst.fresh)
    rw [replaces.before] at clear
    obtain ⟨firstHeld, same⟩ := replaces.toRegrown.part heldFirst clear
    refine ⟨MemberList.held_parts.mpr ⟨firstHeld, tailHeld⟩,
      ⟨list.first.releases conf w.memory msg path ++ earlier, later, ?_, ?_⟩, ?_, fun other among ne => ?_⟩
    · rw [list.releases_parts, released, List.append_assoc]
    · rw [list.releases_parts, released', same.releases, List.append_assoc]
    · rw [list.strings_parts, list.strings_parts, strings, same.strings]
    · rw [list.strings_parts, List.mem_append] at among
      rcases among with inFirst | inTail
      · exact replaces.toRegrown.untouched heldFirst clear inFirst
      · exact others other inTail ne

/-- The string itself. -/
theorem Regrows.string (replaces : Replaces target owner header p p' w w') {type : BasicType} {field : Field}
    (held : (MemberList.basic type field .nil).Held conf owner w.heap w.memory msg path)
    (separate : Separate conf w.memory p.block p'.block (.basic type field .nil) msg path)
    (member : header ∈ (MemberList.basic type field .nil).strings conf w.memory msg path) :
    Regrows conf owner header p p' w w' (.basic type field .nil) msg path := by
  simp only [MemberList.strings, List.append_nil] at member
  split at member
  next isString =>
    obtain rfl := List.mem_singleton.mp member
    have header : isHeader type field = true := by simp [isHeader, isString.1]
    have same : w'.heap.extent msg.block = w.heap.extent msg.block := by
      refine replaces.extent _ (fun same => separate.apart ?_) separate.fresh.1.symm
      rw [same, ← replaces.before]
      refine MemberList.data_block_basic header ?_
      rw [replaces.before]
      exact replaces.notNull
    refine ⟨⟨fun _ => ⟨?_, ?_⟩, trivial⟩, ⟨[], [], ?_, ?_⟩, rfl, fun other among ne => ?_⟩
    · obtain ⟨size, found, fits⟩ := (held.1 header).backed
      exact ⟨size, by rw [Pointer.plus_block, same]; exact found, fits⟩
    · rw [replaces.after]
      exact Or.inr ⟨replaces.start, replaces.isObject, replaces.live⟩
    · simp only [MemberList.releases, header, if_true, replaces.before, List.append_nil, List.nil_append]
    · simp only [MemberList.releases, header, if_true, replaces.after, List.append_nil, List.nil_append]
    · simp only [MemberList.strings, isString, and_self, if_true, List.append_nil, List.mem_singleton] at among
      exact absurd among ne
  next other => cases member

theorem element_heads_disjoint {members : MemberList} {size capacity i j : Nat} (layout : members.Layout target size)
    (unbounded : members.NoBounded) (whole : members.HasHeader → capacity * size < target.modulus) (data : Pointer)
    (boundI : i < capacity) (boundJ : j < capacity) (different : i ≠ j) :
    Disjoint (heads target members (data.plus (target.mul i size)))
      (heads target members (data.plus (target.mul j size))) := by
  rcases Nat.lt_or_gt_of_ne different with less | greater
  · refine Set.disjoint_left.mpr fun q here there => ?_
    exact Set.disjoint_left.mp (elementHeads_apart layout unbounded whole data boundJ) ⟨i, less, here⟩ there
  · refine Set.disjoint_left.mpr fun q here there => ?_
    exact Set.disjoint_left.mp (elementHeads_apart layout unbounded whole data boundI) ⟨j, greater, there⟩ here

/-- One number in the middle of the others. -/
theorem range_split {n j : Nat} (bound : j < n) :
    ∃ earlier later, List.range n = earlier ++ j :: later ∧ ∀ i, i ∈ earlier ∨ i ∈ later → i < n ∧ i ≠ j := by
  obtain ⟨earlier, later, split⟩ := List.append_of_mem (List.mem_range.mpr bound)
  refine ⟨earlier, later, split, fun i among => ⟨List.mem_range.mp ?_, ?_⟩⟩
  · rw [split, List.mem_append, List.mem_cons]
    exact among.imp id Or.inr
  · have nodup := List.nodup_range (n := n)
    rw [split, List.nodup_append, List.nodup_cons] at nodup
    rintro rfl
    rcases among with inEarlier | inLater
    · exact nodup.2.2 i inEarlier i List.mem_cons_self rfl
    · exact nodup.2.1.1 inLater

/-- The elements of a sequence other than the one with the string. -/
theorem Replaces.elements_clear (replaces : Replaces target owner header p p' w w') {members : MemberList}
    {size capacity : Nat} (layout : members.Layout target size) (unbounded : members.NoBounded)
    (whole : members.HasHeader → capacity * size < target.modulus) {own data : Pointer}
    (apart : ElementsApart (fun i => members.releases conf w.memory (data.plus (target.mul i size)) path) capacity
      own data)
    (notData : p'.block ≠ data.block)
    (fresh : p'.block = p.block ∨
      ∀ i < capacity, p'.block ∉ blocks (members.releases conf w.memory (data.plus (target.mul i size)) path))
    {j : Nat} (bound : j < capacity)
    (place : StringPlace target owner w.heap w.memory members (data.plus (target.mul j size))
      (members.releases conf w.memory (data.plus (target.mul j size)) path) header)
    {i : Nat} (boundI : i < capacity) (different : i ≠ j) :
    Clear target header p.block p'.block members (data.plus (target.mul i size))
      (members.releases conf w.memory (data.plus (target.mul i size)) path) := by
  have old : (w.memory.loadPointer target.word header).block ≠ .null := by
    rw [replaces.before]
    exact replaces.notNull
  have sameBlock : (data.plus (target.mul j size)).block = (data.plus (target.mul i size)).block := rfl
  have cleared := place.clear old sameBlock
    (element_heads_disjoint layout unbounded whole data bound boundI different.symm)
    (apart.disjoint j bound i boundI different.symm) ⟨apart.data j bound, apart.data i boundI⟩
    ⟨notData, by rw [replaces.before]; exact fresh.imp id fun absent => absent i boundI⟩
  rwa [replaces.before] at cleared

/-- A string of one element of a sequence. -/
theorem Regrows.element (replaces : Replaces target owner header p p' w w') {info : MessageInfo}
    {members : MemberList} {field : Field} (sequence : field.isSequence = true)
    (layout : members.Layout target info.sizeOf) (unbounded : members.NoBounded)
    (whole : members.HasHeader → conf.messageCapacity path field * info.sizeOf < target.modulus)
    (held : (MemberList.message info members field .nil).Held conf owner w.heap w.memory msg path)
    (separate : Separate conf w.memory p.block p'.block (.message info members field .nil) msg path)
    {j : Nat} (bound : j < conf.messageCapacity path field)
    (member : header ∈ members.strings conf w.memory
      ((w.memory.loadPointer target.word (msg.plus field.offset)).plus (target.mul j info.sizeOf))
      (path.child field.name))
    (inner : ∀ msg, members.Held conf owner w.heap w.memory msg (path.child field.name) →
      Separate conf w.memory p.block p'.block members msg (path.child field.name) →
      header ∈ members.strings conf w.memory msg (path.child field.name) →
      Regrows conf owner header p p' w w' members msg (path.child field.name)) :
    Regrows conf owner header p p' w w' (.message info members field .nil) msg path := by
  obtain ⟨headerHeld, elements⟩ := held.1 sequence
  obtain ⟨nodup, apart, outside, fresh⟩ := separate
  simp only [MemberList.releases, sequence, if_true, List.append_nil] at nodup apart fresh
  generalize pointer : w.memory.loadPointer target.word (msg.plus field.offset) = data
    at elements nodup apart fresh member
  have elementsApart := ElementsApart.of_nodup headerHeld.backed.block_ne_null nodup apart
  let element (i : Nat) : List Pointer :=
    members.releases conf w.memory (data.plus (target.mul i info.sizeOf)) (path.child field.name)
  have place := MemberList.place (elements j bound) member
  have oldHere : p.block ∈ blocks (element j) := by
    refine mem_blocks.mpr ⟨⟨p, ?_, rfl⟩, replaces.notNull⟩
    have data := place.data
    rwa [replaces.before] at data
  have dataOld : data.block ≠ p.block := fun same => elementsApart.data j bound (same ▸ oldHere)
  have dataNew : p'.block ≠ data.block := by
    intro same
    rcases fresh with isOld | absent
    · exact dataOld (same.symm.trans isOld)
    · obtain ⟨number, isObject⟩ := replaces.isObject
      rw [blocks_append] at absent
      refine absent (List.mem_append_right _ (mem_blocks.mpr ⟨⟨data, List.mem_singleton_self _, same.symm⟩, ?_⟩))
      simp [isObject]
  have freshHere : p'.block = p.block ∨ ∀ i < conf.messageCapacity path field, p'.block ∉ blocks (element i) := by
    refine fresh.imp id fun absent i bound inside => absent ?_
    have among : p'.block ∈ blocks (element i) := inside
    rw [blocks_append]
    exact List.mem_append_left _ (mem_elements bound among)
  -- The element with the string is changed as the induction says, the others stay.
  obtain ⟨inner, ⟨earlier, later, released, released'⟩, strings, others⟩ := inner _ (elements j bound)
    ⟨elementsApart.nodup j bound, elementsApart.data j bound, dataNew, freshHere.imp id fun absent => absent j bound⟩
    member
  have clear (i : Nat) (boundI : i < conf.messageCapacity path field) (different : i ≠ j) :
      Clear target header p.block p'.block members (data.plus (target.mul i info.sizeOf)) (element i) :=
    replaces.elements_clear layout unbounded whole elementsApart dataNew freshHere bound place boundI different
  have part (i : Nat) (boundI : i < conf.messageCapacity path field) (different : i ≠ j) :=
    replaces.toRegrown.part (elements i boundI) (clear i boundI different)
  have headerOutside : header.block ≠ (msg.plus field.offset).block := by
    intro same
    rcases place.block with here | inBlock
    · exact elementsApart.own (same.symm.trans here)
    · exact elementsApart.header j bound (same ▸ inBlock)
  obtain ⟨pointer', ownHeld⟩ := replaces.toRegrown.keepsHeader headerHeld headerOutside
    ⟨fun same => elementsApart.header j bound (same ▸ oldHere), outside.symm⟩
    (fun _ => by rw [pointer]; exact ⟨dataOld, dataNew.symm⟩)
  rw [pointer] at pointer'
  obtain ⟨before, behind, split, rest⟩ := range_split bound
  refine ⟨⟨fun _ => ⟨ownHeld, fun i boundI => ?_⟩, fun single => ?_, trivial⟩,
    ⟨before.flatMap element ++ earlier, later ++ (behind.flatMap element ++ [data]), ?_, ?_⟩, ?_, ?_⟩
  · rw [pointer']
    by_cases isHere : i = j
    · subst isHere
      exact inner
    · exact (part i boundI isHere).1
  · rw [sequence] at single
    cases single
  · simp only [MemberList.releases, sequence, if_true, List.append_nil, pointer, split, List.flatMap_append,
      List.flatMap_cons, released, List.append_assoc, List.cons_append]
    rfl
  · have same : ∀ i, i ∈ before ∨ i ∈ behind → members.releases conf w'.memory
        (data.plus (target.mul i info.sizeOf)) (path.child field.name) = element i := by
      intro i inRest
      obtain ⟨boundI, different⟩ := rest i inRest
      exact (part i boundI different).2.releases
    simp only [MemberList.releases, sequence, if_true, List.append_nil, pointer', split, List.flatMap_append,
      List.flatMap_cons, released', List.append_assoc, List.cons_append]
    rw [List.flatMap_congr fun i inBefore => same i (Or.inl inBefore),
      List.flatMap_congr fun i inBehind => same i (Or.inr inBehind)]
  · simp only [MemberList.strings, sequence, if_true, List.append_nil, pointer, pointer']
    refine List.flatMap_congr fun i inRange => ?_
    by_cases isHere : i = j
    · subst isHere
      exact strings
    · exact (part i (List.mem_range.mp inRange) isHere).2.strings
  · intro other inStrings ne
    simp only [MemberList.strings, sequence, if_true, List.append_nil, pointer] at inStrings
    obtain ⟨i, inRange, inElement⟩ := List.mem_flatMap.mp inStrings
    replace inRange := List.mem_range.mp inRange
    by_cases isHere : i = j
    · subst isHere
      exact others other inElement ne
    · exact replaces.toRegrown.untouched (elements i inRange) (clear i inRange isHere) inElement

/-- A string of a message that stands in place. -/
theorem Regrows.inline {info : MessageInfo} {members : MemberList} {field : Field} (single : field.isSequence = false)
    (held : (MemberList.message info members field .nil).Held conf owner w.heap w.memory msg path)
    (separate : Separate conf w.memory p.block p'.block (.message info members field .nil) msg path)
    (member : header ∈ (MemberList.message info members field .nil).strings conf w.memory msg path)
    (inner : members.Held conf owner w.heap w.memory (msg.plus field.offset) (path.child field.name) →
      Separate conf w.memory p.block p'.block members (msg.plus field.offset) (path.child field.name) →
      header ∈ members.strings conf w.memory (msg.plus field.offset) (path.child field.name) →
      Regrows conf owner header p p' w w' members (msg.plus field.offset) (path.child field.name)) :
    Regrows conf owner header p p' w w' (.message info members field .nil) msg path := by
  have released (m : Contents) : (MemberList.message info members field .nil).releases conf m msg path =
      members.releases conf m (msg.plus field.offset) (path.child field.name) := by
    simp [MemberList.releases, single]
  have strings (m : Contents) : (MemberList.message info members field .nil).strings conf m msg path =
      members.strings conf m (msg.plus field.offset) (path.child field.name) := by
    simp [MemberList.strings, single]
  obtain ⟨nodup, apart, fresh⟩ := separate
  rw [released] at nodup apart fresh
  rw [strings] at member
  obtain ⟨heldHere, ⟨earlier, later, before, after⟩, same, others⟩ :=
    inner (held.2.1 single) ⟨nodup, apart, fresh⟩ member
  refine ⟨⟨fun sequence => ?_, fun _ => heldHere, trivial⟩, ⟨earlier, later, ?_, ?_⟩, ?_, fun other among => ?_⟩
  · rw [single] at sequence
    cases sequence
  · rw [released, before]
  · rw [released, after]
  · rw [strings, strings, same]
  · rw [strings] at among
    exact others other among

/-- A string gets another block, by induction over the type of its message. -/
theorem regrows (replaces : Replaces target owner header p p' w w') {list : MemberList} {size : Nat}
    (layout : list.Layout target size) (unbounded : list.NoBounded) (spread : list.Spread conf path)
    (held : list.Held conf owner w.heap w.memory msg path)
    (separate : Separate conf w.memory p.block p'.block list msg path)
    (member : header ∈ list.strings conf w.memory msg path) :
    Regrows conf owner header p p' w w' list msg path := by
  induction list generalizing size msg path with
  | nil => cases member
  | basic type field rest ih =>
    obtain ⟨heldFirst, heldTail⟩ := MemberList.held_parts.mp held
    obtain ⟨separateFirst, separateTail, _⟩ := separate.parts
    refine .parts replaces layout unbounded held separate member (fun here => ?_) fun there => ?_
    · exact .string replaces heldFirst separateFirst here
    · exact ih layout.2.2 unbounded.2 spread heldTail separateTail there
  | message info members field rest ihMembers ih =>
    obtain ⟨heldFirst, heldTail⟩ := MemberList.held_parts.mp held
    obtain ⟨separateFirst, separateTail, _⟩ := separate.parts
    obtain ⟨_, _, _, membersLayout, restLayout⟩ := id layout
    obtain ⟨notBounded, membersUnbounded, restUnbounded⟩ := id unbounded
    obtain ⟨spreadSequence, spreadPlace, restSpread⟩ := spread
    refine .parts replaces layout unbounded held separate member (fun here => ?_) fun there => ?_
    · cases sequence : field.isSequence with
      | true =>
        simp only [MemberList.first, MemberList.strings, sequence, if_true, List.append_nil] at here
        obtain ⟨j, bound, inElement⟩ := List.mem_flatMap.mp here
        replace bound := List.mem_range.mp bound
        have positive := Nat.lt_of_le_of_lt (Nat.zero_le j) bound
        refine .element replaces sequence membersLayout membersUnbounded (spreadSequence sequence positive).1 heldFirst
          separateFirst bound inElement fun msg => ?_
        exact ihMembers membersLayout membersUnbounded (spreadSequence sequence positive).2
      | false =>
        refine .inline sequence heldFirst separateFirst here fun held separate inMember => ?_
        exact ihMembers membersLayout membersUnbounded (spreadPlace sequence) held separate inMember
    · exact ih restLayout restUnbounded restSpread heldTail separateTail there

end Replacement

end MicroRos
