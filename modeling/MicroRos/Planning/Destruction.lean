import MicroRos.Planning.Ownership

/-! What destroying does to a message that holds its memory.

Every data pointer is released once, children before the header they belong to. The
induction over the type carries that the blocks still to be released are alive and
different from each other and from the one the instance stands in.
-/

set_option autoImplicit false

namespace MicroRos

open Memory (Pointer Contents Block Heap)

variable {target : Target}

/-- Pointers given to `deallocate`, in order. -/
def releasedBy (events : List Event) : List Pointer :=
  events.filterMap fun
    | .released p => some p
    | _ => none

theorem releasedBy_append (events later : List Event) :
    releasedBy (events ++ later) = releasedBy events ++ releasedBy later := List.filterMap_append

/-- No access outside of live memory, and no release that is not allowed. -/
def Event.Sound : Event → Prop
  | .invalid .. | .badRelease .. => False
  | _ => True

/-- Between the two states these pointers were released, and nothing was written but `heads` and the
released blocks. -/
structure Destroys (heads : Set Pointer) (released : List Pointer) (w w' : Core) : Prop where
  extent : ∀ b, w'.heap.extent b = if b ∈ blocks released then none else w.heap.extent b
  kept : ∀ q : Pointer, q.block ≠ .null → q ∉ heads → q.block ∉ blocks released →
    w'.memory q = w.memory q
  fresh : w'.heap.fresh = w.heap.fresh
  logged : ∃ events, w'.log = w.log ++ events ∧ releasedBy events = released ∧
    ∀ event ∈ events, event.Sound

namespace Destroys

variable {heads others : Set Pointer} {released later : List Pointer} {w w' w'' : Core}

theorem refl (w : Core) : Destroys ∅ [] w w :=
  ⟨fun _ => by simp, fun _ _ _ _ => rfl, rfl, [], by simp, rfl, by simp⟩

theorem seq (one : Destroys heads released w w') (two : Destroys others later w' w'') :
    Destroys (heads ∪ others) (released ++ later) w w'' where
  extent b := by
    rw [two.extent, one.extent, blocks_append]
    by_cases first : b ∈ blocks released <;> by_cases second : b ∈ blocks later <;> simp [first, second]
  kept q notNull outside live := by
    simp only [blocks_append, List.mem_append, not_or] at live
    rw [two.kept q notNull (fun inside => outside (Or.inr inside)) live.2,
      one.kept q notNull (fun inside => outside (Or.inl inside)) live.1]
  fresh := two.fresh.trans one.fresh
  logged := by
    obtain ⟨events, log, first, sound⟩ := one.logged
    obtain ⟨events', log', second, sound'⟩ := two.logged
    refine ⟨events ++ events', by rw [log', log, List.append_assoc], ?_, ?_⟩
    · rw [releasedBy_append, first, second]
    · exact List.forall_mem_append.mpr ⟨sound, sound'⟩

/-- What was written in released blocks need not be listed. -/
theorem mono (destroys : Destroys heads released w w') (others : Set Pointer)
    (less : ∀ q ∈ heads, q.block ≠ .null → q ∈ others ∨ q.block ∈ blocks released) :
    Destroys others released w w' where
  extent := destroys.extent
  kept q notNull outside live := destroys.kept q notNull
    (fun inside => (less q inside notNull).elim outside live) live
  fresh := destroys.fresh
  logged := destroys.logged

/-- A recorded capacity changes nothing else. -/
theorem of_resolved (site : Site) (capacity : Nat)
    (destroys : Destroys heads released (w.record (.resolved site capacity)) w') :
    Destroys heads released w w' where
  extent := destroys.extent
  kept := destroys.kept
  fresh := destroys.fresh
  logged := by
    obtain ⟨events, log, same, sound⟩ := destroys.logged
    refine ⟨.resolved site capacity :: events, by rw [log]; simp, same, ?_⟩
    exact List.forall_mem_cons.mpr ⟨trivial, sound⟩

variable {conf : MemoryConf target} {owner : Nat} {list : MemberList} {msg : Pointer} {path : CString}

/-- A message is still held when others have been destroyed. -/
theorem preserves (destroys : Destroys heads released w w')
    (held : list.Held conf owner w.heap w.memory msg path)
    (clear : ∀ q ∈ heads, q ∉ MicroRos.heads target list msg ∧
      q.block ∉ blocks (list.releases conf w.memory msg path))
    (apart : ∀ b ∈ blocks released, b ≠ msg.block ∧
      b ∉ blocks (list.releases conf w.memory msg path)) :
    list.Held conf owner w'.heap w'.memory msg path ∧
      list.releases conf w'.memory msg path = list.releases conf w.memory msg path := by
  have same : list.SamePointers conf w.memory w'.memory msg path := by
    refine MemberList.SamePointers.of_agree held fun q notNull among => ?_
    rcases among with head | inBlock
    · refine destroys.kept q notNull (fun inside => (clear q inside).1 head) fun freed => ?_
      obtain ⟨o, _, rfl⟩ := head
      exact (apart _ freed).1 rfl
    · exact destroys.kept q notNull (fun inside => (clear q inside).2 inBlock) fun freed =>
        (apart _ freed).2 inBlock
  refine ⟨same.held (fun b notNull among => ?_) held, same.releases⟩
  rw [destroys.extent, if_neg]
  intro freed
  exact among.elim (apart b freed).1 (apart b freed).2

/-- A header is still held when others have been destroyed. -/
theorem keepsHeader {header : Pointer} (destroys : Destroys heads released w w')
    (held : HeaderHeld target owner w.heap w.memory header)
    (outside : ∀ q ∈ heads, q.block ≠ .null → q.block ≠ header.block)
    (apart : header.block ∉ blocks released)
    (dataApart : (w.memory.loadPointer target.word header).block ∉ blocks released) :
    w'.memory.loadPointer target.word header = w.memory.loadPointer target.word header ∧
      HeaderHeld target owner w'.heap w'.memory header := by
  have notNull := held.backed.block_ne_null
  have pointer : w'.memory.loadPointer target.word header = w.memory.loadPointer target.word header :=
    Memory.Contents.loadPointer_congr target.word_pos fun i _ =>
      destroys.kept _ notNull (fun inside => outside _ inside notNull rfl) apart
  exact ⟨pointer, MemberList.HeaderHeld.congr held pointer
    (fun _ => by rw [destroys.extent, if_neg apart]) fun _ => by rw [destroys.extent, if_neg dataApart]⟩

end Destroys

namespace Core

theorem storeSize_backed {w : Core} {p : Pointer} (n : Nat) (backed : w.heap.Backed p target.word) :
    w.storeSize target p n = { w with memory := w.memory.storeSize target.word p n } := by
  rw [storeSize, touch_backed _ _ _ backed]

theorem storeCounts_backed {w : Core} {header : Pointer} (capacity : Nat)
    (backed : w.heap.Backed header target.headerSize) :
    w.storeCounts target header capacity = { w with
      memory := (w.memory.storeSize target.word (header.plus target.word) 0).storeSize target.word
        (header.plus (2 * target.word)) capacity } := by
  have words : ∀ i, i + target.word ≤ target.headerSize → w.heap.Backed (header.plus i) target.word :=
    fun i fits => backed.plus fits
  rw [storeCounts, storeSize_backed 0 (words _ (by simp only [Target.headerSize]; omega)),
    storeSize_backed]
  exact words _ (by simp only [Target.headerSize]; omega)

theorem touch_header {w : Core} {header : Pointer} (backed : w.heap.Backed header target.headerSize) :
    w.touch header target.word = w :=
  touch_backed _ _ _ (backed.mono (by simp only [Target.headerSize]; omega))

/-- The end of one header: its data pointer is released and its counts are cleared. -/
theorem tearDownHeader_destroys {w : Core} {owner : Nat} (site : Site) {header : Pointer}
    (held : HeaderHeld target owner w.heap w.memory header)
    (apart : header.block ≠ (w.memory.loadPointer target.word header).block) :
    Destroys (headerSpan target header) [w.memory.loadPointer target.word header] w
      (w.tearDownHeader target owner .destroy site header) := by
  have releasable : w.heap.Releasable owner (w.memory.loadPointer target.word header) := by
    refine held.data.imp id fun ⟨start, ⟨number, isObject⟩, live⟩ => ⟨start, live, ?_⟩
    simp [isObject]
  simp only [tearDownHeader, loadPointer, touch_header held.backed, deallocate,
    checkRelease_releasable w _ _ releasable]
  generalize w.memory.loadPointer target.word header = data at apart ⊢
  have backed : (w.heap.release data).Backed header target.headerSize := by
    obtain ⟨size, found, fits⟩ := held.backed
    exact ⟨size, by rw [Heap.release_extent, if_neg apart]; exact found, fits⟩
  have counts : ∀ after : Core, after.heap = w.heap.release data → after.storeCounts target header 0 = _ :=
    fun after same => storeCounts_backed 0 (same ▸ backed)
  rw [counts _ rfl]
  refine ⟨fun b => ?_, fun q _ outside _ => ?_, rfl, [.released data, .cleared site header], by simp, rfl,
    by simp [Event.Sound]⟩
  · have only : b ∈ blocks [data] ↔ b = data.block ∧ b ≠ .null := by simp [mem_blocks, eq_comm]
    simp only [record_heap, Heap.release_extent, only]
    by_cases isNull : b = .null
    · subst isNull
      simp [w.heap.nullDead]
    · simp [isNull]
  · have words : ∀ i, i + target.word ≤ target.headerSize → ¬ (header.plus i).Spans target.word q :=
      fun i fits inside => outside (inside.within fits)
    simp only [record_memory]
    rw [Contents.storeSize_outside _ _ _ (words _ (by simp only [Target.headerSize]; omega)),
      Contents.storeSize_outside _ _ _ (words _ (by simp only [Target.headerSize]; omega))]

end Core

namespace MemberList

/-- The elements of every sequence stand apart as the planner computes their addresses: where the
element type has headers, the size of the sequence does not wrap. -/
def Spread (conf : MemoryConf target) : MemberList → CString → Prop
  | .nil, _ => True
  | .basic _ _ rest, path => rest.Spread conf path
  | .message info members field rest, path =>
    (field.isSequence = true → 0 < conf.messageCapacity path field →
      (members.HasHeader → conf.messageCapacity path field * info.sizeOf < target.modulus) ∧
        members.Spread conf (path.child field.name)) ∧
    (field.isSequence = false → members.Spread conf (path.child field.name)) ∧
    rest.Spread conf path

end MemberList

theorem flatMap_range_disjoint {α : Type} {f : Nat → List α} {n i j : Nat}
    (nodup : ((List.range n).flatMap f).Nodup) (less : i < j) (bound : j < n) :
    List.Disjoint (f i) (f j) := by
  have pairs := (List.nodup_flatMap.mp nodup).2
  rw [List.pairwise_iff_getElem] at pairs
  have apart := pairs i j (by rw [List.length_range]; omega) (by rwa [List.length_range]) less
  rwa [Function.onFun_apply, List.getElem_range, List.getElem_range] at apart

namespace MemberList

/-- The header of a sequence, its elements and its data stand in different blocks. -/
theorem sequence_apart {header data : Pointer} {released : List Pointer} (notNull : header.block ≠ .null)
    (nodup : (blocks (released ++ [data])).Nodup) (apart : header.block ∉ blocks (released ++ [data])) :
    data.block ∉ blocks released ∧ header.block ∉ blocks released ∧ header.block ≠ data.block := by
  rw [blocks_append] at nodup apart
  obtain ⟨_, _, separate⟩ := List.nodup_append.mp nodup
  rw [List.mem_append, not_or] at apart
  refine ⟨fun member => ?_, apart.1, fun same => ?_⟩
  · have last := mem_blocks.mpr ⟨⟨data, List.mem_singleton_self data, rfl⟩, (mem_blocks.mp member).2⟩
    exact separate _ member _ last rfl
  · exact apart.2 (mem_blocks.mpr ⟨⟨data, List.mem_singleton_self data, same.symm⟩, notNull⟩)

/-- Destroying the elements of a sequence: `inner` is what destroying one of them does. -/
theorem destroys_elements {conf : MemoryConf target} {members : MemberList} {memberSize capacity : Nat}
    (layout : members.Layout target memberSize) (unbounded : members.NoBounded)
    (whole : members.HasHeader → capacity * memberSize < target.modulus) {path : CString}
    (inner : 0 < capacity → ∀ (msg : Pointer) (stack : List Step) (w : Core),
      members.Held conf conf.owner w.heap w.memory msg path →
      (blocks (members.releases conf w.memory msg path)).Nodup →
      msg.block ∉ blocks (members.releases conf w.memory msg path) →
      Destroys (heads target members msg) (members.releases conf w.memory msg path) w
        (traverse conf .destroy members msg path stack 0 0 w).2)
    {header data : Pointer} {w : Core} (pointer : w.memory.loadPointer target.word header = data)
    (headerHeld : HeaderHeld target conf.owner w.heap w.memory header)
    (held : ∀ j < capacity, members.Held conf conf.owner w.heap w.memory
      (data.plus (target.mul j memberSize)) path) {released : List Pointer}
    (these : released = (List.range capacity).flatMap fun j =>
      members.releases conf w.memory (data.plus (target.mul j memberSize)) path)
    (nodup : (blocks (released ++ [data])).Nodup) (apart : header.block ∉ blocks (released ++ [data]))
    (stack : List Step) (index used : Nat) :
    Destroys (elementHeads target members memberSize data capacity) released w
      (Core.forElements target
        (fun j w =>
          let loaded := w.elementData target .destroy header
          traverse conf .destroy members (Core.elementAddress target .destroy loaded.1 j memberSize) path
            (stack ++ [.element index j loaded.1]) 0 0 loaded.2) capacity used w).2 := by
  subst these
  obtain ⟨dataApart, headerApart, outside⟩ := sequence_apart headerHeld.backed.block_ne_null nodup apart
  rw [blocks_append] at nodup
  replace nodup := (List.nodup_append.mp nodup).1
  let element (j : Nat) : List Pointer :=
    members.releases conf w.memory (data.plus (target.mul j memberSize)) path
  have among : ∀ n ≤ capacity, ∀ b ∈ blocks ((List.range n).flatMap element),
      b ∈ blocks ((List.range capacity).flatMap element) := by
    intro n le b member
    rw [blocks_flatMap, List.mem_flatMap] at member ⊢
    obtain ⟨j, bound, member⟩ := member
    exact ⟨j, List.mem_range.mpr (Nat.lt_of_lt_of_le (List.mem_range.mp bound) le), member⟩
  refine Core.forElements_induct (motive := fun n _ w' =>
    Destroys (elementHeads target members memberSize data n) ((List.range n).flatMap element) w w') ?_ ?_
  · have none : elementHeads target members memberSize data 0 = ∅ := by simp [elementHeads]
    rw [none]
    exact .refl w
  · intro n bound _ w' before
    have earlier := among n (Nat.le_of_lt bound)
    have here : ∀ b ∈ blocks (element n), b ∈ blocks ((List.range capacity).flatMap element) := by
      intro b member
      rw [blocks_flatMap]
      exact List.mem_flatMap.mpr ⟨n, List.mem_range.mpr bound, member⟩
    obtain ⟨pointer', held'⟩ := before.keepsHeader headerHeld
      (by rintro q ⟨j, _, o, _, isElement⟩ _; rw [isElement]; exact outside.symm)
      (fun member => headerApart (earlier _ member))
      (by rw [pointer]; exact fun member => dataApart (earlier _ member))
    obtain ⟨stillHeld, same⟩ := before.preserves (held n bound)
      (fun q inside => ⟨Set.disjoint_left.mp
        (elementHeads_apart layout unbounded whole data bound) inside, fun member => by
          obtain ⟨j, _, o, _, rfl⟩ := inside
          exact dataApart (here _ member)⟩)
      (fun b member => ⟨by rintro rfl; exact dataApart (earlier _ member), fun later => by
        rw [blocks_flatMap] at member nodup
        obtain ⟨j, less, member⟩ := List.mem_flatMap.mp member
        exact flatMap_range_disjoint nodup (List.mem_range.mp less) bound member later⟩)
    have loads : w'.elementData target .destroy header = (data, w') := by
      simp [Core.elementData, Operation.calculates, Core.loadPointer, pointer', pointer,
        Core.touch_header held'.backed]
    simp only [loads, Core.elementAddress, Operation.calculates, Bool.false_eq_true, if_false]
    rw [elementHeads_succ, List.range_succ, List.flatMap_append, List.flatMap_singleton]
    have nodupHere : (blocks (element n)).Nodup := by
      rw [blocks_flatMap] at nodup
      exact (List.nodup_flatMap.mp nodup).1 n (List.mem_range.mpr bound)
    have last := inner (by omega) _ (stack ++ [.element index n data]) w' stillHeld (by rw [same]; exact nodupHere)
      (by rw [same]; exact fun member => dataApart (here _ member))
    rw [same] at last
    exact before.seq last

/-- The end of a sequence: behind its elements its data is released and its header is cleared. -/
theorem destroys_sequence {members : MemberList} {memberSize capacity : Nat} {owner : Nat} {header data : Pointer}
    {released : List Pointer} {w w' : Core} (site : Site)
    (looped : Destroys (elementHeads target members memberSize data capacity) released w w')
    (pointer : w.memory.loadPointer target.word header = data)
    (headerHeld : HeaderHeld target owner w.heap w.memory header)
    (nodup : (blocks (released ++ [data])).Nodup) (apart : header.block ∉ blocks (released ++ [data])) :
    Destroys (headerSpan target header) (released ++ [data]) w
      (w'.tearDownHeader target owner .destroy site header) := by
  obtain ⟨dataApart, headerApart, outside⟩ := sequence_apart headerHeld.backed.block_ne_null nodup apart
  obtain ⟨pointer', headerHeld'⟩ := looped.keepsHeader headerHeld
    (by rintro q ⟨j, _, o, _, isElement⟩ _; rw [isElement]; exact outside.symm) headerApart
    (by rw [pointer]; exact dataApart)
  rw [pointer] at pointer'
  have torn := Core.tearDownHeader_destroys site headerHeld' (by rwa [pointer'])
  rw [pointer'] at torn
  refine (looped.seq torn).mono (headerSpan target header) ?_
  rintro q (⟨j, _, o, _, rfl⟩ | inHeader) notNull
  · right
    rw [blocks_append]
    exact List.mem_append_right _ (mem_blocks.mpr ⟨⟨_, List.mem_singleton_self _, rfl⟩, notNull⟩)
  · exact Or.inl inHeader

/-- What is destroyed first lies inside of one member, so the members behind it are held as before. -/
theorem then_rest {conf : MemoryConf target} {rest : MemberList} {size lower upper : Nat}
    {first : Set Pointer} {released : List Pointer} {msg : Pointer} {path : CString} {w w' w'' : Core}
    (here : Destroys first released w w') (layout : rest.Layout target size) (unbounded : rest.NoBounded)
    (clear : ∀ o, lower ≤ o → o < upper → ¬ rest.Covers target o)
    (inside : ∀ q ∈ first, ∃ o, lower ≤ o ∧ o < upper ∧ q = msg.plus o)
    (held : rest.Held conf conf.owner w.heap w.memory msg path)
    (nodup : (blocks (released ++ rest.releases conf w.memory msg path)).Nodup)
    (apart : msg.block ∉ blocks (released ++ rest.releases conf w.memory msg path))
    (later : rest.Held conf conf.owner w'.heap w'.memory msg path →
      (blocks (rest.releases conf w'.memory msg path)).Nodup →
      msg.block ∉ blocks (rest.releases conf w'.memory msg path) →
      Destroys (heads target rest msg) (rest.releases conf w'.memory msg path) w' w'') :
    Destroys (first ∪ heads target rest msg) (released ++ rest.releases conf w.memory msg path) w w'' := by
  rw [blocks_append] at nodup apart
  obtain ⟨_, restNodup, separate⟩ := List.nodup_append.mp nodup
  rw [List.mem_append, not_or] at apart
  obtain ⟨stillHeld, same⟩ := here.preserves held
    (fun q among => ⟨Set.disjoint_left.mp (heads_apart layout unbounded.messages clear inside) among, by
      obtain ⟨o, _, _, rfl⟩ := inside q among
      exact apart.2⟩)
    (fun b member => ⟨by rintro rfl; exact apart.1 member, fun later => separate b member b later rfl⟩)
  rw [← same] at restNodup apart ⊢
  exact here.seq (later stillHeld restNodup apart.2)

/-- Destroying a message, by induction over its type. -/
theorem destroys {conf : MemoryConf target} {list : MemberList} {size : Nat}
    (layout : list.Layout target size) (unbounded : list.NoBounded) (msg : Pointer) (path : CString)
    (spread : list.Spread conf path) (stack : List Step) (index used : Nat) (w : Core)
    (held : list.Held conf conf.owner w.heap w.memory msg path)
    (nodup : (blocks (list.releases conf w.memory msg path)).Nodup)
    (apart : msg.block ∉ blocks (list.releases conf w.memory msg path)) :
    Destroys (heads target list msg) (list.releases conf w.memory msg path) w
      (traverse conf .destroy list msg path stack index used w).2 := by
  induction list generalizing size msg path stack index used w with
  | nil =>
    rw [heads_nil]
    exact .refl w
  | basic type field rest ih =>
    obtain ⟨inside, clear, restLayout⟩ := layout
    obtain ⟨own, restHeld⟩ := held
    rw [heads_basic]
    simp only [releases] at nodup apart
    simp only [traverse, releases]
    split
    next header =>
      rw [if_pos header] at nodup apart
      have headerHeld := own header
      have notNull := headerHeld.backed.block_ne_null
      have outside : (msg.plus field.offset).block ≠
          (w.memory.loadPointer target.word (msg.plus field.offset)).block := by
        intro same
        rw [blocks_append] at apart
        exact apart (List.mem_append_left _ (mem_blocks.mpr ⟨⟨_, List.mem_singleton_self _, same.symm⟩, notNull⟩))
      have torn := (Core.tearDownHeader_destroys (w := w.record (.resolved ⟨stack, index⟩
        (conf.basicCapacity path type field))) ⟨stack, index⟩ headerHeld outside).of_resolved
      have spans := headerSpan_inside msg field.offset (header_le_basicExtent target header)
      exact then_rest torn restLayout unbounded.2 clear spans restHeld nodup apart
        (ih restLayout unbounded.2 msg path spread stack (index + 1) _ _)
    next plain =>
      rw [if_neg plain, List.nil_append] at nodup apart
      rw [List.nil_append, Set.empty_union]
      exact ih restLayout unbounded.2 msg path spread stack (index + 1) used w restHeld nodup apart
  | message info members field rest ihMembers ih =>
    obtain ⟨inside, clear, _, membersLayout, restLayout⟩ := layout
    obtain ⟨notBounded, membersUnbounded, restUnbounded⟩ := unbounded
    obtain ⟨heldSequence, heldPlace, restHeld⟩ := held
    obtain ⟨spreadSequence, spreadPlace, restSpread⟩ := spread
    rw [heads_message]
    simp only [releases] at nodup apart
    simp only [traverse, releases]
    split
    next sequence =>
      rw [if_pos sequence] at nodup apart
      obtain ⟨headerHeld, heldElements⟩ := heldSequence sequence
      generalize pointer : w.memory.loadPointer target.word (msg.plus field.offset) = data
        at heldElements nodup apart ⊢
      generalize these : ((List.range (conf.messageCapacity path field)).flatMap fun j =>
        members.releases conf w.memory (data.plus (target.mul j info.sizeOf)) (path.child field.name)) =
          elements at nodup apart ⊢
      have whole : members.HasHeader →
          conf.messageCapacity path field * info.sizeOf < target.modulus := by
        intro header
        rcases Nat.eq_zero_or_pos (conf.messageCapacity path field) with none | positive
        · rw [none, Nat.zero_mul]
          exact target.modulus_pos
        · exact (spreadSequence sequence positive).1 header
      have nodupHere : (blocks (elements ++ [data])).Nodup := by
        rw [blocks_append] at nodup
        exact (List.nodup_append.mp nodup).1
      have apartHere : (msg.plus field.offset).block ∉ blocks (elements ++ [data]) := by
        rw [blocks_append] at apart
        exact fun member => apart (List.mem_append_left _ member)
      have looped := destroys_elements (w := w.record (.resolved ⟨stack, index⟩
          (conf.messageCapacity path field))) membersLayout membersUnbounded whole
        (fun positive msg stack w => ihMembers membersLayout membersUnbounded msg (path.child field.name)
          (spreadSequence sequence positive).2 stack 0 0 w)
        pointer headerHeld heldElements these.symm nodupHere apartHere stack index
        (target.add used (target.mul (conf.messageCapacity path field) info.sizeOf))
      have here := (destroys_sequence ⟨stack, index⟩ looped pointer headerHeld nodupHere apartHere).of_resolved
      have long : target.headerSize ≤ field.messageExtent target info := (sequence_extent sequence).ge
      exact then_rest here restLayout restUnbounded clear (headerSpan_inside msg field.offset long) restHeld
        nodup apart (ih restLayout restUnbounded msg path restSpread stack (index + 1) _ _)
    next single =>
      rw [if_neg single] at nodup apart
      have notSequence : field.isSequence = false := by simpa using single
      have spans := heads_inside membersLayout membersUnbounded.messages
        (size_le_inlineExtent target info notSequence notBounded) msg field.offset
      have nodupHere := nodup
      have apartHere := apart
      rw [blocks_append] at nodupHere apartHere
      have here := ihMembers membersLayout membersUnbounded (msg.plus field.offset)
        (path.child field.name) (spreadPlace notSequence) (stack ++ [.inline index]) 0 0 w
        (heldPlace notSequence) (List.nodup_append.mp nodupHere).1
        fun member => apartHere (List.mem_append_left _ member)
      exact then_rest here restLayout restUnbounded clear spans restHeld nodup apart
        (ih restLayout restUnbounded msg path restSpread stack (index + 1) _ _)

end MemberList

end MicroRos
