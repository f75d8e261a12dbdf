import MicroRos.Planning.Sessions
import MicroRos.Planning.Undoing

/-! Sessions in which any request may be refused.

A creation that fails leaves a message behind that holds what was obtained for it. While no
sequence of an instance has elements with headers, such a message is as good as any other:
it may be changed, kept next to others, and destroyed.
-/

set_option autoImplicit false

namespace MicroRos

open Memory (Pointer Contents Block Heap Byte)

variable {target : Target}

theorem blocks_filter (pointers : List Pointer) : blocks (pointers.filter (· ≠ .null)) = blocks pointers := by
  rw [blocks, blocks, List.filter_map, List.filter_map, List.filter_filter]
  congr 1
  refine List.filter_congr fun p _ => ?_
  by_cases isNull : p = .null
  · simp [isNull, Pointer.null]
  · simp [isNull]

/-- The same state, with an allocator that is going to grant everything. -/
def Core.granting (w : Core) : Core := { w with heap := { w.heap with grants := fun _ _ => true } }

namespace MessageSlot

variable {slot : MessageSlot target} {w : Core}

theorem possesses_granting : slot.Possesses w.granting ↔ slot.Possesses w := by
  have same : w.granting.memory = w.memory ∧ w.granting.heap.extent = w.heap.extent := ⟨rfl, rfl⟩
  constructor
  · intro possesses
    exact (possesses.preserved (fun q _ _ => congrFun same.1.symm q) fun b _ => congrFun same.2.symm b).1
  · intro possesses
    exact (possesses.preserved (fun q _ _ => congrFun same.1 q) fun b _ => congrFun same.2 b).1

/-- What a creation that may be refused any of its requests obtained and left alone. -/
theorem create_attempted (flat : slot.type.members.Flat slot.conf.getConfiguration .empty)
    (placed : w.heap.Backed slot.msg slot.type.info.sizeOf) :
    let created := (w.create slot.conf slot.type slot.msg).2
    ∃ numbers, Obtains slot.conf.owner numbers w created ∧ slot.Possesses created ∧
      (∀ b, b ∈ slot.blocks created.memory ↔ ∃ number ∈ numbers, b = .object slot.conf.owner number) ∧
      ∀ q ∉ slot.span, w.heap.extent q.block ≠ none → created.memory q = w.memory q := by
  intro created
  obtain ⟨⟨_, acquires, held, _⟩, numbers, obtains, _, these⟩ :=
    Core.create_attempted slot.layout slot.unbounded.messages flat placed
  have prepared : (w.prepareDynamic slot.conf slot.type slot.msg).heap.Backed slot.msg slot.type.info.sizeOf := by
    simpa [Core.prepareDynamic] using placed
  have same : slot.blocks created.memory = MicroRos.blocks (objects slot.conf.owner numbers) := by
    rw [← these, blocks_filter]
    rfl
  refine ⟨numbers, obtains, ⟨acquires.backed prepared, held, ?_, ?_⟩, fun b => ?_, fun q outside alive => ?_⟩
  · change (slot.blocks created.memory).Nodup
    rw [same, blocks_objects]
    exact obtains.nodup.map fun _ _ same => by simpa using same
  · change slot.msg.block ∉ slot.blocks created.memory
    rw [same]
    intro isNew
    obtain ⟨number, member, isObject⟩ := mem_blocks_objects.mp isNew
    obtain ⟨size, found, _⟩ := placed
    have older := Memory.Heap.number_lt_fresh (isObject ▸ found)
    have newer := (obtains.numbered number member).1
    omega
  · rw [same]
    exact mem_blocks_objects
  · have heap : (w.prepareDynamic slot.conf slot.type slot.msg).heap = w.heap := by simp [Core.prepareDynamic]
    rw [acquires.kept q (fun head => outside (heads_span head)) (acquires.old (by rwa [heap]))]
    simp only [Core.prepareDynamic, Core.fillZero_memory, Core.dynamicSize_memory]
    exact Contents.fillZero_outside _ outside

end MessageSlot

namespace Session

variable {start : Heap} {core core' : Core} {live rest : List (MessageSlot target)} {slot : MessageSlot target}

/-- A new message whose blocks are new joins those that are there. -/
theorem Sound.join {numbers : List Nat} (sound : Sound start core live)
    (apart : ∀ other ∈ live, Disjoint slot.span other.span) (outside : slot.msg.block ∉ blocks core live)
    (grants : core'.heap.Grants) (obtains : Obtains slot.conf.owner numbers core core')
    (possesses : slot.Possesses core')
    (isNew : ∀ b, b ∈ slot.blocks core'.memory ↔ ∃ number ∈ numbers, b = .object slot.conf.owner number)
    (kept : ∀ q ∉ slot.span, core.heap.extent q.block ≠ none → core'.memory q = core.memory q) :
    Sound start core' (slot :: live) := by
  have older : ∀ b, core.heap.extent b ≠ none → b ∉ slot.blocks core'.memory := by
    intro b alive member
    obtain ⟨number, isNumber, rfl⟩ := (isNew b).mp member
    exact alive (core.heap.freshDead _ number (obtains.numbered number isNumber).1)
  have extent : ∀ b ∉ slot.blocks core'.memory, core'.heap.extent b = core.heap.extent b := fun b absent =>
    obtains.others b fun member => absent ((isNew b).mpr (mem_blocks_objects.mp member))
  have instanceAlive : ∀ other ∈ live, core.heap.extent other.msg.block ≠ none := by
    intro other member
    obtain ⟨size, found, _⟩ := (sound.possesses other member).live
    rw [Option.mem_def.mp found]
    exact Option.some_ne_none size
  have heldAlive : ∀ other ∈ live, ∀ b ∈ other.blocks core.memory, core.heap.extent b ≠ none :=
    fun other member b here => (sound.own b (mem_blocks_iff.mpr ⟨other, member, here⟩)).2
  have every : ∀ other ∈ live, other.Possesses core' ∧ other.owned core'.memory = other.owned core.memory := by
    intro other member
    refine (sound.possesses other member).preserved (fun q _ inside => ?_) fun b among => extent b (older b ?_)
    · rcases inside with here | here
      · refine kept q (Set.disjoint_right.mp (apart other member) here) ?_
        rw [here.1]
        exact instanceAlive other member
      · refine kept q (fun inInstance => ?_) (heldAlive other member _ here)
        rw [inInstance.1] at here
        exact outside (mem_blocks_iff.mpr ⟨other, member, here⟩)
    · rcases among with rfl | here
      · exact instanceAlive other member
      · exact heldAlive other member b here
  have same : blocks core' live = blocks core live := blocks_congr fun other member => (every other member).2
  refine ⟨grants, Nat.le_trans sound.fresh obtains.fresh,
    List.forall_mem_cons.mpr ⟨possesses, fun other member => (every other member).1⟩,
    List.pairwise_cons.mpr ⟨apart, sound.apart⟩, ?_, ?_, ?_, ?_⟩
  · rw [blocks_cons, same]
    refine List.nodup_append.mpr ⟨possesses.nodup, sound.nodup, ?_⟩
    rintro b here _ there rfl
    exact older b (sound.own b there).2 here
  · rw [blocks_cons, same]
    refine List.forall_mem_cons.mpr ⟨fun inside => ?_, fun other member inside => ?_⟩
    · exact (List.mem_append.mp inside).elim possesses.apart outside
    · exact (List.mem_append.mp inside).elim (older _ (instanceAlive other member)) (sound.outside other member)
  · intro b absent
    rw [blocks_cons, same, List.mem_append, not_or] at absent
    rw [extent b absent.1]
    exact sound.others b absent.2
  · intro b present
    rw [blocks_cons, same, List.mem_append] at present
    rcases present with here | there
    · obtain ⟨number, isNumber, rfl⟩ := (isNew b).mp here
      exact ⟨start.freshDead _ number (Nat.le_trans sound.fresh (obtains.numbered number isNumber).1),
        obtains.live number isNumber⟩
    · obtain ⟨notStart, alive⟩ := sound.own b there
      exact ⟨notStart, by rwa [extent b (older b alive)]⟩

/-- The invariant of a session without what it says of the allocator's answers. -/
def Tidy (start : Heap) (core : Core) (live : List (MessageSlot target)) : Prop := Sound start core.granting live

/-- No sequence that stands in an instance has memory for elements with headers. -/
def AllFlat (session : Session target) : Prop :=
  ∀ slot ∈ session.live, slot.type.members.Flat slot.conf.getConfiguration .empty

/-- One step keeps the invariant, whatever the allocator answers. -/
theorem Tidy.step {x y : Session target} (tidy : Tidy start x.core x.live) (step : Step x y) (flat : y.AllFlat) :
    Tidy start y.core y.live := by
  cases step with
  | @create core live slot behind placed apart outside =>
    have reached := (createMessageMemory_value slot.conf slot.type ⟨core, behind⟩ slot.msg).2
    obtain ⟨numbers, obtains, possesses, isNew, kept⟩ :=
      MessageSlot.create_attempted (flat slot List.mem_cons_self) placed
    simp only [reached]
    refine Sound.join tidy apart outside (fun _ _ => rfl) ?_ (MessageSlot.possesses_granting.mpr possesses)
      isNew kept
    exact ⟨obtains.fresh, obtains.numbered, obtains.nodup, obtains.others, obtains.live, obtains.logged⟩
  | modify slot among m keeps within => exact ((Sound.perm tidy among).modify keeps within).perm among.symm
  | @destroy core live rest slot behind among =>
    have headed := Sound.perm tidy among
    have reached := (destroyMessageMemory_value slot.conf slot.type ⟨core, behind⟩ slot.msg).2
    have destroys := (Core.destroy_destroys slot.layout slot.unbounded
      (.of_unwrapped (unwrapped_of_sum slot.fits))
      (MessageSlot.possesses_granting.mp (headed.possesses slot List.mem_cons_self))).1
    simp only [reached]
    refine headed.destroy (fun _ _ => rfl) ?_
    exact ⟨destroys.extent, destroys.kept, destroys.fresh, destroys.logged⟩

end Session

/-- A session of flat messages under any answers of the allocator: each message that exists, its creation
complete or not, is destroyed without a fault, giving back exactly the blocks that it holds, and when all
are destroyed the live blocks are those of the start. -/
theorem failing_sessions_clean (core : Core) (session : Session target)
    (steps : Relation.ReflTransGen (fun x y => Session.Step x y ∧ y.AllFlat) ⟨core, []⟩ session) :
    (∀ slot ∈ session.live, ∀ behind : Nat → Nat → Byte,
      let destroyed := destroyMessageMemory target (valueStrings target) slot.conf slot.type slot.msg
        ⟨session.core, behind⟩
      destroyed.1 = true ∧ (∀ event ∈ session.core.since destroyed.2.core, event.Sound) ∧
        blocks (freed (session.core.since destroyed.2.core)) = slot.blocks session.core.memory) ∧
      (Session.blocks session.core session.live).Nodup ∧
      ∀ b, session.core.heap.extent b ≠ none ↔
        core.heap.extent b ≠ none ∨ b ∈ Session.blocks session.core session.live := by
  -- Every message that is created is flat, so a refused request does not break the invariant.
  have tidy : Session.Tidy core.heap session.core session.live := by
    induction steps with
    | refl =>
      exact ⟨fun _ _ => rfl, Nat.le_refl _, List.forall_mem_nil _, .nil, List.nodup_nil, List.forall_mem_nil _,
        fun _ _ => rfl, List.forall_mem_nil _⟩
    | tail _ step ih => exact ih.step step.1 step.2
  refine ⟨fun slot member behind => ?_, tidy.nodup, fun b => ?_⟩
  · obtain ⟨success, reached⟩ := destroyMessageMemory_value slot.conf slot.type ⟨session.core, behind⟩ slot.msg
    have possesses := MessageSlot.possesses_granting.mp (tidy.possesses slot member)
    obtain ⟨events, log, released, sound⟩ := (Core.destroy_destroys slot.layout slot.unbounded
      (.of_unwrapped (unwrapped_of_sum slot.fits)) possesses).1.logged
    simp only [success, reached, Core.since_of_log log]
    refine ⟨Core.destroy_succeeds _ _ _ _, sound, ?_⟩
    rw [freed, released, blocks_filter]
    rfl
  · by_cases held : b ∈ Session.blocks session.core session.live
    · exact iff_of_true (tidy.own b held).2 (Or.inr held)
    · have others : session.core.heap.extent b = core.heap.extent b := tidy.others b held
      rw [others]
      exact ⟨Or.inl, fun either => either.resolve_right held⟩

/-- `ListParametersResult` in the first object of an application. -/
def listParametersSlot : MessageSlot cortexM :=
  ⟨boardDefault, listParametersResult cortexM, ⟨.object 1 0, 0⟩, listParametersResult_layout,
    listParametersResult_unbounded, by decide⟩

/-- A creation whose second request is refused holds one block; it is destroyed, and another one after it holds
both. -/
theorem failing_sessions_clean_listParameters :
    let core := ((Core.boot fun request _ => request ≠ 2).allocate 1 24).2
    ∃ failed session, Relation.ReflTransGen (fun x y => Session.Step x y ∧ y.AllFlat) ⟨core, []⟩ failed ∧
      failed.live = [listParametersSlot] ∧ listParametersSlot.blocks failed.core.memory = [.object 0 1] ∧
      Relation.ReflTransGen (fun x y => Session.Step x y ∧ y.AllFlat) failed session ∧
      session.live = [listParametersSlot] ∧
      listParametersSlot.blocks session.core.memory = [.object 0 2, .object 0 3] ∧
      (∀ slot ∈ session.live, ∀ behind : Nat → Nat → Byte,
        let destroyed := destroyMessageMemory cortexM (valueStrings cortexM) slot.conf slot.type slot.msg
          ⟨session.core, behind⟩
        destroyed.1 = true ∧ (∀ event ∈ session.core.since destroyed.2.core, event.Sound) ∧
          blocks (freed (session.core.since destroyed.2.core)) = slot.blocks session.core.memory) ∧
        (Session.blocks session.core session.live).Nodup ∧
        ∀ b, session.core.heap.extent b ≠ none ↔
          core.heap.extent b ≠ none ∨ b ∈ Session.blocks session.core session.live := by
  intro core
  let slot := listParametersSlot
  let failed := (createMessageMemory cortexM (valueStrings cortexM) slot.conf slot.type slot.msg
    ⟨core, fun _ _ => 0⟩).2.core
  let left := (destroyMessageMemory cortexM (valueStrings cortexM) slot.conf slot.type slot.msg
    ⟨failed, fun _ _ => 0⟩).2.core
  have flat (w : Core) : Session.AllFlat ⟨w, [slot]⟩ := List.forall_mem_singleton.mpr trivial
  have fails : Session.Step ⟨core, []⟩ ⟨failed, [slot]⟩ :=
    .create slot _ (by decide) (List.forall_mem_nil _) List.not_mem_nil
  have empties : Session.Step ⟨failed, [slot]⟩ ⟨left, []⟩ := .destroy slot _ (List.Perm.refl _)
  have succeeds : Session.Step ⟨left, []⟩ ⟨_, [slot]⟩ :=
    .create slot (fun _ _ => 0) (by decide +kernel) (List.forall_mem_nil _) List.not_mem_nil
  have first := Relation.ReflTransGen.single (r := fun x y => Session.Step x y ∧ y.AllFlat) ⟨fails, flat _⟩
  have again := Relation.ReflTransGen.tail (r := fun x y => Session.Step x y ∧ y.AllFlat)
    (.single ⟨empties, List.forall_mem_nil _⟩) ⟨succeeds, flat _⟩
  exact ⟨_, _, first, rfl, by decide +kernel, again, rfl, by decide +kernel,
    failing_sessions_clean core _ (first.trans again)⟩

end MicroRos
