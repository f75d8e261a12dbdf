import MicroRos.Planning.BufferRefinement

/-! Where static creation places the data of the headers.

The size pass and the allocation pass advance the same index by the same rule, so both are
the packing of one list of sizes. Here the sizes fit, and nothing wraps.
-/

set_option autoImplicit false

namespace MicroRos

open Memory (Pointer Byte)
open Memory.Packing (alignUp packed regions Tight)

variable {target : Target}

/-- Data pointer and length of each region given to a header, in order. -/
def givenRegions (events : List Event) : List (Pointer × Nat) :=
  events.filterMap fun
    | .stored _ _ data bytes _ => some (data, bytes)
    | _ => none

theorem Core.getStaticMemory_placed {size : Nat} {w : Core}
    (fits : alignUp alignment w.operationBufferIndex + size < target.modulus) :
    let made := w.getStaticMemory target size
    made.2.operationBufferIndex = alignUp alignment w.operationBufferIndex + size ∧
      made.2.operationBuffer = w.operationBuffer ∧
      (w.operationBuffer ≠ .null →
        made.1 = w.operationBuffer.plus (alignUp alignment w.operationBufferIndex)) := by
  have lower := Memory.Packing.le_alignUp alignment w.operationBufferIndex
  have wrapped := getStaticMemory_wrapped (Nat.mod_eq_of_lt (by omega : size < target.modulus)).symm
    (Nat.mod_eq_of_lt (by omega : w.operationBufferIndex < target.modulus)).symm
  rwa [Nat.mod_eq_of_lt fits, Nat.mod_eq_of_lt (by omega)] at wrapped

/-- What a run that places these regions records: the headers in order, each with its region; a
size calculation sets up no header. -/
def Placed (operation : Operation) (buffer : Pointer) (places : List (Nat × Nat))
    (visits : List Visit) (events : List Event) : Prop :=
  match operation with
  | .createPreallocated =>
    givenRegions events = places.map (fun place => (buffer.plus place.1, place.2)) ∧
      List.Forall₂ Visit.StoredBy visits (events.filter Event.isStored)
  | _ => ∀ event ∈ events, event.Silent

/-- Only the events that set up a header give a region. -/
theorem givenRegions_stored (events : List Event) :
    givenRegions (events.filter Event.isStored) = givenRegions events := by
  rw [givenRegions, givenRegions, List.filterMap_filter]
  congr 1
  funext event
  cases event <;> rfl

theorem placed_of_handed {buffer : Pointer} {start : Nat} {visits : List Visit} {stored : List Event}
    (fits : packed Core.alignment start (visits.map Visit.bytes) < target.modulus)
    (handed : List.Forall₂ (HandedTo target buffer) (placements start visits) stored) :
    givenRegions stored = (regions Core.alignment start (visits.map Visit.bytes)).map
        (fun place => (buffer.plus place.1, place.2)) ∧
      List.Forall₂ Visit.StoredBy visits stored := by
  induction visits generalizing start stored with
  | nil =>
    cases handed
    exact ⟨rfl, .nil⟩
  | cons visit visits ih =>
    obtain _ | ⟨here, rest⟩ := handed
    rename_i event later
    have later_fits := Memory.Packing.le_packed (a := Core.alignment)
      (alignUp Core.alignment start + visit.bytes) (visits.map Visit.bytes)
    simp only [List.map_cons, packed] at fits
    obtain ⟨given, stored⟩ := ih fits rest
    cases event with
    | stored site header data bytes capacity =>
      obtain ⟨stack, member, rfl, rfl, rfl⟩ := here
      simp only [Nat.mod_eq_of_lt (by omega : visit.bytes < target.modulus),
        Nat.mod_eq_of_lt (by omega : alignUp Core.alignment start < target.modulus)]
      simp only [givenRegions] at given
      exact ⟨by simp [givenRegions, given, regions], .cons ⟨stack, member, rfl, rfl⟩ stored⟩
    | _ => exact here.elim

namespace Core

theorem staticSize_eq {conf : MemoryConf target} {type : MessageMembers}
    (fits : staticRequirement conf type < target.modulus) (w : Core) :
    (w.staticSize conf type).1 = staticRequirement conf type ∧
      Logs Event.Silent w (w.staticSize conf type).2 := by
  have wrapped := staticSize_wrapped conf type w
  rwa [Nat.mod_eq_of_lt fits] at wrapped

/-- Static creation as a whole: it succeeds exactly when the buffer is long enough, and then the
headers have the packed regions. -/
theorem createStatic_placed {conf : MemoryConf target} {type : MessageMembers}
    (fits : staticRequirement conf type < target.modulus) (msg : Pointer) {buffer : Pointer}
    (notNull : buffer ≠ .null) (bufferLen : Nat) (w : Core) :
    let created := w.createStatic conf type msg buffer bufferLen
    if staticRequirement conf type ≤ bufferLen then
      created.1 = true ∧ Placed .createPreallocated buffer
        (regions alignment 0 (requests conf.getConfiguration type.members .empty))
        (plannedVisits false conf type) (w.since created.2)
    else created.1 = false ∧ created.2.memory = w.memory ∧
      ∀ event ∈ w.since created.2, event.Silent := by
  intro created
  have whole := createStatic_wrapped conf type msg notNull bufferLen w
  simp only [Nat.mod_eq_of_lt fits] at whole
  split at whole
  next long =>
    obtain ⟨success, handed⟩ := whole
    have packed_fits : packed alignment 0 ((plannedVisits false conf type).map Visit.bytes) <
        target.modulus := by
      rw [plannedVisits_bytes]
      exact fits
    obtain ⟨given, stored⟩ := placed_of_handed packed_fits handed
    rw [if_pos long]
    refine ⟨success, ?_, stored⟩
    rw [← givenRegions_stored, given, plannedVisits_bytes]
  next short =>
    rw [if_neg short]
    exact whole

end Core

/-- Creation in a buffer of this length succeeded exactly when the buffer is as long as the static size; the
regions of the headers are then packed from the start of the buffer to that size, and otherwise nothing was
written. -/
def LaidOut (buffer : Pointer) (bufferLen size : Nat) (w : Core) (created : Bool × Core) : Prop :=
  (created.1 = true ↔ size ≤ bufferLen) ∧
  (created.1 = true → ∃ places : List (Nat × Nat),
    givenRegions (w.since created.2) = places.map (fun place => (buffer.plus place.1, place.2)) ∧
    Tight Core.alignment 0 places size ∧ (∀ place ∈ places.head?, place.1 = 0) ∧
    ∀ place ∈ places, place.1 + place.2 ≤ bufferLen) ∧
  (created.1 = false → created.2.memory = w.memory)

theorem LaidOut.not_of_rejected {buffer : Pointer} {bufferLen size : Nat} {w : Core} {created : Bool × Core}
    (long : size ≤ bufferLen) (rejected : created.1 = false) : ¬ LaidOut buffer bufferLen size w created := by
  rintro ⟨exactly, _⟩
  have accepted := exactly.mpr long
  rw [rejected] at accepted
  cases accepted

theorem Core.createStatic_laidOut {conf : MemoryConf target} {type : MessageMembers}
    (fits : staticRequirement conf type < target.modulus) {buffer : Pointer} (notNull : buffer ≠ .null)
    (msg : Pointer) (bufferLen : Nat) (w sizing : Core) :
    LaidOut buffer bufferLen (sizing.staticSize conf type).1 w (w.createStatic conf type msg buffer bufferLen) := by
  have whole := Core.createStatic_placed fits msg notNull bufferLen w
  simp only [LaidOut, (Core.staticSize_eq fits sizing).1]
  simp only at whole
  split at whole
  next long =>
    obtain ⟨accepted, given, _⟩ := whole
    have tight := Memory.Packing.tight_regions (by decide : 0 < Core.alignment) 0
      (requests conf.getConfiguration type.members .empty)
    simp only [accepted, long, forall_const, Bool.true_eq_false, IsEmpty.forall_iff,
      and_true, true_and]
    refine ⟨_, given, tight, fun place first => ?_, fun place member => ?_⟩
    · have upper := tight.first place first
      have aligned := tight.aligned place (List.mem_of_mem_head? first)
      simp only [Core.alignment] at upper aligned
      omega
    · exact Nat.le_trans (tight.inside place member).2 long
  next short =>
    obtain ⟨refused, unchanged, _⟩ := whole
    simp [refused, short, unchanged]

/-- Both calls use their name trees as they should, and the message is laid out as the static size says, if and
only if the name trees of both are served. -/
theorem createStaticMessageMemory_layout_iff (conf : MemoryConf target) (type : MessageMembers)
    (msg buffer : Pointer) (bufferLen : Nat) (core sizing : Core) (s s' : StringHeap)
    (fits : staticRequirement conf type < target.modulus) (notNull : buffer ≠ .null) :
    let created := createStaticMessageMemory target (heapStrings target) conf type msg buffer bufferLen ⟨core, s⟩
    let sized := getStaticSize target (heapStrings target) conf type ⟨sizing, s'⟩
    Lifetimes (s.since created.2.scratch) ∧ Lifetimes (s'.since sized.2.scratch) ∧
        LaidOut buffer bufferLen sized.1 core (created.1, created.2.core) ↔
      s.Serves ((PlannerCall.createStatic msg buffer bufferLen).demands conf type core) ∧
        s'.Serves (PlannerCall.getStaticSize.demands conf type sizing) := by
  intro created sized
  apply (createStaticMessageMemory_ends conf type core s msg buffer bufferLen).lifetimes_and_iff
  rintro ⟨answer, reached⟩
  apply (getStaticSize_ends conf type sizing s').lifetimes_and_iff_serves
  rintro ⟨size, -⟩
  rw [answer, reached, size]
  exact Core.createStatic_laidOut fits notNull msg bufferLen core sizing

/-- The second run of creation, whose resizes move the name tree, gives the rule to the first label only: it
hands out regions of 100, 7 and four times 20 bytes where the size is 139, and reports a failure. -/
theorem createStaticMessageMemory_not_laidOut :
    let s := StringHeap.boot fun k => 12 ≤ k
    let core := Core.boot fun _ _ => true
    let created := createStaticMessageMemory cortexM (heapStrings cortexM) labelRule (multiArrayLayout cortexM)
      ⟨.object 1 0, 0⟩ ⟨.object 1 1, 0⟩ 139 ⟨core, s⟩
    let sized := getStaticSize cortexM (heapStrings cortexM) labelRule (multiArrayLayout cortexM)
      ⟨core, .boot fun _ => false⟩
    sized.1 = 139 ∧ created.1 = false ∧
      givenRegions (core.since created.2.core) =
        [(0, 100), (100, 7), (108, 20), (128, 20), (148, 20), (168, 20)].map
          (fun place => ((⟨.object 1 1, 0⟩ : Pointer).plus place.1, place.2)) ∧
      ¬ LaidOut ⟨.object 1 1, 0⟩ 139 sized.1 core (created.1, created.2.core) := by
  intro s core created sized
  have size : sized.1 = 139 := by decide +kernel
  have result : created.1 = false := by decide +kernel
  refine ⟨size, result, by decide +kernel, ?_⟩
  clear_value created sized
  exact LaidOut.not_of_rejected (Nat.le_of_eq size) result

theorem createStaticMessageMemory_layout_multiArrayLayout :
    let s := StringHeap.boot fun _ => false
    let core := Core.boot fun _ _ => true
    let created := createStaticMessageMemory cortexM (heapStrings cortexM) labelRule (multiArrayLayout cortexM)
      ⟨.object 1 0, 0⟩ ⟨.object 1 1, 0⟩ 200 ⟨core, s⟩
    let sized := getStaticSize cortexM (heapStrings cortexM) labelRule (multiArrayLayout cortexM) ⟨core, s⟩
    Lifetimes (s.since created.2.scratch) ∧ Lifetimes (s.since sized.2.scratch) ∧
        LaidOut ⟨.object 1 1, 0⟩ 200 sized.1 core (created.1, created.2.core) ↔
      s.Serves ((PlannerCall.createStatic ⟨.object 1 0, 0⟩ ⟨.object 1 1, 0⟩ 200).demands labelRule
          (multiArrayLayout cortexM) core) ∧
        s.Serves (PlannerCall.getStaticSize.demands labelRule (multiArrayLayout cortexM) core) :=
  createStaticMessageMemory_layout_iff labelRule (multiArrayLayout cortexM) _ _ _ _ _ _ _ (by decide) (by decide)

end MicroRos
