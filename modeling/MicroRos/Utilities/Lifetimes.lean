import MicroRos.Utilities.Strings

/-! Copies of a string struct, and the one block behind them.

The recursions over a type pass their scratch string by value. While the allocator grants
what it is asked for and grows the block in place, every copy refers to a live block. The
first resize that moves it gives the block back, and the function that initialised the
string, whose copy still refers to it, gives it back again; a refused request leaves a null
pointer that is written through.
-/

set_option autoImplicit false

namespace MicroRos

open Memory (Pointer Byte Contents Heap)

namespace StringEvent

/-- Reads and writes go to a live block. -/
def OnLive : StringEvent → Prop
  | .read _ _ extent | .written _ _ extent | .compared _ _ extent _ => extent ≠ none
  | .obtained _ | .released _ _ => True

def releases (p : Pointer) : StringEvent → Bool
  | .released q _ => q.block = p.block
  | _ => false

/-- What is obtained is given back exactly once in these events. -/
def GivenBack (events : List StringEvent) : StringEvent → Prop
  | .obtained p => events.countP (releases p) = 1
  | _ => True

/-- A read or a write of a live block. -/
def Steady : StringEvent → Prop
  | .read _ _ extent | .written _ _ extent | .compared _ _ extent _ => extent ≠ none
  | .obtained _ | .released _ _ => False

/-- A `memcmp` stays within both of its buffers. -/
def InBoth : StringEvent → Prop
  | .compared p n (some size) other => n ≤ other ∧ p.offset + n ≤ size
  | .compared _ _ none _ => False
  | _ => True

/-- The block that the event obtains or gives back. -/
def named : StringEvent → Option Pointer
  | .obtained p | .released p _ => some p
  | .read _ _ _ | .written _ _ _ | .compared _ _ _ _ => none

/-- A dead block is read or written, or the block `b` is given back. -/
def Spoils (b : Pointer) : StringEvent → Prop
  | .released p _ => p = b
  | event => ¬ event.OnLive

instance : DecidablePred OnLive := fun event => by
  unfold OnLive
  split <;> infer_instance

instance (events : List StringEvent) : DecidablePred (GivenBack events) := fun event => by
  unfold GivenBack
  split <;> infer_instance

instance : DecidablePred InBoth := fun event => by
  unfold InBoth
  split <;> infer_instance

end StringEvent

/-- Every access is to a live block, and every block obtained is given back exactly once. -/
def Lifetimes (events : List StringEvent) : Prop :=
  ∀ event ∈ events, event.OnLive ∧ event.GivenBack events

instance (events : List StringEvent) : Decidable (Lifetimes events) := by
  unfold Lifetimes
  infer_instance

/-- What is asked for a string's block: a new block, another size for it, or a comparison of its first
`length` bytes with a buffer of `other` bytes. -/
inductive Demand where
  | allocate (size : Nat)
  | resize (size : Nat)
  | compare (length other : Nat)
  deriving DecidableEq, Repr

namespace Demand

def isRequest : Demand → Bool
  | .allocate _ | .resize _ => true
  | .compare _ _ => false

def isResize : Demand → Bool
  | .resize _ => true
  | .allocate _ | .compare _ _ => false

/-- Behind so many requests and resizes, all requests are granted and no resize moves its block. -/
def Served (grants : Nat → Nat → Bool) (moves : Nat → Bool) : Nat → Nat → List Demand → Prop
  | _, _, [] => True
  | asked, resized, .allocate size :: demands =>
    grants asked size = true ∧ Served grants moves (asked + 1) resized demands
  | asked, resized, .resize size :: demands =>
    (grants asked size = true ∧ moves resized = false) ∧ Served grants moves (asked + 1) (resized + 1) demands
  | asked, resized, .compare _ _ :: demands => Served grants moves asked resized demands

/-- Size that the block has behind the demands. -/
def sizeAfter : Nat → List Demand → Nat
  | size, [] => size
  | _, .allocate size :: demands | _, .resize size :: demands => sizeAfter size demands
  | size, .compare _ _ :: demands => sizeAfter size demands

/-- On a block of this size, every comparison stays within both buffers. -/
def Fits : Nat → List Demand → Prop
  | _, [] => True
  | _, .allocate size :: demands | _, .resize size :: demands => Fits size demands
  | size, .compare length other :: demands => (length ≤ other ∧ length ≤ size) ∧ Fits size demands

theorem served_append (grants : Nat → Nat → Bool) (moves : Nat → Bool) (asked resized : Nat)
    (demands later : List Demand) :
    Served grants moves asked resized (demands ++ later) ↔
      Served grants moves asked resized demands ∧
        Served grants moves (asked + demands.countP isRequest) (resized + demands.countP isResize) later := by
  induction demands generalizing asked resized with
  | nil => simp [Served]
  | cons demand demands ih =>
    cases demand <;>
      simp [Served, ih, List.countP_cons, isRequest, isResize, and_assoc, Nat.add_assoc, Nat.add_comm 1]

theorem sizeAfter_append (size : Nat) (demands later : List Demand) :
    sizeAfter size (demands ++ later) = sizeAfter (sizeAfter size demands) later := by
  induction demands generalizing size with
  | nil => rfl
  | cons demand demands ih => cases demand <;> simp [sizeAfter, ih]

theorem fits_append (size : Nat) (demands later : List Demand) :
    Fits size (demands ++ later) ↔ Fits size demands ∧ Fits (sizeAfter size demands) later := by
  induction demands generalizing size with
  | nil => simp [Fits, sizeAfter]
  | cons demand demands ih => cases demand <;> simp [Fits, sizeAfter, ih, and_assoc]

end Demand

/-- The allocator grants these requests, and moves no block that it resizes. -/
def StringHeap.Serves (w : StringHeap) (demands : List Demand) : Prop :=
  Demand.Served w.heap.grants w.heap.moves w.heap.asked w.heap.resized demands

/-- One of the next `n` resizes moves its block. -/
def MovesWithin (n : Nat) (w : StringHeap) : Prop := ∃ k < n, w.heap.moves (w.heap.resized + k) = true

/-- Where every request is granted, only the resizes decide. -/
theorem StringHeap.serves_iff_not_movesWithin {w : StringHeap} (grants : w.heap.Grants) (demands : List Demand) :
    w.Serves demands ↔ ¬ MovesWithin (demands.countP Demand.isResize) w := by
  have still (asked resized : Nat) : Demand.Served w.heap.grants w.heap.moves asked resized demands ↔
      ∀ k < demands.countP Demand.isResize, w.heap.moves (resized + k) = false := by
    induction demands generalizing asked resized with
    | nil => simp [Demand.Served]
    | cons demand demands ih =>
      cases demand with
      | allocate size => simp [Demand.Served, Demand.isResize, grants _ _, ih]
      | compare length other => simp [Demand.Served, Demand.isResize, ih]
      | resize size =>
        simp only [Demand.Served, grants _ _, true_and, ih, List.countP_cons, Demand.isResize, if_true]
        rw [Nat.forall_lt_succ_left]
        simp only [Nat.add_zero, Nat.add_assoc, Nat.add_comm 1]
  simp [Serves, still, MovesWithin]

/-- An allocator that refuses nothing and moves nothing. -/
theorem StringHeap.boot_serves (demands : List Demand) : (StringHeap.boot fun _ => false).Serves demands := by
  rw [serves_iff_not_movesWithin fun _ _ => rfl]
  rintro ⟨k, _, moves⟩
  cases moves

/-- The same allocator goes on answering, and the log goes on. -/
structure Continues (w w' : StringHeap) : Prop where
  moves : w'.heap.moves = w.heap.moves
  grants : w'.heap.grants = w.heap.grants
  resized : w.heap.resized ≤ w'.heap.resized
  logs : StringHeap.Logs (fun _ => True) w w'

/-- A resize that was made between the two states moved its block. -/
def MovedBetween (w w' : StringHeap) : Prop :=
  ∃ k, w.heap.resized ≤ k ∧ k < w'.heap.resized ∧ w.heap.moves k = true

/-- The demands were served, and they are all there were. -/
structure InPlace (demands : List Demand) (w w' : StringHeap) : Prop where
  served : w.Serves demands
  asked : w'.heap.asked = w.heap.asked + demands.countP Demand.isRequest
  resized : w'.heap.resized = w.heap.resized + demands.countP Demand.isResize
  moves : w'.heap.moves = w.heap.moves
  grants : w'.heap.grants = w.heap.grants

section

variable {demands later : List Demand} {w w' w'' : StringHeap}

namespace Continues

theorem of_heap (same : w'.heap = w.heap) (logs : StringHeap.Logs (fun _ => True) w w') : Continues w w' :=
  ⟨by rw [same], by rw [same], by rw [same], logs⟩

theorem refl (w : StringHeap) : Continues w w := .of_heap rfl (.of_log rfl)

theorem trans (first : Continues w w') (second : Continues w' w'') : Continues w w'' :=
  ⟨second.moves.trans first.moves, second.grants.trans first.grants, Nat.le_trans first.resized second.resized,
    first.logs.trans second.logs⟩

theorem write (p : Pointer) (bytes : List Byte) (w : StringHeap) : Continues w (w.write p bytes) :=
  .of_heap rfl (.write p bytes w trivial)

theorem granting (continues : Continues w w') (grants : w.heap.Grants) : w'.heap.Grants := by
  intro request size
  rw [continues.grants]
  exact grants request size

end Continues

theorem MovedBetween.mono {w₁ w₂ : StringHeap} (moved : MovedBetween w₁ w₂) (before : Continues w w₁)
    (after : Continues w₂ w') : MovedBetween w w' := by
  obtain ⟨k, lower, upper, moves⟩ := moved
  refine ⟨k, Nat.le_trans before.resized lower, Nat.lt_of_lt_of_le upper after.resized, ?_⟩
  rw [← before.moves, moves]

namespace InPlace

theorem of_heap (same : w'.heap = w.heap) : InPlace [] w w' := by
  constructor <;> simp [same, StringHeap.Serves, Demand.Served]

/-- What is served behind the demands decides the rest. -/
theorem serves_append (inPlace : InPlace demands w w') : w.Serves (demands ++ later) ↔ w'.Serves later := by
  unfold StringHeap.Serves
  rw [Demand.served_append, inPlace.asked, inPlace.resized, inPlace.moves, inPlace.grants]
  exact and_iff_right inPlace.served

theorem trans (first : InPlace demands w w') (second : InPlace later w' w'') : InPlace (demands ++ later) w w'' := by
  refine ⟨first.serves_append.mpr second.served, ?_, ?_, second.moves.trans first.moves,
    second.grants.trans first.grants⟩
  · rw [second.asked, first.asked, List.countP_append, Nat.add_assoc]
  · rw [second.resized, first.resized, List.countP_append, Nat.add_assoc]

theorem continues (inPlace : InPlace demands w w') (logs : StringHeap.Logs (fun _ => True) w w') :
    Continues w w' :=
  ⟨inPlace.moves, inPlace.grants, by rw [inPlace.resized]; exact Nat.le_add_right _ _, logs⟩

end InPlace

end

/-- Nothing but reads, writes and comparisons with a live block of `size` bytes; the comparisons are those
of the demands. -/
structure Calm (size : Nat) (demands : List Demand) (events : List StringEvent) : Prop where
  steady : ∀ event ∈ events, event.Steady
  inBoth : (∀ event ∈ events, event.InBoth) ↔ Demand.Fits size demands

/-- The demands were served with the block `b` where it was. -/
structure Stays (b : Pointer) (size : Nat) (demands : List Demand) (w w' : StringHeap) : Prop
    extends InPlace demands w w' where
  fresh : w'.heap.fresh = w.heap.fresh
  whole : w'.heap.extent b.block = some (Demand.sizeAfter size demands)
  calm : ∃ events, w'.log = w.log ++ events ∧ Calm size demands events

/-- A request was refused or a block moved, and the log shows it. -/
structure Upset (b : Pointer) (demands : List Demand) (w w' : StringHeap) : Prop where
  unserved : ¬ w.Serves demands
  moved : w.heap.Grants → MovedBetween w w'
  spoiled : ∃ events, w'.log = w.log ++ events ∧ ∃ event ∈ events, event.Spoils b

/-- A piece of a run with these demands on a block of `size` bytes: if they are served, then `G` holds at
its end. -/
def Runs (b : Pointer) (size : Nat) (demands : List Demand) (w w' : StringHeap) (G : Prop) : Prop :=
  Stays b size demands w w' ∧ G ∨ Upset b demands w w'

/-- A live object of `size` bytes starts here. -/
structure Buffer (b : Pointer) (size : Nat) (w : StringHeap) : Prop where
  start : b.offset = 0
  whole : w.heap.extent b.block = some size

/-- The demand that a text of this length makes. -/
def growth (length capacity : Nat) : List Demand := if length > capacity then [.resize (length + 1)] else []

/-- Number of resizes that a text of this length takes. -/
def growths (length capacity : Nat) : Nat := if length > capacity then 1 else 0

theorem countP_growth (length capacity : Nat) :
    (growth length capacity).countP Demand.isResize = growths length capacity := by
  unfold growth growths
  split <;> rfl

section

variable {b : Pointer} {size : Nat} {demands later : List Demand} {w w' w'' : StringHeap} {G G' : Prop}

theorem Calm.append {events events' : List StringEvent} (first : Calm size demands events)
    (second : Calm (Demand.sizeAfter size demands) later events') :
    Calm size (demands ++ later) (events ++ events') := by
  refine ⟨List.forall_mem_append.mpr ⟨first.steady, second.steady⟩, ?_⟩
  rw [List.forall_mem_append, first.inBoth, second.inBoth, Demand.fits_append]

theorem Calm.of_quiet {event : StringEvent} (steady : event.Steady) (inBoth : event.InBoth) :
    Calm size [] [event] :=
  ⟨List.forall_mem_singleton.mpr steady, iff_of_true (List.forall_mem_singleton.mpr inBoth) trivial⟩

namespace Stays

theorem logs (stays : Stays b size demands w w') : StringHeap.Logs (fun _ => True) w w' := by
  obtain ⟨events, log, _⟩ := stays.calm
  exact ⟨events, log, fun _ _ => trivial⟩

theorem continues (stays : Stays b size demands w w') : Continues w w' := stays.toInPlace.continues stays.logs

theorem buffer (stays : Stays b size demands w w') (buffer : Buffer b size w) :
    Buffer b (Demand.sizeAfter size demands) w' := ⟨buffer.start, stays.whole⟩

theorem trans (first : Stays b size demands w w') (second : Stays b (Demand.sizeAfter size demands) later w' w'') :
    Stays b size (demands ++ later) w w'' := by
  obtain ⟨events, log, calm⟩ := first.calm
  obtain ⟨events', log', calm'⟩ := second.calm
  refine ⟨first.toInPlace.trans second.toInPlace, second.fresh.trans first.fresh, ?_, events ++ events', ?_,
    calm.append calm'⟩
  · rw [Demand.sizeAfter_append]
    exact second.whole
  · rw [log', log, List.append_assoc]

/-- Where the heap is the same and the log has one more quiet event. -/
theorem of_quiet (buffer : Buffer b size w) (same : w'.heap = w.heap) {event : StringEvent}
    (log : w'.log = w.log ++ [event]) (steady : event.Steady) (inBoth : event.InBoth) : Stays b size [] w w' :=
  ⟨.of_heap same, by rw [same], by rw [same]; exact buffer.whole, [event], log, .of_quiet steady inBoth⟩

theorem refl (buffer : Buffer b size w) : Stays b size [] w w :=
  ⟨.of_heap rfl, rfl, buffer.whole, [], (List.append_nil _).symm, List.forall_mem_nil _,
    iff_of_true (List.forall_mem_nil _) trivial⟩

theorem of_write {p : Pointer} (same : p.block = b.block) (bytes : List Byte) (buffer : Buffer b size w) :
    Stays b size [] w (w.write p bytes) :=
  .of_quiet buffer rfl rfl (by simp [StringEvent.Steady, same, buffer.whole]) trivial

theorem of_read {p : Pointer} (same : p.block = b.block) (length : Nat) (buffer : Buffer b size w) :
    Stays b size [] w (w.read p length) :=
  .of_quiet buffer rfl rfl (by simp [StringEvent.Steady, same, buffer.whole]) trivial

theorem of_compare (length other : Nat) (buffer : Buffer b size w) :
    Stays b size [.compare length other] w (w.compare b length other) := by
  refine ⟨⟨trivial, rfl, rfl, rfl, rfl⟩, rfl, buffer.whole, [_], rfl, ?_, ?_⟩
  · simp [StringEvent.Steady, buffer.whole]
  · simp [StringEvent.InBoth, Demand.Fits, buffer.whole, buffer.start]

end Stays

namespace Upset

/-- What comes before a served stretch and after an upset one changes nothing. -/
theorem around (before : InPlace demands w w') (logs : StringHeap.Logs (fun _ => True) w w')
    (upset : Upset b later w' w'') : Upset b (demands ++ later) w w'' := by
  obtain ⟨events, log, _⟩ := logs
  obtain ⟨events', log', event, member, spoils⟩ := upset.spoiled
  refine ⟨fun served => upset.unserved (before.serves_append.mp served), fun grants => ?_,
    events ++ events', ?_, event, List.mem_append_right _ member, spoils⟩
  · have continues := before.continues ⟨events, log, fun _ _ => trivial⟩
    exact (upset.moved (continues.granting grants)).mono continues (.refl w'')
  · rw [log', log, List.append_assoc]

theorem goesOn (upset : Upset b demands w w') (continues : Continues w' w'') (later : List Demand) :
    Upset b (demands ++ later) w w'' := by
  obtain ⟨events, log, event, member, spoils⟩ := upset.spoiled
  obtain ⟨events', log', _⟩ := continues.logs
  refine ⟨fun served => upset.unserved ?_, fun grants => (upset.moved grants).mono (.refl w) continues,
    events ++ events', ?_, event, List.mem_append_left _ member, spoils⟩
  · unfold StringHeap.Serves at served ⊢
    rw [Demand.served_append] at served
    exact served.1
  · rw [log', log, List.append_assoc]

end Upset

theorem Stays.runs (stays : Stays b size demands w w') (holds : G) : Runs b size demands w w' G :=
  Or.inl ⟨stays, holds⟩

theorem Runs.mono (runs : Runs b size demands w w' G) (weaker : G → G') : Runs b size demands w w' G' :=
  runs.imp_left (And.imp_right weaker)

theorem Stays.before (stays : Stays b size demands w w')
    (runs : Runs b (Demand.sizeAfter size demands) later w' w'' G) : Runs b size (demands ++ later) w w'' G := by
  rcases runs with ⟨stays', holds⟩ | upset
  · exact (stays.trans stays').runs holds
  · exact Or.inr (upset.around stays.toInPlace stays.logs)

/-- What follows an upset need not be looked at. -/
theorem Runs.bind (first : Runs b size demands w w' G) (continues : Continues w' w'')
    (second : Stays b size demands w w' → G → Runs b (Demand.sizeAfter size demands) later w' w'' G') :
    Runs b size (demands ++ later) w w'' G' := by
  rcases first with ⟨stays, holds⟩ | upset
  · exact stays.before (second stays holds)
  · exact Or.inr (upset.goesOn continues later)

theorem Runs.after (runs : Runs b size demands w w' G) (continues : Continues w' w'')
    (last : Stays b size demands w w' → G → Stays b (Demand.sizeAfter size demands) [] w' w'' ∧ G') :
    Runs b size demands w w'' G' := by
  have whole := runs.bind continues fun stays holds => Or.inl (last stays holds)
  rwa [List.append_nil] at whole

theorem Buffer.ne_null (buffer : Buffer b size w) : b ≠ .null := by
  rintro rfl
  have live := buffer.whole
  rw [Pointer.null, w.heap.nullDead] at live
  cases live

end

namespace RuntimeString

section

variable {b : Pointer} {size : Nat} {w : StringHeap} {str : RuntimeString}

/-- Whatever the block is, an append goes on with the same allocator. -/
theorem append_continues (str : RuntimeString) (data : CString) (w : StringHeap) :
    Continues w (str.append data w).2 := by
  have logs : StringHeap.Logs (fun _ => True) w (str.append data w).2 :=
    StringCall.run_logs (.append data) str w
  have counts (n : Nat) : (w.reallocate str.data n).2.heap = (w.heap.resize 0 str.data n).2 := by
    unfold StringHeap.reallocate
    dsimp only
    split <;> rfl
  have resized (n : Nat) : (w.heap.resize 0 str.data n).2.resized = w.heap.resized + 1 ∧
      (w.heap.resize 0 str.data n).2.moves = w.heap.moves ∧
      (w.heap.resize 0 str.data n).2.grants = w.heap.grants := by
    unfold Heap.resize
    dsimp only
    split
    · split <;> exact ⟨rfl, rfl, rfl⟩
    · exact ⟨rfl, rfl, rfl⟩
  by_cases grows : str.size + data.text.length > str.capacity
  · have heap : (str.append data w).2.heap =
        (w.heap.resize 0 str.data (str.size + data.text.length + 1)).2 := by
      simp only [append, reserve, grows, if_true, StringHeap.write, StringHeap.record, counts]
    obtain ⟨more, moves, grants⟩ := resized (str.size + data.text.length + 1)
    rw [← heap] at more moves grants
    exact ⟨moves, grants, by omega, logs⟩
  · refine .of_heap ?_ logs
    simp only [append, reserve, grows, if_false]
    rfl

/-- A granted resize that leaves the block where it is. -/
theorem reallocate_stays (buffer : Buffer b size w) {n : Nat} (granted : w.heap.grants w.heap.asked n = true)
    (still : w.heap.moves w.heap.resized = false) :
    let ret := w.reallocate b n
    ret.1 = b ∧ ret.2.memory = w.memory ∧ Stays b size [.resize n] w ret.2 := by
  have resized := Heap.resize_still 0 granted buffer.ne_null still
  simp only [StringHeap.reallocate, resized, true_or, if_true, true_and]
  refine ⟨⟨?_, rfl, rfl, rfl, rfl⟩, rfl, ?_, [], (List.append_nil _).symm, List.forall_mem_nil _, ?_⟩
  · simp [StringHeap.Serves, Demand.Served, granted, still]
  · simp [Heap.stretch, buffer.whole, Demand.sizeAfter]
  · exact iff_of_true (List.forall_mem_nil _) trivial

/-- One that moves it gives it back. -/
theorem reallocate_moved (buffer : Buffer b size w) {n : Nat} (granted : w.heap.grants w.heap.asked n = true)
    (moves : w.heap.moves w.heap.resized = true) : Upset b [.resize n] w (w.reallocate b n).2 := by
  have resized := Heap.resize_moved 0 b granted moves
  -- The new block has a number that no live block has.
  have other : (⟨.object 0 w.heap.fresh, 0⟩ : Pointer) ≠ b := by
    intro same
    have live := buffer.whole
    rw [← same, w.heap.freshDead 0 w.heap.fresh (Nat.le_refl _)] at live
    cases live
  have notNull : (⟨.object 0 w.heap.fresh, 0⟩ : Pointer) ≠ .null := by simp [Pointer.null]
  simp only [StringHeap.reallocate, resized, Heap.obtain, Heap.release_fresh, other, notNull, or_self,
    if_false, buffer.ne_null]
  refine ⟨?_, fun _ => ⟨w.heap.resized, Nat.le_refl _, Nat.lt_succ_self _, moves⟩, _, rfl, _, List.mem_cons_self, rfl⟩
  simp [StringHeap.Serves, Demand.Served, moves]

theorem append_runs (buffer : Buffer str.data size w) (data : CString) :
    let length := str.size + data.text.length
    Runs str.data size (growth length str.capacity) w (str.append data w).2
      ((str.append data w).1 = ⟨str.data, length, capacityFor length str.capacity⟩ ∧
        (str.append data w).2.memory = w.memory.writeBytes (str.data.plus str.size) data.cells) := by
  intro length
  by_cases grows : str.size + data.text.length > str.capacity
  · simp only [growth, capacityFor, grows, if_true, append, reserve, length]
    cases granted : w.heap.grants w.heap.asked (str.size + data.text.length + 1) with
    | false =>
      -- The null pointer is written through.
      have refused := Heap.resize_refused 0 str.data granted
      simp only [StringHeap.reallocate, refused, or_true, if_true]
      refine Or.inr ⟨?_, ?_, [_], rfl, _, List.mem_cons_self, ?_⟩
      · simp [StringHeap.Serves, Demand.Served, granted]
      · intro grants
        rw [grants] at granted
        cases granted
      · simp [StringEvent.Spoils, StringEvent.OnLive, Pointer.null, w.heap.nullDead]
    | true =>
      cases moves : w.heap.moves w.heap.resized with
      | false =>
        obtain ⟨same, memory, stays⟩ := reallocate_stays buffer granted moves
        have written := Stays.of_write (Pointer.plus_block str.data str.size) data.cells (stays.buffer buffer)
        rw [same]
        refine Or.inl ⟨stays.trans written, rfl, ?_⟩
        rw [StringHeap.write, memory]
      | true =>
        have upset := reallocate_moved buffer granted moves
        exact Or.inr (upset.goesOn (.write _ data.cells _) [])
  · simp only [growth, capacityFor, grows, if_false, append, reserve, length]
    exact Or.inl ⟨.of_write (Pointer.plus_block str.data str.size) data.cells buffer, trivial, rfl⟩

/-- Appending behind the characters that stand in the block. -/
theorem append_spells (buffer : Buffer b size w) {text : CString} (capacity : Nat)
    (holds : w.memory.Holds b text.text) (data : CString) :
    let ret := (⟨b, text.text.length, capacity⟩ : RuntimeString).append data w
    Runs b size (growth (text.append data).text.length capacity) w ret.2
      (ret.1 = ⟨b, (text.append data).text.length, capacityFor (text.append data).text.length capacity⟩ ∧
        ret.2.memory.Holds b (text.append data).cells) := by
  have length : (text.append data).text.length = text.text.length + data.text.length := List.length_append
  rw [length]
  have ready : Buffer (RuntimeString.mk b text.text.length capacity).data size w := buffer
  apply (append_runs ready data).mono
  rintro ⟨same, memory⟩
  refine ⟨same, ?_⟩
  rw [memory, CString.cells_append, Contents.holds_append_iff]
  exact ⟨holds.congr (Contents.agree_writeBytes_behind _ _ _ _), Contents.holds_writeBytes _ _ _⟩

/-- Taking off what was appended. -/
theorem removeTailChars_spells (buffer : Buffer b size w) {text data : CString} (capacity : Nat)
    (holds : w.memory.Holds b (text.append data).text) :
    let ret := (⟨b, (text.append data).text.length, capacity⟩ : RuntimeString).removeTailChars data.text.length w
    Stays b size [] w ret.2 ∧ ret.1 = ⟨b, text.text.length, capacity⟩ ∧ ret.2.memory.Holds b text.text := by
  have length : (text.append data).text.length - data.text.length = text.text.length := by simp
  simp only [removeTailChars, length]
  refine ⟨Stays.of_write (Pointer.plus_block b text.text.length) [0] buffer, trivial, ?_⟩
  have front := (Contents.holds_append_iff.mp holds).1
  exact front.congr (Contents.agree_writeBytes_behind _ _ _ _)

end

end RuntimeString

/-- Whatever state the strings are in. -/
theorem heapStrings_continues (target : Target) : (heapStrings target).Keeps Continues where
  refl := .refl
  trans := .trans
  append str data w := str.append_continues data w
  removeTailChars _ _ _ := .write _ _ _
  matchesRule rule str w := by
    have compared (n : Nat) (w : StringHeap) : Continues w (w.compare str.data n rule.rule.cells.length) :=
      .of_heap rfl (.compare _ _ _ _ trivial)
    simp only [heapStrings]
    split
    · exact (compared _ _).trans (compared _ _)
    · exact compared _ _
  chars str w := .of_heap rfl (.read _ _ _ trivial)

/-- Every block of these events has a number in the range, is accessed while it is alive and is given
back exactly once. -/
structure Kept (start stop : Nat) (events : List StringEvent) : Prop where
  lifetimes : Lifetimes events
  within : ∀ event ∈ events, ∀ p ∈ event.named, ∃ number, p.block = .object 0 number ∧ start ≤ number ∧ number < stop

/-- A block that was obtained is given back more than once, or a dead one is read or written. -/
def Leaks (events : List StringEvent) : Prop :=
  (∃ p, .obtained p ∈ events ∧ 2 ≤ events.countP (·.releases p)) ∨ ∃ event ∈ events, ¬ event.OnLive

/-- The demands were served, and all blocks are given back. -/
structure Finishes (demands : List Demand) (w w' : StringHeap) : Prop extends InPlace demands w w' where
  fresh : w.heap.fresh ≤ w'.heap.fresh
  kept : ∃ events, w'.log = w.log ++ events ∧ Kept w.heap.fresh w'.heap.fresh events ∧
    ∀ size, (∀ event ∈ events, event.InBoth) ↔ Demand.Fits size demands

/-- A request was refused or a block moved, and the log shows it. -/
structure Fails (demands : List Demand) (w w' : StringHeap) : Prop where
  unserved : ¬ w.Serves demands
  moved : w.heap.Grants → MovedBetween w w'
  leaks : ∃ events, w'.log = w.log ++ events ∧ Leaks events

/-- The function has these demands for its strings, all told; if they are served, then `G` holds at its end. -/
def Ends (demands : List Demand) (w w' : StringHeap) (G : Prop) : Prop :=
  Finishes demands w w' ∧ G ∨ Fails demands w w'

section

variable {demands later : List Demand} {w w' w'' : StringHeap} {G G' : Prop}

theorem Leaks.not_lifetimes {events : List StringEvent} (leaks : Leaks events) : ¬ Lifetimes events := by
  intro lifetimes
  rcases leaks with ⟨p, obtained, twice⟩ | ⟨event, member, dead⟩
  · have once : events.countP (·.releases p) = 1 := (lifetimes _ obtained).2
    omega
  · exact dead (lifetimes event member).1

theorem Leaks.append {events : List StringEvent} (leaks : Leaks events) (before after : List StringEvent) :
    Leaks (before ++ events ++ after) := by
  rcases leaks with ⟨p, obtained, twice⟩ | ⟨event, member, dead⟩
  · refine Or.inl ⟨p, List.mem_append_left _ (List.mem_append_right _ obtained), ?_⟩
    rw [List.countP_append, List.countP_append]
    omega
  · exact Or.inr ⟨event, List.mem_append_left _ (List.mem_append_right _ member), dead⟩

/-- What spoils a block in between is seen again when the copy of the function that obtained it is destroyed. -/
theorem Leaks.of_spoils {events : List StringEvent} {event : StringEvent} {b : Pointer} (member : event ∈ events)
    (spoils : event.Spoils b) (writes : List StringEvent) (extent : Option Nat) :
    Leaks (.obtained b :: writes ++ events ++ [.released b extent]) := by
  cases event with
  | released p extent' =>
    obtain rfl : p = b := spoils
    -- The resize gave the block back, and so does `destroy`.
    refine Or.inl ⟨p, by simp, ?_⟩
    have once : 0 < events.countP (·.releases p) :=
      List.countP_pos_iff.mpr ⟨_, member, by simp [StringEvent.releases]⟩
    have last : List.countP (·.releases p) [StringEvent.released p extent] = 1 := by
      simp [StringEvent.releases]
    rw [List.countP_append, List.countP_append, last]
    omega
  | read | written | compared | obtained =>
    exact Or.inr ⟨_, List.mem_append_left _ (List.mem_append_right _ member), spoils⟩

/-- A block of one range is not given back by the events of another. -/
theorem Kept.countP_eq_zero {start stop number : Nat} {events : List StringEvent} (kept : Kept start stop events)
    {p : Pointer} (block : p.block = .object 0 number) (outside : number < start ∨ stop ≤ number) :
    events.countP (·.releases p) = 0 := by
  rw [List.countP_eq_zero]
  intro event member releases
  cases event with
  | released q extent =>
    have same : q.block = p.block := of_decide_eq_true releases
    obtain ⟨other, named, lower, upper⟩ := kept.within _ member q rfl
    rw [same, block] at named
    cases named
    omega
  | _ => cases releases

theorem Kept.append {start middle stop : Nat} {events later : List StringEvent} (first : Kept start middle events)
    (second : Kept middle stop later) (le : start ≤ middle) (le' : middle ≤ stop) :
    Kept start stop (events ++ later) := by
  -- The two ranges have no number in common, so neither part gives back a block of the other.
  refine ⟨?_, ?_⟩
  · intro event member
    rcases List.mem_append.mp member with early | late
    · refine ⟨(first.lifetimes event early).1, ?_⟩
      cases event with
      | obtained p =>
        obtain ⟨number, block, _, upper⟩ := first.within _ early p rfl
        have once : events.countP (·.releases p) = 1 := (first.lifetimes _ early).2
        change List.countP _ _ = 1
        rw [List.countP_append, once, second.countP_eq_zero block (Or.inl upper)]
      | _ => trivial
    · refine ⟨(second.lifetimes event late).1, ?_⟩
      cases event with
      | obtained p =>
        obtain ⟨number, block, lower, _⟩ := second.within _ late p rfl
        have once : later.countP (·.releases p) = 1 := (second.lifetimes _ late).2
        change List.countP _ _ = 1
        rw [List.countP_append, once, first.countP_eq_zero block (Or.inr lower)]
      | _ => trivial
  · intro event member p named
    rcases List.mem_append.mp member with early | late
    · obtain ⟨number, block, lower, upper⟩ := first.within event early p named
      exact ⟨number, block, lower, Nat.lt_of_lt_of_le upper le'⟩
    · obtain ⟨number, block, lower, upper⟩ := second.within event late p named
      exact ⟨number, block, Nat.le_trans le lower, upper⟩

namespace Finishes

theorem continues (finishes : Finishes demands w w') : Continues w w' := by
  obtain ⟨events, log, _⟩ := finishes.kept
  exact finishes.toInPlace.continues ⟨events, log, fun _ _ => trivial⟩

theorem trans (first : Finishes demands w w') (second : Finishes later w' w'') :
    Finishes (demands ++ later) w w'' := by
  obtain ⟨events, log, kept, inBoth⟩ := first.kept
  obtain ⟨events', log', kept', inBoth'⟩ := second.kept
  refine ⟨first.toInPlace.trans second.toInPlace, Nat.le_trans first.fresh second.fresh, events ++ events', ?_,
    kept.append kept' first.fresh second.fresh, fun size => ?_⟩
  · rw [log', log, List.append_assoc]
  · rw [List.forall_mem_append, inBoth size, inBoth' (Demand.sizeAfter size demands), Demand.fits_append]

theorem nothing (w : StringHeap) : Finishes [] w w := by
  refine ⟨.of_heap rfl, Nat.le_refl _, [], (List.append_nil _).symm, ⟨?_, ?_⟩, fun _ => ?_⟩
  · exact List.forall_mem_nil _
  · exact List.forall_mem_nil _
  · exact iff_of_true (List.forall_mem_nil _) trivial

end Finishes

namespace Fails

theorem after (finishes : Finishes demands w w') (fails : Fails later w' w'') : Fails (demands ++ later) w w'' := by
  obtain ⟨events, log, _⟩ := finishes.kept
  obtain ⟨events', log', leaks⟩ := fails.leaks
  refine ⟨fun served => fails.unserved (finishes.toInPlace.serves_append.mp served), fun grants => ?_,
    events ++ events', by rw [log', log, List.append_assoc], ?_⟩
  · exact (fails.moved (finishes.continues.granting grants)).mono finishes.continues (.refl w'')
  · simpa using leaks.append events []

theorem goesOn (fails : Fails demands w w') (continues : Continues w' w'') (later : List Demand) :
    Fails (demands ++ later) w w'' := by
  obtain ⟨events, log, leaks⟩ := fails.leaks
  obtain ⟨events', log', _⟩ := continues.logs
  refine ⟨fun served => fails.unserved ?_, fun grants => (fails.moved grants).mono (.refl w) continues,
    events ++ events', by rw [log', log, List.append_assoc], ?_⟩
  · unfold StringHeap.Serves at served ⊢
    rw [Demand.served_append] at served
    exact served.1
  · simpa using leaks.append [] events'

end Fails

namespace Ends

theorem mono (ends : Ends demands w w' G) (weaker : G → G') : Ends demands w w' G' :=
  ends.imp_left (And.imp_right weaker)

theorem nothing (holds : G) : Ends [] w w G := Or.inl ⟨.nothing w, holds⟩

theorem bind (first : Ends demands w w' G) (continues : Continues w' w'')
    (second : G → Ends later w' w'' G') : Ends (demands ++ later) w w'' G' := by
  rcases first with ⟨finishes, holds⟩ | fails
  · rcases second holds with ⟨finishes', holds'⟩ | fails
    · exact Or.inl ⟨finishes.trans finishes', holds'⟩
    · exact Or.inr (fails.after finishes)
  · exact Or.inr (fails.goesOn continues later)

/-- Whether the blocks were used as they should is decided by the demands. -/
theorem lifetimes_iff (ends : Ends demands w w' G) : Lifetimes (w.since w') ↔ w.Serves demands := by
  rcases ends with ⟨finishes, _⟩ | fails
  · obtain ⟨events, log, kept, _⟩ := finishes.kept
    have since : w.since w' = events := by simp [StringHeap.since, log]
    exact iff_of_true (since ▸ kept.lifetimes) finishes.served
  · obtain ⟨events, log, leaks⟩ := fails.leaks
    have since : w.since w' = events := by simp [StringHeap.since, log]
    exact iff_of_false (since ▸ leaks.not_lifetimes) fails.unserved

theorem of_served (ends : Ends demands w w' G) (served : w.Serves demands) : G := by
  rcases ends with ⟨_, holds⟩ | fails
  · exact holds
  · exact absurd served fails.unserved

/-- What is asked of the end of a run besides. -/
theorem lifetimes_and_iff {P Q : Prop} (ends : Ends demands w w' G) (holds : G → (P ↔ Q)) :
    Lifetimes (w.since w') ∧ P ↔ w.Serves demands ∧ Q := by
  rw [ends.lifetimes_iff]
  exact and_congr_right fun served => holds (ends.of_served served)

/-- What holds of every run whose demands are served. -/
theorem lifetimes_and_iff_serves {P : Prop} (ends : Ends demands w w' G) (holds : G → P) :
    Lifetimes (w.since w') ∧ P ↔ w.Serves demands := by
  rw [ends.lifetimes_and_iff fun reached => iff_true_intro (holds reached), and_true]

/-- All comparisons stay within their buffers exactly where the demands fit. -/
theorem inBoth_iff (ends : Ends demands w w' G) (size : Nat) :
    (Lifetimes (w.since w') ∧ ∀ event ∈ w.since w', event.InBoth) ↔
      w.Serves demands ∧ Demand.Fits size demands := by
  rcases ends with ⟨finishes, _⟩ | fails
  · obtain ⟨events, log, kept, inBoth⟩ := finishes.kept
    have since : w.since w' = events := by simp [StringHeap.since, log]
    rw [since]
    exact and_congr (iff_of_true kept.lifetimes finishes.served) (inBoth size)
  · have spoiled : ¬ Lifetimes (w.since w') := by
      have decided : Ends demands w w' G := Or.inr fails
      exact fun lifetimes => fails.unserved (decided.lifetimes_iff.mp lifetimes)
    exact iff_of_false (fun both => spoiled both.1) fun both => fails.unserved both.1

end Ends

namespace RuntimeString

theorem init_continues (data : CString) (w : StringHeap) : Continues w (init data w).2 := by
  have logs := init_logs data w
  have heap : (init data w).2.heap = (w.heap.allocate 0 (data.text.length + 1)).2 := rfl
  have counts : (w.heap.allocate 0 (data.text.length + 1)).2.moves = w.heap.moves ∧
      (w.heap.allocate 0 (data.text.length + 1)).2.resized = w.heap.resized := by
    unfold Heap.allocate
    split <;> exact ⟨rfl, rfl⟩
  refine ⟨?_, ?_, ?_, logs⟩
  · rw [heap, counts.1]
  · rw [heap, Heap.allocate_grants]
  · rw [heap, counts.2]

/-- The block that an initialised string has. -/
theorem init_buffer (data : CString) (granted : w.heap.grants w.heap.asked (data.text.length + 1) = true) :
    let started := RuntimeString.init data w
    started.1 = ⟨⟨.object 0 w.heap.fresh, 0⟩, data.text.length, data.text.length + 1⟩ ∧
      Buffer started.1.data (data.text.length + 1) started.2 ∧
      InPlace [.allocate (data.text.length + 1)] w started.2 ∧ started.2.heap.fresh = w.heap.fresh + 1 ∧
      ∃ writes, started.2.log = w.log ++ .obtained ⟨.object 0 w.heap.fresh, 0⟩ :: writes ∧
        Calm (data.text.length + 1) [] writes := by
  have allocated : w.heap.allocate 0 (data.text.length + 1) = _ := Heap.allocate_granted granted
  simp only [init, StringHeap.allocate, allocated, Heap.obtain]
  refine ⟨trivial, ⟨rfl, by simp [StringHeap.write, StringHeap.record]⟩, ⟨⟨granted, trivial⟩, rfl, rfl, rfl, rfl⟩, rfl, ?_⟩
  refine ⟨[_, _], by simp [StringHeap.write, StringHeap.record]; exact ⟨rfl, rfl⟩, ?_, ?_⟩
  · simp [StringEvent.Steady]
  · simp [StringEvent.InBoth, Demand.Fits]

/-- Without a block the null pointer is written through. -/
theorem init_refused (data : CString) (refused : w.heap.grants w.heap.asked (data.text.length + 1) = false) :
    ∃ events, (init data w).2.log = w.log ++ events ∧ ∃ event ∈ events, ¬ event.OnLive := by
  have allocated : w.heap.allocate 0 (data.text.length + 1) = _ := Heap.allocate_refused refused
  simp only [init, StringHeap.allocate, allocated]
  refine ⟨[_, _, _], by simp [StringHeap.write, StringHeap.record]; exact ⟨rfl, rfl, rfl⟩,
    .written .null data.text.length (w.heap.extent Pointer.null.block), by simp, ?_⟩
  simp [StringEvent.OnLive, Pointer.null, w.heap.nullDead]

end RuntimeString

/-- One block, from `allocate` to `deallocate`. -/
theorem Kept.of_steady (number : Nat) {calm : List StringEvent} (steady : ∀ event ∈ calm, event.Steady)
    (extent : Option Nat) :
    Kept number (number + 1)
      (.obtained ⟨.object 0 number, 0⟩ :: calm ++ [.released ⟨.object 0 number, 0⟩ extent]) := by
  have unreleased : calm.countP (·.releases ⟨.object 0 number, 0⟩) = 0 := by
    rw [List.countP_eq_zero]
    intro event member releases
    cases event with
    | released => exact steady _ member
    | _ => cases releases
  refine ⟨fun event member => ?_, fun event member p named => ?_⟩
  · rcases List.mem_append.mp member with early | last
    · rcases List.mem_cons.mp early with rfl | inside
      · refine ⟨trivial, ?_⟩
        change List.countP _ _ = 1
        rw [List.countP_append, List.countP_cons, unreleased]
        simp [StringEvent.releases]
      · have here := steady event inside
        cases event with
        | read | written | compared => exact ⟨here, trivial⟩
        | obtained | released => exact here.elim
    · cases List.mem_singleton.mp last
      exact ⟨trivial, trivial⟩
  · refine ⟨number, ?_, Nat.le_refl _, Nat.lt_succ_self _⟩
    rcases List.mem_append.mp member with early | last
    · rcases List.mem_cons.mp early with rfl | inside
      · cases named
        rfl
      · have here := steady event inside
        cases event with
        | obtained | released => exact here.elim
        | read | written | compared => cases named
    · cases List.mem_singleton.mp last
      cases named
      rfl

theorem RuntimeString.destroy_continues (str : RuntimeString) (w : StringHeap) : Continues w (str.destroy w).2 :=
  ⟨rfl, rfl, Nat.le_refl _, [_], rfl, fun _ _ => trivial⟩

/-- A string is initialised, worked on and destroyed: the copy that is destroyed is the first one. -/
theorem RuntimeString.destroyed_ends (data : CString)
    (continues : Continues (RuntimeString.init data w).2 w')
    (body : Buffer (RuntimeString.init data w).1.data (data.text.length + 1) (RuntimeString.init data w).2 →
      Runs (RuntimeString.init data w).1.data (data.text.length + 1) demands (RuntimeString.init data w).2 w' G) :
    Ends (.allocate (data.text.length + 1) :: demands) w ((RuntimeString.init data w).1.destroy w').2 G := by
  have whole := ((init_continues data w).trans continues).trans ((init data w).1.destroy_continues w')
  cases granted : w.heap.grants w.heap.asked (data.text.length + 1) with
  | false =>
    obtain ⟨events, log, dead⟩ := init_refused data granted
    obtain ⟨later, log', _⟩ := (continues.trans ((init data w).1.destroy_continues w')).logs
    refine Or.inr ⟨fun served => ?_, fun grants => ?_, events ++ later, ?_, ?_⟩
    · have first : w.heap.grants w.heap.asked (data.text.length + 1) = true := served.1
      rw [granted] at first
      cases first
    · rw [grants] at granted
      cases granted
    · rw [log', log, List.append_assoc]
    · exact Leaks.append (Or.inr dead) [] later
  | true =>
    obtain ⟨first, buffer, started, fresh, writes, log, quiet⟩ := init_buffer data granted
    rcases body buffer with ⟨stays, holds⟩ | upset
    · -- Every copy, the first included, still refers to the one block.
      obtain ⟨calm, log', quiet'⟩ := stays.calm
      have inPlace := started.trans stays.toInPlace
      refine Or.inl ⟨⟨⟨inPlace.served, inPlace.asked, inPlace.resized, inPlace.moves, inPlace.grants⟩, ?_,
        .obtained ⟨.object 0 w.heap.fresh, 0⟩ :: (writes ++ calm) ++
          [.released ⟨.object 0 w.heap.fresh, 0⟩ (w'.heap.extent (.object 0 w.heap.fresh))], ?_, ?_, fun size => ?_⟩,
        holds⟩
      · change w.heap.fresh ≤ w'.heap.fresh
        rw [stays.fresh, fresh]
        exact Nat.le_succ _
      · simp [destroy, StringHeap.deallocate, StringHeap.record, log', log, first]
      · have kept := Kept.of_steady w.heap.fresh (List.forall_mem_append.mpr ⟨quiet.steady, quiet'.steady⟩)
          (w'.heap.extent (.object 0 w.heap.fresh))
        rw [← fresh, ← stays.fresh] at kept
        exact kept
      · have both := (quiet.append quiet').inBoth
        rw [List.cons_append, List.forall_mem_cons, List.forall_mem_append, List.forall_mem_singleton, both]
        exact ⟨fun all => all.2.1, fun fits => ⟨trivial, fits, trivial⟩⟩
    · -- What the log shows is seen again when the first copy is destroyed.
      obtain ⟨events, log', event, member, spoils⟩ := upset.spoiled
      rw [first] at spoils
      refine Or.inr ⟨fun served => upset.unserved ?_, fun grants => ?_,
        .obtained ⟨.object 0 w.heap.fresh, 0⟩ :: writes ++ events ++
          [.released ⟨.object 0 w.heap.fresh, 0⟩ (w'.heap.extent (.object 0 w.heap.fresh))], ?_, ?_⟩
      · exact started.serves_append.mp served
      · have early := init_continues data w
        exact (upset.moved (early.granting grants)).mono early ((init data w).1.destroy_continues w')
      · simp [destroy, StringHeap.deallocate, StringHeap.record, log', log, first]
      · exact Leaks.of_spoils member spoils writes _

end

end MicroRos
