import MicroRos.Utilities.Strings

/-! Many strings in one heap.

A program keeps strings in variables and works on them in any order; what it passes is either
a text of its own or the characters of another variable, read through the pointer that
`micro_ros_string_utilities_get_c_str` returns. Above the buffers stand the texts alone, with
the capacities that decide where the utilities fail.
-/

set_option autoImplicit false

namespace MicroRos

open Memory (Pointer Byte Block Contents Heap)

namespace Memory.Contents

variable {m : Contents}

theorem noNul_textAt (m : Contents) (p : Pointer) (n : Nat) : 0 ∉ m.textAt p n := by
  induction n generalizing p with
  | zero => exact List.not_mem_nil
  | succ n ih =>
    unfold textAt
    split
    · exact List.not_mem_nil
    next other => exact List.not_mem_cons_of_ne_of_not_mem (Ne.symm other) (ih _)

/-- A text is read up to its terminator. -/
theorem textAt_of_holds {p : Pointer} {text : List Byte} {n : Nat} (noNul : 0 ∉ text)
    (holds : m.Holds p (text ++ [0])) (room : text.length < n) : m.textAt p n = text := by
  -- The text is read byte for byte, at a pointer that moves on with it.
  induction text generalizing p n with
  | nil =>
    obtain ⟨n, rfl⟩ := Nat.exists_eq_add_of_lt room
    have terminator : m (p.plus 0) = .byte 0 := holds 0 (by simp)
    rw [Pointer.plus_zero] at terminator
    simp [textAt, byteAt, terminator]
  | cons byte text ih =>
    cases n with
    | zero => cases room
    | succ n =>
      have first : m (p.plus 0) = .byte byte := holds 0 (by simp)
      rw [Pointer.plus_zero] at first
      have other : byte ≠ 0 := fun zero => noNul (zero ▸ List.mem_cons_self)
      have later : m.Holds (p.plus 1) (text ++ [0]) := by
        have split : m.Holds p ([byte] ++ (text ++ [0])) := holds
        exact (holds_append_iff.mp split).2
      have rest := ih (List.not_mem_of_not_mem_cons noNul) later (Nat.lt_of_succ_lt_succ room)
      simp [textAt, byteAt, first, other, rest]

theorem write_elsewhere (m : Contents) {p q : Pointer} (n : Nat) (cells : Nat → Memory.Cell)
    (other : q.block ≠ p.block) : m.write p n cells q = m q :=
  write_outside m cells fun inside => other inside.1

end Memory.Contents

/-- The C string that a pointer refers to. -/
def StringHeap.cString (p : Pointer) (w : StringHeap) : CString :=
  ⟨w.memory.textAt p ((w.heap.extent p.block).getD 0), Contents.noNul_textAt _ _ _⟩

/-- `micro_ros_string_utilities_get_c_str`. -/
def RuntimeString.getCStr (str : RuntimeString) : Pointer := str.data

/-- What is passed as a text. -/
inductive StringArgument where
  | literal (data : CString)
  | cStr (other : Nat)
  deriving DecidableEq

/-- What is done to a string that exists. -/
inductive StringAct where
  | set (argument : StringArgument)
  | append (argument : StringArgument)
  | removeTailChars (n : Nat)

def StringAct.argument : StringAct → StringArgument
  | .set argument | .append argument => argument
  | .removeTailChars _ => .literal .empty

/-- The call with the characters of its argument. -/
def StringAct.call (data : CString) : StringAct → StringCall
  | .set _ => .set data
  | .append _ => .append data
  | .removeTailChars n => .removeTailChars n

/-- A call for the variable with this number. -/
inductive StoreCall where
  | init (i : Nat) (argument : StringArgument)
  | work (i : Nat) (act : StringAct)
  | destroy (i : Nat)

/-- The variables of a program, and the memory behind them. -/
structure StringStore where
  strings : Nat → RuntimeString
  heap : StringHeap

namespace StringStore

/-- Every variable is zero. -/
def start (w : StringHeap) : StringStore := ⟨fun _ => ⟨.null, 0, 0⟩, w⟩

def put (i : Nat) (made : RuntimeString × StringHeap) (store : StringStore) : StringStore :=
  ⟨Function.update store.strings i made.1, made.2⟩

/-- The characters of an argument are read before the call writes. -/
def load (store : StringStore) : StringArgument → CString × StringHeap
  | .literal data => (data, store.heap)
  | .cStr other =>
    let p := (store.strings other).getCStr
    let text := store.heap.cString p
    (text, store.heap.read p (text.text.length + 1))

def perform (store : StringStore) : StoreCall → StringStore
  | .init i argument =>
    let read := store.load argument
    store.put i (RuntimeString.init read.1 read.2)
  | .work i act =>
    let read := store.load act.argument
    store.put i ((act.call read.1).run (store.strings i) read.2)
  | .destroy i => store.put i ((store.strings i).destroy store.heap)

def performAll (store : StringStore) : List StoreCall → StringStore
  | [] => store
  | call :: calls => (store.perform call).performAll calls

end StringStore

/-- A string as a program sees it. -/
structure TextSlot where
  text : CString
  capacity : Nat
  deriving DecidableEq

/-- The strings that exist. -/
abbrev StringTexts := Nat → Option TextSlot

namespace StringArgument

def of (texts : StringTexts) : StringArgument → CString
  | .literal data => data
  | .cStr other => (texts other).elim .empty TextSlot.text

/-- A string that is passed exists. -/
def Valid (texts : StringTexts) : StringArgument → Prop
  | .literal _ => True
  | .cStr other => (texts other).isSome = true

end StringArgument

namespace TextSlot

/-- A new string has room for its terminator. -/
def initial (data : CString) : TextSlot := ⟨data, data.text.length + 1⟩

def after (call : StringCall) (slot : TextSlot) : TextSlot :=
  ⟨call.applyTo slot.text, call.capacityAfter slot.text slot.capacity⟩

end TextSlot

namespace StoreCall

def apply (texts : StringTexts) : StoreCall → StringTexts
  | .init i argument => Function.update texts i (some (.initial (argument.of texts)))
  | .work i act => Function.update texts i ((texts i).map (.after (act.call (act.argument.of texts))))
  | .destroy i => Function.update texts i none

def applyAll (texts : StringTexts) : List StoreCall → StringTexts
  | [] => texts
  | call :: calls => applyAll (call.apply texts) calls

/-- A string is initialised before it is used and not again before it is destroyed, is not passed to a call for
itself, and loses no more characters than it has. -/
def Proper (texts : StringTexts) : StoreCall → Prop
  | .init i argument => texts i = none ∧ argument.Valid texts
  | .work i act => act.argument.Valid texts ∧ act.argument ≠ .cStr i ∧
      ∃ slot ∈ texts i, (act.call (act.argument.of texts)).Proper slot.text
  | .destroy i => (texts i).isSome = true

def AllProper (texts : StringTexts) : List StoreCall → Prop
  | [] => True
  | call :: calls => call.Proper texts ∧ AllProper (call.apply texts) calls

/-- No text is made that is as long as the capacity of its string. -/
def Roomy (texts : StringTexts) : StoreCall → Prop
  | .work i act => ∀ slot ∈ texts i, (act.call (act.argument.of texts)).Roomy slot.text slot.capacity
  | _ => True

def AllRoomy (texts : StringTexts) : List StoreCall → Prop
  | [] => True
  | call :: calls => call.Roomy texts ∧ AllRoomy (call.apply texts) calls

end StoreCall

/-- An access inside a live block, or the release of one. -/
def StringEvent.Within : StringEvent → Prop
  | .read p n (some size) | .written p n (some size) | .compared p n (some size) _ => p.offset + n ≤ size
  | .released _ extent => extent ≠ none
  | .obtained _ => True
  | .read _ _ none | .written _ _ none | .compared _ _ none _ => False

instance : (event : StringEvent) → Decidable event.Within
  | .read p n (some size) | .written p n (some size) | .compared p n (some size) _ =>
    inferInstanceAs (Decidable (p.offset + n ≤ size))
  | .released _ extent => inferInstanceAs (Decidable (extent ≠ none))
  | .obtained _ => isTrue trivial
  | .read _ _ none | .written _ _ none | .compared _ _ none _ => isFalse id

theorem StringEvent.within_written_iff {p : Pointer} {n : Nat} {extent : Option Nat} :
    (StringEvent.written p n extent).Within ↔ (StringEvent.written p n extent).Inside := by
  cases extent <;> rfl

namespace StringHeap.Logs

variable {P Q : StringEvent → Prop} {w w' : StringHeap}

theorem mono (logs : Logs P w w') (weaker : ∀ event, P event → Q event) : Logs Q w w' := by
  obtain ⟨events, log, every⟩ := logs
  exact ⟨events, log, fun event member => weaker event (every event member)⟩

theorem since (logs : Logs P w w') : ∀ event ∈ w.since w', P event := by
  obtain ⟨events, log, every⟩ := logs
  simpa [StringHeap.since, log] using every

end StringHeap.Logs

section Work

variable {str : RuntimeString} {text : CString} {w : StringHeap}

namespace RuntimeString

theorem Keeps.ne_null (keeps : str.Keeps text w) : str.data.block ≠ .null := by
  intro isNull
  have whole := keeps.whole
  rw [isNull, w.heap.nullDead] at whole
  cases whole

theorem Keeps.of_same {w' : StringHeap} (keeps : str.Keeps text w) (heap : w'.heap = w.heap)
    (memory : w'.memory = w.memory) : str.Keeps text w' :=
  ⟨keeps.start, by rw [heap]; exact keeps.whole, keeps.room, keeps.length, by rw [memory]; exact keeps.holds⟩

theorem init_within (grants : w.heap.Grants) (data : CString) :
    StringHeap.Logs StringEvent.Within w (init data w).2 := by
  obtain ⟨start, whole, _⟩ := Heap.allocate_live 0 (data.text.length + 1) grants
  have within (k : Nat) (bound : k ≤ data.text.length + 1) :
      (StringEvent.written (w.heap.allocate 0 (data.text.length + 1)).1 k
        ((w.heap.allocate 0 (data.text.length + 1)).2.extent
          (w.heap.allocate 0 (data.text.length + 1)).1.block)).Within := by
    rw [whole, StringEvent.Within, start, Nat.zero_add]
    exact bound
  have asked : StringHeap.Logs StringEvent.Within w (w.allocate (data.text.length + 1)).2 :=
    ⟨[_], rfl, List.forall_mem_singleton.mpr trivial⟩
  refine (asked.trans (.write _ _ _ ?_)).trans (.write _ _ _ ?_)
  · rw [List.length_replicate]
    exact within _ (Nat.le_refl _)
  · exact within _ (Nat.le_succ _)

theorem reserve_within (keeps : str.Keeps text w) (length : Nat) :
    StringHeap.Logs StringEvent.Within w (str.reserve length w).2 := by
  have live : StringEvent.Within (.released str.data (w.heap.extent str.data.block)) := by
    rw [keeps.whole]
    exact Option.some_ne_none str.capacity
  unfold reserve StringHeap.reallocate
  split
  · dsimp only
    split
    · exact .of_log rfl
    · refine ⟨_, rfl, List.forall_mem_append.mpr ⟨?_, List.forall_mem_singleton.mpr trivial⟩⟩
      split
      · exact List.forall_mem_nil _
      · exact List.forall_mem_singleton.mpr live
  · exact .of_log rfl

end RuntimeString

/-- With the release of the old block looked at as well. -/
theorem StringCall.run_within (call : StringCall) (keeps : str.Keeps text w) (grants : w.heap.Grants)
    (proper : call.Proper text) :
    (∀ event ∈ w.since (call.run str w).2, event.Within) ↔ call.Roomy text str.capacity := by
  obtain ⟨_, _, inside, _⟩ := call.run_keeps keeps grants proper
  rw [← inside]
  have same {w' : StringHeap} (within : StringHeap.Logs StringEvent.Within w w')
      (quiet : StringHeap.Logs StringEvent.Inside w w') (p : Pointer) (bytes : List Byte) :
      (∀ event ∈ w.since (w'.write p bytes), event.Within) ↔ ∀ event ∈ w.since (w'.write p bytes), event.Inside := by
    rw [StringHeap.forall_since_write within, StringHeap.forall_since_write quiet, StringEvent.within_written_iff]
  have reserved (length : Nat) := (RuntimeString.reserve_keeps keeps grants length).2.2.2.2
  cases call with
  | set data => exact same (str.reserve_within keeps _) (reserved _) _ _
  | append data => exact same (str.reserve_within keeps _) (reserved _) _ _
  | removeTailChars n => exact same (.of_log rfl) (.of_log rfl) _ _

end Work

/-- What a call may do for the sake of one string: its block stays or is replaced by a new one, and no byte
and no length of any other block changes. -/
structure Confined (old new : Block) (w w' : StringHeap) : Prop where
  grants : w'.heap.Grants
  fresh : w.heap.fresh ≤ w'.heap.fresh
  block : new = old ∨ (new = .null ∨ ∃ number ≥ w.heap.fresh, new = .object 0 number) ∧ w'.heap.extent old = none
  extent : ∀ b, b ≠ old → b ≠ new → w'.heap.extent b = w.heap.extent b
  memory : ∀ q, q.block ≠ new → w'.memory q = w.memory q

namespace Confined

variable {old new : Block} {w w' w'' : StringHeap}

/-- A write to the block that is left. -/
theorem write (confined : Confined old new w w') (p : Pointer) (same : p.block = new) (bytes : List Byte) :
    Confined old new w (w'.write p bytes) := by
  refine ⟨confined.grants, confined.fresh, confined.block, confined.extent, fun q other => ?_⟩
  rw [← confined.memory q other]
  rw [← same] at other
  simp only [StringHeap.write, Contents.writeBytes, Contents.write_elsewhere _ _ _ other]

/-- Reads before it change nothing. -/
theorem of_heap (confined : Confined old new w w') (heap : w.heap = w''.heap) (memory : w.memory = w''.memory) :
    Confined old new w'' w' := by
  obtain ⟨grants, fresh, block, extent, kept⟩ := confined
  rw [heap] at fresh block extent
  rw [memory] at kept
  exact ⟨grants, fresh, block, extent, kept⟩

/-- A block that is alive and is not the old one is not the new one either. -/
theorem ne_new (confined : Confined old new w w') {b : Block} (other : b ≠ old) (live : w.heap.extent b ≠ none) :
    b ≠ new := by
  rintro rfl
  rcases confined.block with same | ⟨isNull | ⟨number, later, isNew⟩, _⟩
  · exact other same
  · rw [isNull] at live
    exact live w.heap.nullDead
  · rw [isNew] at live
    exact live (w.heap.freshDead 0 number later)

/-- Nothing of it was there before the first of the blocks. -/
theorem new_dead (confined : Confined old new w w') {first : Heap} (older : first.fresh ≤ w.heap.fresh)
    (dead : first.extent old = none) : first.extent new = none := by
  rcases confined.block with rfl | ⟨rfl | ⟨number, later, rfl⟩, _⟩
  · exact dead
  · exact first.nullDead
  · exact first.freshDead 0 number (Nat.le_trans older later)

/-- A string in another block stays as it is. -/
theorem keeps {str : RuntimeString} {text : CString} (confined : Confined old new w w')
    (other : str.data.block ≠ old) (keeps : str.Keeps text w) : str.Keeps text w' := by
  have apart : str.data.block ≠ new := by
    apply confined.ne_new other
    rw [keeps.whole]
    exact Option.some_ne_none str.capacity
  refine ⟨keeps.start, ?_, keeps.room, keeps.length, keeps.holds.congr fun i _ => confined.memory _ apart⟩
  rw [confined.extent _ other apart, keeps.whole]

end Confined

namespace RuntimeString

variable {str : RuntimeString} {text : CString} {w : StringHeap}

theorem reserve_confined (keeps : str.Keeps text w) (grants : w.heap.Grants) (length : Nat) :
    Confined str.data.block (str.reserve length w).1.data.block w (str.reserve length w).2 := by
  have still : Confined str.data.block str.data.block w w :=
    ⟨grants, Nat.le_refl _, Or.inl rfl, fun _ _ _ => rfl, fun _ _ => rfl⟩
  have notNull : str.data ≠ .null := fun isNull => keeps.ne_null (congrArg Pointer.block isNull)
  unfold reserve
  split
  next grows =>
    cases moves : w.heap.moves w.heap.resized with
    | false =>
      simp only [StringHeap.reallocate, Heap.resize_still 0 (grants _ _) notNull moves, true_or, if_true]
      refine ⟨grants, Nat.le_refl _, Or.inl rfl, fun b other _ => ?_, fun _ _ => rfl⟩
      simp [Heap.stretch, other]
    | true =>
      have fresh : Block.object 0 w.heap.fresh ≠ str.data.block := by
        intro same
        have whole := keeps.whole
        rw [← same, w.heap.freshDead 0 _ (Nat.le_refl _)] at whole
        cases whole
      have moved : (⟨.object 0 w.heap.fresh, 0⟩ : Pointer) ≠ str.data := fun same =>
        fresh (congrArg Pointer.block same)
      simp only [StringHeap.reallocate, Heap.resize_moved 0 str.data (grants _ _) moves, Heap.obtain,
        Heap.release_fresh, moved, Pointer.null, Pointer.mk.injEq, reduceCtorEq, false_and, or_self, if_false]
      refine ⟨grants, Nat.le_succ _, Or.inr ⟨Or.inr ⟨_, Nat.le_refl _, rfl⟩, ?_⟩, fun b other isNew => ?_,
        fun q other => ?_⟩
      · simp [Heap.release, fresh.symm]
      · simp [Heap.release, other, isNew]
      · simp only [Contents.copy]
        exact Contents.write_elsewhere _ _ _ other
  next enough => exact still

end RuntimeString

theorem StringCall.run_confined {str : RuntimeString} {text : CString} {w : StringHeap} (call : StringCall)
    (keeps : str.Keeps text w) (grants : w.heap.Grants) :
    Confined str.data.block (call.run str w).1.data.block w (call.run str w).2 := by
  cases call with
  | set data => exact (RuntimeString.reserve_confined keeps grants _).write _ rfl _
  | append data => exact (RuntimeString.reserve_confined keeps grants _).write (Pointer.plus _ str.size) rfl _
  | removeTailChars n =>
    have still : Confined str.data.block str.data.block w w :=
      ⟨grants, Nat.le_refl _, Or.inl rfl, fun _ _ _ => rfl, fun _ _ => rfl⟩
    exact still.write (str.data.plus (str.size - n)) rfl _

/-- A new string is in a new block. -/
theorem RuntimeString.init_confined {w : StringHeap} (grants : w.heap.Grants) (data : CString) :
    Confined .null (RuntimeString.init data w).1.data.block w (RuntimeString.init data w).2 := by
  have asked : Confined .null (w.allocate (data.text.length + 1)).1.block w (w.allocate (data.text.length + 1)).2 := by
    simp only [StringHeap.allocate, StringHeap.record, Heap.allocate_granted (grants w.heap.asked _), Heap.obtain]
    refine ⟨grants, Nat.le_succ _, Or.inr ⟨Or.inr ⟨_, Nat.le_refl _, rfl⟩, ?_⟩, fun b _ isNew => ?_, fun _ _ => rfl⟩
    · simp [w.heap.nullDead]
    · simp [isNew]
  exact (asked.write _ rfl _).write _ rfl _

/-- Nothing is left of a string that is destroyed. -/
theorem RuntimeString.destroy_confined (str : RuntimeString) {w : StringHeap} (grants : w.heap.Grants) :
    Confined str.data.block .null w (str.destroy w).2 := by
  refine ⟨grants, Nat.le_refl _, Or.inr ⟨Or.inl rfl, ?_⟩, fun b other _ => ?_, fun _ _ => rfl⟩
  · simp [destroy, StringHeap.deallocate, StringHeap.record, Heap.release]
  · simp [destroy, StringHeap.deallocate, StringHeap.record, Heap.release, other]

namespace StringStore

/-- The block of a variable; the null block when its string does not exist. -/
def block (store : StringStore) (i : Nat) : Block := (store.strings i).data.block

/-- What a variable holds. -/
def Has (str : RuntimeString) (w : StringHeap) : Option TextSlot → Prop
  | none => str = ⟨.null, 0, 0⟩
  | some slot => str.Keeps slot.text w ∧ str.capacity = slot.capacity

/-- The variables have the texts, each in a block of its own that was obtained since `w`; all else is as in `w`. -/
structure Represents (w : StringHeap) (store : StringStore) (texts : StringTexts) : Prop where
  grants : store.heap.heap.Grants
  fresh : w.heap.fresh ≤ store.heap.heap.fresh
  has : ∀ i, Has (store.strings i) store.heap (texts i)
  apart : ∀ i j, (texts i).isSome = true → store.block i = store.block j → i = j
  own : ∀ i, w.heap.extent (store.block i) = none
  others : ∀ b, (∀ i, (texts i).isSome = true → b ≠ store.block i) → store.heap.heap.extent b = w.heap.extent b
  kept : ∀ q, w.heap.extent q.block ≠ none → store.heap.memory q = w.memory q

variable {w : StringHeap} {store : StringStore} {texts : StringTexts}

theorem Represents.start (grants : w.heap.Grants) : (StringStore.start w).Represents w fun _ => none :=
  ⟨grants, Nat.le_refl _, fun _ => rfl, fun _ _ impossible => absurd impossible Bool.false_ne_true,
    fun _ => w.heap.nullDead, fun _ _ => rfl, fun _ _ => rfl⟩

/-- A string exists exactly where the block is alive. -/
theorem Represents.live_iff (rep : store.Represents w texts) (i : Nat) :
    store.heap.heap.extent (store.block i) ≠ none ↔ (texts i).isSome = true := by
  have has := rep.has i
  cases slot : texts i with
  | none =>
    rw [slot] at has
    have isNull : store.block i = .null := congrArg (fun str => str.data.block) has
    simp [isNull, store.heap.heap.nullDead]
  | some slot' =>
    rw [slot] at has
    simp [block, has.1.whole]

/-- One variable gets another string, within its blocks. -/
theorem Represents.put (rep : store.Represents w texts) {i : Nat} {made : RuntimeString × StringHeap}
    (confined : Confined (store.block i) made.1.data.block store.heap made.2) {slot : Option TextSlot}
    (here : Has made.1 made.2 slot) : (store.put i made).Represents w (Function.update texts i slot) := by
  have other (j : Nat) (ne : j ≠ i) (live : (texts j).isSome = true) : store.block j ≠ store.block i :=
    fun same => ne (rep.apart j i live same)
  have at_self : (store.put i made).block i = made.1.data.block := by simp [StringStore.put, block]
  have at_other (j : Nat) (ne : j ≠ i) : (store.put i made).block j = store.block j := by
    simp [StringStore.put, block, ne]
  have isNew (j : Nat) (ne : j ≠ i) (live : (texts j).isSome = true) : store.block j ≠ made.1.data.block :=
    confined.ne_new (other j ne live) ((rep.live_iff j).mpr live)
  -- A variable without a string has the null block, which no other string has.
  have nullOf (str : RuntimeString) (heap : StringHeap) (has : Has str heap none) : str.data.block = .null :=
    congrArg (fun str => str.data.block) has
  refine ⟨confined.grants, Nat.le_trans rep.fresh confined.fresh, fun j => ?_, fun j k live same => ?_, fun j => ?_,
    fun b away => ?_, fun q alive => ?_⟩
  · by_cases ne : j = i
    · subst ne
      simpa [StringStore.put] using here
    · have has := rep.has j
      simp only [StringStore.put, Function.update_of_ne ne]
      cases slot' : texts j with
      | none =>
        rw [slot'] at has
        exact has
      | some slot'' =>
        rw [slot'] at has
        exact ⟨confined.keeps (other j ne (by simp [slot'])) has.1, has.2⟩
  -- Two variables with one block: the one that was written, or two that were there before.
  · by_cases ne : j = i
    · by_cases ne' : k = i
      · rw [ne, ne']
      · subst ne
        rw [at_self, at_other k ne'] at same
        rw [Function.update_self] at live
        obtain ⟨slot', rfl⟩ := Option.isSome_iff_exists.mp live
        have notNull : store.block k ≠ .null := same ▸ here.1.ne_null
        cases slot'' : texts k with
        | none =>
          have has := rep.has k
          rw [slot''] at has
          exact absurd (nullOf _ _ has) notNull
        | some _ => exact absurd same.symm (isNew k ne' (by simp [slot'']))
    · rw [Function.update_of_ne ne] at live
      rw [at_other j ne] at same
      by_cases ne' : k = i
      · subst ne'
        rw [at_self] at same
        exact absurd same (isNew j ne live)
      · rw [at_other k ne'] at same
        exact rep.apart j k live same
  · by_cases ne : j = i
    · rw [ne, at_self]
      exact confined.new_dead rep.fresh (rep.own i)
    · rw [at_other j ne]
      exact rep.own j
  · have awayOther (j : Nat) (ne : j ≠ i) (live : (texts j).isSome = true) : b ≠ store.block j := by
      have := away j (by rwa [Function.update_of_ne ne])
      rwa [at_other j ne] at this
    by_cases old : b = store.block i
    · rcases confined.block with same | ⟨_, dead⟩
      · cases slot with
        | none =>
          have isNull := nullOf _ _ here
          rw [old, ← same, isNull, w.heap.nullDead]
          exact made.2.heap.nullDead
        | some slot' => exact absurd (old.trans (same.symm.trans at_self.symm)) (away i (by simp))
      · rw [old, rep.own i]
        exact dead
    · by_cases new : b = made.1.data.block
      · cases slot with
        | none =>
          have isNull := nullOf _ _ here
          rw [new, isNull, w.heap.nullDead]
          exact made.2.heap.nullDead
        | some slot' => exact absurd (new.trans at_self.symm) (away i (by simp))
      · refine (confined.extent b old new).trans (rep.others b fun j live => ?_)
        by_cases ne : j = i
        · rwa [ne]
        · exact awayOther j ne live
  · refine (confined.memory q fun same => ?_).trans (rep.kept q alive)
    exact alive (same ▸ confined.new_dead rep.fresh (rep.own i))

theorem load_logs (store : StringStore) (argument : StringArgument) :
    StringHeap.Logs (fun _ => True) store.heap (store.load argument).2 := by
  cases argument with
  | literal data => exact .of_log rfl
  | cStr other => exact .read _ _ _ trivial

theorem perform_logs (store : StringStore) (call : StoreCall) :
    StringHeap.Logs (fun _ => True) store.heap (store.perform call).heap := by
  cases call with
  | init i argument => exact (store.load_logs argument).trans (RuntimeString.init_logs _ _)
  | work i act => exact (store.load_logs act.argument).trans (StringCall.run_logs _ _ _)
  | destroy i => exact ⟨_, rfl, fun _ _ => trivial⟩

theorem performAll_logs (store : StringStore) (calls : List StoreCall) :
    StringHeap.Logs (fun _ => True) store.heap (store.performAll calls).heap := by
  induction calls generalizing store with
  | nil => exact .of_log rfl
  | cons call calls ih => exact (store.perform_logs call).trans (ih _)

/-- An argument is read inside its block, and is the text that the variable has. -/
theorem Represents.load (rep : store.Represents w texts) {argument : StringArgument} (valid : argument.Valid texts) :
    let read := store.load argument
    read.1 = argument.of texts ∧ read.2.heap = store.heap.heap ∧ read.2.memory = store.heap.memory ∧
      StringHeap.Logs StringEvent.Within store.heap read.2 := by
  cases argument with
  | literal data => exact ⟨rfl, rfl, rfl, .of_log rfl⟩
  | cStr other =>
    obtain ⟨slot, found⟩ := Option.isSome_iff_exists.mp valid
    have has := rep.has other
    rw [found] at has
    obtain ⟨keeps, capacity⟩ := has
    have room : slot.text.text.length < (store.strings other).capacity := keeps.length ▸ keeps.room
    have text : store.heap.cString (store.strings other).getCStr = slot.text := by
      apply CString.ext
      simp only [StringHeap.cString, RuntimeString.getCStr, keeps.whole, Option.getD_some]
      exact Contents.textAt_of_holds slot.text.noNul keeps.holds room
    simp only [StringStore.load, text, StringArgument.of, found, Option.elim_some, true_and]
    refine ⟨rfl, rfl, .read _ _ _ ?_⟩
    simp only [RuntimeString.getCStr, keeps.whole, StringEvent.Within, keeps.start, Nat.zero_add]
    exact room

/-- One call writes inside blocks exactly when it is roomy, and then the variables have the texts that they
should have. -/
theorem Represents.perform (rep : store.Represents w texts) {call : StoreCall} (proper : call.Proper texts) :
    ((∀ event ∈ store.heap.since (store.perform call).heap, event.Within) ↔ call.Roomy texts) ∧
      (call.Roomy texts → (store.perform call).Represents w (call.apply texts)) := by
  cases call with
  | init i argument =>
    obtain ⟨free, valid⟩ := proper
    obtain ⟨text, heap, memory, read⟩ := rep.load valid
    have grants : (store.load argument).2.heap.Grants := heap ▸ rep.grants
    obtain ⟨_, capacity, _, keeps⟩ := RuntimeString.init_keeps grants (argument.of texts)
    have confined := (RuntimeString.init_confined grants (argument.of texts)).of_heap heap memory
    have absent : store.block i = .null := by
      have has := rep.has i
      rw [free] at has
      exact congrArg (fun str => str.data.block) has
    -- Reading the argument leaves bytes and blocks alone, so `init` starts from the same heap.
    simp only [StringStore.perform, text]
    refine ⟨?_, fun _ => ?_⟩
    · exact iff_of_true ((read.trans (RuntimeString.init_within grants _)).since) trivial
    · rw [← absent] at confined
      exact rep.put confined ⟨keeps, capacity⟩
  | work i act =>
    obtain ⟨valid, _, slot, found, proper⟩ := proper
    obtain ⟨text, heap, memory, read⟩ := rep.load valid
    have grants : (store.load act.argument).2.heap.Grants := heap ▸ rep.grants
    have has := rep.has i
    rw [found] at has
    have keeps : (store.strings i).Keeps slot.text (store.load act.argument).2 := has.1.of_same heap memory
    have within := StringCall.run_within _ keeps grants proper
    obtain ⟨_, capacity, _, next⟩ := StringCall.run_keeps _ keeps grants proper
    have confined := ((act.call (act.argument.of texts)).run_confined keeps grants).of_heap heap memory
    have logs := StringCall.run_logs (act.call (act.argument.of texts)) (store.strings i) (store.load act.argument).2
    have roomy_iff : (StoreCall.work i act).Roomy texts ↔
        (act.call (act.argument.of texts)).Roomy slot.text slot.capacity := by
      rw [Option.mem_def] at found
      simp [StoreCall.Roomy, found]
    rw [has.2] at within capacity next
    rw [roomy_iff]
    simp only [StringStore.perform, text]
    refine ⟨?_, fun roomy => ?_⟩
    · exact (StringHeap.forall_since_trans (read.mono fun _ _ => trivial) logs).trans
        ((and_iff_right read.since).trans within)
    · rw [Option.mem_def] at found
      simp only [StoreCall.apply, found, Option.map_some]
      exact rep.put confined ⟨next roomy, capacity⟩
  | destroy i =>
    have released : StringHeap.Logs StringEvent.Within store.heap ((store.strings i).destroy store.heap).2 :=
      ⟨_, rfl, List.forall_mem_singleton.mpr ((rep.live_iff i).mpr proper)⟩
    refine ⟨iff_of_true released.since trivial, fun _ => ?_⟩
    have confined : Confined (store.block i) ((store.strings i).destroy store.heap).1.data.block store.heap
        ((store.strings i).destroy store.heap).2 := (store.strings i).destroy_confined rep.grants
    exact rep.put confined rfl

/-- A whole run. -/
theorem Represents.performAll {calls : List StoreCall} (rep : store.Represents w texts)
    (proper : StoreCall.AllProper texts calls) :
    ((∀ event ∈ store.heap.since (store.performAll calls).heap, event.Within) ↔ StoreCall.AllRoomy texts calls) ∧
      (StoreCall.AllRoomy texts calls →
        (store.performAll calls).Represents w (StoreCall.applyAll texts calls)) := by
  induction calls generalizing store texts with
  | nil => exact ⟨iff_of_true (by simp [performAll, StringHeap.since]) trivial, fun _ => rep⟩
  | cons call calls ih =>
    obtain ⟨within, next⟩ := rep.perform proper.1
    refine ⟨?_, fun roomy => (ih (next roomy.1) proper.2).2 roomy.2⟩
    have split := StringHeap.forall_since_trans (P := StringEvent.Within) (store.perform_logs call)
      ((store.perform call).performAll_logs calls)
    refine split.trans ((and_congr_left' within).trans ?_)
    exact and_congr_right fun roomy => (ih (next roomy) proper.2).1

end StringStore

/-- A program whose strings are initialised before they are used and destroyed before they are initialised again
makes only accesses inside live blocks if and only if no call made a text as long as the capacity that its
string had. Every variable then has its text in a block of its own, and the other blocks and all bytes that were
there before are as they were. -/
theorem stringStore_iff (calls : List StoreCall) (w : StringHeap) (grants : w.heap.Grants)
    (proper : StoreCall.AllProper (fun _ => none) calls) :
    let store := (StringStore.start w).performAll calls
    let texts := StoreCall.applyAll (fun _ => none) calls
    ((∀ event ∈ w.since store.heap, event.Within) ↔ StoreCall.AllRoomy (fun _ => none) calls) ∧
      (StoreCall.AllRoomy (fun _ => none) calls →
        (∀ i, ∀ slot ∈ texts i, (store.strings i).Good store.heap ∧ (store.strings i).Reads slot.text store.heap ∧
          (store.strings i).capacity = slot.capacity) ∧
        (∀ i j, (texts i).isSome = true → store.block i = store.block j → i = j) ∧
        (∀ b, store.heap.heap.extent b ≠ none ↔
          w.heap.extent b ≠ none ∨ ∃ i, (texts i).isSome = true ∧ b = store.block i) ∧
        ∀ q, w.heap.extent q.block ≠ none → store.heap.memory q = w.memory q) := by
  intro store texts
  obtain ⟨within, reached⟩ := (StringStore.Represents.start grants).performAll proper
  refine ⟨within, fun roomy => ?_⟩
  have rep : store.Represents w texts := reached roomy
  refine ⟨fun i slot found => ?_, rep.apart, fun b => ?_, rep.kept⟩
  · have has := rep.has i
    rw [Option.mem_def.mp found] at has
    obtain ⟨good, reads⟩ := RuntimeString.good_and_reads_iff.mpr has.1
    exact ⟨good, reads, has.2⟩
  · by_cases held : ∃ i, (texts i).isSome = true ∧ b = store.block i
    · obtain ⟨i, live, rfl⟩ := held
      exact iff_of_true ((rep.live_iff i).mpr live) (Or.inr ⟨i, live, rfl⟩)
    · rw [rep.others b fun i live same => held ⟨i, live, same⟩]
      exact ⟨Or.inl, fun either => either.resolve_right held⟩

/-- Two dots, passed twice to another string whose block is moved each time, and destroyed then. -/
theorem stringStore_iff_dots :
    let calls := [.init 0 (.literal (CString.dot.append .dot)), .init 1 (.literal .empty), .work 1 (.append (.cStr 0)),
      .work 1 (.append (.cStr 0)), .destroy 0]
    let w := StringHeap.boot fun _ => true
    let store := (StringStore.start w).performAll calls
    (∀ event ∈ w.since store.heap, event.Within) ∧
      (store.strings 1).Reads (((CString.dot.append .dot).append .dot).append .dot) store.heap ∧
      ∀ b, store.heap.heap.extent b ≠ none ↔ b = store.block 1 := by
  intro calls w store
  have proper : StoreCall.AllProper (fun _ => none) calls :=
    ⟨⟨rfl, trivial⟩, ⟨rfl, trivial⟩, ⟨rfl, by decide, _, rfl, trivial⟩, ⟨rfl, by decide, _, rfl, trivial⟩, rfl, trivial⟩
  have roomy : StoreCall.AllRoomy (fun _ => none) calls := by
    refine ⟨trivial, trivial, ?_, ?_, trivial, trivial⟩
    all_goals
      rintro _ ⟨⟩
      exact fun same => absurd same (by decide)
  obtain ⟨within, reached⟩ := stringStore_iff calls w (fun _ _ => rfl) proper
  obtain ⟨reads, _, blocks, _⟩ := reached roomy
  refine ⟨within.mpr roomy, (reads 1 _ rfl).2.1, fun b => (blocks b).trans ?_⟩
  constructor
  · rintro (dead | ⟨i, live, rfl⟩)
    · exact absurd rfl dead
    · rcases i with _ | _ | i
      · cases live
      · rfl
      · simp [calls, StoreCall.applyAll, StoreCall.apply] at live
  · rintro rfl
    exact Or.inr ⟨1, rfl, rfl⟩

end MicroRos
