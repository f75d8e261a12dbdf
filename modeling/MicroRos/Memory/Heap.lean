import MicroRos.Memory.Contents
import Mathlib.Logic.Function.Basic

/-! The allocator's side of memory: which objects exist and how long they are.

Every object ever obtained has a number of its own, so an object that was given
back never comes back to life. The answers of the allocator (whether a request is
granted, whether a resize moves the object) are parameters indexed by the number of
the request; they are not assumed to follow any policy.
-/

set_option autoImplicit false

namespace MicroRos.Memory

structure Heap where
  /-- Length of each live object. -/
  extent : Block → Option Nat
  /-- No object with this number or a later one has been obtained yet. -/
  fresh : Nat
  /-- Answer to the request with this number for this many bytes. -/
  grants : Nat → Nat → Bool
  /-- Whether the resize request with this number returns another object. -/
  moves : Nat → Bool
  /-- Requests made so far. -/
  asked : Nat
  /-- Resize requests made so far. -/
  resized : Nat
  nullDead : extent .null = none
  freshDead : ∀ owner number, fresh ≤ number → extent (.object owner number) = none

namespace Heap

/-- No object has been obtained yet. -/
def untouched (grants : Nat → Nat → Bool) (moves : Nat → Bool) : Heap :=
  ⟨fun _ => none, 0, grants, moves, 0, 0, rfl, fun _ _ _ => rfl⟩

/-- The `n` bytes at `p` lie inside a live object. -/
def Backed (h : Heap) (p : Pointer) (n : Nat) : Prop := ∃ size ∈ h.extent p.block, p.offset + n ≤ size

instance (h : Heap) (p : Pointer) (n : Nat) : Decidable (h.Backed p n) :=
  match found : h.extent p.block with
  | none => isFalse fun ⟨_, member, _⟩ => by simp [found] at member
  | some size =>
    if bound : p.offset + n ≤ size then isTrue ⟨size, by simp [found], bound⟩
    else isFalse fun ⟨_, member, fits⟩ => by simp [found] at member; omega

def Grants (h : Heap) : Prop := ∀ request size, h.grants request size = true

def obtain (h : Heap) (owner size : Nat) : Pointer × Heap :=
  (⟨.object owner h.fresh, 0⟩,
    { h with
      extent := Function.update h.extent (.object owner h.fresh) (some size)
      fresh := h.fresh + 1
      nullDead := by simpa using h.nullDead
      freshDead := fun other number later => by
        rw [Function.update_of_ne (by simp; omega)]
        exact h.freshDead other number (by omega) })

/-- `malloc`: a new object, or the null pointer when the request is refused. -/
def allocate (h : Heap) (owner size : Nat) : Pointer × Heap :=
  if h.grants h.asked size then { h with asked := h.asked + 1 }.obtain owner size
  else (.null, { h with asked := h.asked + 1 })

/-- What `free` accepts: the null pointer, or the start of a live object of this owner. -/
def Releasable (h : Heap) (owner : Nat) (p : Pointer) : Prop :=
  p = .null ∨ p.offset = 0 ∧ h.extent p.block ≠ none ∧
    match p.block with
    | .null => False
    | .object by_ _ => by_ = owner

instance (h : Heap) (owner : Nat) (p : Pointer) : Decidable (h.Releasable owner p) := by
  unfold Releasable
  cases p.block <;> infer_instance

/-- `free`: nothing happens to the null pointer. -/
def release (h : Heap) (p : Pointer) : Heap :=
  { h with
    extent := Function.update h.extent p.block none
    nullDead := by
      by_cases same : p.block = .null
      · simp [same]
      · rw [Function.update_of_ne (Ne.symm same)]; exact h.nullDead
    freshDead := fun owner number later => by
      by_cases same : p.block = .object owner number
      · simp [same]
      · rw [Function.update_of_ne (Ne.symm same)]; exact h.freshDead owner number later }

/-- A live object takes a new length where it stands. -/
def stretch (h : Heap) (p : Pointer) (size : Nat) : Heap :=
  { h with
    extent := fun b => if b = p.block ∧ h.extent b ≠ none then some size else h.extent b
    nullDead := by simp [h.nullDead]
    freshDead := fun owner number later => by simp [h.freshDead owner number later] }

/-- `realloc`: the null pointer asks for a new object; otherwise the object keeps its
place, or is given back and replaced by a new one. -/
def resize (h : Heap) (owner : Nat) (p : Pointer) (size : Nat) : Pointer × Heap :=
  let counted := { h with asked := h.asked + 1, resized := h.resized + 1 }
  if h.grants h.asked size then
    if p = .null ∨ h.moves h.resized then (counted.release p).obtain owner size
    else (p, counted.stretch p size)
  else (.null, counted)

theorem Backed.mono {h : Heap} {p : Pointer} {m n : Nat} (backed : h.Backed p n) (le : m ≤ n) :
    h.Backed p m := by
  obtain ⟨size, found, bound⟩ := backed
  exact ⟨size, found, by omega⟩

theorem Backed.plus {h : Heap} {p : Pointer} {i m n : Nat} (backed : h.Backed p n)
    (fits : i + m ≤ n) : h.Backed (p.plus i) m := by
  obtain ⟨size, found, bound⟩ := backed
  exact ⟨size, found, by simp; omega⟩

theorem Backed.block_ne_null {h : Heap} {p : Pointer} {n : Nat} (backed : h.Backed p n) :
    p.block ≠ .null := by
  obtain ⟨size, found, _⟩ := backed
  intro isNull
  rw [isNull, h.nullDead] at found
  cases found

theorem not_backed_null (h : Heap) {p : Pointer} (isNull : p.block = .null) (n : Nat) :
    ¬ h.Backed p n := fun backed => backed.block_ne_null isNull

/-- A live object was obtained before the next one will be. -/
theorem number_lt_fresh {h : Heap} {owner number size : Nat}
    (live : h.extent (.object owner number) = some size) : number < h.fresh := by
  by_contra later
  rw [h.freshDead owner number (by omega)] at live
  cases live

theorem allocate_granted {h : Heap} {owner size : Nat} (granted : h.grants h.asked size = true) :
    h.allocate owner size = { h with asked := h.asked + 1 }.obtain owner size := by
  simp [allocate, granted]

theorem allocate_refused {h : Heap} {owner size : Nat} (refused : h.grants h.asked size = false) :
    h.allocate owner size = (.null, { h with asked := h.asked + 1 }) := by
  simp [allocate, refused]

@[simp] theorem allocate_grants (h : Heap) (owner size : Nat) :
    (h.allocate owner size).2.grants = h.grants := by
  unfold allocate obtain
  split <;> rfl

theorem allocate_extent_live {h : Heap} (owner size : Nat) {b : Block} {n : Nat}
    (live : h.extent b = some n) : (h.allocate owner size).2.extent b = some n := by
  have other : b ≠ .object owner h.fresh := by
    rintro rfl
    rw [h.freshDead owner h.fresh (Nat.le_refl _)] at live
    cases live
  unfold allocate obtain
  split
  · simpa [Function.update_of_ne other] using live
  · exact live

/-- What was granted is a live object of the length that was asked for. -/
theorem allocate_backed {h : Heap} {owner size : Nat} (notNull : (h.allocate owner size).1 ≠ .null) :
    (h.allocate owner size).2.Backed (h.allocate owner size).1 size := by
  cases granted : h.grants h.asked size with
  | true =>
    rw [allocate_granted granted]
    exact ⟨size, by simp [obtain], by simp [obtain]⟩
  | false =>
    rw [allocate_refused granted] at notNull
    exact absurd rfl notNull

/-- A granted request gives a live object of its length. -/
theorem allocate_live {h : Heap} (owner size : Nat) (grants : h.Grants) :
    let answer := h.allocate owner size
    answer.1.offset = 0 ∧ answer.2.extent answer.1.block = some size ∧ answer.2.Grants := by
  simp only [allocate_granted (grants h.asked size)]
  exact ⟨rfl, by simp [obtain], grants⟩

theorem resize_still {h : Heap} {p : Pointer} {size : Nat} (owner : Nat) (granted : h.grants h.asked size = true)
    (notNull : p ≠ .null) (still : h.moves h.resized = false) :
    h.resize owner p size = (p, { h with asked := h.asked + 1, resized := h.resized + 1 }.stretch p size) := by
  simp [resize, granted, notNull, still]

theorem resize_moved {h : Heap} {size : Nat} (owner : Nat) (p : Pointer) (granted : h.grants h.asked size = true)
    (moved : h.moves h.resized = true) :
    h.resize owner p size =
      ({ h with asked := h.asked + 1, resized := h.resized + 1 }.release p).obtain owner size := by
  simp [resize, granted, moved]

theorem resize_refused {h : Heap} {size : Nat} (owner : Nat) (p : Pointer)
    (refused : h.grants h.asked size = false) :
    h.resize owner p size = (.null, { h with asked := h.asked + 1, resized := h.resized + 1 }) := by
  simp [resize, refused]

/-- A granted resize gives a live object of the new length. -/
theorem resize_granted {h : Heap} {n : Nat} {p : Pointer} (owner size : Nat) (grants : h.Grants)
    (start : p.offset = 0) (live : h.extent p.block = some n) :
    let answer := h.resize owner p size
    answer.1 ≠ .null ∧ answer.1.offset = 0 ∧ answer.2.extent answer.1.block = some size ∧ answer.2.Grants := by
  have notNull : p ≠ .null := by
    rintro rfl
    rw [Pointer.null, h.nullDead] at live
    cases live
  simp only [resize, grants _ _, if_true]
  split
  · exact ⟨by simp [obtain, Pointer.null], rfl, by simp [obtain], grants⟩
  · exact ⟨notNull, start, by simp [stretch, live], grants⟩

@[simp] theorem release_fresh (h : Heap) (p : Pointer) : (h.release p).fresh = h.fresh := rfl

@[simp] theorem release_grants (h : Heap) (p : Pointer) : (h.release p).grants = h.grants := rfl

theorem release_extent (h : Heap) (p : Pointer) (b : Block) :
    (h.release p).extent b = if b = p.block then none else h.extent b := by
  simp [release, Function.update_apply]

end Heap
end MicroRos.Memory
