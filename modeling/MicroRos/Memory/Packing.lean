import Mathlib.Data.Nat.ModEq
import Mathlib.Data.List.Forall2
import Mathlib.Order.Monotone.Basic

/-! Blocks handed out one after the other from a buffer, each at an aligned offset.

`packed` is the index behind the last block and `regions` are the offset and the size
of every block. Nothing is assumed of the sizes; a block may be empty.
-/

set_option autoImplicit false

namespace MicroRos.Memory.Packing

/-- The least multiple of `a` that is not below `n`. -/
def alignUp (a n : Nat) : Nat := n + (a - n % a) % a

theorem le_alignUp (a n : Nat) : n ≤ alignUp a n := Nat.le_add_right _ _

theorem alignUp_lt {a : Nat} (positive : 0 < a) (n : Nat) : alignUp a n < n + a :=
  Nat.add_lt_add_left (Nat.mod_lt _ positive) n

theorem alignUp_mod {a : Nat} (positive : 0 < a) (n : Nat) : alignUp a n % a = 0 := by
  have below : n % a < a := Nat.mod_lt n positive
  have split := Nat.div_add_mod n a
  rw [alignUp, Nat.add_mod, Nat.mod_mod, ← Nat.add_mod,
    show n + (a - n % a) = a * (n / a) + a by omega]
  simp

theorem alignUp_of_mod {a n : Nat} (aligned : n % a = 0) : alignUp a n = n := by
  simp [alignUp, aligned]

/-- One byte further, as long as the index is not aligned, the target is the same. -/
theorem alignUp_succ {a n : Nat} (positive : 0 < a) (unaligned : n % a ≠ 0) :
    alignUp a (n + 1) = alignUp a n := by
  have below : n % a < a := Nat.mod_lt n positive
  have here : alignUp a n = n + (a - n % a) := by
    rw [alignUp, Nat.mod_eq_of_lt (by omega)]
  rcases Nat.lt_or_ge (n % a + 1) a with inside | boundary
  · have next : (n + 1) % a = n % a + 1 := by
      rw [Nat.add_mod, Nat.mod_eq_of_lt (by omega : 1 < a), Nat.mod_eq_of_lt inside]
    rw [here, alignUp, next, Nat.mod_eq_of_lt (by omega)]
    omega
  · have next : (n + 1) % a = 0 := by
      have := Nat.div_add_mod n a
      rw [show n + 1 = a * (n / a) + a by omega]
      simp
    rw [here, alignUp_of_mod next]
    omega

theorem alignUp_mono {a : Nat} (positive : 0 < a) : Monotone (alignUp a) := by
  apply monotone_nat_of_le_succ
  intro n
  by_cases aligned : n % a = 0
  · have upper := le_alignUp a (n + 1)
    rw [alignUp_of_mod aligned]
    omega
  · rw [alignUp_succ positive aligned]

/-- The index behind blocks of these sizes, starting from `index`. -/
def packed (a : Nat) : Nat → List Nat → Nat
  | index, [] => index
  | index, size :: sizes => packed a (alignUp a index + size) sizes

/-- Offset and size of each block. -/
def regions (a : Nat) : Nat → List Nat → List (Nat × Nat)
  | _, [] => []
  | index, size :: sizes => (alignUp a index, size) :: regions a (alignUp a index + size) sizes

variable {a : Nat}

theorem packed_append (index : Nat) (sizes later : List Nat) :
    packed a index (sizes ++ later) = packed a (packed a index sizes) later := by
  induction sizes generalizing index with
  | nil => rfl
  | cons size sizes ih => exact ih _

theorem le_packed (index : Nat) (sizes : List Nat) : index ≤ packed a index sizes := by
  induction sizes generalizing index with
  | nil => exact Nat.le_refl _
  | cons size sizes ih =>
    have := le_alignUp a index
    have := ih (alignUp a index + size)
    simp only [packed]
    omega

/-- Packing takes at least the bytes that were asked for. -/
theorem sum_le_packed (index : Nat) (sizes : List Nat) : index + sizes.sum ≤ packed a index sizes := by
  induction sizes generalizing index with
  | nil => simp [packed]
  | cons size sizes ih =>
    have := le_alignUp a index
    have := ih (alignUp a index + size)
    simp only [packed, List.sum_cons]
    omega

/-- Before each block but the first at most `a - 1` bytes are left out. -/
theorem packed_cons_le (positive : 0 < a) (index size : Nat) (sizes : List Nat) :
    packed a index (size :: sizes) ≤
      alignUp a index + (size :: sizes).sum + (a - 1) * sizes.length := by
  induction sizes generalizing index size with
  | nil => simp [packed]
  | cons next sizes ih =>
    have gap := alignUp_lt positive (alignUp a index + size)
    have rest := ih (alignUp a index + size) next
    simp only [packed, List.sum_cons, List.length_cons, Nat.mul_succ] at rest ⊢
    omega

/-- Sizes that are multiples of the alignment leave no gap. -/
theorem packed_of_aligned {index : Nat} (aligned : index % a = 0) {sizes : List Nat}
    (multiples : ∀ size ∈ sizes, size % a = 0) : packed a index sizes = index + sizes.sum := by
  induction sizes generalizing index with
  | nil => rfl
  | cons size sizes ih =>
    have next : (index + size) % a = 0 := by
      rw [Nat.add_mod, aligned, multiples size List.mem_cons_self]
      exact Nat.zero_mod a
    rw [packed, alignUp_of_mod aligned, ih next fun n member => multiples n (List.mem_cons_of_mem _ member),
      List.sum_cons, Nat.add_assoc]

/-- More blocks, or larger ones, or a later start, do not end earlier. -/
theorem packed_mono (positive : 0 < a) {sizes larger : List Nat}
    (below : List.SublistForall₂ (· ≤ ·) sizes larger) {index later : Nat} (le : index ≤ later) :
    packed a index sizes ≤ packed a later larger := by
  induction below generalizing index later with
  | nil => exact Nat.le_trans le (le_packed later _)
  | cons sizeLe _ ih => exact ih (Nat.add_le_add (alignUp_mono positive le) sizeLe)
  | cons_right _ ih =>
    apply ih
    exact Nat.le_trans le (Nat.le_trans (le_alignUp a later) (Nat.le_add_right _ _))

section Below

variable {α : Type} {sizes sizes' larger larger' : List Nat}

theorem below_append (first : List.SublistForall₂ (· ≤ ·) sizes larger)
    (second : List.SublistForall₂ (· ≤ ·) sizes' larger') :
    List.SublistForall₂ (· ≤ ·) (sizes ++ sizes') (larger ++ larger') := by
  rw [List.sublistForall₂_iff] at first second ⊢
  obtain ⟨kept, le, sub⟩ := first
  obtain ⟨kept', le', sub'⟩ := second
  exact ⟨kept ++ kept', List.rel_append le le', sub.append sub'⟩

theorem below_flatMap {f f' : α → List Nat} (each : ∀ x, List.SublistForall₂ (· ≤ ·) (f x) (f' x))
    {xs xs' : List α} (sub : xs.Sublist xs') :
    List.SublistForall₂ (· ≤ ·) (xs.flatMap f) (xs'.flatMap f') := by
  induction sub with
  | slnil => exact .nil
  | cons x _ ih => exact below_append (.nil : List.SublistForall₂ (· ≤ ·) [] (f' x)) ih
  | cons_cons x _ ih => exact below_append (each x) ih

end Below

theorem alignUp_add {m : Nat} (aligned : m % a = 0) (n : Nat) : alignUp a (m + n) = m + alignUp a n := by
  have residue : (m + n) % a = n % a := by
    rw [Nat.add_mod, aligned, Nat.zero_add, Nat.mod_mod]
  rw [alignUp, alignUp, residue, Nat.add_assoc]

/-- Where the next block begins: behind the earlier ones, each rounded up. -/
theorem alignUp_packed (positive : 0 < a) (index : Nat) (sizes : List Nat) :
    alignUp a (packed a index sizes) = alignUp a index + (sizes.map (alignUp a)).sum := by
  induction sizes generalizing index with
  | nil => rfl
  | cons size sizes ih =>
    rw [packed, ih, alignUp_add (alignUp_mod positive index), List.map_cons, List.sum_cons, Nat.add_assoc]

/-- What packing promises of the regions between an index and the index behind them. -/
structure Tight (a index : Nat) (regions : List (Nat × Nat)) (total : Nat) : Prop where
  aligned : ∀ region ∈ regions, region.1 % a = 0
  inside : ∀ region ∈ regions, index ≤ region.1 ∧ region.1 + region.2 ≤ total
  disjoint : regions.Pairwise fun earlier later => earlier.1 + earlier.2 ≤ later.1
  first : ∀ region ∈ regions.head?, region.1 < index + a
  next : ∀ i (bound : i + 1 < regions.length), regions[i + 1].1 < regions[i].1 + regions[i].2 + a
  last : (regions.getLast?.elim index fun region => region.1 + region.2) = total

theorem tight_regions (positive : 0 < a) (index : Nat) (sizes : List Nat) :
    Tight a index (regions a index sizes) (packed a index sizes) := by
  induction sizes generalizing index with
  | nil => constructor <;> simp [regions, packed]
  | cons size sizes ih =>
    obtain ⟨aligned, inside, disjoint, first, next, last⟩ := ih (alignUp a index + size)
    have lower := le_alignUp a index
    have upper := le_packed (a := a) (alignUp a index + size) sizes
    refine ⟨?_, ?_, ?_, ?_, ?_, ?_⟩
    · simpa [regions, alignUp_mod positive] using aligned
    · simp only [regions, packed, List.mem_cons]
      rintro region (rfl | later)
      · exact ⟨lower, upper⟩
      · have := inside region later
        omega
    · exact List.Pairwise.cons (fun region later => (inside region later).1) disjoint
    · simpa [regions] using alignUp_lt positive index
    · intro i bound
      cases i with
      | zero =>
        simp only [regions, List.getElem_cons_succ, List.getElem_cons_zero]
        refine first _ ?_
        simp [List.head?_eq_getElem?]
      | succ i => exact next i (by simpa [regions] using bound)
    · simp only [regions, packed, List.getLast?_cons]
      rw [← last]
      cases (regions a (alignUp a index + size) sizes).getLast? <;> rfl

end MicroRos.Memory.Packing
