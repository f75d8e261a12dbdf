import MicroRos.Memory.Contents
import Mathlib.Data.Set.Lattice
import Mathlib.Order.CompletePartialOrder

/-! Building structures in memory that is taken piece by piece from what is free.

An arena is a memory together with the addresses that are still free to be handed out. A
construction writes at given places (`heads`) and in what it takes from the room, and keeps
everything else. What it has built holds of every later memory that still agrees with it
there, so that results about parts can be put together.
-/

set_option autoImplicit false

namespace MicroRos.Memory

structure Arena where
  memory : Contents
  extent : Block → Option Nat
  room : Set Pointer

namespace Arena

/-- Objects keep their lengths. -/
def Persists (e e' : Block → Option Nat) : Prop := ∀ b n, e b = some n → e' b = some n

theorem Persists.trans {e e' e'' : Block → Option Nat} (one : Persists e e') (two : Persists e' e'') :
    Persists e e'' := fun b n live => two b n (one b n live)

/-- Writes go to `heads` and to what is taken from the room. -/
structure Takes (heads : Set Pointer) (a b : Arena) : Prop where
  shrink : b.room ⊆ a.room
  kept : ∀ q ∉ heads, (q ∈ a.room → q ∈ b.room) → b.memory q = a.memory q
  live : Persists a.extent b.extent

/-- What was built holds as long as the places that were written stay as they are. -/
structure Builds (heads : Set Pointer) (P : Contents → (Block → Option Nat) → Prop) (a b : Arena) :
    Prop extends Takes heads a b where
  built : ∀ m e, (∀ q ∈ heads, m q = b.memory q) →
    (∀ q ∈ a.room, q ∉ b.room → m q = b.memory q) → Persists b.extent e → P m e

variable {heads others inner : Set Pointer} {P Q : Contents → (Block → Option Nat) → Prop}
  {a b c : Arena}

theorem Takes.refl (heads : Set Pointer) (a : Arena) : Takes heads a a :=
  ⟨subset_rfl, fun _ _ _ => rfl, fun _ _ live => live⟩

theorem Builds.refl (heads : Set Pointer) (a : Arena) : Builds heads (fun _ _ => True) a a :=
  ⟨Takes.refl heads a, fun _ _ _ _ _ => trivial⟩

theorem Builds.imp (builds : Builds heads P a b) (weaker : ∀ m e, P m e → Q m e) : Builds heads Q a b :=
  ⟨builds.toTakes, fun m e same taken live => weaker m e (builds.built m e same taken live)⟩

/-- Two constructions, one after the other. -/
theorem Takes.seq (one : Takes heads a b) (two : Takes others b c) : Takes (heads ∪ others) a c where
  shrink := two.shrink.trans one.shrink
  kept q outside room := by
    rw [two.kept q (fun inside => outside (Or.inr inside)) fun free => room (one.shrink free),
      one.kept q (fun inside => outside (Or.inl inside)) fun free => two.shrink (room free)]
  live := one.live.trans two.live

/-- What the first of two constructions built survives the second, when they write apart from each
other and outside of the room. The condition `apart` may be needed for part of the result only. -/
theorem Builds.seq {C : Prop} (one : Builds heads P a b) (two : Builds others Q b c)
    (apart : C → Disjoint heads others) (outside : Disjoint heads a.room)
    (outside' : Disjoint others a.room) :
    Builds (heads ∪ others) (fun m e => (C → P m e) ∧ Q m e) a c where
  toTakes := one.toTakes.seq two.toTakes
  built m e same taken live := by
    refine ⟨fun holds => one.built m e (fun q head => ?_) (fun q free used => ?_) (two.live.trans live),
      two.built m e (fun q head => same q (Or.inr head))
        (fun q free used => taken q (one.shrink free) used) live⟩
    · rw [same q (Or.inl head)]
      exact two.kept q (Set.disjoint_left.mp (apart holds) head) fun free =>
        absurd (one.shrink free) (Set.disjoint_left.mp outside head)
    · rw [taken q free fun still => used (two.shrink still)]
      exact two.kept q (fun head => Set.disjoint_left.mp outside' head free) fun still =>
        absurd still used

/-- A construction in what an earlier step has taken. -/
theorem Takes.nest (one : Takes heads a b) (two : Builds inner Q b c)
    (within : ∀ q ∈ inner, q ∈ a.room ∧ q ∉ b.room) (outside : Disjoint heads a.room) :
    Builds heads (fun m e => Q m e ∧ (∀ q ∈ heads, m q = b.memory q) ∧
      (∀ q ∈ a.room, q ∉ b.room → q ∉ inner → m q = b.memory q) ∧ Persists b.extent e) a c where
  shrink := two.shrink.trans one.shrink
  kept q notHead room := by
    have notInner : q ∉ inner := fun inside =>
      (within q inside).2 (two.shrink (room (within q inside).1))
    rw [two.kept q notInner fun free => room (one.shrink free),
      one.kept q notHead fun free => two.shrink (room free)]
  live := one.live.trans two.live
  built m e same taken live := by
    refine ⟨two.built m e (fun q inside => ?_) (fun q free used => taken q (one.shrink free) used) live,
      fun q head => ?_, fun q free used notInner => ?_, two.live.trans live⟩
    · obtain ⟨free, used⟩ := within q inside
      exact taken q free fun still => used (two.shrink still)
    · rw [same q head]
      exact two.kept q (fun inside => Set.disjoint_left.mp outside head (within q inside).1) fun free =>
        absurd (one.shrink free) (Set.disjoint_left.mp outside head)
    · rw [taken q free fun still => used (two.shrink still)]
      exact two.kept q notInner fun still => absurd still used

end Arena
end MicroRos.Memory
