import MicroRos.Planning.Capacities
import Mathlib.Tactic.IntervalCases

/-! Natural alignment of the regions in the static buffer.

Every region begins at a multiple of four. What is left to ask is whether a region whose
elements take eight bytes begins at a multiple of eight, and that depends on the sizes of
the regions before it.
-/

set_option autoImplicit false

namespace MicroRos

open Memory (Pointer Block)
open Memory.Packing (alignUp packed)

variable {target : Target}

/-- Largest entry of `basic_types_size` for the basic members; if `deep`, also for those of the
types that are nested in this one. -/
def MemberList.largestElement (deep : Bool) : MemberList → Nat
  | .nil => 1
  | .basic type _ rest => max type.plannedSize (rest.largestElement deep)
  | .message _ members _ rest =>
    max (if deep then members.largestElement deep else 1) (rest.largestElement deep)

/-- What the address of a region for this member should be a multiple of. -/
def Member.alignment (deep : Bool) : Member → Nat
  | .basic type _ => type.plannedSize
  | .message type _ => type.members.largestElement deep

/-- The same for a header that counts for several members. -/
def MemberList.alignmentAt (target : Target) (root : MemberList) (deep : Bool) (marks : List (Nat × Option Nat))
    (index : Nat) : Nat :=
  ((root.membersFor target marks index).getD []).foldr (fun member least => max (member.alignment deep) least) 1

/-- An address, when each object begins where `place` says. -/
def Memory.Pointer.address (place : Block → Nat) (p : Pointer) : Nat := place p.block + p.offset

/-- The region of a header that was set up is aligned for the elements. -/
def Event.Aligned (target : Target) (root : MemberList) (deep : Bool) (place : Block → Nat) : Event → Prop
  | .stored site _ data _ _ =>
    data.address place % root.alignmentAt target deep (site.stack.map Step.mark) site.member = 0
  | _ => True

def Visit.alignment (target : Target) (root : MemberList) (deep : Bool) (visit : Visit) : Nat :=
  root.alignmentAt target deep visit.stack visit.member

/-- Before every header whose elements take eight bytes, the sizes of the regions add up to a multiple of
eight when each is rounded up to a multiple of four. -/
def EvenlyPreceded (target : Target) (root : MemberList) (deep : Bool) (visits : List Visit) : Prop :=
  ∀ earlier visit later, visits = earlier ++ visit :: later → visit.alignment target root deep = 8 →
    ((earlier.map Visit.bytes).map (alignUp Core.alignment)).sum % 8 = 0

section Sizes

theorem BasicType.plannedSize_dvd (type : BasicType) : type.plannedSize ∣ 8 := by
  cases type <;> decide

theorem max_dvd {m n k : Nat} (left : m ∣ k) (right : n ∣ k) : max m n ∣ k := by
  rcases max_choice m n with same | same
  · rwa [same]
  · rwa [same]

theorem MemberList.largestElement_dvd (deep : Bool) (list : MemberList) : list.largestElement deep ∣ 8 := by
  induction list with
  | nil => exact one_dvd 8
  | basic type field rest ih => exact max_dvd type.plannedSize_dvd ih
  | message info members field rest ihMembers ih =>
    apply max_dvd _ ih
    split
    · exact ihMembers
    · exact one_dvd 8

theorem Member.alignment_dvd (deep : Bool) (member : Member) : member.alignment deep ∣ 8 := by
  cases member with
  | basic type _ => exact type.plannedSize_dvd
  | message type _ => exact type.members.largestElement_dvd deep

theorem MemberList.alignmentAt_dvd (root : MemberList) (deep : Bool) (marks : List (Nat × Option Nat))
    (index : Nat) : root.alignmentAt target deep marks index ∣ 8 := by
  unfold alignmentAt
  induction (root.membersFor target marks index).getD [] with
  | nil => exact one_dvd 8
  | cons member members ih => exact max_dvd (member.alignment_dvd deep) ih

/-- A multiple of four is aligned for everything but eight bytes. -/
theorem mod_eq_zero_iff_of_dvd {a offset : Nat} (divides : a ∣ 8) (even : offset % 4 = 0) :
    offset % a = 0 ↔ (a = 8 → offset % 8 = 0) := by
  have bound := Nat.le_of_dvd (by decide) divides
  interval_cases a <;> omega

end Sizes

section Regions

variable {root : MemberList} {deep : Bool} {place : Block → Nat} {buffer : Pointer}

/-- An aligned buffer leaves the question to the index, also to one that wrapped. -/
theorem HandedTo.aligned_iff {visit : Visit} {offset : Nat} {event : Event}
    (handed : HandedTo target buffer (visit, offset) event) (start : buffer.address place % 8 = 0) :
    event.Aligned target root deep place ↔ offset % visit.alignment target root deep = 0 := by
  cases event with
  | stored site header data bytes capacity =>
    obtain ⟨sameStack, sameMember, -, -, rfl⟩ := handed
    have here : root.alignmentAt target deep (site.stack.map Step.mark) site.member =
        visit.alignment target root deep := by
      rw [sameStack, sameMember, Visit.alignment]
    have divides : visit.alignment target root deep ∣ 8 := root.alignmentAt_dvd deep _ _
    have aligned : visit.alignment target root deep ∣ buffer.address place :=
      divides.trans (Nat.dvd_of_mod_eq_zero start)
    have moved : (buffer.plus (offset % target.modulus)).address place =
        buffer.address place + offset % target.modulus := (Nat.add_assoc _ _ _).symm
    rw [Event.Aligned, here, moved, ← Nat.dvd_iff_mod_eq_zero, ← Nat.dvd_iff_mod_eq_zero,
      Nat.dvd_add_right aligned, Nat.dvd_mod_iff (divides.trans target.eight_dvd_modulus)]
  | _ => exact handed.elim

theorem mem_placements {start : Nat} {visits : List Visit} {visit : Visit} {offset : Nat} :
    (visit, offset) ∈ placements start visits ↔ ∃ earlier later, visits = earlier ++ visit :: later ∧
      offset = alignUp Core.alignment (packed Core.alignment start (earlier.map Visit.bytes)) := by
  induction visits generalizing start with
  | nil => simp [placements]
  | cons first visits ih =>
    simp only [placements, List.mem_cons, Prod.mk.injEq, ih]
    constructor
    · rintro (⟨rfl, rfl⟩ | ⟨earlier, later, rfl, rfl⟩)
      · exact ⟨[], visits, rfl, rfl⟩
      · exact ⟨first :: earlier, later, rfl, rfl⟩
    · rintro ⟨_ | ⟨other, earlier⟩, later, same, rfl⟩
      · obtain ⟨rfl, rfl⟩ := List.cons.inj same
        exact Or.inl ⟨rfl, rfl⟩
      · obtain ⟨rfl, rfl⟩ := List.cons.inj same
        exact Or.inr ⟨earlier, later, rfl, rfl⟩

theorem placements_aligned_iff (visits : List Visit) :
    (∀ place ∈ placements 0 visits, place.2 % place.1.alignment target root deep = 0) ↔
      EvenlyPreceded target root deep visits := by
  have positive : 0 < Core.alignment := by decide
  -- Where a region begins is the sum of the rounded sizes before it.
  have each (earlier : List Visit) (visit : Visit) :
      alignUp Core.alignment (packed Core.alignment 0 (earlier.map Visit.bytes)) %
          visit.alignment target root deep = 0 ↔
        (visit.alignment target root deep = 8 →
          ((earlier.map Visit.bytes).map (alignUp Core.alignment)).sum % 8 = 0) := by
    have begins := Memory.Packing.alignUp_packed positive 0 (earlier.map Visit.bytes)
    rw [show alignUp Core.alignment 0 = 0 by rfl, Nat.zero_add] at begins
    rw [← begins]
    exact mod_eq_zero_iff_of_dvd (root.alignmentAt_dvd deep _ _) (Memory.Packing.alignUp_mod positive _)
  constructor
  · intro aligned earlier visit later same
    apply (each earlier visit).mp
    exact aligned (visit, _) (mem_placements.mpr ⟨earlier, later, same, rfl⟩)
  · rintro preceded ⟨visit, offset⟩ member
    obtain ⟨earlier, later, same, rfl⟩ := mem_placements.mp member
    exact (each earlier visit).mpr (preceded earlier visit later same)

theorem forall_aligned_iff {places : List (Visit × Nat)} {stored : List Event}
    (handed : List.Forall₂ (HandedTo target buffer) places stored) (start : buffer.address place % 8 = 0) :
    (∀ event ∈ stored, event.Aligned target root deep place) ↔
      ∀ place ∈ places, place.2 % place.1.alignment target root deep = 0 := by
  induction handed with
  | nil => simp
  | cons here _ ih =>
    rw [List.forall_mem_cons, List.forall_mem_cons, ih]
    exact and_congr (here.aligned_iff start) Iff.rfl

/-- Only headers that were set up have a region. -/
theorem forall_stored_aligned_iff (events : List Event) :
    (∀ event ∈ events.filter Event.isStored, event.Aligned target root deep place) ↔
      ∀ event ∈ events, event.Aligned target root deep place := by
  constructor
  · intro aligned event member
    cases isStored : event.isStored with
    | true => exact aligned event (List.mem_filter.mpr ⟨member, isStored⟩)
    | false => cases event <;> trivial
  · intro aligned event member
    exact aligned event (List.mem_filter.mp member).1

end Regions

theorem Core.createStatic_aligned_iff {conf : MemoryConf target} {type : MessageMembers}
    {msg buffer : Pointer} {bufferLen : Nat} {w : Core} {place : Block → Nat}
    (start : buffer.address place % 8 = 0)
    (success : (w.createStatic conf type msg buffer bufferLen).1 = true) (deep : Bool) :
    (∀ event ∈ w.since (w.createStatic conf type msg buffer bufferLen).2,
        event.Aligned target type.members deep place) ↔
      buffer = .null ∨ EvenlyPreceded target type.members deep (plannedVisits false conf type) := by
  by_cases isNull : buffer = .null
  · -- The first header is refused, and nothing is handed out.
    subst isNull
    have quiet := (createStatic_null conf type msg bufferLen w).1.since
    refine ⟨fun _ => Or.inl rfl, fun _ event member => ?_⟩
    have silent := quiet event member
    cases event with
    | stored => exact silent.elim
    | _ => trivial
  · have whole := createStatic_wrapped conf type msg isNull bufferLen w
    split at whole
    next long =>
      rw [← forall_stored_aligned_iff, forall_aligned_iff whole.2 start, placements_aligned_iff]
      simp [isNull]
    next short =>
      rw [whole.1] at success
      cases success

/-- Strings of eight bytes in place of twenty. -/
def shortStrings : MemoryConf cortexM := { boardDefault with maxStringCapacity := ⟨8, by decide⟩ }

end MicroRos
