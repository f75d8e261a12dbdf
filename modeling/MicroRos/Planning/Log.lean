import MicroRos.Planning.Traversal

/-! What the actions on one header record.

`Logs P` relates two states of a run when the second has only added events with the
property `P`; it is preserved by the recursion as soon as the events of one header have
the property.
-/

set_option autoImplicit false

namespace MicroRos

open Memory (Pointer)

variable {target : Target}

namespace Core

theorem since_of_log {before after : Core} {events : List Event} (log : after.log = before.log ++ events) :
    before.since after = events := by simp [since, log]

/-- The log was extended, by events that satisfy `P`. -/
def Logs (P : Event → Prop) (before after : Core) : Prop :=
  ∃ events, after.log = before.log ++ events ∧ ∀ event ∈ events, P event

namespace Logs

variable {P : Event → Prop}

theorem refl (w : Core) : Logs P w w := ⟨[], by simp, by simp⟩

theorem trans {first second third : Core} (one : Logs P first second) (two : Logs P second third) :
    Logs P first third := by
  obtain ⟨events, log, good⟩ := one
  obtain ⟨later, laterLog, laterGood⟩ := two
  refine ⟨events ++ later, by rw [laterLog, log, List.append_assoc], fun event member => ?_⟩
  rcases List.mem_append.mp member with member | member
  · exact good event member
  · exact laterGood event member

theorem of_log_eq {before after : Core} (same : after.log = before.log) : Logs P before after :=
  ⟨[], by simp [same], by simp⟩

theorem mono {Q : Event → Prop} {before after : Core} (logs : Logs P before after)
    (weaker : ∀ event, P event → Q event) : Logs Q before after := by
  obtain ⟨events, log, good⟩ := logs
  exact ⟨events, log, fun event member => weaker event (good event member)⟩

theorem and {Q : Event → Prop} {before after : Core} (logs : Logs P before after)
    (others : Logs Q before after) : Logs (fun event => P event ∧ Q event) before after := by
  obtain ⟨events, log, good⟩ := logs
  obtain ⟨events', log', good'⟩ := others
  obtain rfl : events' = events := List.append_cancel_left (log'.symm.trans log)
  exact ⟨events', log, fun event member => ⟨good event member, good' event member⟩⟩

/-- Fields other than the log do not matter. -/
theorem congr {before after after' : Core} (logs : Logs P before after)
    (same : after'.log = after.log) : Logs P before after' := logs.trans (of_log_eq same)

theorem record {event : Event} (holds : P event) (w : Core) : Logs P w (w.record event) :=
  ⟨[event], rfl, by simpa using holds⟩

theorem resolved {site : Site} {capacity : Nat} (holds : P (.resolved site capacity)) (w : Core) :
    Logs P w (w.record (.resolved site capacity)) := record holds w

theorem touch (invalid : ∀ p n, P (.invalid p n)) (p : Pointer) (n : Nat) (w : Core) :
    Logs P w (w.touch p n) := by
  unfold Core.touch
  split
  · exact refl w
  · exact record (invalid p n) w

theorem storePointer (target : Target) (invalid : ∀ p n, P (.invalid p n)) (p v : Pointer) (w : Core) :
    Logs P w (w.storePointer target p v) := (touch invalid p target.word w).congr rfl

theorem fillZero (invalid : ∀ p n, P (.invalid p n)) (p : Pointer) (n : Nat) (w : Core) :
    Logs P w (w.fillZero p n) := (touch invalid p n w).congr rfl

theorem storeSize (target : Target) (invalid : ∀ p n, P (.invalid p n)) (p : Pointer) (n : Nat) (w : Core) :
    Logs P w (w.storeSize target p n) := (touch invalid p target.word w).congr rfl

theorem storeCounts (target : Target) (invalid : ∀ p n, P (.invalid p n)) (header : Pointer)
    (capacity : Nat) (w : Core) : Logs P w (w.storeCounts target header capacity) :=
  (storeSize target invalid _ _ w).trans (storeSize target invalid _ _ _)

theorem allocate (requested : ∀ n p, P (.requested n p)) (owner size : Nat) (w : Core) :
    Logs P w (w.allocate owner size).2 := record (requested _ _) _

theorem getStaticMemory (target : Target) (handed : ∀ p n, P (.handed p n)) (size : Nat) (w : Core) :
    Logs P w (w.getStaticMemory target size).2 := by
  unfold Core.getStaticMemory
  split
  · exact of_log_eq rfl
  · exact record (handed _ _) _

theorem deallocate (released : ∀ p, P (.released p)) (badRelease : ∀ p, P (.badRelease p))
    (owner : Nat) (p : Pointer) (w : Core) : Logs P w (w.deallocate owner p) := by
  have checked : Logs P w (w.checkRelease owner p) := by
    unfold checkRelease
    split
    · exact refl w
    · exact record (badRelease p) w
  exact checked.trans ((record (released p) _).congr rfl)

theorem setUpHeader (invalid : ∀ p n, P (.invalid p n)) (requested : ∀ n p, P (.requested n p))
    (handed : ∀ p n, P (.handed p n)) {site : Site} {header : Pointer} {capacity : Nat}
    (stored : ∀ data bytes, P (.stored site header data bytes capacity))
    (refused : P (.refused site header)) (owner : Nat) (operation : Operation)
    (memberSize : Nat) (w : Core) :
    Logs P w (w.setUpHeader target owner operation site header capacity memberSize).2 := by
  cases operation with
  | create =>
    simp only [Core.setUpHeader]
    have pointed := (allocate requested owner (target.mul capacity memberSize) w).trans
      (storePointer target invalid header (w.allocate owner (target.mul capacity memberSize)).1 _)
    split
    · exact pointed.trans (record refused _)
    · exact pointed.trans ((fillZero invalid _ _ _).trans
        ((storeCounts target invalid header capacity _).trans (record (stored _ _) _)))
  | createPreallocated =>
    simp only [Core.setUpHeader]
    have pointed := (getStaticMemory target handed (target.mul capacity memberSize) w).trans
      (storePointer target invalid header (w.getStaticMemory target (target.mul capacity memberSize)).1 _)
    split
    · exact pointed.trans (record refused _)
    · exact pointed.trans ((storeCounts target invalid header capacity _).trans (record (stored _ _) _))
  | destroy => exact refl w
  | calculateSize => exact refl w
  | calculateSizePreallocated => exact getStaticMemory target handed _ w

theorem planHeader (conf : MemoryConf target) (operation : Operation)
    (invalid : ∀ p n, P (.invalid p n)) (requested : ∀ n p, P (.requested n p))
    (handed : ∀ p n, P (.handed p n)) {site : Site} {header : Pointer} {capacity : Nat}
    (resolved : P (.resolved site capacity))
    (stored : ∀ data bytes, P (.stored site header data bytes capacity))
    (refused : P (.refused site header)) (memberSize : Nat) (w : Core) :
    Logs P w (w.planHeader conf operation site header capacity memberSize).2 :=
  (record resolved w).trans
    (setUpHeader invalid requested handed stored refused conf.owner operation memberSize _)

theorem tearDownHeader (invalid : ∀ p n, P (.invalid p n)) (released : ∀ p, P (.released p))
    (badRelease : ∀ p, P (.badRelease p)) {site : Site} {header : Pointer}
    (cleared : P (.cleared site header)) (owner : Nat) (operation : Operation) (w : Core) :
    Logs P w (w.tearDownHeader target owner operation site header) := by
  cases operation with
  | destroy =>
    exact (touch invalid header target.word w).trans ((deallocate released badRelease _ _ _).trans
      ((storeCounts target invalid header 0 _).trans (record cleared _)))
  | create | createPreallocated | calculateSize | calculateSizePreallocated => exact refl w

theorem elementData (invalid : ∀ p n, P (.invalid p n)) (operation : Operation) (header : Pointer)
    (w : Core) : Logs P w (w.elementData target operation header).2 := by
  unfold Core.elementData
  split
  · exact refl w
  · exact touch invalid header target.word w

/-- The events since the first state are those that were added. -/
theorem since {before after : Core} (logs : Logs P before after) :
    ∀ event ∈ before.since after, P event := by
  obtain ⟨events, log, good⟩ := logs
  rwa [since_of_log log]

end Logs
end Core
end MicroRos
