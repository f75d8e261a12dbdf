import Mathlib.Data.Nat.Basic
import Mathlib.Data.List.Forall2
import Mathlib.Tactic.IntervalCases

/-! The clocks of the three transports.

All of them compute microseconds from the tick counter in 32-bit arithmetic and widen the
result afterwards. The UDP transport counts how often the result has become smaller and
adds a constant for each time.
-/

set_option autoImplicit false

namespace MicroRos

/-- `rt_tick_t`. -/
abbrev Tick := UInt32

/-- `struct timespec`; its fields are wide enough for what is stored in them. -/
structure Timespec where
  tvSec : Nat
  tvNsec : Nat
  deriving DecidableEq, Repr

namespace Timespec

def nanoseconds (time : Timespec) : Nat := time.tvSec * 1000000000 + time.tvNsec

def microseconds (time : Timespec) : Nat := time.tvSec * 1000000 + time.tvNsec / 1000

/-- The two assignments through `tp`. -/
def ofMicroseconds (us : UInt64) : Timespec := ⟨(us / 1000000).toNat, (us % 1000000 * 1000).toNat⟩

theorem ofMicroseconds_tvNsec (us : UInt64) :
    (ofMicroseconds us).tvNsec = us.toNat % 1000000 * 1000 := by
  have small : us.toNat % 1000000 * 1000 < 2 ^ 64 := by omega
  simpa [ofMicroseconds, UInt64.toNat_mul, UInt64.toNat_mod] using Nat.mod_eq_of_lt small

theorem ofMicroseconds_nanoseconds (us : UInt64) : (ofMicroseconds us).nanoseconds = us.toNat * 1000 := by
  rw [nanoseconds, ofMicroseconds_tvNsec]
  simp only [ofMicroseconds, UInt64.toNat_div, UInt64.reduceToNat]
  omega

theorem ofMicroseconds_microseconds (us : UInt64) : (ofMicroseconds us).microseconds = us.toNat := by
  rw [microseconds, ofMicroseconds_tvNsec]
  simp only [ofMicroseconds, UInt64.toNat_div, UInt64.reduceToNat]
  omega

end Timespec

/-- `rt_tick_get() * 1000 / RT_TICK_PER_SECOND * 1000`: all three operations are on `rt_tick_t`, and the
result is widened when it is assigned. -/
def clockMeasure (rate : UInt32) (tick : Tick) : UInt64 := (tick * 1000 / rate * 1000).toUInt64

theorem clockMeasure_toNat (rate : UInt32) (tick : Tick) : (clockMeasure rate tick).toNat =
    tick.toNat * 1000 % 2 ^ 32 / rate.toNat * 1000 % 2 ^ 32 := by
  simp [clockMeasure]

theorem clockMeasure_lt (rate : UInt32) (tick : Tick) : (clockMeasure rate tick).toNat < 2 ^ 32 := by
  rw [clockMeasure_toNat]
  exact Nat.mod_lt _ (by decide)

/-- The wraps of the 32-bit arithmetic keep divisibility by eight. -/
theorem eight_dvd_clockMeasure (rate : UInt32) (tick : Tick) : 8 ∣ (clockMeasure rate tick).toNat := by
  rw [clockMeasure_toNat]
  omega

/-- Before anything wraps the clocks are exact. -/
theorem clockMeasure_of_lt {rate : UInt32} {tick : Tick} (product : tick.toNat * 1000 < 2 ^ 32)
    (result : tick.toNat * 1000 / rate.toNat * 1000 < 2 ^ 32) :
    (clockMeasure rate tick).toNat = tick.toNat * 1000 / rate.toNat * 1000 := by
  rw [clockMeasure_toNat, Nat.mod_eq_of_lt product, Nat.mod_eq_of_lt result]

/-- `clock_gettime` of the serial transport. -/
def Serial.clockGettime (rate : UInt32) (tick : Tick) : Timespec := .ofMicroseconds (clockMeasure rate tick)

/-- `clock_gettime` of the TCP transport. -/
def Tcp.clockGettime (rate : UInt32) (tick : Tick) : Timespec := .ofMicroseconds (clockMeasure rate tick)

namespace Udp

def microRolloverUseconds : UInt64 := 4294967295

/-- The static variables of `clock_gettime`. -/
structure Clock where
  rollover : UInt32
  lastMeasure : UInt32
  deriving DecidableEq, Repr

def Clock.boot : Clock := ⟨0, 0⟩

/-- `clock_gettime` of the UDP transport. -/
def clockGettime (rate : UInt32) (tick : Tick) (clock : Clock) : Timespec × Clock :=
  let m := clockMeasure rate tick
  let rollover := clock.rollover + if m < clock.lastMeasure.toUInt64 then 1 else 0
  let realUs := m + rollover.toUInt64 * microRolloverUseconds
  (.ofMicroseconds realUs, ⟨rollover, m.toUInt32⟩)

/-- What a sequence of calls reports, for the answers of `rt_tick_get` to each. -/
def reports (rate : UInt32) : List Tick → Clock → List Timespec
  | [], _ => []
  | tick :: ticks, clock =>
    let call := clockGettime rate tick clock
    call.1 :: reports rate ticks call.2

/-- The number of calls that compute less than the call before. -/
def rollovers (rate : UInt32) : List Tick → Nat → Nat
  | [], _ => 0
  | tick :: ticks, last =>
    let m := (clockMeasure rate tick).toNat
    (if m < last then 1 else 0) + rollovers rate ticks m

/-- The time that a clock has reported last. -/
def Clock.reported (clock : Clock) : Nat := clock.lastMeasure.toNat + clock.rollover.toNat * 4294967295

/-- One call, as long as the number of rollovers fits. -/
theorem clockGettime_spec (rate : UInt32) (tick : Tick) {clock : Clock}
    (few : clock.rollover.toNat + 1 < 2 ^ 32) :
    let call := clockGettime rate tick clock
    call.2.lastMeasure.toNat = (clockMeasure rate tick).toNat ∧
      call.2.rollover.toNat = clock.rollover.toNat +
        (if (clockMeasure rate tick).toNat < clock.lastMeasure.toNat then 1 else 0) ∧
      call.1.nanoseconds = call.2.reported * 1000 ∧ call.1.microseconds = call.2.reported ∧
      call.1.tvNsec < 1000000000 := by
  intro call
  have bound := clockMeasure_lt rate tick
  have less : clockMeasure rate tick < clock.lastMeasure.toUInt64 ↔
      (clockMeasure rate tick).toNat < clock.lastMeasure.toNat := by
    rw [UInt64.lt_iff_toNat_lt, UInt32.toNat_toUInt64]
  have last : call.2.lastMeasure.toNat = (clockMeasure rate tick).toNat := by
    simp only [call, clockGettime, UInt64.toNat_toUInt32]
    omega
  have rollover : call.2.rollover.toNat = clock.rollover.toNat +
      (if (clockMeasure rate tick).toNat < clock.lastMeasure.toNat then 1 else 0) := by
    simp only [call, clockGettime, UInt32.toNat_add, less]
    split
    all_goals
      simp
      try omega
  have real : (clockMeasure rate tick + call.2.rollover.toUInt64 * microRolloverUseconds).toNat =
      call.2.reported := by
    have fits := call.2.rollover.toNat_lt
    simp only [UInt64.toNat_add, UInt64.toNat_mul, UInt32.toNat_toUInt64, microRolloverUseconds,
      UInt64.reduceToNat, Clock.reported, last]
    omega
  refine ⟨last, rollover, ?_, ?_, ?_⟩
  · rw [← real]
    exact Timespec.ofMicroseconds_nanoseconds _
  · rw [← real]
    exact Timespec.ofMicroseconds_microseconds _
  · have digits := Timespec.ofMicroseconds_tvNsec
      (clockMeasure rate tick + call.2.rollover.toUInt64 * microRolloverUseconds)
    change call.1.tvNsec = _ at digits
    omega

/-- Between two calls the reported time cannot fall: what the measure loses is less than the constant. -/
theorem reported_le (rate : UInt32) (tick : Tick) {clock : Clock} (few : clock.rollover.toNat + 1 < 2 ^ 32) :
    clock.reported ≤ (clockGettime rate tick clock).2.reported := by
  obtain ⟨last, rollover, -⟩ := clockGettime_spec rate tick few
  have before := clock.lastMeasure.toNat_lt
  simp only [Clock.reported, last, rollover]
  -- The constant of a rollover is 2^32 - 1, and no measure is larger.
  split <;> omega

/-- Later calls report no earlier time than was reported so far. -/
theorem reports_above {rate : UInt32} {ticks : List Tick} {clock : Clock}
    (few : clock.rollover.toNat + rollovers rate ticks clock.lastMeasure.toNat < 2 ^ 31) :
    (∀ report ∈ reports rate ticks clock, clock.reported * 1000 ≤ report.nanoseconds ∧
        report.tvNsec < 1000000000) ∧
      (reports rate ticks clock).Pairwise fun earlier later => earlier.nanoseconds ≤ later.nanoseconds := by
  -- The static variables determine what was reported last, so the bound can be handed from call to call.
  induction ticks generalizing clock with
  | nil => exact ⟨by simp [reports], List.Pairwise.nil⟩
  | cons tick ticks ih =>
    simp only [rollovers] at few
    have fewHere : clock.rollover.toNat + 1 < 2 ^ 32 := by omega
    obtain ⟨last, rollover, shown, -, digits⟩ := clockGettime_spec rate tick fewHere
    have grows := reported_le rate tick fewHere
    have fewLater : (clockGettime rate tick clock).2.rollover.toNat +
        rollovers rate ticks (clockGettime rate tick clock).2.lastMeasure.toNat < 2 ^ 31 := by
      rw [last, rollover]
      omega
    obtain ⟨above, sorted⟩ := ih fewLater
    simp only [reports, List.mem_cons, List.pairwise_cons]
    refine ⟨?_, fun later member => ?_, sorted⟩
    · rintro report (rfl | member)
      · rw [shown]
        exact ⟨Nat.mul_le_mul_right 1000 grows, digits⟩
      · obtain ⟨atLeast, small⟩ := above report member
        exact ⟨Nat.le_trans (Nat.mul_le_mul_right 1000 grows) atLeast, small⟩
    · rw [shown]
      exact (above later member).1

/-- The UDP clock does not go backwards, whatever ticks it is given. -/
theorem clock_monotone (rate : UInt32) (ticks : List Tick) (few : rollovers rate ticks 0 < 2 ^ 31) :
    ((reports rate ticks .boot).Pairwise fun earlier later => earlier.nanoseconds ≤ later.nanoseconds) ∧
      ∀ report ∈ reports rate ticks .boot, report.tvNsec < 1000000000 := by
  have few' : Clock.boot.rollover.toNat + rollovers rate ticks Clock.boot.lastMeasure.toNat < 2 ^ 31 := by
    simpa [Clock.boot] using few
  obtain ⟨above, sorted⟩ := reports_above few'
  exact ⟨sorted, fun report member => (above report member).2⟩

/-- A run past a rollover: at 1000 ticks per second the product wraps between these two ticks. -/
theorem clock_monotone_rollover :
    ((reports 1000 [4294967, 4294968] .boot).Pairwise fun earlier later =>
        earlier.nanoseconds ≤ later.nanoseconds) ∧
      ∀ report ∈ reports 1000 [4294967, 4294968] .boot, report.tvNsec < 1000000000 :=
  clock_monotone 1000 [4294967, 4294968] (by decide)

/-- The reports are the tick time, in whole milliseconds since boot. -/
def KeepsTickTime (rate : UInt32) (times : List Nat) (reports : List Timespec) : Prop :=
  List.Forall₂ (fun time report => report.microseconds = 1000 * (time * 1000 / rate.toNat)) times reports

/-- A report that is exact was made without counting a rollover: the constant is not divisible by
eight, and everything else is. -/
theorem exact_call {rate : UInt32} {time : Nat} {clock : Clock} (start : clock.rollover = 0)
    (isExact : (clockGettime rate (.ofNat time) clock).1.microseconds = 1000 * (time * 1000 / rate.toNat)) :
    1000 * (time * 1000 / rate.toNat) < 2 ^ 32 ∧
      (clockGettime rate (.ofNat time) clock).2.rollover = 0 ∧
      (clockGettime rate (.ofNat time) clock).2.lastMeasure.toNat = 1000 * (time * 1000 / rate.toNat) := by
  obtain ⟨last, rollover, -, shown, -⟩ := clockGettime_spec rate (.ofNat time)
    (by simp [start] : clock.rollover.toNat + 1 < 2 ^ 32)
  have bound := clockMeasure_lt rate (.ofNat time)
  have eighth := eight_dvd_clockMeasure rate (.ofNat time)
  rw [shown, Clock.reported, last, rollover, start] at isExact
  have none : ¬ (clockMeasure rate (.ofNat time)).toNat < clock.lastMeasure.toNat := by
    intro less
    simp only [if_pos less, UInt32.reduceToNat] at isExact
    omega
  simp only [if_neg none, start, UInt32.reduceToNat] at isExact rollover
  refine ⟨by omega, UInt32.toNat_inj.mp (by simpa using rollover), by omega⟩

/-- Before the first wrap a call is exact. -/
theorem call_exact {rate : UInt32} (divides : rate.toNat ∣ 1000) {time : Nat} {clock : Clock}
    (start : clock.rollover = 0) (small : 1000 * (time * 1000 / rate.toNat) < 2 ^ 32)
    (reached : clock.lastMeasure.toNat ≤ 1000 * (time * 1000 / rate.toNat)) :
    (clockGettime rate (.ofNat time) clock).1.microseconds = 1000 * (time * 1000 / rate.toNat) := by
  obtain ⟨period, whole⟩ := divides
  have positive : 0 < rate.toNat := Nat.pos_of_ne_zero (by rintro zero; simp [zero] at whole)
  have ticks : time * 1000 / rate.toNat = time * period := by
    rw [whole, Nat.mul_left_comm, Nat.mul_div_cancel_left _ positive]
  have longer : 1 ≤ period := Nat.pos_of_ne_zero (by rintro rfl; simp at whole)
  have less : time * 1 ≤ time * period := Nat.mul_le_mul_left time longer
  have word : (UInt32.ofNat time).toNat = time := by
    rw [UInt32.toNat_ofNat']
    exact Nat.mod_eq_of_lt (by omega)
  have measured : (clockMeasure rate (.ofNat time)).toNat = 1000 * (time * 1000 / rate.toNat) := by
    rw [clockMeasure_of_lt (by rw [word]; omega) (by rw [word]; omega), word, Nat.mul_comm]
  obtain ⟨last, rollover, -, shown, -⟩ := clockGettime_spec rate (.ofNat time)
    (by simp [start] : clock.rollover.toNat + 1 < 2 ^ 32)
  rw [shown, Clock.reported, last, rollover, if_neg (by omega), start, measured]
  simp

theorem keepsTickTime_iff {rate : UInt32} (divides : rate.toNat ∣ 1000) {times : List Nat}
    (forward : times.Pairwise (· ≤ ·)) {clock : Clock} (start : clock.rollover = 0)
    (reached : ∀ time ∈ times, clock.lastMeasure.toNat ≤ 1000 * (time * 1000 / rate.toNat)) :
    KeepsTickTime rate times (reports rate (times.map .ofNat) clock) ↔
      ∀ time ∈ times, 1000 * (time * 1000 / rate.toNat) < 2 ^ 32 := by
  induction times generalizing clock with
  | nil => simp [KeepsTickTime, reports]
  | cons time times ih =>
    obtain ⟨later, forward⟩ := List.pairwise_cons.mp forward
    -- Whichever side is known, the first call is exact and leaves its own time behind.
    have next : (clockGettime rate (.ofNat time) clock).1.microseconds = 1000 * (time * 1000 / rate.toNat) →
        (KeepsTickTime rate times (reports rate (times.map .ofNat) (clockGettime rate (.ofNat time) clock).2) ↔
          ∀ time ∈ times, 1000 * (time * 1000 / rate.toNat) < 2 ^ 32) := by
      intro isExact
      obtain ⟨-, rollover, last⟩ := exact_call start isExact
      refine ih forward rollover fun time' member => ?_
      rw [last]
      exact Nat.mul_le_mul_left 1000 (Nat.div_le_div_right (Nat.mul_le_mul_right 1000 (later time' member)))
    simp only [KeepsTickTime, List.map_cons, reports, List.forall₂_cons, List.forall_mem_cons] at next ⊢
    constructor
    · rintro ⟨isExact, rest⟩
      exact ⟨(exact_call start isExact).1, (next isExact).mp rest⟩
    · rintro ⟨small, rest⟩
      have isExact := call_exact divides start small (reached time List.mem_cons_self)
      exact ⟨isExact, (next isExact).mpr rest⟩

/-- The UDP clock reports the tick time in every call of a run if and only if the run ends before the
microseconds since boot reach 32 bits. -/
theorem clock_keeps_tick_time_iff (rate : UInt32) (divides : rate.toNat ∣ 1000) (times : List Nat)
    (forward : times.Pairwise (· ≤ ·)) :
    KeepsTickTime rate times (reports rate (times.map .ofNat) .boot) ↔
      ∀ time ∈ times, 1000 * (time * 1000 / rate.toNat) < 2 ^ 32 :=
  keepsTickTime_iff divides forward rfl fun _ _ => Nat.zero_le _

/-- The first rollover at 1000 ticks per second: one millisecond later the clock is a millisecond slow. -/
theorem clock_loses_tick_time :
    ¬ KeepsTickTime 1000 [4294967, 4294968] (reports 1000 [4294967, 4294968] .boot) := by
  intro keeps
  have divides : (1000 : UInt32).toNat ∣ 1000 := by decide
  have forward : [4294967, 4294968].Pairwise (· ≤ ·) := by decide
  have small := (keepsTickTime_iff divides forward rfl fun _ _ => Nat.zero_le _).mp keeps
  exact absurd (small 4294968 (by simp)) (by decide)

theorem clock_keeps_tick_time_first_hour :
    KeepsTickTime 1000 [0, 3600000] (reports 1000 [0, 3600000] .boot) ↔
      ∀ time ∈ [0, 3600000], 1000 * (time * 1000 / UInt32.toNat 1000) < 2 ^ 32 :=
  clock_keeps_tick_time_iff 1000 (by decide) [0, 3600000] (by decide)

end Udp

/-- The quotient of the largest product is no multiple of 2^29, so that the clock shows it. -/
theorem quotient_not_wrapped {rate : Nat} (positive : 0 < rate) (slow : rate ≤ 2 ^ 32 - 8) :
    ¬ (2 ^ 32 - 8) / rate * 1000 % 2 ^ 32 = 0 := by
  intro wrapped
  have lower := Nat.div_mul_le_self (2 ^ 32 - 8) rate
  have upper := Nat.lt_div_mul_add (a := 2 ^ 32 - 8) positive
  have atLeast : 1 ≤ (2 ^ 32 - 8) / rate := (Nat.one_le_div_iff positive).mpr slow
  generalize (2 ^ 32 - 8) / rate = quotient at wrapped lower upper atLeast
  -- 1000 is eight times an odd number, so the other factor of 2^32 is in the quotient.
  obtain ⟨k, rfl⟩ : ∃ k, quotient = 2 ^ 29 * k := ⟨quotient / 2 ^ 29, by omega⟩
  have few : k * rate ≤ 7 := by
    rw [Nat.mul_assoc] at lower
    omega
  have least : 1 ≤ k := by omega
  have rates : 1 * rate ≤ k * rate := Nat.mul_le_mul_right rate least
  rw [Nat.mul_assoc] at upper
  omega

/-- The two simple clocks go backwards within the range of the tick counter, unless the rate is so
high that they always report zero. -/
theorem clocks_monotone_iff (rate : UInt32) (positive : 0 < rate) :
    (∀ earlier later : Tick, earlier ≤ later →
      (Serial.clockGettime rate earlier).nanoseconds ≤ (Serial.clockGettime rate later).nanoseconds ∧
        (Tcp.clockGettime rate earlier).nanoseconds ≤ (Tcp.clockGettime rate later).nanoseconds) ↔
      2 ^ 32 - 8 < rate.toNat := by
  simp only [Serial.clockGettime, Tcp.clockGettime, Timespec.ofMicroseconds_nanoseconds, and_self]
  have nonzero : 0 < rate.toNat := by simpa [UInt32.lt_iff_toNat_lt] using positive
  constructor
  · intro monotone
    by_contra slow
    -- The product is as large as it can be at the first of these ticks, and zero at the second.
    have drop := monotone 420906795 536870912 (by decide)
    have first : UInt32.toNat 420906795 * 1000 % 2 ^ 32 = 2 ^ 32 - 8 := by decide
    have second : UInt32.toNat 536870912 * 1000 % 2 ^ 32 = 0 := by decide
    rw [clockMeasure_toNat, clockMeasure_toNat, first, second, Nat.zero_div, Nat.zero_mul, Nat.zero_mod] at drop
    refine quotient_not_wrapped nonzero (Nat.not_lt.mp slow) ?_
    exact Nat.eq_zero_of_le_zero (Nat.le_of_mul_le_mul_right drop (by decide))
  · intro fast earlier later _
    have zero : ∀ tick, (clockMeasure rate tick).toNat = 0 := by
      intro tick
      rw [clockMeasure_toNat]
      have quotient : tick.toNat * 1000 % 2 ^ 32 / rate.toNat = 0 := by
        refine Nat.div_eq_of_lt ?_
        omega
      rw [quotient, Nat.zero_mul, Nat.zero_mod]
    rw [zero, zero]

/-- At 1000 ticks per second both clocks fall after an hour and twelve minutes. -/
theorem clocks_go_backwards :
    (4294967 : Tick) ≤ 4294968 ∧
      ¬ (Serial.clockGettime 1000 4294967).nanoseconds ≤ (Serial.clockGettime 1000 4294968).nanoseconds ∧
      ¬ (Tcp.clockGettime 1000 4294967).nanoseconds ≤ (Tcp.clockGettime 1000 4294968).nanoseconds := by
  decide

theorem clocks_monotone_iff_thousand :
    (∀ earlier later : Tick, earlier ≤ later →
      (Serial.clockGettime 1000 earlier).nanoseconds ≤ (Serial.clockGettime 1000 later).nanoseconds ∧
        (Tcp.clockGettime 1000 earlier).nanoseconds ≤ (Tcp.clockGettime 1000 later).nanoseconds) ↔
      2 ^ 32 - 8 < UInt32.toNat 1000 :=
  clocks_monotone_iff 1000 (by decide)

end MicroRos
