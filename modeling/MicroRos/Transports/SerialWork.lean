import MicroRos.Transports.SerialTimeout
import Mathlib.Algebra.Order.BigOperators.Group.List

/-! How often a serial read calls into the kernel.

To the timed line this adds what a call of `rt_sem_take` returns for: a count of the semaphore, or
the end of its bound. Every byte makes one count, and a read that waits gives up after a few
bounds, so the work is linear in the bytes and the reads; a bound of zero ticks is no wait at all.
-/

set_option autoImplicit false

namespace MicroRos

open Memory (Byte)

/-- The line, and what its reads have done so far: calls of `rt_device_read`, calls of `rt_sem_take` that
got a count, and calls that ran out, of the read in progress and of each read that returned. -/
structure WorkLine where
  timed : TimedLine
  polls : Nat
  counted : Nat
  expired : Nat
  ended : List (TimedRead × Nat)

namespace WorkLine

def start (timed : TimedLine) : WorkLine := ⟨timed, 0, 0, 0, []⟩

inductive Step : WorkLine → WorkLine → Prop
  | arrive (x : WorkLine) (byte : Byte) : Step x { x with timed := x.timed.arrived byte }
  | elapse (x : WorkLine) (patient : x.timed.Patient) : Step x { x with timed := x.timed.ticked }
  | begin (x : WorkLine) (call : ReadCall) (small : call.len < 2 ^ 31)
      (now : call.tick = x.timed.line.tick.toInt32) (idle : x.timed.line.reading = none) :
      Step x { x with timed := x.timed.begun call, expired := 0 }
  | poll (x : WorkLine) (reading : Reading) (i : Nat) (active : x.timed.line.reading = some reading)
      (here : reading.point = .poll i) :
      Step x { x with timed := x.timed.polled reading, polls := x.polls + 1 }
  | wait (x : WorkLine) (reading : Reading) (i : Nat) (ticks : Int)
      (active : x.timed.line.reading = some reading) (here : reading.point = .take i ticks)
      (outside : x.timed.entered = none) : Step x { x with timed := x.timed.waiting }
  /-- `rt_sem_take` takes a count. -/
  | wake (x : WorkLine) (reading : Reading) (i : Nat) (ticks : Int) (since : Nat)
      (active : x.timed.line.reading = some reading) (here : reading.point = .take i ticks)
      (inside : x.timed.entered = some since) (count : 0 < x.timed.line.port.rxSem) :
      Step x { x with timed := x.timed.woken reading since, counted := x.counted + 1 }
  /-- It returns when its bound is over, without a count. -/
  | expire (x : WorkLine) (reading : Reading) (i : Nat) (ticks : Int) (since : Nat)
      (active : x.timed.line.reading = some reading) (here : reading.point = .take i ticks)
      (inside : x.timed.entered = some since) (empty : x.timed.line.port.rxSem = 0)
      (late : (x.timed.now : Int) = since + ticks) :
      Step x { x with timed := x.timed.woken reading since, expired := x.expired + 1 }
  | check (x : WorkLine) (reading : Reading) (i : Nat) (active : x.timed.line.reading = some reading)
      (here : reading.point = .check i) : Step x { x with timed := x.timed.checked reading }
  | finish (x : WorkLine) (reading : Reading) (count : Nat) (active : x.timed.line.reading = some reading)
      (here : reading.point = .returned count) :
      Step x { x with
        timed := x.timed.returned reading count
        expired := 0
        ended := x.ended ++ [(x.timed.record reading count, x.expired)] }

variable {x y : WorkLine}

/-- It is a step of the timed line. -/
theorem Step.timed (step : Step x y) : TimedLine.Step x.timed y.timed := by
  cases step with
  | arrive byte => exact .arrive _ byte
  | elapse patient => exact .elapse _ patient
  | begin call small now idle => exact .begin _ call small now idle
  | poll reading i active here => exact .poll _ reading i active here
  | wait reading i ticks active here outside => exact .enter _ reading i ticks active here outside
  | wake reading i ticks since active here inside => exact .take _ reading i ticks since active here inside
  | expire reading i ticks since active here inside => exact .take _ reading i ticks since active here inside
  | check reading i active here => exact .check _ reading i active here
  | finish reading count active here => exact .finish _ reading count active here

theorem run_timed (run : Relation.ReflTransGen Step x y) : Relation.ReflTransGen TimedLine.Step x.timed y.timed := by
  induction run with
  | refl => exact .refl
  | tail _ step ih => exact ih.tail step.timed

/-- A device read failed, and the call of `rt_sem_take` behind it has not returned yet. -/
def unanswered (x : WorkLine) : Nat :=
  match x.timed.line.reading with
  | some reading =>
    match reading.point with
    | .take _ _ => 1
    | _ => 0
  | none => 0

/-- Where the calls went: each device read took a byte or led to a wait, each wait that ended got a count or ran out,
each count came from a byte, and a wait that ran out took its time. -/
structure Worked (counts queued : Nat) (x : WorkLine) : Prop where
  initialized : x.timed.line.port.semInitialized = true
  counts : x.timed.line.port.rxSem + x.counted + queued = counts + x.timed.line.arrived.length
  polls : x.polls = x.timed.line.taken.length + x.counted + (x.ended.map Prod.snd).sum + x.expired + x.unanswered
  expired : ∀ reading, x.timed.line.reading = some reading → 0 ≤ reading.start.timeout.toInt →
    (x.expired : Int) * (reading.start.timeout.toInt / 4) ≤ x.timed.waited
  idle : x.timed.line.reading = none → x.expired = 0
  ended : ∀ read ∈ x.ended, 0 ≤ read.1.read.start.timeout.toInt →
    (read.2 : Int) * (read.1.read.start.timeout.toInt / 4) ≤ read.1.waited
  reads : x.ended.map Prod.fst = x.timed.reads

namespace Worked

variable {counts queued : Nat}

theorem start {fifo : List Byte} {port : SerialPort} {now : Nat} (initialized : port.semInitialized = true) :
    (WorkLine.start (.untouched fifo port now)).Worked port.rxSem fifo.length where
  initialized := initialized
  counts := rfl
  polls := rfl
  expired _ impossible := by cases impossible
  idle _ := rfl
  ended _ impossible := by cases impossible
  reads := rfl

theorem step (worked : x.Worked counts queued) (kept : x.timed.Kept) (step : Step x y) : y.Worked counts queued := by
  obtain ⟨initialized, balance, polls, expired, idle, ended, reads⟩ := worked
  have same (point : ReadPoint) : x.timed.line.port.enter point = x.timed.line.port :=
    SerialPort.enter_of_initialized initialized point
  cases step with
  | arrive byte =>
    refine ⟨initialized, ?_, polls, expired, idle, ended, reads⟩
    simp only [TimedLine.arrived, SerialPort.uartInput, List.length_append, List.length_singleton]
    omega
  | elapse patient => exact ⟨initialized, balance, polls, expired, idle, ended, reads⟩
  | begin call small now free =>
    -- The read before is over, so no wait is open and none has run out.
    have none : x.unanswered = 0 := by simp [unanswered, free]
    have quiet : unanswered { x with timed := x.timed.begun call, expired := 0 } = 0 := by
      by_cases some : 0 < call.len <;> simp [unanswered, TimedLine.begun, ReadCall.head, some]
    rw [idle free, none] at polls
    refine ⟨by simpa [TimedLine.begun, same] using initialized, by simpa [TimedLine.begun, same] using balance, ?_, ?_,
      fun _ => rfl, ended, reads⟩
    · rw [quiet]
      exact polls
    · rintro _ ⟨⟩ _
      simp [TimedLine.begun]
  | poll reading i active here =>
    have none : x.unanswered = 0 := by simp [unanswered, active, here]
    refine ⟨by simpa [TimedLine.polled, same] using initialized, by simpa [TimedLine.polled, same, SerialLine.answer]
      using balance, ?_, ?_, (by rintro ⟨⟩), ended, reads⟩
    · -- Either a byte was taken, or the reader goes to wait.
      cases fifo : x.timed.line.fifo with
      | nil =>
        simp only [unanswered, TimedLine.polled, SerialLine.answer, here, fifo, List.head?_nil, ReadCall.next,
          Option.toList_none, List.append_nil]
        omega
      | cons byte rest =>
        simp only [unanswered, TimedLine.polled, SerialLine.answer, here, fifo, List.head?_cons, ReadCall.next,
          ReadCall.head, Option.toList_some, List.length_append, List.length_singleton]
        split
        next isTake =>
          split at isTake <;> cases isTake
        next => omega
    · rintro _ ⟨⟩ bounded
      exact expired reading active bounded
  | wait reading i ticks active here outside => exact ⟨initialized, balance, polls, expired, idle, ended, reads⟩
  | wake reading i ticks since active here inside count =>
    have one : x.unanswered = 1 := by simp [unanswered, active, here]
    refine ⟨initialized, ?_, ?_, ?_, (by rintro ⟨⟩), ended, reads⟩
    · simp only [TimedLine.woken, SerialLine.answer]
      omega
    · simp only [unanswered, TimedLine.woken, SerialLine.answer, here, ReadCall.next]
      omega
    · rintro _ ⟨⟩ bounded
      have before := expired reading active bounded
      simp only [TimedLine.woken]
      push_cast
      omega
  | expire reading i ticks since active here inside empty late =>
    have one : x.unanswered = 1 := by simp [unanswered, active, here]
    refine ⟨initialized, ?_, ?_, ?_, (by rintro ⟨⟩), ended, reads⟩
    · simp only [TimedLine.woken, SerialLine.answer]
      omega
    · simp only [unanswered, TimedLine.woken, SerialLine.answer, here, ReadCall.next]
      omega
    · rintro _ ⟨⟩ bounded
      change 0 ≤ reading.start.timeout.toInt at bounded
      have before := expired reading active bounded
      have timely := kept.reading reading active
      -- The wait lasted a whole quarter of the timeout, which goes on the account of waited time.
      have bound := timely.ticks i ticks here
      rw [reading.call.patience_eq (timely.timeout ▸ bounded), timely.timeout] at bound
      have spent : ((x.timed.now - since : Nat) : Int) = reading.start.timeout.toInt / 4 := by omega
      simp only [TimedLine.woken]
      push_cast [spent]
      rw [Int.add_mul, Int.one_mul]
      omega
  | check reading i active here =>
    have none : x.unanswered = 0 := by simp [unanswered, active, here]
    refine ⟨initialized, balance, ?_, ?_, (by rintro ⟨⟩), ended, reads⟩
    · rw [none] at polls
      simp only [unanswered, TimedLine.checked, SerialLine.answer, here, ReadCall.next]
      split
      next isTake => split at isTake <;> cases isTake
      next => exact polls
    · rintro _ ⟨⟩ bounded
      exact expired reading active bounded
  | finish reading count active here =>
    have none : x.unanswered = 0 := by simp [unanswered, active, here]
    refine ⟨initialized, balance, ?_, (by rintro _ ⟨⟩), fun _ => rfl, ?_, ?_⟩
    · simp only [unanswered, TimedLine.returned, List.map_append, List.map_cons, List.map_nil, List.sum_append,
        List.sum_cons, List.sum_nil]
      omega
    · exact List.forall_mem_append.mpr
        ⟨ended, List.forall_mem_singleton.mpr fun bounded => expired reading active bounded⟩
    · simp [TimedLine.returned, reads]

theorem run (worked : x.Worked counts queued) (kept : x.timed.Kept) (run : Relation.ReflTransGen Step x y) :
    y.Worked counts queued := by
  induction run with
  | refl => exact worked
  | tail run step ih => exact ih.step (kept.run (run_timed run)) step

end Worked

/-- A timeout and a quarter of it have room for eight quarters at most, if a quarter is not zero. -/
theorem few_waits {waits waited : Nat} {timeout : Int} (long : 4 ≤ timeout)
    (took : (waits : Int) * (timeout / 4) ≤ waited) (within : (waited : Int) ≤ timeout + timeout / 4) : waits ≤ 8 := by
  -- Nine quarters are more than the timeout and one quarter.
  by_contra many
  have nine : 9 * (timeout / 4) ≤ (waits : Int) * (timeout / 4) :=
    Int.mul_le_mul_of_nonneg_right (by omega) (by omega)
  omega

/-- No time has gone by since the call, nothing arrived, and the bound of a wait is zero; the reader is at `point`. -/
structure Spinning (timeout : Int32) (now : Nat) (point : ReadPoint) (x : WorkLine) : Prop where
  active : ∃ start call since, x.timed.line.reading = some ⟨start, call, point, since⟩ ∧ start.timeout = timeout ∧
    call.patience = 0 ∧ call.expired x.timed.line.tick = false
  fifo : x.timed.line.fifo = []
  arrived : x.timed.line.arrived = []
  now : x.timed.now = now

namespace Spinning

variable {timeout : Int32} {now : Nat}

/-- The device is read, and `rt_sem_take` is called. -/
theorem poll (spinning : x.Spinning timeout now (.poll 0)) (outside : x.timed.entered = none) :
    ∃ y, Relation.ReflTransGen Step x y ∧ y.Spinning timeout now (.take 0 0) ∧ y.timed.entered = some now ∧
      y.polls = x.polls + 1 := by
  obtain ⟨⟨start, call, since, active, same, zero, inTime⟩, fifo, arrived, isNow⟩ := spinning
  have next : (x.timed.polled ⟨start, call, .poll 0, since⟩).line.reading =
      some ⟨start, call, .take 0 0, since⟩ := by
    simp [TimedLine.polled, SerialLine.answer, fifo, ReadCall.next, zero]
  have asked : Relation.ReflTransGen Step x _ := .single (.poll x _ 0 active rfl)
  refine ⟨_, asked.tail (.wait _ _ 0 0 next rfl outside), ⟨?_, ?_, arrived, isNow⟩, ?_, rfl⟩
  · exact ⟨start, call, since, next, same, zero, inTime⟩
  · simp [TimedLine.waiting, TimedLine.polled, fifo]
  · simp [TimedLine.waiting, TimedLine.polled, isNow]

/-- It returns at once, with a count or without one. -/
theorem take (spinning : x.Spinning timeout now (.take 0 0)) (inside : x.timed.entered = some now) :
    ∃ y, Relation.ReflTransGen Step x y ∧ y.Spinning timeout now (.check 0) ∧ y.timed.entered = none ∧
      y.polls = x.polls := by
  obtain ⟨⟨start, call, since, active, same, zero, inTime⟩, fifo, arrived, isNow⟩ := spinning
  have woken (expired counted : Nat) : Spinning timeout now (.check 0)
      ⟨x.timed.woken ⟨start, call, .take 0 0, since⟩ now, x.polls, counted, expired, x.ended⟩ :=
    ⟨⟨start, call, since, rfl, same, zero, inTime⟩, fifo, arrived, isNow⟩
  rcases Nat.eq_zero_or_pos x.timed.line.port.rxSem with empty | count
  · have late : (x.timed.now : Int) = (now : Int) + 0 := by rw [isNow, Int.add_zero]
    exact ⟨_, .single (.expire x _ 0 0 now active rfl inside empty late), woken _ _, rfl, rfl⟩
  · exact ⟨_, .single (.wake x _ 0 0 now active rfl inside count), woken _ _, rfl, rfl⟩

/-- The timeout is not over. -/
theorem check (spinning : x.Spinning timeout now (.check 0)) :
    ∃ y, Relation.ReflTransGen Step x y ∧ y.Spinning timeout now (.poll 0) ∧ y.timed.entered = x.timed.entered ∧
      y.polls = x.polls := by
  obtain ⟨⟨start, call, since, active, same, zero, inTime⟩, fifo, arrived, isNow⟩ := spinning
  refine ⟨_, .single (.check x _ 0 active rfl), ⟨⟨start, call, since, ?_, same, zero, inTime⟩, fifo, arrived, isNow⟩,
    rfl, rfl⟩
  simp [TimedLine.checked, SerialLine.answer, ReadCall.next, inTime]

/-- Any number of rounds. -/
theorem rounds (spinning : x.Spinning timeout now (.poll 0)) (outside : x.timed.entered = none) (n : Nat) :
    ∃ y, Relation.ReflTransGen Step x y ∧ y.Spinning timeout now (.poll 0) ∧ y.polls = x.polls + n := by
  -- Each round ends in the state that it began in, but for the number of device reads.
  induction n generalizing x with
  | zero => exact ⟨x, .refl, spinning, rfl⟩
  | succ n ih =>
    obtain ⟨asked, first, spinning, inside, more⟩ := spinning.poll outside
    obtain ⟨woken, second, spinning, outside, still⟩ := spinning.take inside
    obtain ⟨again, third, spinning, same, still'⟩ := spinning.check
    obtain ⟨last, later, spinning, all⟩ := ih spinning (same.trans outside)
    exact ⟨last, first.trans (second.trans (third.trans later)), spinning, by omega⟩

end Spinning

/-- A call with such a timeout, made in a state without bytes. -/
theorem begin_spinning {timeout : Int32} (none : timeout.toInt.tdiv 4 = 0) (port : SerialPort)
    (now : Nat) :
    ∃ y, Relation.ReflTransGen Step (.start (.untouched [] port now)) y ∧ y.Spinning timeout now (.poll 0) ∧
      y.timed.entered = Option.none ∧ y.polls = 0 := by
  have small : 1 < 2 ^ 31 := by decide
  refine ⟨_, .single (.begin _ ⟨1, timeout, (UInt32.ofNat now).toInt32, fun _ => 0⟩ small rfl rfl),
    ⟨⟨_, _, 0, rfl, rfl, none, ?_⟩, rfl, rfl, rfl⟩, rfl, rfl⟩
  simp [TimedLine.begun, WorkLine.start, TimedLine.untouched, SerialLine.untouched, ReadCall.expired]

end WorkLine

/-- After a successful open, whatever arrives and whenever it does: while all reads have timeouts of at least four
ticks and last less than one turn of the counter, the device is read at most twice for each byte that arrived, once
for each count that was left over and nine times for each read. With a timeout whose quarter is zero a single read
reads the device any number of times, while nothing arrives and no time goes by. -/
theorem serial_work (opens : Bool) (port : SerialPort) (now : Nat) :
    let opened := (rttTransportOpen true opens port).2
    let start := WorkLine.start (.untouched [] opened now)
    (∀ x, Relation.ReflTransGen WorkLine.Step start x →
      (∀ read ∈ x.timed.reads, 4 ≤ read.read.start.timeout.toInt ∧ read.ended - read.began < 2 ^ 32) →
      (∀ reading, x.timed.line.reading = some reading →
        4 ≤ reading.start.timeout.toInt ∧ x.timed.now - x.timed.began < 2 ^ 32) →
      x.polls ≤ 2 * x.timed.line.arrived.length + opened.rxSem +
        9 * (x.timed.reads.length + x.timed.line.reading.toList.length)) ∧
      ∀ timeout : Int32, timeout.toInt.tdiv 4 = 0 → ∀ n, ∃ x, Relation.ReflTransGen WorkLine.Step start x ∧
        x.polls = n ∧ x.timed.now = now ∧ x.timed.line.arrived = [] ∧
        ∃ reading, x.timed.line.reading = some reading ∧ reading.start.timeout = timeout := by
  intro opened start
  refine ⟨fun x run past current => ?_, fun timeout none n => ?_⟩
  · have kept := (TimedLine.Kept.untouched [] opened now).run (WorkLine.run_timed run)
    have intact := (SerialLine.Intact.untouched [] opened (.ofNat now)).run
      (TimedLine.run_line (WorkLine.run_timed run))
    have worked := (WorkLine.Worked.start (rttTransportOpen_initialized opens port)).run
      (TimedLine.Kept.untouched [] opened now) run
    -- A device read either takes one of the bytes that arrived or leads to a wait.
    have taken : x.timed.line.taken.length ≤ x.timed.line.arrived.length := by
      rw [intact.stream, List.length_append]
      exact Nat.le_add_right _ _
    have counts : x.timed.line.port.rxSem + x.counted + 0 = opened.rxSem + x.timed.line.arrived.length :=
      worked.counts
    have polls := worked.polls
    have before : (x.ended.map Prod.snd).sum ≤ 8 * x.timed.reads.length := by
      have few : ∀ waits ∈ x.ended.map Prod.snd, waits ≤ 8 := by
        intro waits member
        obtain ⟨⟨read, waits⟩, listed, rfl⟩ := List.mem_map.mp member
        have among : read ∈ x.timed.reads := by
          rw [← worked.reads]
          exact List.mem_map_of_mem listed
        obtain ⟨long, short⟩ := past read among
        have bounded : 0 ≤ read.read.start.timeout.toInt := by omega
        exact WorkLine.few_waits long (worked.ended _ listed bounded) ((kept.reads read among).bounded short bounded).2
      have sum := List.sum_le_card_nsmul _ 8 few
      rw [← worked.reads, List.length_map]
      simpa [Nat.mul_comm] using sum
    cases active : x.timed.line.reading with
    | none =>
      have idle := worked.idle active
      have quiet : x.unanswered = 0 := by simp [WorkLine.unanswered, active]
      simp only [Option.toList_none, List.length_nil]
      omega
    | some reading =>
      obtain ⟨long, short⟩ := current reading active
      have bounded : 0 ≤ reading.start.timeout.toInt := by omega
      have most := (kept.reading reading active).spent short bounded
      have few := WorkLine.few_waits long (worked.expired reading active bounded) (by omega)
      have one : x.unanswered ≤ 1 := by
        unfold WorkLine.unanswered
        split
        · split <;> omega
        · omega
      simp only [Option.toList_some, List.length_singleton]
      omega
  · obtain ⟨called, first, spinning, outside, unread⟩ := WorkLine.begin_spinning none opened now
    obtain ⟨x, later, ⟨⟨reading, call, since, active, same, _⟩, _, arrived, isNow⟩, polls⟩ :=
      spinning.rounds outside n
    exact ⟨x, first.trans later, by rw [polls, unread, Nat.zero_add], isNow, arrived, _, active, same⟩

/-- One byte that wakes the reader, and a read that asks to wait forever. -/
theorem serial_work_late_byte :
    (∃ x, Relation.ReflTransGen WorkLine.Step (.start (.untouched [] (rttTransportOpen true true .boot).2 0)) x ∧
      x.timed.reads.map (fun call => call.read.count) = [1] ∧ x.polls = 2 ∧ x.polls ≤ 2 * 1 + 0 + 9 * (1 + 0)) ∧
    ∃ x, Relation.ReflTransGen WorkLine.Step (.start (.untouched [] (rttTransportOpen true true .boot).2 0)) x ∧
      x.polls = 1000 ∧ x.timed.now = 0 ∧ x.timed.line.arrived = [] ∧
      ∃ reading, x.timed.line.reading = some reading ∧ reading.start.timeout = -1 := by
  obtain ⟨bounded, spins⟩ := serial_work true .boot 0
  refine ⟨?_, spins (-1) (by decide) 1000⟩
  have called := Relation.ReflTransGen.single (WorkLine.Step.begin
    (.start (.untouched [] (rttTransportOpen true true .boot).2 0)) ⟨1, 4, 0, fun _ => 0⟩ (by decide) rfl rfl)
  have failed := called.tail (.poll _ _ 0 rfl rfl)
  have waits := failed.tail (.wait _ _ 0 1 rfl rfl rfl)
  have arrived := waits.tail (.arrive _ 7)
  have woken := arrived.tail (.wake _ _ 0 1 0 rfl rfl rfl (by decide))
  have checked := woken.tail (.check _ _ 0 rfl rfl)
  have read := checked.tail (.poll _ _ 0 rfl rfl)
  have returned := read.tail (.finish _ _ 1 rfl rfl)
  refine ⟨_, returned, rfl, rfl, bounded _ returned ?_ (by rintro _ ⟨⟩)⟩
  exact List.forall_mem_singleton.mpr (by decide)

end MicroRos
