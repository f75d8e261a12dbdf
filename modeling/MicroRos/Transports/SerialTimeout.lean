import MicroRos.Transports.SerialLine

/-! How long a serial read takes.

The tick counter shows the time modulo `2 ^ 32`. A call of `rt_sem_take` with a bound lasts no
longer than its bound and may return at any time before; between two points of the reader any
time may pass, and bytes arrive whenever they like.
-/

set_option autoImplicit false

namespace MicroRos

/-- A read that returned, when it was called and when it returned, and the ticks that it spent in
`rt_sem_take`. -/
structure TimedRead where
  read : FinishedRead
  began : Nat
  ended : Nat
  waited : Nat

structure TimedLine where
  line : SerialLine
  /-- Ticks since the start of the board. -/
  now : Nat
  /-- When the read in progress was called. -/
  began : Nat
  /-- When it entered the call of `rt_sem_take` that it is in. -/
  entered : Option Nat
  /-- What it spent in the calls of `rt_sem_take` that returned. -/
  waited : Nat
  reads : List TimedRead

namespace TimedLine

def untouched (fifo : List Memory.Byte) (port : SerialPort) (now : Nat) : TimedLine :=
  ⟨.untouched fifo port (.ofNat now), now, now, none, 0, []⟩

/-- One more tick does not exceed the bound of the call of `rt_sem_take` in progress. -/
def Patient (timed : TimedLine) : Prop :=
  ∀ reading i ticks since, timed.line.reading = some reading → reading.point = .take i ticks →
    timed.entered = some since → 0 ≤ ticks → (timed.now + 1 : Int) ≤ since + ticks

theorem patient_outside {timed : TimedLine} (outside : timed.entered = none) : timed.Patient := by
  intro reading i ticks since _ _ inside
  rw [outside] at inside
  cases inside

def arrived (byte : Memory.Byte) (timed : TimedLine) : TimedLine :=
  { timed with line := { timed.line with
      fifo := timed.line.fifo ++ [byte]
      arrived := timed.line.arrived ++ [byte]
      port := timed.line.port.uartInput } }

def ticked (timed : TimedLine) : TimedLine :=
  { timed with
    now := timed.now + 1
    line := { timed.line with tick := .ofNat (timed.now + 1) } }

def begun (call : ReadCall) (timed : TimedLine) : TimedLine :=
  { timed with
    line := { timed.line with
      reading := some ⟨call, call, call.head 0, timed.line.taken.length⟩
      port := timed.line.port.enter (call.head 0) }
    began := timed.now
    entered := none
    waited := 0 }

def polled (reading : Reading) (timed : TimedLine) : TimedLine :=
  { timed with
    line := { timed.line.answer reading (.read timed.line.fifo.head?) with
      fifo := timed.line.fifo.tail
      taken := timed.line.taken ++ timed.line.fifo.head?.toList
      port := timed.line.port.enter (reading.call.next reading.point (.read timed.line.fifo.head?)).2 } }

def waiting (timed : TimedLine) : TimedLine := { timed with entered := some timed.now }

def woken (reading : Reading) (since : Nat) (timed : TimedLine) : TimedLine :=
  { timed with
    line := { timed.line.answer reading .woken with
      port := { timed.line.port with rxSem := timed.line.port.rxSem - 1 } }
    entered := none
    waited := timed.waited + (timed.now - since) }

def checked (reading : Reading) (timed : TimedLine) : TimedLine :=
  { timed with line := timed.line.answer reading (.now timed.line.tick) }

/-- The record of a read that returns. -/
def record (reading : Reading) (count : Nat) (timed : TimedLine) : TimedRead :=
  ⟨⟨reading.start, count, reading.call.buf, timed.line.taken.drop reading.since⟩, timed.began, timed.now, timed.waited⟩

def returned (reading : Reading) (count : Nat) (timed : TimedLine) : TimedLine :=
  { timed with
    line := { timed.line with
      reading := none
      finished := timed.line.finished ++ [(timed.record reading count).read] }
    reads := timed.reads ++ [timed.record reading count] }

/-- The steps of the line, with the time at which they are made. -/
inductive Step : TimedLine → TimedLine → Prop
  | arrive (timed : TimedLine) (byte : Memory.Byte) : Step timed (timed.arrived byte)
  | elapse (timed : TimedLine) (patient : timed.Patient) : Step timed timed.ticked
  | begin (timed : TimedLine) (call : ReadCall) (small : call.len < 2 ^ 31)
      (now : call.tick = timed.line.tick.toInt32) (idle : timed.line.reading = none) :
      Step timed (timed.begun call)
  | poll (timed : TimedLine) (reading : Reading) (i : Nat) (active : timed.line.reading = some reading)
      (here : reading.point = .poll i) : Step timed (timed.polled reading)
  /-- `rt_sem_take` is called. -/
  | enter (timed : TimedLine) (reading : Reading) (i : Nat) (ticks : Int)
      (active : timed.line.reading = some reading) (here : reading.point = .take i ticks)
      (outside : timed.entered = none) : Step timed timed.waiting
  /-- It returns, with a count or without one. -/
  | take (timed : TimedLine) (reading : Reading) (i : Nat) (ticks : Int) (since : Nat)
      (active : timed.line.reading = some reading) (here : reading.point = .take i ticks)
      (inside : timed.entered = some since) : Step timed (timed.woken reading since)
  | check (timed : TimedLine) (reading : Reading) (i : Nat) (active : timed.line.reading = some reading)
      (here : reading.point = .check i) : Step timed (timed.checked reading)
  | finish (timed : TimedLine) (reading : Reading) (count : Nat)
      (active : timed.line.reading = some reading) (here : reading.point = .returned count) :
      Step timed (timed.returned reading count)

theorem Step.line {timed timed' : TimedLine} (step : Step timed timed') :
    Relation.ReflTransGen SerialLine.Step timed.line timed'.line := by
  cases step with
  | arrive byte => exact .single (.arrive _ byte)
  | elapse patient => exact .single (.elapse _ _)
  | begin call small now idle => exact .single (.begin _ call small now idle)
  | poll reading i active here => exact .single (.poll _ reading i active here)
  | enter reading i ticks active here outside => exact .refl
  | take reading i ticks since active here inside => exact .single (.take _ reading i ticks active here)
  | check reading i active here => exact .single (.check _ reading i active here)
  | finish reading count active here => exact .single (.finish _ reading count active here)

/-- Without the time it is a run of the line. -/
theorem run_line {timed timed' : TimedLine} (run : Relation.ReflTransGen Step timed timed') :
    Relation.ReflTransGen SerialLine.Step timed.line timed'.line := by
  induction run with
  | refl => exact .refl
  | tail _ step ih => exact ih.trans step.line

end TimedLine

namespace ReadCall

@[simp] theorem next_len (call : ReadCall) (point : ReadPoint) (given : Answer) :
    (call.next point given).1.len = call.len := by
  unfold next
  split <;> rfl

@[simp] theorem next_timeout (call : ReadCall) (point : ReadPoint) (given : Answer) :
    (call.next point given).1.timeout = call.timeout := by
  unfold next
  split <;> rfl

@[simp] theorem next_tick (call : ReadCall) (point : ReadPoint) (given : Answer) :
    (call.next point given).1.tick = call.tick := by
  unfold next
  split <;> rfl

theorem patience_eq (call : ReadCall) (bounded : 0 ≤ call.timeout.toInt) :
    call.patience = call.timeout.toInt / 4 := Int.tdiv_eq_ediv_of_nonneg bounded

/-- As long as the call lasts less than one turn of the counter, wrapping does no harm. -/
theorem expired_iff {call : ReadCall} {began now : Nat} (tick : call.tick = (UInt32.ofNat began).toInt32)
    (bounded : 0 ≤ call.timeout.toInt) (le : began ≤ now) (short : now - began < 2 ^ 32) :
    call.expired (.ofNat now) = true ↔ call.timeout.toInt < now - began := by
  have difference : (UInt32.ofNat now - call.tick.toUInt32).toNat = now - began := by
    rw [tick, UInt32.toUInt32_toInt32, UInt32.toNat_sub]
    simp
    omega
  have limit : (call.timeout.toUInt32.toNat : Int) = call.timeout.toInt := by
    rw [Int32.toNat_toUInt32_of_le (Int32.le_iff_toInt_le.mpr bounded)]
    exact Int.toNat_of_nonneg bounded
  simp only [expired, decide_eq_true_eq, gt_iff_lt, UInt32.lt_iff_toNat_lt, difference]
  omega

/-- A timeout of minus one is the largest unsigned number. -/
theorem not_expired {call : ReadCall} (unlimited : call.timeout = -1) (now : UInt32) : call.expired now = false := by
  have limit : call.timeout.toUInt32.toNat = 2 ^ 32 - 1 := by
    rw [unlimited]
    rfl
  have below := (now - call.tick.toUInt32).toNat_lt
  simp only [expired, decide_eq_false_iff_not, gt_iff_lt, UInt32.lt_iff_toNat_lt, limit]
  omega

end ReadCall

/-- What the calls of `rt_sem_take` that returned may have taken when the reader is here. -/
def ReadPoint.allowance (timeout : Int) : ReadPoint → Int
  | .poll _ | .take _ _ => timeout
  | .check _ | .returned _ => timeout + timeout / 4

theorem ReadPoint.allowance_le {timeout : Int} (bounded : 0 ≤ timeout) (point : ReadPoint) :
    timeout ≤ point.allowance timeout ∧ point.allowance timeout ≤ timeout + timeout / 4 := by
  cases point <;> simp only [allowance] <;> omega

/-- Ticks spent so far in the call of `rt_sem_take` in progress. -/
def pending (now : Nat) : Option Nat → Nat
  | none => 0
  | some since => now - since

/-- What is known about a read in progress: its variables, that it waits no longer than it lasts, and,
for a timeout that is not negative and before the counter has gone round, how long it has waited. -/
structure Reading.Timely (reading : Reading) (began now : Nat) (entered : Option Nat) (waited : Nat) : Prop where
  len : reading.call.len = reading.start.len
  timeout : reading.call.timeout = reading.start.timeout
  tick : reading.call.tick = (UInt32.ofNat began).toInt32
  le : began ≤ now
  inside : ∀ since, entered = some since → since ≤ now ∧ ∃ i, reading.point = .take i reading.call.patience
  ticks : ∀ i ticks, reading.point = .take i ticks → ticks = reading.call.patience
  total : waited + pending now entered ≤ now - began
  patient : 0 ≤ reading.start.timeout.toInt → (pending now entered : Int) ≤ reading.start.timeout.toInt / 4
  within : now - began < 2 ^ 32 → 0 ≤ reading.start.timeout.toInt →
    (waited : Int) ≤ reading.point.allowance reading.start.timeout.toInt
  late : now - began < 2 ^ 32 → 0 ≤ reading.start.timeout.toInt → ∀ count, reading.point = .returned count →
    count < reading.start.len → reading.start.timeout.toInt < now - began
  full : reading.start.timeout = -1 → ∀ count, reading.point = .returned count → reading.start.len ≤ count

/-- The bounds on a read that returned. -/
structure TimedRead.InTime (timed : TimedRead) : Prop where
  bounded : timed.ended - timed.began < 2 ^ 32 → 0 ≤ timed.read.start.timeout.toInt →
    (timed.read.count < timed.read.start.len → timed.read.start.timeout.toInt < timed.ended - timed.began) ∧
      timed.waited ≤ timed.read.start.timeout.toInt + timed.read.start.timeout.toInt / 4
  unlimited : timed.read.start.timeout = -1 → timed.read.start.len ≤ timed.read.count

namespace Reading.Timely

variable {reading : Reading} {began now waited : Nat} {entered : Option Nat}

/-- The reader is in `rt_sem_take` only where it calls it. -/
theorem outside (timely : reading.Timely began now entered waited)
    (elsewhere : ∀ i ticks, reading.point ≠ .take i ticks) : entered = none := by
  cases inside : entered with
  | none => rfl
  | some since =>
    obtain ⟨_, i, here⟩ := timely.inside since inside
    exact absurd here (elsewhere i _)

theorem start {call : ReadCall} (since : Nat) (tick : call.tick = (UInt32.ofNat now).toInt32) :
    Timely ⟨call, call, call.head 0, since⟩ now now none 0 where
  len := rfl
  timeout := rfl
  tick := tick
  le := Nat.le_refl now
  inside _ impossible := by cases impossible
  ticks i ticks here := by
    simp only [ReadCall.head] at here
    split at here <;> cases here
  total := by simp [pending]
  patient bounded := Int.ediv_nonneg bounded (by decide)
  within _ bounded := bounded.trans ((call.head 0).allowance_le bounded).1
  late _ _ count here few := by
    simp only [ReadCall.head] at here few
    split at here
    · cases here
    · cases here
      omega
  full _ count here := by
    simp only [ReadCall.head] at here
    split at here
    · cases here
    · cases here
      exact Nat.le_refl _

/-- A tick goes by. -/
theorem elapse (timely : reading.Timely began now entered waited)
    (patient : ∀ i ticks since, reading.point = .take i ticks → entered = some since → 0 ≤ ticks →
      (now + 1 : Int) ≤ since + ticks) :
    reading.Timely began (now + 1) entered waited where
  len := timely.len
  timeout := timely.timeout
  tick := timely.tick
  le := Nat.le_succ_of_le timely.le
  inside since inside := ⟨Nat.le_succ_of_le (timely.inside since inside).1, (timely.inside since inside).2⟩
  ticks := timely.ticks
  total := by
    have began := timely.le
    have total := timely.total
    cases inside : entered with
    | none =>
      simp only [inside, pending] at total ⊢
      omega
    | some since =>
      have := (timely.inside since inside).1
      simp only [inside, pending] at total ⊢
      omega
  patient bounded := by
    cases inside : entered with
    | none =>
      simp only [pending]
      omega
    | some since =>
      obtain ⟨le, i, here⟩ := timely.inside since inside
      have patience := reading.call.patience_eq (timely.timeout ▸ bounded)
      rw [timely.timeout] at patience
      have bound := patient i _ since here inside (by omega)
      simp only [pending]
      omega
  within short bounded := timely.within (by omega) bounded
  late short bounded count here few := by
    have := timely.late (by omega) bounded count here few
    omega
  full := timely.full

/-- The reader goes on, outside of `rt_sem_take`. -/
theorem answer (timely : reading.Timely began now none waited) (given : Answer)
    (ticks : ∀ i ticks, (reading.call.next reading.point given).2 = .take i ticks → ticks = reading.call.patience)
    (inTime : now - began < 2 ^ 32 → 0 ≤ reading.start.timeout.toInt →
      (waited : Int) ≤ (reading.call.next reading.point given).2.allowance reading.start.timeout.toInt ∧
      ∀ count, (reading.call.next reading.point given).2 = .returned count → count < reading.start.len →
        reading.start.timeout.toInt < now - began)
    (full : reading.start.timeout = -1 → ∀ count, (reading.call.next reading.point given).2 = .returned count →
      reading.start.len ≤ count) :
    Timely { reading with
      call := (reading.call.next reading.point given).1
      point := (reading.call.next reading.point given).2 } began now none waited where
  len := (reading.call.next_len _ _).trans timely.len
  timeout := (reading.call.next_timeout _ _).trans timely.timeout
  tick := (reading.call.next_tick _ _).trans timely.tick
  le := timely.le
  inside _ impossible := by cases impossible
  ticks i t here := by
    simp only [ReadCall.patience, ReadCall.next_timeout]
    exact ticks i t here
  total := timely.total
  patient := timely.patient
  within short bounded := (inTime short bounded).1
  late short bounded := (inTime short bounded).2
  full := full

/-- `rt_device_read` was called. -/
theorem poll (timely : reading.Timely began now none waited) {i : Nat} (here : reading.point = .poll i)
    (byte : Option Memory.Byte) :
    Timely { reading with
      call := (reading.call.next reading.point (.read byte)).1
      point := (reading.call.next reading.point (.read byte)).2 } began now none waited := by
  have next : (reading.call.next reading.point (.read byte)).2 =
      if byte.isSome then reading.call.head (i + 1) else .take i reading.call.patience := by
    rw [here]
    cases byte <;> rfl
  -- A read that returns here has filled its buffer.
  have returns : ∀ count, (reading.call.next reading.point (.read byte)).2 = .returned count →
      count = reading.start.len := by
    intro count last
    rw [next] at last
    split at last
    · simp only [ReadCall.head] at last
      split at last
      · cases last
      · cases last
        exact timely.len
    · cases last
  apply timely.answer
  · intro k ticks last
    rw [next] at last
    split at last
    · simp only [ReadCall.head] at last
      split at last <;> cases last
    · cases last
      rfl
  · intro short bounded
    have waited := timely.within short bounded
    rw [here] at waited
    refine ⟨waited.trans (ReadPoint.allowance_le bounded _).1, ?_⟩
    intro count last few
    have := returns count last
    omega
  · intro _ count last
    exact (returns count last).ge

/-- `rt_tick_get` was called. -/
theorem check (timely : reading.Timely began now none waited) {i : Nat} (here : reading.point = .check i) :
    Timely { reading with
      call := (reading.call.next reading.point (.now (.ofNat now))).1
      point := (reading.call.next reading.point (.now (.ofNat now))).2 } began now none waited := by
  have next : (reading.call.next reading.point (.now (.ofNat now))).2 =
      if reading.call.expired (.ofNat now) then .returned i else .poll i := by
    rw [here]
    rfl
  apply timely.answer
  · intro k ticks last
    rw [next] at last
    split at last <;> cases last
  · intro short bounded
    have expired := ReadCall.expired_iff timely.tick (timely.timeout ▸ bounded) timely.le short
    rw [timely.timeout] at expired
    have waited := timely.within short bounded
    have total := timely.total
    rw [here] at waited
    rw [next]
    split
    next exceeded =>
      refine ⟨waited, ?_⟩
      intro count last few
      exact expired.mp exceeded
    next inTime =>
      -- It has not waited longer than it has lasted, which is within the timeout.
      have within : ¬ reading.start.timeout.toInt < now - began := mt expired.mpr inTime
      have le := timely.le
      constructor
      · simp only [ReadPoint.allowance]
        omega
      · intro count last
        cases last
  · intro unlimited count last
    rw [next, ReadCall.not_expired (timely.timeout ▸ unlimited)] at last
    cases last

/-- `rt_sem_take` is called. -/
theorem enter (timely : reading.Timely began now none waited) {i : Nat} {ticks : Int}
    (here : reading.point = .take i ticks) : reading.Timely began now (some now) waited where
  len := timely.len
  timeout := timely.timeout
  tick := timely.tick
  le := timely.le
  inside since same := by
    cases same
    exact ⟨Nat.le_refl now, i, timely.ticks i ticks here ▸ here⟩
  ticks := timely.ticks
  total := by
    have total := timely.total
    simp only [pending, Nat.sub_self] at total ⊢
    exact total
  patient bounded := by
    simp only [pending, Nat.sub_self]
    exact Int.ediv_nonneg bounded (by decide)
  within := timely.within
  late := timely.late
  full := timely.full

/-- It returns after a quarter of the timeout at most. -/
theorem take {since : Nat} (timely : reading.Timely began now (some since) waited) {i : Nat} {ticks : Int}
    (here : reading.point = .take i ticks) :
    Timely { reading with
      call := (reading.call.next reading.point .woken).1
      point := (reading.call.next reading.point .woken).2 } began now none (waited + (now - since)) := by
  have next : reading.call.next reading.point .woken = (reading.call, .check i) := by
    rw [here]
    rfl
  rw [next]
  exact {
    len := timely.len
    timeout := timely.timeout
    tick := timely.tick
    le := timely.le
    inside := fun _ impossible => by cases impossible
    ticks := fun _ _ elsewhere => by cases elsewhere
    total := timely.total
    patient := fun bounded => Int.ediv_nonneg bounded (by decide)
    within := by
      intro short bounded
      have waited := timely.within short bounded
      have patient := timely.patient bounded
      rw [here] at waited
      simp only [ReadPoint.allowance, pending] at waited patient ⊢
      omega
    late := fun _ _ _ elsewhere => by cases elsewhere
    full := fun _ _ elsewhere => by cases elsewhere }

/-- What it has spent in `rt_sem_take` so far, the call in progress included. -/
theorem spent (timely : reading.Timely began now entered waited) (short : now - began < 2 ^ 32)
    (bounded : 0 ≤ reading.start.timeout.toInt) :
    (waited + pending now entered : Int) ≤ reading.start.timeout.toInt + reading.start.timeout.toInt / 4 := by
  have within := timely.within short bounded
  have patient := timely.patient bounded
  cases inside : entered with
  | none =>
    have most := (reading.point.allowance_le bounded).2
    simp only [pending]
    omega
  | some since =>
    obtain ⟨_, i, here⟩ := timely.inside since inside
    rw [here] at within
    simp only [ReadPoint.allowance, inside] at within patient ⊢
    omega

theorem finish (timely : reading.Timely began now entered waited) {count : Nat}
    (here : reading.point = .returned count) (buf : Nat → Memory.Byte) (removed : List Memory.Byte) :
    TimedRead.InTime ⟨⟨reading.start, count, buf, removed⟩, began, now, waited⟩ where
  bounded short bounded := by
    have within := timely.within short bounded
    rw [here] at within
    exact ⟨timely.late short bounded count here, within⟩
  unlimited unlimited := timely.full unlimited count here

end Reading.Timely

namespace TimedLine

/-- The clock is the counter, and all reads keep to their bounds. -/
structure Kept (timed : TimedLine) : Prop where
  clock : timed.line.tick = .ofNat timed.now
  reading : ∀ reading, timed.line.reading = some reading →
    reading.Timely timed.began timed.now timed.entered timed.waited
  reads : ∀ read ∈ timed.reads, read.InTime
  finished : timed.reads.map TimedRead.read = timed.line.finished

namespace Kept

variable {timed timed' : TimedLine}

theorem untouched (fifo : List Memory.Byte) (port : SerialPort) (now : Nat) :
    (TimedLine.untouched fifo port now).Kept where
  clock := rfl
  reading _ impossible := by cases impossible
  reads _ impossible := by cases impossible
  finished := rfl

theorem step (kept : timed.Kept) (step : Step timed timed') : timed'.Kept := by
  obtain ⟨clock, inProgress, reads, finished⟩ := kept
  cases step with
  | arrive byte => exact ⟨clock, inProgress, reads, finished⟩
  | elapse patient =>
    refine ⟨rfl, ?_, reads, finished⟩
    intro reading active
    exact (inProgress reading active).elapse fun i ticks since => patient reading i ticks since active
  | begin call small now idle =>
    refine ⟨clock, ?_, reads, finished⟩
    rintro _ ⟨⟩
    exact .start _ (now.trans (congrArg UInt32.toInt32 clock))
  | poll reading i active here =>
    refine ⟨clock, ?_, reads, finished⟩
    rintro _ ⟨⟩
    have timely := inProgress reading active
    have outside := timely.outside (by simp [here])
    rw [outside] at timely
    simp only [polled, outside]
    exact timely.poll here _
  | enter reading i ticks active here outside =>
    refine ⟨clock, ?_, reads, finished⟩
    intro reading' active'
    obtain rfl : reading = reading' := Option.some.inj (active.symm.trans active')
    have timely := inProgress reading active
    rw [outside] at timely
    exact timely.enter here
  | take reading i ticks since active here inside =>
    refine ⟨clock, ?_, reads, finished⟩
    rintro _ ⟨⟩
    have timely := inProgress reading active
    rw [inside] at timely
    exact timely.take here
  | check reading i active here =>
    refine ⟨clock, ?_, reads, finished⟩
    rintro _ ⟨⟩
    have timely := inProgress reading active
    have outside := timely.outside (by simp [here])
    rw [outside] at timely
    simp only [checked, outside, clock]
    exact timely.check here
  | finish reading count active here =>
    refine ⟨clock, by simp [returned], ?_, by simp [returned, finished]⟩
    exact List.forall_mem_append.mpr
      ⟨reads, List.forall_mem_singleton.mpr ((inProgress reading active).finish here _ _)⟩

theorem run (kept : timed.Kept) (run : Relation.ReflTransGen Step timed timed') : timed'.Kept := by
  induction run with
  | refl => exact kept
  | tail _ step ih => exact ih.step step

end Kept

end TimedLine

/-- In any interleaving, a read that gives up early has lasted longer than its timeout, no read waits in
`rt_sem_take` for more than its timeout and a quarter of it, and a read with a timeout of minus one does
not give up. -/
theorem serial_read_timeout {fifo : List Memory.Byte} {port : SerialPort} {now : Nat} {timed : TimedLine}
    (run : Relation.ReflTransGen TimedLine.Step (.untouched fifo port now) timed) :
    Relation.ReflTransGen SerialLine.Step (.untouched fifo port (.ofNat now)) timed.line ∧
    timed.reads.map TimedRead.read = timed.line.finished ∧
    (∀ call ∈ timed.reads,
      (call.ended - call.began < 2 ^ 32 → 0 ≤ call.read.start.timeout.toInt →
        (call.read.count < call.read.start.len → call.read.start.timeout.toInt < call.ended - call.began) ∧
        call.waited ≤ call.read.start.timeout.toInt + call.read.start.timeout.toInt / 4) ∧
      (call.read.start.timeout = -1 → call.read.start.len ≤ call.read.count)) ∧
    ∀ reading, timed.line.reading = some reading → timed.now - timed.began < 2 ^ 32 →
      0 ≤ reading.start.timeout.toInt →
      (timed.waited + pending timed.now timed.entered : Int) ≤
        reading.start.timeout.toInt + reading.start.timeout.toInt / 4 := by
  have kept := (TimedLine.Kept.untouched fifo port now).run run
  refine ⟨TimedLine.run_line run, kept.finished, ?_, ?_⟩
  · intro call member
    exact ⟨(kept.reads call member).bounded, (kept.reads call member).unlimited⟩
  · intro reading active
    exact (kept.reading reading active).spent

/-- The counter wraps during a read that times out. -/
theorem serial_read_timeout_wrapped : ∃ timed : TimedLine,
    timed.reads.map (fun call => (call.began, call.ended, call.waited, call.read.count)) =
      [(2 ^ 32 - 2, 2 ^ 32 + 3, 1, 0)] ∧
    ∀ call ∈ timed.reads,
      (call.ended - call.began < 2 ^ 32 → 0 ≤ call.read.start.timeout.toInt →
        (call.read.count < call.read.start.len → call.read.start.timeout.toInt < call.ended - call.began) ∧
        call.waited ≤ call.read.start.timeout.toInt + call.read.start.timeout.toInt / 4) ∧
      (call.read.start.timeout = -1 → call.read.start.len ≤ call.read.count) := by
  have called := Relation.ReflTransGen.single
    (TimedLine.Step.begin (.untouched [] .boot (2 ^ 32 - 2)) ⟨1, 4, -2, fun _ => 0⟩ (by decide) rfl rfl)
  -- Four ticks go by before the device is read, and one in `rt_sem_take`.
  have first := called.tail (.elapse _ (TimedLine.patient_outside rfl))
  have second := first.tail (.elapse _ (TimedLine.patient_outside rfl))
  have third := second.tail (.elapse _ (TimedLine.patient_outside rfl))
  have fourth := third.tail (.elapse _ (TimedLine.patient_outside rfl))
  have failed := fourth.tail (.poll _ _ 0 rfl rfl)
  have entered := failed.tail (.enter _ _ 0 1 rfl rfl rfl)
  have slept := entered.tail (.elapse _ (by rintro _ _ _ _ ⟨⟩ ⟨⟩ ⟨⟩ _; decide))
  have woken := slept.tail (.take _ _ 0 1 _ rfl rfl rfl)
  have expired := woken.tail (.check _ _ 0 rfl rfl)
  have returned := expired.tail (.finish _ _ 0 rfl rfl)
  exact ⟨_, rfl, (serial_read_timeout returned).2.2.1⟩

end MicroRos
