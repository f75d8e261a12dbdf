import MicroRos.Transports.Serial
import Mathlib.Logic.Relation

/-! The serial line: the device with its queue, the interrupt that fills it, and the reader.

The interrupt may come between any two calls of the reader into the kernel, the tick
counter may take any value, and the semaphore may be taken at any time, with or without a
count. What is returned over a sequence of reads is then still the stream itself, and after an
open the reader does not sleep on a byte.
-/

set_option autoImplicit false

namespace MicroRos

open Memory (Byte)

/-- A read in progress: the call as it was made, as it is now, and where the reader is. -/
structure Reading where
  start : ReadCall
  call : ReadCall
  point : ReadPoint
  /-- How many bytes had been taken from the device before this read. -/
  since : Nat

/-- A read that returned, its buffer, and what was taken from the device meanwhile. -/
structure FinishedRead where
  start : ReadCall
  count : Nat
  buf : Nat → Byte
  removed : List Byte

/-- The prefix of the buffer that the result of the read refers to. -/
def FinishedRead.bytes (read : FinishedRead) : List Byte := (List.range read.count).map read.buf

/-- `arrived`, `taken` and `finished` record the history of the line. -/
structure SerialLine where
  fifo : List Byte
  port : SerialPort
  tick : UInt32
  reading : Option Reading
  arrived : List Byte
  taken : List Byte
  finished : List FinishedRead

/-- The semaphore is initialised where the body of the loop begins. -/
def SerialPort.enter (point : ReadPoint) (port : SerialPort) : SerialPort :=
  if point.running then port.initSem else port

namespace SerialLine

/-- No read has been made yet. -/
def untouched (fifo : List Byte) (port : SerialPort) (tick : UInt32) : SerialLine :=
  ⟨fifo, port, tick, none, fifo, [], []⟩

/-- The reader goes on with an answer. -/
def answer (line : SerialLine) (reading : Reading) (given : Answer) : SerialLine :=
  let moved := reading.call.next reading.point given
  { line with reading := some { reading with call := moved.1, point := moved.2 } }

inductive Step : SerialLine → SerialLine → Prop
  /-- The interrupt: a byte is queued and `uart_input` is called. -/
  | arrive (line : SerialLine) (byte : Byte) :
      Step line { line with
        fifo := line.fifo ++ [byte]
        arrived := line.arrived ++ [byte]
        port := line.port.uartInput }
  | elapse (line : SerialLine) (tick : UInt32) : Step line { line with tick := tick }
  /-- `rtt_transport_read` is called; it loads `tick`. -/
  | begin (line : SerialLine) (call : ReadCall) (small : call.len < 2 ^ 31)
      (now : call.tick = line.tick.toInt32) (idle : line.reading = none) :
      Step line { line with
        reading := some ⟨call, call, call.head 0, line.taken.length⟩
        port := line.port.enter (call.head 0) }
  /-- `rt_device_read` removes the oldest byte, if there is one. -/
  | poll (line : SerialLine) (reading : Reading) (i : Nat) (active : line.reading = some reading)
      (here : reading.point = .poll i) :
      Step line { line.answer reading (.read line.fifo.head?) with
        fifo := line.fifo.tail
        taken := line.taken ++ line.fifo.head?.toList
        port := line.port.enter (reading.call.next reading.point (.read line.fifo.head?)).2 }
  | take (line : SerialLine) (reading : Reading) (i : Nat) (ticks : Int)
      (active : line.reading = some reading) (here : reading.point = .take i ticks) :
      Step line { line.answer reading .woken with
        port := { line.port with rxSem := line.port.rxSem - 1 } }
  | check (line : SerialLine) (reading : Reading) (i : Nat) (active : line.reading = some reading)
      (here : reading.point = .check i) : Step line (line.answer reading (.now line.tick))
  | finish (line : SerialLine) (reading : Reading) (count : Nat) (active : line.reading = some reading)
      (here : reading.point = .returned count) :
      Step line { line with
        reading := none
        finished := line.finished ++
          [⟨reading.start, count, reading.call.buf, line.taken.drop reading.since⟩] }

/-- What the read in progress has in its buffer. -/
def gathered (line : SerialLine) : List Byte :=
  match line.reading with
  | none => []
  | some reading => reading.call.gathered reading.point

end SerialLine

/-- The read wrote the prefix that it returned and nothing else, and these are the bytes it removed. -/
structure FinishedRead.Exact (read : FinishedRead) : Prop where
  count : read.count ≤ read.start.len
  outside : ∀ k, read.count ≤ k → read.buf k = read.start.buf k
  removed : read.removed = read.bytes

namespace SerialLine

/-- No byte is lost, doubled or out of order. -/
structure Intact (line : SerialLine) : Prop where
  stream : line.arrived = line.taken ++ line.fifo
  returned : line.finished.flatMap FinishedRead.bytes ++ line.gathered = line.taken
  reads : ∀ read ∈ line.finished, read.Exact
  reading : ∀ reading, line.reading = some reading →
    ReadCall.Filled reading.start reading.call reading.point ∧ reading.since ≤ line.taken.length ∧
      line.taken.drop reading.since = reading.call.gathered reading.point

namespace Intact

theorem untouched (fifo : List Byte) (port : SerialPort) (tick : UInt32) :
    (SerialLine.untouched fifo port tick).Intact :=
  ⟨rfl, rfl, by simp [SerialLine.untouched], by simp [SerialLine.untouched]⟩

/-- An answer to the reader, when it delivers what was removed from the queue. -/
theorem answer {line : SerialLine} (intact : line.Intact) {reading : Reading}
    (active : line.reading = some reading) (given : Answer) (removed rest : List Byte)
    (split : line.fifo = removed ++ rest) (same : ReadCall.delivered reading.point given = removed)
    (port : SerialPort) :
    Intact { line.answer reading given with fifo := rest, taken := line.taken ++ removed, port := port } := by
  obtain ⟨stream, returned, reads, inProgress⟩ := intact
  obtain ⟨filled, before, since⟩ := inProgress reading active
  obtain ⟨filled', gathers⟩ := filled.next given
  rw [same] at gathers
  refine ⟨by simp [SerialLine.answer, stream, split], ?_, reads, ?_⟩
  · simp only [gathered, active] at returned
    simp only [gathered, SerialLine.answer, gathers, ← List.append_assoc, returned]
  · rintro _ ⟨⟩
    refine ⟨filled', by simp; omega, ?_⟩
    rw [List.drop_append_of_le_length before, since, gathers]

theorem step {line line' : SerialLine} (intact : line.Intact) (step : Step line line') : line'.Intact := by
  cases step with
  | arrive byte =>
    -- The reader does not see the queue before it polls again.
    obtain ⟨stream, returned, reads, inProgress⟩ := intact
    exact ⟨by simp [stream], returned, reads, inProgress⟩
  | elapse tick => exact ⟨intact.stream, intact.returned, intact.reads, intact.reading⟩
  | begin call small now idle =>
    obtain ⟨stream, returned, reads, _⟩ := intact
    refine ⟨stream, ?_, reads, ?_⟩
    · simpa [gathered, idle, ReadCall.gathered_head] using returned
    · rintro _ ⟨⟩
      exact ⟨.start _, Nat.le_refl _, by simp [ReadCall.gathered_head]⟩
  | poll reading i active here =>
    refine intact.answer active _ line.fifo.head?.toList _ ?_ ?_ _
    · cases line.fifo <;> rfl
    · rw [here]
      cases line.fifo <;> rfl
  | take reading i ticks active here =>
    have := intact.answer active .woken [] line.fifo rfl (by rw [here]; rfl)
      { line.port with rxSem := line.port.rxSem - 1 }
    rw [List.append_nil] at this
    exact this
  | check reading i active here =>
    have := intact.answer active (.now line.tick) [] line.fifo rfl
      (by rw [here]; rfl) line.port
    rw [List.append_nil] at this
    exact this
  | finish reading count active here =>
    -- What was gathered becomes the prefix that the read returns, also when it is short.
    obtain ⟨stream, returned, reads, inProgress⟩ := intact
    obtain ⟨filled, before, since⟩ := inProgress reading active
    simp only [gathered, active] at returned
    rw [here] at filled since returned
    refine ⟨stream, ?_, ?_, by simp⟩
    · simpa [gathered, FinishedRead.bytes, ReadCall.gathered, ReadPoint.count] using returned
    · refine List.forall_mem_append.mpr ⟨reads, List.forall_mem_singleton.mpr ⟨?_, filled.outside, since⟩⟩
      exact filled.len ▸ filled.inside

/-- Any interleaving of arrivals, ticks and reads. -/
theorem run {line line' : SerialLine} (intact : line.Intact) (run : Relation.ReflTransGen Step line line') :
    line'.Intact := by
  induction run with
  | refl => exact intact
  | tail _ step ih => exact ih.step step

end Intact

/-- While it waits, the reader can be brought closer to its return by what may happen next. -/
theorem advances {line : SerialLine} {reading : Reading} (active : line.reading = some reading) :
    ∃ line', Relation.ReflTransGen Step line line' ∧ ∀ reading', line'.reading = some reading' →
      reading'.call.remaining reading'.point < reading.call.remaining reading.point := by
  cases here : reading.point with
  | returned count =>
    refine ⟨_, .single (.finish line reading count active here), ?_⟩
    simp
  | take i ticks =>
    refine ⟨_, .single (.take line reading i ticks active here), ?_⟩
    rintro _ ⟨⟩
    simp only [here, ReadCall.next, ReadCall.remaining]
    omega
  | check i =>
    refine ⟨_, .single (.check line reading i active here), ?_⟩
    rintro _ ⟨⟩
    simp only [here, ReadCall.next]
    split <;> simp only [ReadCall.remaining] <;> omega
  | poll i =>
    have nearer (byte : Byte) := reading.call.remaining_next_poll i byte
    cases queued : line.fifo with
    | cons byte rest =>
      refine ⟨_, .single (.poll line reading i active here), ?_⟩
      rintro _ ⟨⟩
      simp only [here, queued]
      exact nearer byte
    | nil =>
      -- Nothing is queued; a byte that arrives now is the one that is read.
      have arrive := Step.arrive line 0
      refine ⟨_, .tail (.single arrive) (.poll _ reading i active here), ?_⟩
      rintro _ ⟨⟩
      simp only [here, queued]
      exact nearer 0

/-- No read is stuck: from every state there is a continuation in which the read in progress returns. -/
theorem returns (line : SerialLine) :
    ∃ line', Relation.ReflTransGen Step line line' ∧ line'.reading = none := by
  cases active : line.reading with
  | none => exact ⟨line, .refl, active⟩
  | some reading =>
    induction bound : reading.call.remaining reading.point using Nat.strong_induction_on
      generalizing line reading with
    | _ steps ih =>
      obtain ⟨next, run, nearer⟩ := advances active
      cases later : next.reading with
      | none => exact ⟨next, run, later⟩
      | some reading' =>
        have := nearer reading' later
        obtain ⟨last, after, idle⟩ := ih _ (bound ▸ this) next reading' later rfl
        exact ⟨last, run.trans after, idle⟩

end SerialLine

/-- Over any interleaving, each read that returned wrote the prefix it returned and removed just these
bytes; together the reads returned what was taken, in order, and no read is stuck. -/
theorem serial_stream_intact {fifo : List Byte} {port : SerialPort} {tick : UInt32} {line : SerialLine}
    (run : Relation.ReflTransGen SerialLine.Step (.untouched fifo port tick) line) :
    (∀ read ∈ line.finished, read.Exact) ∧
      line.finished.flatMap FinishedRead.bytes ++ line.gathered = line.taken ∧
      line.arrived = line.taken ++ line.fifo ∧
      ∃ line', Relation.ReflTransGen SerialLine.Step line line' ∧ line'.reading = none := by
  have intact := (SerialLine.Intact.untouched fifo port tick).run run
  exact ⟨intact.reads, intact.returned, intact.stream, line.returns⟩

/-- A byte that arrives while a read times out is returned by the next read. -/
theorem serial_stream_intact_late_byte : ∃ line : SerialLine, line.finished.map FinishedRead.bytes = [[], [7]] ∧
    (∀ read ∈ line.finished, read.Exact) ∧
    line.finished.flatMap FinishedRead.bytes ++ line.gathered = line.taken ∧
    line.arrived = line.taken ++ line.fifo ∧
    ∃ line', Relation.ReflTransGen SerialLine.Step line line' ∧ line'.reading = none := by
  have called := Relation.ReflTransGen.single
    (SerialLine.Step.begin (.untouched [] .boot 0) ⟨1, 4, 0, fun _ => 0⟩ (by decide) rfl rfl)
  have failed := called.tail (.poll _ _ 0 rfl rfl)
  have slept := failed.tail (.elapse _ 5)
  have woken := slept.tail (.take _ _ 0 1 rfl rfl)
  have arrived := woken.tail (.arrive _ 7)
  have expired := arrived.tail (.check _ _ 0 rfl rfl)
  have empty := expired.tail (.finish _ _ 0 rfl rfl)
  have again := empty.tail (.begin _ ⟨1, 4, 5, fun _ => 0⟩ (by decide) rfl rfl)
  have read := again.tail (.poll _ _ 0 rfl rfl)
  have full := read.tail (.finish _ _ 1 rfl rfl)
  exact ⟨_, rfl, serial_stream_intact full⟩

@[simp] theorem SerialPort.enter_of_initialized {port : SerialPort} (initialized : port.semInitialized = true)
    (point : ReadPoint) : port.enter point = port := by
  simp [enter, initSem, initialized]

theorem rttTransportOpen_initialized (opens : Bool) (port : SerialPort) :
    (rttTransportOpen true opens port).2.semInitialized = true := by
  simp only [rttTransportOpen, SerialPort.initSem]
  cases port.semInitialized <;> simp

namespace SerialLine

/-- The reader is in `rt_sem_take`, and the count of the semaphore does not let it go on. -/
def Suspended (line : SerialLine) : Prop :=
  ∃ reading i ticks, line.reading = some reading ∧ reading.point = .take i ticks ∧ line.port.rxSem = 0

/-- The semaphore stays the one that open made, and where the reader takes it there is a count for it
when a byte is queued. -/
structure Awake (line : SerialLine) : Prop where
  initialized : line.port.semInitialized = true
  counted : ∀ reading i ticks, line.reading = some reading → reading.point = .take i ticks →
    line.fifo ≠ [] → 1 ≤ line.port.rxSem

namespace Awake

variable {line line' : SerialLine}

theorem untouched {port : SerialPort} (initialized : port.semInitialized = true) (fifo : List Byte) (tick : UInt32) :
    (SerialLine.untouched fifo port tick).Awake :=
  ⟨initialized, fun _ _ _ impossible => by cases impossible⟩

theorem step (awake : line.Awake) (step : Step line line') : line'.Awake := by
  obtain ⟨initialized, counted⟩ := awake
  cases step with
  | arrive byte =>
    constructor
    · exact initialized
    · intro _ _ _ _ _ _
      exact Nat.le_add_left 1 line.port.rxSem
  | elapse tick => exact ⟨initialized, counted⟩
  | begin call small now idle =>
    -- The semaphore is not initialised again, so counts of earlier bytes stay.
    rw [SerialPort.enter_of_initialized initialized]
    constructor
    · exact initialized
    · rintro _ i ticks ⟨⟩ here _
      simp only [ReadCall.head] at here
      split at here <;> cases here
  | poll reading i active here =>
    rw [SerialPort.enter_of_initialized initialized]
    constructor
    · exact initialized
    · rintro _ j ticks ⟨⟩ last queued
      -- The reader goes to take the semaphore only when there was no byte.
      cases fifo : line.fifo with
      | nil => simp [fifo] at queued
      | cons byte rest =>
        simp only [here, fifo, List.head?_cons, ReadCall.next, ReadCall.head] at last
        split at last <;> cases last
  | take reading i ticks active here =>
    constructor
    · exact initialized
    · rintro _ j ticks' ⟨⟩ last _
      simp only [here, ReadCall.next] at last
      cases last
  | check reading i active here =>
    constructor
    · exact initialized
    · rintro _ j ticks ⟨⟩ last _
      simp only [here, ReadCall.next] at last
      split at last <;> cases last
  | finish reading count active here => exact ⟨initialized, fun _ _ _ impossible => by cases impossible⟩

theorem run (awake : line.Awake) (run : Relation.ReflTransGen Step line line') : line'.Awake := by
  induction run with
  | refl => exact awake
  | tail _ step ih => exact ih.step step

theorem not_suspended (awake : line.Awake) (queued : line.fifo ≠ []) : ¬ line.Suspended := by
  rintro ⟨reading, i, ticks, active, here, none⟩
  have := awake.counted reading i ticks active here queued
  omega

end Awake
end SerialLine

/-- After a successful open no wake-up is lost: where the reader takes the semaphore there is a count when
a byte is queued. -/
theorem serial_no_lost_wake_up {opens : Bool} {port : SerialPort} {tick : UInt32} {line : SerialLine}
    (run : Relation.ReflTransGen SerialLine.Step (.untouched [] (rttTransportOpen true opens port).2 tick) line) :
    (∀ reading i ticks, line.reading = some reading → reading.point = .take i ticks → line.fifo ≠ [] →
      1 ≤ line.port.rxSem) ∧
    (line.fifo ≠ [] → ¬ line.Suspended) := by
  have awake := (SerialLine.Awake.untouched (rttTransportOpen_initialized opens port) [] tick).run run
  exact ⟨awake.counted, awake.not_suspended⟩

/-- A byte arrives between the device read that found none and the take. -/
theorem serial_no_lost_wake_up_late_byte : ∃ line : SerialLine, line.fifo = [7] ∧
    (line.reading.map Reading.point = some (.take 0 1) ∧ line.port.rxSem = 1) ∧
    (line.fifo ≠ [] → ¬ line.Suspended) := by
  have called := Relation.ReflTransGen.single
    (SerialLine.Step.begin (.untouched [] (rttTransportOpen true true .boot).2 0) ⟨1, 4, 0, fun _ => 0⟩ (by decide) rfl rfl)
  have failed := called.tail (.poll _ _ 0 rfl rfl)
  have arrived := failed.tail (.arrive _ 7)
  exact ⟨_, rfl, ⟨rfl, rfl⟩, (serial_no_lost_wake_up arrived).2⟩

end MicroRos
