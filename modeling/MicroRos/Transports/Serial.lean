import MicroRos.Memory.Contents
import Mathlib.Logic.Function.Basic

/-! The serial transport.

The reader is an automaton: between two of its points it makes one call into the kernel,
and it goes on with the answer of that call. Who answers, and what happens in between, is
left to the models that use it.
-/

set_option autoImplicit false

namespace MicroRos

open Memory (Byte)

/-- The static variables of the serial transport. The fields `deviceOpen` and `indicated` are not part
of the program: they record whether the device is open and whether it calls `uart_input`. -/
structure SerialPort where
  semInitialized : Bool
  /-- Count of `rx_sem`. -/
  rxSem : Nat
  /-- Whether `micro_ros_serial` refers to a device. -/
  device : Bool
  deviceOpen : Bool
  indicated : Bool
  deriving DecidableEq, Repr

namespace SerialPort

def boot : SerialPort := ⟨false, 0, false, false, false⟩

/-- `rt_sem_init` on first use. -/
def initSem (port : SerialPort) : SerialPort :=
  if port.semInitialized then port else { port with semInitialized := true, rxSem := 0 }

/-- `uart_input`. -/
def uartInput (port : SerialPort) : SerialPort := { port with rxSem := port.rxSem + 1 }

@[simp] theorem initSem_device (port : SerialPort) : port.initSem.device = port.device := by
  unfold initSem
  split <;> rfl

@[simp] theorem initSem_deviceOpen (port : SerialPort) : port.initSem.deviceOpen = port.deviceOpen := by
  unfold initSem
  split <;> rfl

end SerialPort

/-- `found` and `opens` are the outcomes of `rt_device_find` and `rt_device_open`. -/
def rttTransportOpen (found opens : Bool) (port : SerialPort) : Bool × SerialPort :=
  if !found then (false, { port with device := false })
  else
    let ready := { port with device := true }.initSem
    -- The result of `rt_device_open` is not looked at.
    (true, { ready with deviceOpen := ready.deviceOpen || opens, indicated := true })

/-- `closes` is the outcome of `rt_device_close`. -/
def rttTransportClose (closes : Bool) (port : SerialPort) : Bool × SerialPort :=
  (true, { port with
    deviceOpen := port.deviceOpen && !closes
    semInitialized := false })

/-- `written` is the result of `rt_device_write`; `*errcode` is not written. -/
def rttTransportWrite (written : Nat) (errcode : UInt8) : Nat × UInt8 := (written, errcode)

/-- The arguments of a `rtt_transport_read`, its variable `tick`, and its buffer. -/
structure ReadCall where
  len : Nat
  timeout : Int32
  tick : Int32
  buf : Nat → Byte

/-- The next call into the kernel: the device is read into `buf[i]`, the semaphore is taken for at most so
many ticks, or the tick counter is compared; or the read has returned. -/
inductive ReadPoint where
  | poll (i : Nat)
  | take (i : Nat) (ticks : Int)
  | check (i : Nat)
  | returned (count : Nat)
  deriving DecidableEq, Repr

namespace ReadPoint

/-- How many bytes are in the buffer. -/
def count : ReadPoint → Nat
  | .poll i | .take i _ | .check i => i
  | .returned count => count

def running : ReadPoint → Bool
  | .returned _ => false
  | _ => true

end ReadPoint

/-- What the kernel answers. -/
inductive Answer where
  | read (byte : Option Byte)
  | woken
  | now (tick : UInt32)

namespace ReadCall

/-- The head of the loop over the buffer. -/
def head (call : ReadCall) (i : Nat) : ReadPoint := if i < call.len then .poll i else .returned call.len

/-- The argument of `rt_sem_take`. -/
def patience (call : ReadCall) : Int := call.timeout.toInt.tdiv 4

/-- `(rt_tick_get() - tick) > timeout`, compared as unsigned numbers. -/
def expired (call : ReadCall) (now : UInt32) : Bool := decide (now - call.tick.toUInt32 > call.timeout.toUInt32)

/-- Where the reader goes with an answer; answers to other calls do not occur. -/
def next (call : ReadCall) : ReadPoint → Answer → ReadCall × ReadPoint
  | .poll i, .read (some byte) => ({ call with buf := Function.update call.buf i byte }, call.head (i + 1))
  | .poll i, .read none => (call, .take i call.patience)
  | .take i _, .woken => (call, .check i)
  | .check i, .now tick => (call, if call.expired tick then .returned i else .poll i)
  | point, _ => (call, point)

/-- The bytes that the reader has put into the buffer. -/
def gathered (call : ReadCall) (point : ReadPoint) : List Byte := (List.range point.count).map call.buf

/-- Bytes in an answer. -/
def delivered : ReadPoint → Answer → List Byte
  | .poll _, .read (some byte) => [byte]
  | _, _ => []

/-- The reader goes on with several answers. -/
def run (call : ReadCall) (point : ReadPoint) : List Answer → ReadCall × ReadPoint
  | [] => (call, point)
  | answer :: answers => (call.next point answer).1.run (call.next point answer).2 answers

/-- The bytes that the device gave to the reader. -/
def transferred (call : ReadCall) (point : ReadPoint) : List Answer → List Byte
  | [] => []
  | answer :: answers =>
    delivered point answer ++ (call.next point answer).1.transferred (call.next point answer).2 answers

/-- Decreases with every answer that brings the read closer to its return. -/
def remaining (call : ReadCall) : ReadPoint → Nat
  | .poll i => 3 * (call.len - i) + 1
  | .check i => 3 * (call.len - i) + 2
  | .take i _ => 3 * (call.len - i) + 3
  | .returned _ => 0

theorem head_count (call : ReadCall) {i : Nat} (inside : i ≤ call.len) : (call.head i).count = i := by
  unfold head
  split
  · rfl
  · simp only [ReadPoint.count]
    omega

theorem head_running (call : ReadCall) {i : Nat} (runs : (call.head i).running = true) : i < call.len := by
  unfold head at runs
  split at runs
  · assumption
  · cases runs

/-- The reader has filled its buffer up to its index, and has not left it. -/
structure Filled (start call : ReadCall) (point : ReadPoint) : Prop where
  len : call.len = start.len
  inside : point.count ≤ call.len
  room : point.running = true → point.count < call.len
  outside : ∀ k, point.count ≤ k → call.buf k = start.buf k

theorem Filled.start (call : ReadCall) : Filled call call (call.head 0) := by
  have none := call.head_count (Nat.zero_le _)
  refine ⟨rfl, by rw [none]; exact Nat.zero_le _, fun runs => ?_, fun _ _ => rfl⟩
  rw [none]
  exact call.head_running runs

theorem remaining_next_poll (call : ReadCall) (i : Nat) (byte : Byte) :
    (call.next (.poll i) (.read (some byte))).1.remaining (call.next (.poll i) (.read (some byte))).2 <
      call.remaining (.poll i) := by
  simp only [next, head]
  split <;> simp only [remaining] <;> omega

theorem gathered_head (call : ReadCall) : call.gathered (call.head 0) = [] := by
  rw [gathered, call.head_count (Nat.zero_le _)]
  rfl

/-- One answer: the reader stays inside its buffer, and gathers exactly what was delivered. -/
theorem Filled.next {start call : ReadCall} {point : ReadPoint} (filled : Filled start call point)
    (answer : Answer) :
    Filled start (call.next point answer).1 (call.next point answer).2 ∧
      (call.next point answer).1.gathered (call.next point answer).2 =
        call.gathered point ++ delivered point answer := by
  obtain ⟨len, inside, room, outside⟩ := filled
  -- Most answers only move the point.
  have unchanged : ∀ point', point'.count = point.count → (point'.running = true → point.running = true) →
      Filled start call point' ∧ call.gathered point' = call.gathered point ++ [] := by
    intro point' same runs
    refine ⟨⟨len, by omega, fun running => ?_, fun k behind => outside k (by omega)⟩, ?_⟩
    · have := room (runs running)
      omega
    · rw [gathered, same, List.append_nil, gathered]
  cases point with
  | returned count => exact unchanged _ rfl id
  | take i ticks =>
    cases answer with
    | woken => exact unchanged (.check i) rfl fun _ => rfl
    | read | now => exact unchanged _ rfl id
  | check i =>
    cases answer with
    | now tick =>
      refine unchanged (if call.expired tick then .returned i else .poll i) ?_ fun _ => rfl
      split <;> rfl
    | read | woken => exact unchanged _ rfl id
  | poll i =>
    cases answer with
    | woken | now => exact unchanged _ rfl id
    | read byte =>
      cases byte with
      | none => exact unchanged (.take i call.patience) rfl fun _ => rfl
      | some byte =>
        -- The only write: one byte at the index, which then advances.
        have below : i < call.len := room rfl
        have counted : (call.head (i + 1)).count = i + 1 := call.head_count below
        simp only [ReadCall.next, delivered, gathered]
        refine ⟨⟨len, by rw [counted]; exact below, fun runs => ?_, fun k behind => ?_⟩, ?_⟩
        · rw [counted]
          exact call.head_running runs
        · rw [counted] at behind
          have elsewhere : k ≠ i := by omega
          refine (Function.update_of_ne elsewhere _ _).trans (outside k ?_)
          simp only [ReadPoint.count]
          omega
        · rw [counted, List.range_succ, List.map_append, List.map_singleton, Function.update_self]
          congr 1
          refine List.map_congr_left fun k member => Function.update_of_ne ?_ _ _
          change k ∈ List.range i at member
          have := List.mem_range.mp member
          omega

theorem Filled.run {start call : ReadCall} {point : ReadPoint} (filled : Filled start call point)
    (answers : List Answer) :
    Filled start (call.run point answers).1 (call.run point answers).2 ∧
      (call.run point answers).1.gathered (call.run point answers).2 =
        call.gathered point ++ call.transferred point answers := by
  induction answers generalizing call point with
  | nil => exact ⟨filled, (List.append_nil _).symm⟩
  | cons answer answers ih =>
    obtain ⟨next, gathers⟩ := filled.next answer
    obtain ⟨last, rest⟩ := ih next
    refine ⟨last, rest.trans ?_⟩
    rw [gathers, List.append_assoc, transferred]

end ReadCall

/-- `rtt_transport_read` up to its return, if the answers lead there; `*errcode` is not written. -/
def rttTransportRead (call : ReadCall) (answers : List Answer) (errcode : UInt8) : Option (Nat × UInt8) :=
  match (call.run (call.head 0) answers).2 with
  | .returned count => some (count, errcode)
  | _ => none

/-- A read returns as many bytes as the device gave, and no more than were asked for. -/
theorem rttTransportRead_count {call : ReadCall} {answers : List Answer} {errcode : UInt8}
    {result : Nat × UInt8} (returns : rttTransportRead call answers errcode = some result) :
    result.1 ≤ call.len ∧ result.1 = (call.transferred (call.head 0) answers).length := by
  obtain ⟨filled, gathers⟩ := (ReadCall.Filled.start call).run answers
  rw [ReadCall.gathered_head, List.nil_append] at gathers
  unfold rttTransportRead at returns
  split at returns
  · rename_i count last
    cases returns
    have inside := filled.inside
    rw [last] at inside gathers
    exact ⟨filled.len ▸ inside, by rw [← gathers, ReadCall.gathered, List.length_map, List.length_range]; rfl⟩
  · cases returns

end MicroRos
