import MicroRos.Transports.SocketOwnership
import MicroRos.Transports.Serial
import MicroRos.Introspection.Messages

/-! The contract of the callbacks of a custom transport.

What a call has to return is said once, and each of the twelve callbacks is compared with
it. A run consists of arbitrary calls, so what has to be shown is a fact about one call in
any state.
-/

set_option autoImplicit false

namespace MicroRos

/-- What `write` and `read` have to return: a count, and an error that is set when the call failed. -/
structure Transfers (len transferred : Nat) (failed : Prop) (result : Nat × UInt8) : Prop where
  within : result.1 ≤ len
  exact : result.1 = transferred
  reported : failed → result.1 = 0 ∧ result.2 ≠ 0

section History

variable {State Call : Type} (perform : State → Call → State)

/-- The calls of a run, each with the state in which it is made. -/
def history (s : State) : List Call → List (State × Call)
  | [] => []
  | call :: calls => (s, call) :: history (perform s call) calls

variable {perform} {Possible Meets Clean : State → Call → Prop}

/-- What is so of every possible call is so of every run of possible calls. -/
theorem forall_history_iff (one : ∀ s call, Possible s call → (Meets s call ↔ Clean s call)) {s : State}
    {calls : List Call} (possible : ∀ made ∈ history perform s calls, Possible made.1 made.2) :
    (∀ made ∈ history perform s calls, Meets made.1 made.2) ↔
      ∀ made ∈ history perform s calls, Clean made.1 made.2 := by
  apply forall₂_congr
  intro made member
  apply one
  exact possible made member

end History

section Serial

inductive SerialOperation where
  | open (found opens : Bool)
  | close (closes : Bool)
  | write (len written : Nat) (errcode : UInt8)
  | read (call : ReadCall) (answers : List Answer) (errcode : UInt8)

namespace SerialOperation

/-- The device takes at most the bytes it is given, and a read returns. -/
def Possible (_ : SerialPort) : SerialOperation → Prop
  | .write len written _ => written ≤ len
  | .read call answers errcode => (rttTransportRead call answers errcode).isSome = true
  | _ => True

def perform (port : SerialPort) : SerialOperation → SerialPort
  | .open found opens => (rttTransportOpen found opens port).2
  | .close closes => (rttTransportClose closes port).2
  | .write _ _ _ => port
  | .read call _ _ => if call.len = 0 then port else port.initSem

/-- The call returns what the contract asks for. -/
def Meets (port : SerialPort) : SerialOperation → Prop
  | .open found opens =>
    (rttTransportOpen found opens port).1 = true → (rttTransportOpen found opens port).2.deviceOpen = true
  | .close closes => (rttTransportClose closes port).1 = true ↔ closes = true
  | .write len written errcode => Transfers len written False (rttTransportWrite written errcode)
  | .read call answers errcode => ∀ result, rttTransportRead call answers errcode = some result →
    Transfers call.len (call.transferred (call.head 0) answers).length False result

/-- The device can be opened, if there is one, and closed. -/
def Clean (port : SerialPort) : SerialOperation → Prop
  | .open found opens => found = true → port.deviceOpen = true ∨ opens = true
  | .close closes => closes = true
  | _ => True

theorem meets_iff (port : SerialPort) (call : SerialOperation) (possible : call.Possible port) :
    call.Meets port ↔ call.Clean port := by
  cases call with
  | «open» found opens => cases found <;> simp [Meets, Clean, rttTransportOpen]
  | close closes => simp [Meets, Clean, rttTransportClose]
  | write len written errcode =>
    exact ⟨fun _ => trivial, fun _ => ⟨possible, rfl, False.elim⟩⟩
  | read call answers errcode =>
    refine ⟨fun _ => trivial, fun _ result returns => ?_⟩
    obtain ⟨within, counted⟩ := rttTransportRead_count returns
    exact ⟨within, counted, False.elim⟩

end SerialOperation

end Serial

section Sockets

variable (target : Target)

/-- The callbacks of a socket transport. A read first sets its timeout, or does not; the values of
`setsockopt` and of `recv` are arguments. -/
structure SocketCallbacks extends SocketTransport where
  transportWrite : Int → UInt8 → Nat × UInt8
  setsTimeout : Bool
  transportRead : Int → Int → Int → UInt8 → SocketState → (Nat × UInt8) × SocketState

def udpCallbacks : SocketCallbacks where
  toSocketTransport := udpTransport
  transportWrite sent _ := rttUdpTransportWrite target sent
  setsTimeout := true
  transportRead timeout configured received _ := rttUdpTransportRead target timeout configured received

def tcpCallbacks : SocketCallbacks where
  toSocketTransport := tcpTransport
  transportWrite := rttTcpTransportWrite target
  setsTimeout := false
  transportRead _ _ received errcode s := (rttTcpTransportRead target received errcode, s)

inductive SocketOperation where
  | open (locator : AgentLocator) (outcome : OpenOutcome)
  | close (succeeds : Bool)
  | write (len : Nat) (sent : Int) (errcode : UInt8)
  | read (len : Nat) (timeout configured received : Int) (errcode : UInt8)

/-- A value of `send` or `recv`: -1, or a number of bytes. -/
def TransferResult (len : Nat) (n : Int) : Prop := len < target.modulus ∧ (n = -1 ∨ 0 ≤ n ∧ n ≤ len)

instance (len : Nat) (n : Int) : Decidable (TransferResult target len n) := by
  unfold TransferResult
  infer_instance

def SocketOperation.Possible (s : SocketState) : SocketOperation → Prop
  | .open _ outcome => outcome.Possible s.opened
  | .close _ => True
  | .write len sent _ => TransferResult target len sent
  | .read len _ _ received _ => TransferResult target len received

namespace SocketCallbacks

variable (callbacks : SocketCallbacks)

def perform (s : SocketState) : SocketOperation → SocketState
  | .open locator outcome => (callbacks.transportOpen locator outcome s).2
  | .close succeeds => (callbacks.transportClose succeeds s).2
  | .write _ _ _ => s
  | .read _ timeout configured received errcode =>
    (callbacks.transportRead timeout configured received errcode s).2

/-- Whether a read calls `recv`. -/
def receives (configured : Int) : Prop := callbacks.setsTimeout = true → configured = 0

instance (configured : Int) : Decidable (callbacks.receives configured) := by
  unfold receives
  infer_instance

def Meets (s : SocketState) : SocketOperation → Prop
  | .open locator outcome =>
    let opened := callbacks.transportOpen locator outcome s
    opened.1 = true → opened.2.sock ∈ opened.2.opened ∧ opened.2.connected = true
  | .close succeeds =>
    (callbacks.transportClose succeeds s).1 = true ↔ (s.closesocket succeeds).1 = 0
  | .write len sent errcode =>
    Transfers len sent.toNat (sent = -1) (callbacks.transportWrite sent errcode)
  | .read len timeout configured received errcode =>
    let result := (callbacks.transportRead timeout configured received errcode s).1
    if callbacks.receives configured then Transfers len received.toNat (received = -1) result
    else Transfers len 0 True result

end SocketCallbacks

variable {target} {len : Nat} {n : Int} {errcode : UInt8}

theorem TransferResult.transfers (result : TransferResult target len n) (success : n ≠ -1) :
    Transfers len n.toNat (n = -1) (target.toSize n, errcode) := by
  obtain ⟨small, failed | ⟨nonneg, within⟩⟩ := result
  · exact absurd failed success
  · have counted := target.toSize_of_nonneg nonneg (by omega)
    exact ⟨by omega, by omega, fun failed => absurd failed success⟩

/-- The count that stands for a failure is not the number of bytes that were transferred. -/
theorem not_transfers_neg_one :
    ¬Transfers len (-1 : Int).toNat ((-1 : Int) = -1) (target.toSize (-1), errcode) := by
  intro transfers
  have exact := transfers.exact
  have large := target.modulus_ge
  simp only [Target.toSize_neg_one] at exact
  change target.modulus - 1 = 0 at exact
  omega

theorem TransferResult.transfers_iff (result : TransferResult target len n) :
    Transfers len n.toNat (n = -1) (target.toSize n, errcode) ↔ n ≠ -1 := by
  constructor
  · rintro transfers rfl
    exact not_transfers_neg_one transfers
  · exact result.transfers

/-- No result of `closesocket` becomes the right Boolean. -/
theorem closesocket_not_reported (succeeds : Bool) (s : SocketState) :
    ¬(((s.closesocket succeeds).1 != 0) = true ↔ (s.closesocket succeeds).1 = 0) := by
  by_cases closed : (s.closesocket succeeds).1 = 0 <;> simp [closed]

namespace SocketOperation

/-- A close never returns what the contract asks for; everything else does. -/
def UdpClean (_ : SocketState) : SocketOperation → Prop
  | .close _ => False
  | _ => True

/-- Nor does a failed transfer. -/
def TcpClean (_ : SocketState) : SocketOperation → Prop
  | .open _ _ => True
  | .close _ => False
  | .write _ sent _ => sent ≠ -1
  | .read _ _ _ received _ => received ≠ -1

variable {s : SocketState}

theorem udp_write_transfers (result : TransferResult target len n) :
    Transfers len n.toNat (n = -1) (rttUdpTransportWrite target n) := by
  unfold rttUdpTransportWrite
  split
  · exact result.transfers (Ne.symm ‹_›)
  · rename_i failed
    obtain rfl := not_not.mp failed
    exact ⟨Nat.zero_le _, rfl, fun _ => ⟨rfl, by decide⟩⟩

theorem udp_read_transfers {timeout configured : Int} (result : TransferResult target len n) :
    if (udpCallbacks target).receives configured then
      Transfers len n.toNat (n = -1) (rttUdpTransportRead target timeout configured n s).1
    else Transfers len 0 True (rttUdpTransportRead target timeout configured n s).1 := by
  have written := udp_write_transfers result
  unfold rttUdpTransportWrite at written
  by_cases set : configured = 0
  · simp only [SocketCallbacks.receives, set, implies_true, if_true, rttUdpTransportRead, ne_eq,
      not_true, if_false]
    split <;> simp_all
  · have unset := Ne.symm set
    simp only [SocketCallbacks.receives, udpCallbacks, set, rttUdpTransportRead, ne_eq, unset,
      not_false_eq_true, if_true, imp_false, not_true, if_false]
    exact ⟨Nat.zero_le _, rfl, fun _ => ⟨rfl, by decide⟩⟩

theorem udp_meets_iff (s : SocketState) (call : SocketOperation) (possible : call.Possible target s) :
    (udpCallbacks target).Meets s call ↔ call.UdpClean s := by
  cases call with
  | «open» locator outcome =>
    refine ⟨fun _ => trivial, fun _ => ?_⟩
    simp only [SocketCallbacks.Meets, udpCallbacks, udpTransport, rttUdpTransportOpen]
    split
    · simp
    · split <;> simp_all [SocketState.socket, SocketState.address]
      split <;> simp_all
  | close succeeds =>
    exact ⟨fun meets => closesocket_not_reported succeeds s meets, False.elim⟩
  | write len sent errcode => exact ⟨fun _ => trivial, fun _ => udp_write_transfers possible⟩
  | read len timeout configured received errcode =>
    exact ⟨fun _ => trivial, fun _ => udp_read_transfers possible⟩

theorem tcp_meets_iff (s : SocketState) (call : SocketOperation) (possible : call.Possible target s) :
    (tcpCallbacks target).Meets s call ↔ call.TcpClean s := by
  cases call with
  | «open» locator outcome =>
    refine ⟨fun _ => trivial, fun _ => ?_⟩
    simp only [SocketCallbacks.Meets, tcpCallbacks, tcpTransport, rttTcpTransportOpen]
    split
    · simp
    · split <;> simp_all [SocketState.socket, SocketState.address]
      split <;> simp_all
  | close succeeds =>
    exact ⟨fun meets => closesocket_not_reported succeeds s meets, False.elim⟩
  | write len sent errcode => exact possible.transfers_iff
  | read len timeout configured received errcode =>
    -- No timeout is set, so `recv` is always called.
    have receives : (tcpCallbacks target).receives configured := fun sets => Bool.noConfusion sets
    simp only [SocketCallbacks.Meets, receives, if_true]
    exact possible.transfers_iff

end SocketOperation

end Sockets

/-- Each transport keeps the contract over a whole run if and only if: for serial, every device that is
found can be opened, and every close succeeds; for UDP, nothing is closed; for TCP, nothing is closed
and no transfer fails. -/
theorem contracts_kept_iff (target : Target) {serialCalls : List SerialOperation}
    {udpCalls tcpCalls : List SocketOperation}
    (serialPossible : ∀ made ∈ history SerialOperation.perform .boot serialCalls, made.2.Possible made.1)
    (udpPossible : ∀ made ∈ history (udpCallbacks target).perform .boot udpCalls,
      made.2.Possible target made.1)
    (tcpPossible : ∀ made ∈ history (tcpCallbacks target).perform .boot tcpCalls,
      made.2.Possible target made.1) :
    ((∀ made ∈ history SerialOperation.perform .boot serialCalls, made.2.Meets made.1) ↔
        ∀ made ∈ history SerialOperation.perform .boot serialCalls, made.2.Clean made.1) ∧
      ((∀ made ∈ history (udpCallbacks target).perform .boot udpCalls,
          (udpCallbacks target).Meets made.1 made.2) ↔
        ∀ made ∈ history (udpCallbacks target).perform .boot udpCalls, made.2.UdpClean made.1) ∧
      ((∀ made ∈ history (tcpCallbacks target).perform .boot tcpCalls,
          (tcpCallbacks target).Meets made.1 made.2) ↔
        ∀ made ∈ history (tcpCallbacks target).perform .boot tcpCalls, made.2.TcpClean made.1) := by
  refine ⟨?_, ?_, ?_⟩
  · exact forall_history_iff (fun port call => call.meets_iff port) serialPossible
  · exact forall_history_iff SocketOperation.udp_meets_iff udpPossible
  · exact forall_history_iff SocketOperation.tcp_meets_iff tcpPossible

/-- A session with an agent at 127.0.0.1. -/
def agentOpen : SocketOperation := .open ⟨.empty, 8888⟩ ⟨some ⟨0x0100007f⟩, 3, true⟩

/-- A device that is found and cannot be opened; a UDP socket that is closed; a TCP read that times out. -/
theorem contracts_not_kept :
    ((∀ made ∈ history SerialOperation.perform .boot [.open true false], made.2.Possible made.1) ∧
      ¬ ∀ made ∈ history SerialOperation.perform .boot [.open true false], made.2.Meets made.1) ∧
    ((∀ made ∈ history (udpCallbacks cortexM).perform .boot [agentOpen, .close true],
        made.2.Possible cortexM made.1) ∧
      ¬ ∀ made ∈ history (udpCallbacks cortexM).perform .boot [agentOpen, .close true],
        (udpCallbacks cortexM).Meets made.1 made.2) ∧
    ((∀ made ∈ history (tcpCallbacks cortexM).perform .boot [agentOpen, .read 512 100 0 (-1) 0],
        made.2.Possible cortexM made.1) ∧
      ¬ ∀ made ∈ history (tcpCallbacks cortexM).perform .boot [agentOpen, .read 512 100 0 (-1) 0],
        (tcpCallbacks cortexM).Meets made.1 made.2) := by
  refine ⟨⟨?_, fun meets => ?_⟩, ⟨?_, fun meets => ?_⟩, ?_, fun meets => ?_⟩
  · simp [history, SerialOperation.Possible]
  · have opened := meets _ List.mem_cons_self
    simp [SerialOperation.Meets, rttTransportOpen, SerialPort.boot] at opened
  · simp [history, SocketOperation.Possible, agentOpen, OpenOutcome.Possible, SocketState.boot]
  · -- The second call of the run is the close.
    have closed := meets _ (List.mem_cons_of_mem _ List.mem_cons_self)
    exact (SocketOperation.udp_meets_iff _ (.close true) trivial).mp closed
  · simp [history, SocketOperation.Possible, agentOpen, OpenOutcome.Possible, SocketState.boot,
      TransferResult, cortexM, Target.modulus]
  · have read := meets _ (List.mem_cons_of_mem _ List.mem_cons_self)
    have failed : TransferResult cortexM 512 (-1) := ⟨by decide, Or.inl rfl⟩
    exact (SocketOperation.tcp_meets_iff _ (.read 512 100 0 (-1) 0) failed).mp read rfl

/-- A line that is opened, written, read and closed; datagrams that are sent and received; a stream that
is written and read. -/
theorem contracts_kept_session :
    let serialCalls : List SerialOperation := [.open true true, .write 4 3 0,
      .read ⟨2, 0, 0, fun _ => 0⟩ [.read (some 7), .read none, .woken, .now 5] 0, .close true]
    let udpCalls := [agentOpen, .write 8 8 0, .read 512 100 0 (-1) 0]
    let tcpCalls := [agentOpen, .write 8 5 0, .read 512 100 0 12 0]
    ((∀ made ∈ history SerialOperation.perform .boot serialCalls, made.2.Meets made.1) ↔
        ∀ made ∈ history SerialOperation.perform .boot serialCalls, made.2.Clean made.1) ∧
      ((∀ made ∈ history (udpCallbacks cortexM).perform .boot udpCalls,
          (udpCallbacks cortexM).Meets made.1 made.2) ↔
        ∀ made ∈ history (udpCallbacks cortexM).perform .boot udpCalls, made.2.UdpClean made.1) ∧
      ((∀ made ∈ history (tcpCallbacks cortexM).perform .boot tcpCalls,
          (tcpCallbacks cortexM).Meets made.1 made.2) ↔
        ∀ made ∈ history (tcpCallbacks cortexM).perform .boot tcpCalls, made.2.TcpClean made.1) := by
  apply contracts_kept_iff
  · simp only [history, List.forall_mem_cons, SerialOperation.Possible]
    exact ⟨trivial, by decide, by decide, trivial, List.forall_mem_nil _⟩
  · simp [history, SocketOperation.Possible, agentOpen, OpenOutcome.Possible, SocketState.boot,
      TransferResult, cortexM, Target.modulus]
  · simp [history, SocketOperation.Possible, agentOpen, OpenOutcome.Possible, SocketState.boot,
      TransferResult, cortexM, Target.modulus]

end MicroRos
