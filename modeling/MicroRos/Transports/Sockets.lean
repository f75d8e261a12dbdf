import MicroRos.Introspection.Members
import Mathlib.Data.Finset.Card

/-! The UDP and TCP transports.

The outcomes of the calls into the network stack are arguments. The fields `opened`,
`connected`, `most` and `nullReads` are not part of the program: they record which
descriptors the transport has open, whether `sock` has a connection, how many descriptors
were open at once, and how often a host was read through a null pointer.
-/

set_option autoImplicit false

namespace MicroRos

/-- `struct micro_ros_agent_locator`. -/
structure AgentLocator where
  address : CString
  port : Int

/-- What is read of a `struct hostent`. -/
structure Host where
  addr : UInt32
  deriving DecidableEq, Repr

structure SockaddrIn where
  sinPort : UInt16
  sinAddr : UInt32
  deriving DecidableEq, Repr

structure Timeval where
  tvSec : Int
  tvUsec : Int
  deriving DecidableEq, Repr

/-- The static variables of a socket transport, and the options of its socket. -/
structure SocketState where
  sock : Int
  host : Option Host
  serverAddr : SockaddrIn
  receiveTimeout : Option Timeval
  sendTimeout : Option Timeval
  opened : Finset Int
  connected : Bool
  most : Nat
  nullReads : Nat

/-- What the network stack answers while a transport is opened: `gethostbyname`, `socket` (a
descriptor or -1) and `connect`. -/
structure OpenOutcome where
  host : Option Host
  socket : Int
  connects : Bool

namespace OpenOutcome

/-- The value of `connect`. -/
def connect (outcome : OpenOutcome) : Int := if outcome.connects then 0 else -1

/-- A descriptor that is returned is not in use. -/
def Possible (outcome : OpenOutcome) (opened : Finset Int) : Prop :=
  outcome.socket = -1 ∨ 0 ≤ outcome.socket ∧ outcome.socket ∉ opened

instance (outcome : OpenOutcome) (opened : Finset Int) : Decidable (outcome.Possible opened) := by
  unfold Possible
  infer_instance

end OpenOutcome

namespace SocketState

def boot : SocketState := ⟨0, none, ⟨0, 0⟩, none, none, ∅, false, 0, 0⟩

/-- `sock = socket(AF_INET, …, 0)`. -/
def socket (descriptor : Int) (s : SocketState) : SocketState :=
  if descriptor = -1 then { s with sock := -1 }
  else
    { s with
      sock := descriptor
      opened := insert descriptor s.opened
      connected := false
      most := max s.most (insert descriptor s.opened).card
      receiveTimeout := none
      sendTimeout := none }

/-- `closesocket(sock)`: 0 when a socket was closed. -/
def closesocket (succeeds : Bool) (s : SocketState) : Int × SocketState :=
  if s.sock ∈ s.opened ∧ succeeds = true then
    (0, { s with opened := s.opened.erase s.sock, connected := false })
  else (-1, s)

def htons (port : Int) : UInt16 :=
  let bits := UInt16.ofInt port
  bits <<< 8 ||| bits >>> 8

/-- The assignments to `server_addr`, with `*host->h_addr`. -/
def address (locator : AgentLocator) (s : SocketState) : SocketState :=
  { s with
    serverAddr := ⟨htons locator.port, (s.host.getD ⟨0⟩).addr⟩
    nullReads := if s.host.isNone then s.nullReads + 1 else s.nullReads }

end SocketState

/-- Conversion of an `ssize_t` to `size_t`. -/
def Target.toSize (target : Target) (n : Int) : Nat := (n % target.modulus).toNat

section Udp

def rttUdpTransportOpen (locator : AgentLocator) (outcome : OpenOutcome) (s : SocketState) :
    Bool × SocketState :=
  let created := { s with host := outcome.host }.socket outcome.socket
  if created.sock = -1 then (false, (created.closesocket true).2)
  else
    let addressed := created.address locator
    -- Here the socket is not closed.
    if outcome.connect < 0 then (false, addressed)
    else (true, { addressed with connected := true })

def rttUdpTransportClose (succeeds : Bool) (s : SocketState) : Bool × SocketState :=
  let closed := s.closesocket succeeds
  -- The value of `closesocket`, converted to `bool`: success is zero.
  (closed.1 != 0, closed.2)

/-- `sent` is the value of `send`. -/
def rttUdpTransportWrite (target : Target) (sent : Int) : Nat × UInt8 :=
  if -1 ≠ sent then (target.toSize sent, 0) else (0, 1)

/-- The timeout that is set before a datagram is received. -/
def udpReceiveTimeout (timeout : Int) : Timeval :=
  let timeout := if timeout ≤ 0 then 1 else timeout
  ⟨timeout.tdiv 1000, timeout.tmod 1000 * 1000⟩

/-- `configured` and `received` are the values of `setsockopt` and of `recv`. -/
def rttUdpTransportRead (target : Target) (timeout configured received : Int) (s : SocketState) :
    (Nat × UInt8) × SocketState :=
  if 0 ≠ configured then ((0, 1), s)
  else
    let set := { s with receiveTimeout := some (udpReceiveTimeout timeout) }
    if -1 ≠ received then ((target.toSize received, 0), set) else ((0, 1), set)

end Udp

section Tcp

def tcpTimeout : Timeval := ⟨0, 200000⟩

def rttTcpTransportOpen (locator : AgentLocator) (outcome : OpenOutcome) (s : SocketState) :
    Bool × SocketState :=
  let created := { s with host := outcome.host }.socket outcome.socket
  if created.sock = -1 then (false, (created.closesocket true).2)
  else
    let addressed := created.address locator
    let limited := { addressed with receiveTimeout := some tcpTimeout, sendTimeout := some tcpTimeout }
    if outcome.connect = -1 then (false, (limited.closesocket true).2)
    else (true, { limited with connected := true })

def rttTcpTransportClose (succeeds : Bool) (s : SocketState) : Bool × SocketState :=
  let closed := s.closesocket succeeds
  (closed.1 != 0, closed.2)

/-- `*errcode` is not written. -/
def rttTcpTransportWrite (target : Target) (sent : Int) (errcode : UInt8) : Nat × UInt8 :=
  (target.toSize sent, errcode)

def rttTcpTransportRead (target : Target) (received : Int) (errcode : UInt8) : Nat × UInt8 :=
  (target.toSize received, errcode)

end Tcp

/-- The bytes of a value that is not negative are counted as they are. -/
theorem Target.toSize_of_nonneg (target : Target) {n : Int} (nonneg : 0 ≤ n) (small : n < target.modulus) :
    (target.toSize n : Int) = n := by
  rw [Target.toSize, Int.emod_eq_of_lt nonneg small, Int.toNat_of_nonneg nonneg]

/-- A failure is the largest value of the type. -/
theorem Target.toSize_neg_one (target : Target) : target.toSize (-1) = target.modulus - 1 := by
  have large := target.modulus_ge
  have wrapped : (-1 : Int) % target.modulus = (target.modulus : Int) - 1 := by
    rw [← Int.add_emod_right (-1)]
    exact Int.emod_eq_of_lt (by omega) (by omega)
  rw [Target.toSize, wrapped]
  omega

end MicroRos
