import MicroRos.Transports.Sockets

/-! Which sockets a transport has open over a run of open and close calls.

The induction over a run is made once for both transports; what differs is the condition
under which one open call leaves nothing behind.
-/

set_option autoImplicit false

namespace MicroRos

structure SocketTransport where
  transportOpen : AgentLocator → OpenOutcome → SocketState → Bool × SocketState
  transportClose : Bool → SocketState → Bool × SocketState

def udpTransport : SocketTransport := ⟨rttUdpTransportOpen, rttUdpTransportClose⟩

def tcpTransport : SocketTransport := ⟨rttTcpTransportOpen, rttTcpTransportClose⟩

inductive SocketCall where
  | open (locator : AgentLocator) (outcome : OpenOutcome)
  | close

/-- A transport between two calls; `held` says that the last open returned true and was not followed
by a close. -/
structure SocketSession where
  state : SocketState
  held : Bool

namespace SocketSession

def boot : SocketSession := ⟨.boot, false⟩

/-- An open is issued only when the one before failed or was closed, and `socket` returns no
descriptor that is in use. -/
def Allows (session : SocketSession) : SocketCall → Prop
  | .open _ outcome => session.held = false ∧ outcome.Possible session.state.opened
  | .close => True

instance (session : SocketSession) (call : SocketCall) : Decidable (session.Allows call) := by
  cases call <;> simp only [Allows] <;> infer_instance

/-- No null host was read, and the transport owns no socket or, while it is open, only `sock`. -/
structure Owns (session : SocketSession) : Prop where
  noNullRead : session.state.nullReads = 0
  opened : session.state.opened = if session.held then {session.state.sock} else ∅
  most : session.state.most ≤ 1

end SocketSession

namespace SocketTransport

variable (transport : SocketTransport)

/-- Closing an open socket succeeds. -/
def perform (session : SocketSession) : SocketCall → SocketSession
  | .open locator outcome =>
    let opened := transport.transportOpen locator outcome session.state
    ⟨opened.2, opened.1⟩
  | .close => ⟨(transport.transportClose true session.state).2, false⟩

/-- The states after each call of a run. -/
def sessions (session : SocketSession) : List SocketCall → List SocketSession
  | [] => []
  | call :: calls => transport.perform session call :: sessions (transport.perform session call) calls

/-- Every call of the run is allowed where it is made. -/
def Run (session : SocketSession) : List SocketCall → Prop
  | [] => True
  | call :: calls => session.Allows call ∧ Run (transport.perform session call) calls

instance decidableRun (session : SocketSession) : (calls : List SocketCall) →
    Decidable (transport.Run session calls)
  | [] => isTrue trivial
  | call :: calls =>
    have := decidableRun (transport.perform session call) calls
    inferInstanceAs (Decidable (session.Allows call ∧ transport.Run (transport.perform session call) calls))

/-- A run owns its sockets exactly when each of its calls is clean, if that is so for one call. -/
theorem owns_iff_of_call {Clean : SocketCall → Prop}
    (one : ∀ session call, session.Owns → session.Allows call →
      ((transport.perform session call).Owns ↔ Clean call))
    {session : SocketSession} (owns : session.Owns) {calls : List SocketCall}
    (run : transport.Run session calls) :
    (∀ reached ∈ transport.sessions session calls, reached.Owns) ↔ ∀ call ∈ calls, Clean call := by
  -- In both directions the state behind the first call owns what it should, and the rest starts there.
  induction calls generalizing session with
  | nil => simp [sessions]
  | cons call calls ih =>
    obtain ⟨allowed, later⟩ := run
    have here := one session call owns allowed
    simp only [sessions, List.forall_mem_cons]
    constructor
    · rintro ⟨first, rest⟩
      exact ⟨here.mp first, (ih first later).mp rest⟩
    · rintro ⟨clean, rest⟩
      have first := here.mpr clean
      exact ⟨first, (ih first later).mpr rest⟩

end SocketTransport

theorem SocketSession.Owns.initial : SocketSession.boot.Owns := ⟨rfl, rfl, Nat.zero_le _⟩

/-- After a close nothing is open. -/
theorem SocketSession.Owns.close {session : SocketSession} (owns : session.Owns) :
    (⟨(session.state.closesocket true).2, false⟩ : SocketSession).Owns := by
  obtain ⟨noNullRead, opened, most⟩ := owns
  cases held : session.held with
  | true =>
    simp only [held, if_true] at opened
    have closes : session.state.sock ∈ session.state.opened := by simp [opened]
    refine ⟨?_, ?_, ?_⟩
    all_goals simp [SocketState.closesocket, closes, noNullRead, most]
    simp [opened]
  | false =>
    simp only [held, Bool.false_eq_true, if_false] at opened
    refine ⟨?_, ?_, ?_⟩
    all_goals simp [SocketState.closesocket, opened, noNullRead, most]

/-- Nor when no socket was created; `closesocket(-1)` then closes nothing. -/
theorem SocketSession.Owns.uncreated {session : SocketSession} (owns : session.Owns)
    (closed : session.held = false) (host : Option Host) :
    (⟨(({ session.state with host := host }.socket (-1)).closesocket true).2, false⟩ : SocketSession).Owns := by
  obtain ⟨noNullRead, opened, most⟩ := owns
  simp only [closed, Bool.false_eq_true, if_false] at opened
  refine ⟨?_, ?_, ?_⟩
  all_goals simp [SocketState.socket, SocketState.closesocket, opened, noNullRead, most]

namespace OpenOutcome

/-- Either there is no socket, or its address is known. -/
def Addressed (outcome : OpenOutcome) : Prop := outcome.socket = -1 ∨ outcome.host.isSome = true

/-- Either there is no socket, or it is connected. -/
def Connected (outcome : OpenOutcome) : Prop := outcome.socket = -1 ∨ outcome.connects = true

end OpenOutcome

/-- What an open call of the UDP transport must be answered with to leave nothing behind. -/
def SocketCall.UdpClean : SocketCall → Prop
  | .open _ outcome => outcome.Addressed ∧ outcome.Connected
  | .close => True

def SocketCall.TcpClean : SocketCall → Prop
  | .open _ outcome => outcome.Addressed
  | .close => True

section Calls

variable {session : SocketSession} {locator : AgentLocator} {outcome : OpenOutcome}

theorem udp_open_owns_iff (owns : session.Owns) (allowed : session.Allows (.open locator outcome)) :
    (udpTransport.perform session (.open locator outcome)).Owns ↔ outcome.Addressed ∧ outcome.Connected := by
  have uncreated := owns.uncreated allowed.1 outcome.host
  obtain ⟨noNullRead, opened, most⟩ := owns
  obtain ⟨closed, possible⟩ := allowed
  simp only [closed, Bool.false_eq_true, if_false] at opened
  by_cases none : outcome.socket = -1
  · have left : (udpTransport.perform session (.open locator outcome)).Owns := by
      simp only [SocketTransport.perform, udpTransport, rttUdpTransportOpen, none]
      exact uncreated
    exact ⟨fun _ => ⟨Or.inl none, Or.inl none⟩, fun _ => left⟩
  · -- With a socket, the host and the connection decide.
    simp only [OpenOutcome.Addressed, OpenOutcome.Connected, none, false_or]
    constructor
    · rintro ⟨read, owned, _⟩
      cases host : outcome.host <;> cases connects : outcome.connects
      all_goals simp_all [SocketTransport.perform, udpTransport, rttUdpTransportOpen, SocketState.socket,
        SocketState.address, OpenOutcome.connect]
    · rintro ⟨host, connects⟩
      obtain ⟨addr, host⟩ := Option.isSome_iff_exists.mp host
      refine ⟨?_, ?_, ?_⟩
      all_goals simp [SocketTransport.perform, udpTransport, rttUdpTransportOpen, SocketState.socket,
        SocketState.address, OpenOutcome.connect, none, opened, noNullRead, most, host, connects]

theorem tcp_open_owns_iff (owns : session.Owns) (allowed : session.Allows (.open locator outcome)) :
    (tcpTransport.perform session (.open locator outcome)).Owns ↔ outcome.Addressed := by
  have uncreated := owns.uncreated allowed.1 outcome.host
  obtain ⟨noNullRead, opened, most⟩ := owns
  obtain ⟨closed, possible⟩ := allowed
  simp only [closed, Bool.false_eq_true, if_false] at opened
  by_cases none : outcome.socket = -1
  · have left : (tcpTransport.perform session (.open locator outcome)).Owns := by
      simp only [SocketTransport.perform, tcpTransport, rttTcpTransportOpen, none]
      exact uncreated
    exact ⟨fun _ => Or.inl none, fun _ => left⟩
  · -- A socket that is not connected is closed again, so only the host is left to decide.
    simp only [OpenOutcome.Addressed, none, false_or]
    constructor
    · rintro ⟨read, _, _⟩
      cases host : outcome.host <;> cases connects : outcome.connects
      all_goals simp_all [SocketTransport.perform, tcpTransport, rttTcpTransportOpen, SocketState.socket,
        SocketState.address, OpenOutcome.connect, SocketState.closesocket]
    · intro host
      obtain ⟨addr, host⟩ := Option.isSome_iff_exists.mp host
      cases connects : outcome.connects
      all_goals
        refine ⟨?_, ?_, ?_⟩
        all_goals simp [SocketTransport.perform, tcpTransport, rttTcpTransportOpen, SocketState.socket,
          SocketState.address, OpenOutcome.connect, SocketState.closesocket, none, opened, noNullRead, most,
          host, connects]

end Calls

namespace SocketTransport

theorem udp_call_owns_iff (session : SocketSession) (call : SocketCall) (owns : session.Owns)
    (allowed : session.Allows call) : (udpTransport.perform session call).Owns ↔ call.UdpClean := by
  cases call with
  | «open» locator outcome => exact udp_open_owns_iff owns allowed
  | close => exact ⟨fun _ => trivial, fun _ => owns.close⟩

theorem tcp_call_owns_iff (session : SocketSession) (call : SocketCall) (owns : session.Owns)
    (allowed : session.Allows call) : (tcpTransport.perform session call).Owns ↔ call.TcpClean := by
  cases call with
  | «open» locator outcome => exact tcp_open_owns_iff owns allowed
  | close => exact ⟨fun _ => trivial, fun _ => owns.close⟩

end SocketTransport

/-- Over a whole run a transport reads no null host and owns at most the socket of a successful open, if
and only if every socket was created for a known host and, with UDP, could be connected. -/
theorem sockets_owned_iff {udpCalls tcpCalls : List SocketCall} (udpRun : udpTransport.Run .boot udpCalls)
    (tcpRun : tcpTransport.Run .boot tcpCalls) :
    ((∀ reached ∈ udpTransport.sessions .boot udpCalls, reached.Owns) ↔ ∀ call ∈ udpCalls, call.UdpClean) ∧
      ((∀ reached ∈ tcpTransport.sessions .boot tcpCalls, reached.Owns) ↔ ∀ call ∈ tcpCalls, call.TcpClean) :=
  ⟨udpTransport.owns_iff_of_call SocketTransport.udp_call_owns_iff .initial udpRun,
    tcpTransport.owns_iff_of_call SocketTransport.tcp_call_owns_iff .initial tcpRun⟩

/-- An agent that cannot be connected, and one that cannot be resolved. -/
def unreachable (descriptor : Int) : SocketCall := .open ⟨.empty, 8888⟩ ⟨some ⟨0x0100007f⟩, descriptor, false⟩

def unresolved (descriptor : Int) : SocketCall := .open ⟨.empty, 8888⟩ ⟨none, descriptor, true⟩

/-- Two attempts at an unreachable agent leave two UDP sockets open; an agent that is not resolved makes
both transports read a null host. -/
theorem sockets_not_owned :
    (udpTransport.Run .boot [unreachable 3, unreachable 4] ∧
      ¬ ∀ reached ∈ udpTransport.sessions .boot [unreachable 3, unreachable 4], reached.Owns) ∧
    (udpTransport.Run .boot [unresolved 3] ∧
      ¬ ∀ reached ∈ udpTransport.sessions .boot [unresolved 3], reached.Owns) ∧
    (tcpTransport.Run .boot [unresolved 3] ∧
      ¬ ∀ reached ∈ tcpTransport.sessions .boot [unresolved 3], reached.Owns) := by
  refine ⟨⟨by decide, fun owned => ?_⟩, ⟨by decide, fun owned => ?_⟩, ⟨by decide, fun owned => ?_⟩⟩
  · have least := (owned _ (List.mem_cons_of_mem _ List.mem_cons_self)).most
    revert least
    decide
  · have read := (owned _ List.mem_cons_self).noNullRead
    revert read
    decide
  · have read := (owned _ List.mem_cons_self).noNullRead
    revert read
    decide

/-- A failed attempt, and a session that is opened and closed. -/
theorem sockets_owned_reopened :
    ((∀ reached ∈ udpTransport.sessions .boot [.open ⟨.empty, 8888⟩ ⟨none, -1, true⟩,
        .open ⟨.empty, 8888⟩ ⟨some ⟨0x0100007f⟩, 3, true⟩, .close], reached.Owns) ↔
      ∀ call ∈ [SocketCall.open ⟨.empty, 8888⟩ ⟨none, -1, true⟩,
        .open ⟨.empty, 8888⟩ ⟨some ⟨0x0100007f⟩, 3, true⟩, .close], call.UdpClean) ∧
      ((∀ reached ∈ tcpTransport.sessions .boot [unreachable 3, unreachable 3], reached.Owns) ↔
        ∀ call ∈ [unreachable 3, unreachable 3], call.TcpClean) :=
  sockets_owned_iff (by decide) (by decide)

end MicroRos
