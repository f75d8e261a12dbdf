import MicroRos.Transports.Contract

/-! What the transfers of a program find: the socket, the agent it is connected to, and the timeouts.

A program names its agent, opens the transport, sends and receives, and closes it, in any
number of sessions. The network stack answers every call in any way, except that the TCP open,
which does not look at the values of its `setsockopt` calls, is taken to set its timeouts.
-/

set_option autoImplicit false

namespace MicroRos

/-- What `set_microros_udp_transports` stores in its static locator; `transport->args` refers to it. -/
def setMicrorosUdpTransports (agentIp : CString) (agentPort : UInt32) : AgentLocator :=
  ⟨agentIp, agentPort.toInt32.toInt⟩

/-- An agent as the program names it, and the host that its name is resolved to. -/
structure Agent where
  ip : CString
  port : UInt32
  host : Option Host
  deriving DecidableEq

/-- The variables of the transport and the locator. The last fields are not part of the program: `named` is the agent
that was named last, and `agent` the one of the open that returned true and was not followed by a close. -/
structure AgentSession where
  locator : AgentLocator
  socket : SocketState
  named : CString × UInt32
  agent : Option Agent

/-- An open is given what the names are resolved to at that time, and the values of `socket` and `connect`; the
other calls the values of `closesocket`, `setsockopt` and `recv`. -/
inductive AgentCall where
  | name (agentIp : CString) (agentPort : UInt32)
  | open (gethostbyname : CString → Option Host) (descriptor : Int) (connects : Bool)
  | close (succeeds : Bool)
  | write
  | read (timeout : Int32) (configured received : Int) (errcode : UInt8)

/-- In microseconds. -/
def Timeval.micros (tv : Timeval) : Int := tv.tvSec * 1000000 + tv.tvUsec

namespace AgentSession

def boot (agentIp : CString) (agentPort : UInt32) : AgentSession :=
  ⟨setMicrorosUdpTransports agentIp agentPort, .boot, (agentIp, agentPort), none⟩

/-- There is no such function for TCP: the program fills the locator itself, in the same way. A write leaves the
variables as they are. -/
def perform (callbacks : SocketCallbacks) (x : AgentSession) : AgentCall → AgentSession
  | .name agentIp agentPort =>
    { x with locator := setMicrorosUdpTransports agentIp agentPort, named := (agentIp, agentPort) }
  | .open gethostbyname descriptor connects =>
    let outcome := ⟨gethostbyname x.locator.address, descriptor, connects⟩
    let opened := callbacks.transportOpen x.locator outcome x.socket
    { x with
      socket := opened.2
      agent := if opened.1 then some ⟨x.named.1, x.named.2, gethostbyname x.named.1⟩ else none }
  | .close succeeds => { x with socket := (callbacks.transportClose succeeds x.socket).2, agent := none }
  | .write => x
  | .read timeout configured received errcode =>
    { x with socket := (callbacks.transportRead timeout.toInt configured received errcode x.socket).2 }

end AgentSession

/-- `sock` is open and connected, and the address is the one of the agent: its port in network byte order, modulo
`2 ^ 16`, and its host. -/
structure SocketState.Reaches (s : SocketState) (agent : Agent) : Prop where
  opened : s.sock ∈ s.opened
  connected : s.connected = true
  port : s.serverAddr.sinPort.toNat = 256 * (agent.port.toNat % 256) + agent.port.toNat / 256 % 256
  host : ∀ host ∈ agent.host, s.serverAddr.sinAddr = host.addr

/-- How long `recv` may take: what the caller asked for, at least a millisecond, or the time set by the open. -/
def SocketCallbacks.receiveMicros (callbacks : SocketCallbacks) (timeout : Int32) : Int :=
  if callbacks.setsTimeout then 1000 * max timeout.toInt 1 else 200000

/-- What a transfer of an open session has to find. -/
def AgentSession.Serves (callbacks : SocketCallbacks) (x : AgentSession) : AgentCall → Prop
  | .write => ∀ agent ∈ x.agent, x.socket.Reaches agent ∧
      (callbacks.setsTimeout = false → x.socket.sendTimeout.map Timeval.micros = some 200000)
  | .read timeout configured received errcode => ∀ agent ∈ x.agent, x.socket.Reaches agent ∧
      (callbacks.receives configured →
        ∃ tv ∈ (callbacks.transportRead timeout.toInt configured received errcode x.socket).2.receiveTimeout,
          tv.micros = callbacks.receiveMicros timeout ∧ 0 ≤ tv.tvUsec ∧ tv.tvUsec < 1000000)
  | _ => True

section Ports

theorem swapped_toNat (b : UInt16) : (b <<< 8 ||| b >>> 8).toNat = 256 * (b.toNat % 256) + b.toNat / 256 := by
  have small := b.toNat_lt
  have right : b.toNat >>> 8 = b.toNat / 256 := Nat.shiftRight_eq_div_pow b.toNat 8
  have left : b.toNat <<< 8 % 65536 = (b.toNat % 256) <<< 8 := by
    simp only [Nat.shiftLeft_eq]
    omega
  have bits : (b <<< 8 ||| b >>> 8).toNat = b.toNat <<< 8 % 65536 ||| b.toNat >>> 8 := by simp
  rw [bits, left, right, ← Nat.shiftLeft_add_eq_or_of_lt (by omega), Nat.shiftLeft_eq]
  omega

/-- The low bytes of a port change places, and the high ones are lost. -/
theorem htons_port (agentIp : CString) (agentPort : UInt32) :
    (SocketState.htons (setMicrorosUdpTransports agentIp agentPort).port).toNat =
      256 * (agentPort.toNat % 256) + agentPort.toNat / 256 % 256 := by
  have low (port : Int) : ((UInt16.ofInt port).toNat : Int) = port % 65536 := by
    unfold UInt16.ofInt
    simp
    omega
  have signed : agentPort.toInt32.toInt % 65536 = agentPort.toNat % 65536 := by
    have bits : agentPort.toInt32.toInt = agentPort.toBitVec.toInt := rfl
    rw [bits, BitVec.toInt_eq_toNat_bmod, Int.bmod_def]
    simp
    split <;> omega
  have port := low agentPort.toInt32.toInt
  rw [signed] at port
  rw [SocketState.htons, swapped_toNat]
  change 256 * ((UInt16.ofInt agentPort.toInt32.toInt).toNat % 256) +
    (UInt16.ofInt agentPort.toInt32.toInt).toNat / 256 = _
  omega

end Ports

section Timeouts

/-- The seconds and microseconds are those of the timeout in milliseconds. -/
theorem udpReceiveTimeout_micros (timeout : Int) :
    (udpReceiveTimeout timeout).micros = 1000 * max timeout 1 ∧ 0 ≤ (udpReceiveTimeout timeout).tvUsec ∧
      (udpReceiveTimeout timeout).tvUsec < 1000000 := by
  have positive : (if timeout ≤ 0 then 1 else timeout) = max timeout 1 := by
    split <;> omega
  have least : 0 ≤ max timeout 1 := by omega
  simp only [udpReceiveTimeout, Timeval.micros, positive, Int.tdiv_eq_ediv_of_nonneg least,
    Int.tmod_eq_emod_of_nonneg least]
  omega

end Timeouts

section Runs

variable {callbacks : SocketCallbacks} {x : AgentSession}

/-- What a successful open leaves behind, and that a read changes at most the receive timeout. -/
structure SocketCallbacks.Connects (callbacks : SocketCallbacks) : Prop where
  opens : ∀ locator outcome s, (callbacks.transportOpen locator outcome s).1 = true →
    let opened := (callbacks.transportOpen locator outcome s).2
    opened.sock ∈ opened.opened ∧ opened.connected = true ∧
      opened.serverAddr = ⟨SocketState.htons locator.port, (outcome.host.getD ⟨0⟩).addr⟩ ∧
      (callbacks.setsTimeout = false →
        opened.receiveTimeout = some tcpTimeout ∧ opened.sendTimeout = some tcpTimeout)
  reads : ∀ timeout configured received errcode s, ∃ limit,
    (callbacks.transportRead timeout configured received errcode s).2 = { s with receiveTimeout := limit } ∧
      (callbacks.setsTimeout = false → limit = s.receiveTimeout) ∧
      (callbacks.setsTimeout = true → configured = 0 → limit = some (udpReceiveTimeout timeout))

theorem udpCallbacks_connects (target : Target) : (udpCallbacks target).Connects where
  opens locator outcome s returned := by
    simp only [udpCallbacks, udpTransport, rttUdpTransportOpen, SocketState.socket] at returned ⊢
    by_cases missing : outcome.socket = -1
    · simp [missing] at returned
    · by_cases fails : outcome.connect < 0
      · simp [missing, fails] at returned
      · simp [missing, fails, SocketState.address]
  reads timeout configured received errcode s := by
    simp only [udpCallbacks, rttUdpTransportRead]
    by_cases set : configured = 0
    · refine ⟨some (udpReceiveTimeout timeout), ?_, by simp, fun _ _ => rfl⟩
      simp only [set, ne_eq, not_true, if_false]
      split <;> rfl
    · refine ⟨s.receiveTimeout, ?_, fun _ => rfl, fun _ zero => absurd zero set⟩
      simp [Ne.symm set]

theorem tcpCallbacks_connects (target : Target) : (tcpCallbacks target).Connects where
  opens locator outcome s returned := by
    simp only [tcpCallbacks, tcpTransport, rttTcpTransportOpen, SocketState.socket] at returned ⊢
    by_cases missing : outcome.socket = -1
    · simp [missing] at returned
    · by_cases fails : outcome.connect = -1
      · simp [missing, fails] at returned
      · simp [missing, fails, SocketState.address]
  reads timeout configured received errcode s :=
    ⟨s.receiveTimeout, rfl, fun _ => rfl, fun sets => Bool.noConfusion sets⟩

/-- What is so of a session between two calls. -/
structure AgentSession.Keeps (callbacks : SocketCallbacks) (x : AgentSession) : Prop where
  locator : x.locator = setMicrorosUdpTransports x.named.1 x.named.2
  reaches : ∀ agent ∈ x.agent, x.socket.Reaches agent
  limited : x.agent.isSome = true → callbacks.setsTimeout = false →
    x.socket.receiveTimeout = some tcpTimeout ∧ x.socket.sendTimeout = some tcpTimeout

namespace AgentSession

theorem boot_keeps (agentIp : CString) (agentPort : UInt32) : (boot agentIp agentPort).Keeps callbacks :=
  ⟨rfl, by rintro agent ⟨⟩, by rintro ⟨⟩⟩

/-- The locator of the open is the one of the agent that was named last. -/
theorem Keeps.open (connects : callbacks.Connects) (keeps : x.Keeps callbacks)
    (gethostbyname : CString → Option Host) (descriptor : Int) (accepted : Bool) :
    (x.perform callbacks (.open gethostbyname descriptor accepted)).Keeps callbacks := by
  have opens := connects.opens x.locator ⟨gethostbyname x.locator.address, descriptor, accepted⟩ x.socket
  rw [keeps.locator] at opens
  refine ⟨keeps.locator, ?_, ?_⟩
  · rintro agent member
    simp only [perform, keeps.locator] at member ⊢
    split at member
    · rename_i returned
      obtain ⟨opened, connected, address, -⟩ := opens returned
      obtain rfl : _ = agent := by simpa using member
      refine ⟨opened, connected, ?_, ?_⟩
      · rw [address]
        apply htons_port
      · rintro host resolved
        have found : gethostbyname x.named.1 = some host := resolved
        rw [address]
        simp [setMicrorosUdpTransports, found]
    · cases member
  · intro held
    simp only [perform, keeps.locator] at held ⊢
    split at held
    · rename_i returned
      exact (opens returned).2.2.2
    · cases held

/-- A read sets at most the timeout of the socket. -/
theorem Keeps.read (connects : callbacks.Connects) (keeps : x.Keeps callbacks) (timeout : Int32)
    (configured received : Int) (errcode : UInt8) :
    (x.perform callbacks (.read timeout configured received errcode)).Keeps callbacks := by
  obtain ⟨limit, changed, same, -⟩ := connects.reads timeout.toInt configured received errcode x.socket
  refine ⟨keeps.locator, ?_, ?_⟩
  · intro agent held
    have reaches := keeps.reaches agent held
    simp only [perform, changed]
    exact ⟨reaches.opened, reaches.connected, reaches.port, reaches.host⟩
  · intro held fixed
    have limited := keeps.limited held fixed
    simp only [perform, changed]
    exact ⟨(same fixed).trans limited.1, limited.2⟩

theorem Keeps.perform (connects : callbacks.Connects) (keeps : x.Keeps callbacks) (call : AgentCall) :
    (x.perform callbacks call).Keeps callbacks := by
  cases call with
  | name agentIp agentPort => exact ⟨rfl, keeps.reaches, keeps.limited⟩
  | «open» gethostbyname descriptor accepted => exact keeps.open connects gethostbyname descriptor accepted
  | close succeeds => exact ⟨keeps.locator, by rintro agent ⟨⟩, by rintro ⟨⟩⟩
  | write => exact keeps
  | read timeout configured received errcode => exact keeps.read connects timeout configured received errcode

/-- What a session keeps is what its transfers need. -/
theorem Keeps.serves (connects : callbacks.Connects) (keeps : x.Keeps callbacks) (call : AgentCall) :
    x.Serves callbacks call := by
  cases call with
  | write =>
    intro agent held
    refine ⟨keeps.reaches agent held, fun fixed => ?_⟩
    rw [(keeps.limited (Option.isSome_of_mem held) fixed).2]
    rfl
  | read timeout configured received errcode =>
    intro agent held
    refine ⟨keeps.reaches agent held, fun receives => ?_⟩
    obtain ⟨limit, changed, same, set⟩ := connects.reads timeout.toInt configured received errcode x.socket
    rw [changed, SocketCallbacks.receiveMicros]
    cases sets : callbacks.setsTimeout with
    | true =>
      -- Before each datagram the timeout of the caller is set.
      refine ⟨udpReceiveTimeout timeout.toInt, set sets (receives sets), ?_⟩
      exact udpReceiveTimeout_micros timeout.toInt
    | false =>
      refine ⟨tcpTimeout, ?_, rfl, by decide, by decide⟩
      rw [same sets]
      exact (keeps.limited (Option.isSome_of_mem held) sets).1
  | _ => trivial

/-- The induction over a run. -/
theorem Keeps.history (connects : callbacks.Connects) (keeps : x.Keeps callbacks) (calls : List AgentCall) :
    ∀ made ∈ history (AgentSession.perform callbacks) x calls, made.1.Keeps callbacks := by
  induction calls generalizing x with
  | nil => exact List.forall_mem_nil _
  | cons call calls ih =>
    rw [history, List.forall_mem_cons]
    exact ⟨keeps, ih (keeps.perform connects call)⟩

end AgentSession

/-- In every run of a UDP or TCP transport, a transfer of an open session finds its socket open and connected to the
agent that was named last before the open, at the port of that agent modulo `2 ^ 16`. A receive takes as long as the
caller allows (UDP), or 200 ms (TCP), as does a send. -/
theorem agentSessions_served (target : Target) (agentIp : CString) (agentPort : UInt32)
    (udpCalls tcpCalls : List AgentCall) :
    (∀ made ∈ history (AgentSession.perform (udpCallbacks target)) (.boot agentIp agentPort) udpCalls,
        made.1.Serves (udpCallbacks target) made.2) ∧
      ∀ made ∈ history (AgentSession.perform (tcpCallbacks target)) (.boot agentIp agentPort) tcpCalls,
        made.1.Serves (tcpCallbacks target) made.2 := by
  have udp := udpCallbacks_connects target
  have tcp := tcpCallbacks_connects target
  constructor
  · intro made member
    have keeps := (AgentSession.boot_keeps agentIp agentPort).history udp udpCalls made member
    exact keeps.serves udp made.2
  · intro made member
    have keeps := (AgentSession.boot_keeps agentIp agentPort).history tcp tcpCalls made member
    exact keeps.serves tcp made.2

end Runs

end MicroRos
