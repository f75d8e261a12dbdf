import MicroRos.Transports.SerialLine

/-! The life of `rx_sem`, statement by statement.

The flag `sem_initialized` and the semaphore are two things: the statements of an
initialisation and of a detachment change one after the other, and the interrupt may come
between any two of them. Calls come one at a time; a close follows a successful open, and the
next open follows the close.
-/

set_option autoImplicit false

namespace MicroRos

/-- Where the lazy initialisation of the semaphore returns to. -/
inductive Resume where
  | opening
  | reading (call : ReadCall) (i : Nat)

/-- The next statement of the call in progress. -/
inductive SerialPoint where
  | idle
  /-- `micro_ros_serial = rt_device_find(…)`, and the test of its result. -/
  | find
  /-- `if (sem_initialized == 0)`. -/
  | test (resume : Resume)
  /-- `rt_sem_init(&rx_sem, …)`. -/
  | init (resume : Resume)
  /-- `sem_initialized = 1`. -/
  | mark (resume : Resume)
  | openDevice
  | setIndicate
  | closeDevice
  /-- `rt_sem_detach(&rx_sem)`. -/
  | detach
  /-- `sem_initialized = 0`. -/
  | unmark
  | read (call : ReadCall) (point : ReadPoint)

def Resume.point : Resume → SerialPoint
  | .opening => .openDevice
  | .reading call i => .read call (.poll i)

namespace SerialPoint

/-- The body of the loop over the buffer begins with the test. -/
def loop (call : ReadCall) : ReadPoint → SerialPoint
  | .poll i => .test (.reading call i)
  | point => .read call point

/-- Between the two statements of an initialisation or of a detachment. -/
def halfway : SerialPoint → Bool
  | .mark _ | .unmark => true
  | _ => false

end SerialPoint

inductive SemOperation where
  | init | detach | take | release
  deriving DecidableEq, Repr

/-- A call into the kernel, and whether `rx_sem` was an attached object at that moment. -/
structure SemCall where
  operation : SemOperation
  attached : Bool
  deriving DecidableEq, Repr

/-- Everything but an initialisation needs an attached object. -/
def SemCall.Proper (call : SemCall) : Prop := call.attached = true ↔ call.operation ≠ .init

structure SerialLife where
  port : SerialPort
  /-- `rx_sem` is an attached semaphore object. -/
  attached : Bool
  /-- `rt_device_set_rx_indicate` has completed after `rt_device_open`, and no `rt_device_close` since. -/
  hooked : Bool
  /-- The last open succeeded, and the close that follows it has not returned. -/
  held : Bool
  point : SerialPoint
  calls : List SemCall

namespace SerialLife

def boot : SerialLife := ⟨.boot, false, false, false, .idle, []⟩

/-- `rx_sem` is passed to the kernel. -/
def pass (life : SerialLife) (operation : SemOperation) : SerialLife :=
  { life with calls := life.calls ++ [⟨operation, life.attached⟩] }

inductive Step : SerialLife → SerialLife → Prop
  /-- The interrupt calls `uart_input`. -/
  | interrupt (life : SerialLife) (hooked : life.hooked = true) :
      Step life { life.pass .release with port := life.port.uartInput }
  | callOpen (life : SerialLife) (idle : life.point = .idle) (released : life.held = false) :
      Step life { life with point := .find }
  | find (life : SerialLife) (found : Bool) (here : life.point = .find) :
      Step life { life with
        port := { life.port with device := found }
        point := if found then .test .opening else .idle }
  | test (life : SerialLife) (resume : Resume) (here : life.point = .test resume) :
      Step life { life with point := if life.port.semInitialized then resume.point else .init resume }
  | init (life : SerialLife) (resume : Resume) (here : life.point = .init resume) :
      Step life { life.pass .init with
        port := { life.port with rxSem := 0 }
        attached := true
        point := .mark resume }
  | mark (life : SerialLife) (resume : Resume) (here : life.point = .mark resume) :
      Step life { life with
        port := { life.port with semInitialized := true }
        point := resume.point }
  | openDevice (life : SerialLife) (opens : Bool) (here : life.point = .openDevice) :
      Step life { life with
        port := { life.port with deviceOpen := life.port.deviceOpen || opens }
        point := .setIndicate }
  | setIndicate (life : SerialLife) (here : life.point = .setIndicate) :
      Step life { life with
        port := { life.port with indicated := true }
        hooked := true
        held := true
        point := .idle }
  | callClose (life : SerialLife) (idle : life.point = .idle) (held : life.held = true) :
      Step life { life with point := .closeDevice }
  | closeDevice (life : SerialLife) (closes : Bool) (here : life.point = .closeDevice) :
      Step life { life with
        port := { life.port with deviceOpen := life.port.deviceOpen && !closes }
        hooked := false
        point := .detach }
  | detach (life : SerialLife) (here : life.point = .detach) :
      Step life { life.pass .detach with
        attached := false
        point := .unmark }
  | unmark (life : SerialLife) (here : life.point = .unmark) :
      Step life { life with
        port := { life.port with semInitialized := false }
        held := false
        point := .idle }
  | callRead (life : SerialLife) (call : ReadCall) (idle : life.point = .idle) :
      Step life { life with point := .loop call (call.head 0) }
  | poll (life : SerialLife) (call : ReadCall) (i : Nat) (byte : Option Memory.Byte)
      (here : life.point = .read call (.poll i)) :
      Step life { life with
        point := .loop (call.next (.poll i) (.read byte)).1 (call.next (.poll i) (.read byte)).2 }
  | take (life : SerialLife) (call : ReadCall) (i : Nat) (ticks : Int)
      (here : life.point = .read call (.take i ticks)) :
      Step life { life.pass .take with
        port := { life.port with rxSem := life.port.rxSem - 1 }
        point := .read (call.next (.take i ticks) .woken).1 (call.next (.take i ticks) .woken).2 }
  | check (life : SerialLife) (call : ReadCall) (i : Nat) (tick : UInt32)
      (here : life.point = .read call (.check i)) :
      Step life { life with
        point := .read (call.next (.check i) (.now tick)).1 (call.next (.check i) (.now tick)).2 }
  | returned (life : SerialLife) (call : ReadCall) (count : Nat)
      (here : life.point = .read call (.returned count)) :
      Step life { life with point := .idle }

end SerialLife

/-- What the flag and the semaphore are when this statement is next. -/
def SerialPoint.Agrees (initialized attached hooked held : Bool) : SerialPoint → Prop
  | .idle | .find | .test _ => initialized = attached
  | .init _ => initialized = false ∧ attached = false
  | .mark _ => initialized = false ∧ attached = true
  | .openDevice | .setIndicate => initialized = true ∧ attached = true
  | .closeDevice => initialized = true ∧ attached = true ∧ held = true
  | .detach => initialized = true ∧ attached = true ∧ hooked = false
  | .unmark => initialized = true ∧ attached = false ∧ hooked = false
  | .read _ point => initialized = attached ∧ (point.running = true → attached = true)

theorem Resume.point_agrees {attached hooked held : Bool} (attach : attached = true) (resume : Resume) :
    resume.point.Agrees true attached hooked held := by
  cases resume with
  | opening => exact ⟨rfl, attach⟩
  | reading call i => exact ⟨attach.symm, fun _ => attach⟩

theorem SerialPoint.loop_head_agrees {initialized attached hooked held : Bool} (same : initialized = attached)
    (call call' : ReadCall) (i : Nat) : (loop call' (call.head i)).Agrees initialized attached hooked held := by
  unfold ReadCall.head
  split
  · exact same
  · exact ⟨same, fun running => by cases running⟩

namespace SerialLife

/-- The state of the semaphore at every point, and the record of its calls. -/
structure Sound (life : SerialLife) : Prop where
  agrees : life.point.Agrees life.port.semInitialized life.attached life.hooked life.held
  /-- The interrupt is only possible with a semaphore. -/
  hooked : life.hooked = true → life.attached = true
  held : life.held = true → life.attached = true ∨ life.point = .unmark
  calls : ∀ call ∈ life.calls, call.Proper

namespace Sound

variable {life life' : SerialLife}

theorem boot : Sound .boot := by
  refine ⟨rfl, ?_, ?_, ?_⟩
  · intro hooked
    cases hooked
  · intro held
    cases held
  · intro call member
    cases member

theorem passed (sound : life.Sound) {operation : SemOperation}
    (proper : life.attached = true ↔ operation ≠ .init) :
    ∀ call ∈ (life.pass operation).calls, call.Proper :=
  List.forall_mem_append.mpr ⟨sound.calls, List.forall_mem_singleton.mpr proper⟩

theorem still (sound : life.Sound) {point : SerialPoint} (here : life.point = point) (elsewhere : point ≠ .unmark)
    (held : life.held = true) : life.attached = true :=
  (sound.held held).resolve_right (here ▸ elsewhere)

/-- Every statement, and the interrupt before it, keeps the flag and the semaphore in step. -/
theorem step (sound : life.Sound) (step : Step life life') : life'.Sound := by
  obtain ⟨agrees, hooked, held, calls⟩ := id sound
  cases step with
  | interrupt hook => exact ⟨agrees, hooked, held, sound.passed (iff_of_true (hooked hook) (by decide))⟩
  | callOpen idle released =>
    rw [idle] at agrees
    exact ⟨agrees, hooked, fun held => .inl (sound.still idle (by simp) held), calls⟩
  | find found here =>
    rw [here] at agrees
    refine ⟨?_, hooked, fun held => .inl (sound.still here (by simp) held), calls⟩
    cases found with
    | true => exact agrees
    | false => exact agrees
  | test resume here =>
    rw [here] at agrees
    refine ⟨?_, hooked, fun held => .inl (sound.still here (by simp) held), calls⟩
    have same : life.port.semInitialized = life.attached := agrees
    split
    next initialized => exact initialized ▸ resume.point_agrees (same ▸ initialized)
    next uninitialized =>
      rw [Bool.not_eq_true] at uninitialized
      exact ⟨uninitialized, same ▸ uninitialized⟩
  | init resume here =>
    rw [here] at agrees
    obtain ⟨flag, free⟩ := agrees
    refine ⟨⟨flag, rfl⟩, fun _ => rfl, fun _ => .inl rfl, ?_⟩
    exact sound.passed (iff_of_false (by simp [free]) (by simp))
  | mark resume here =>
    rw [here] at agrees
    exact ⟨resume.point_agrees agrees.2, hooked, fun _ => .inl agrees.2, calls⟩
  | openDevice opens here =>
    rw [here] at agrees
    exact ⟨agrees, hooked, fun _ => .inl agrees.2, calls⟩
  | setIndicate here =>
    rw [here] at agrees
    exact ⟨agrees.1.trans agrees.2.symm, fun _ => agrees.2, fun _ => .inl agrees.2, calls⟩
  | callClose idle opened =>
    rw [idle] at agrees
    have attached := sound.still idle (by simp) opened
    have same : life.port.semInitialized = life.attached := agrees
    exact ⟨⟨same.trans attached, attached, opened⟩, hooked, fun _ => .inl attached, calls⟩
  | closeDevice closes here =>
    -- From here on the interrupt cannot come any more.
    rw [here] at agrees
    obtain ⟨flag, attached, _⟩ := agrees
    exact ⟨⟨flag, attached, rfl⟩, (by rintro ⟨⟩), fun _ => .inl attached, calls⟩
  | detach here =>
    rw [here] at agrees
    obtain ⟨flag, attached, unhooked⟩ := agrees
    refine ⟨⟨flag, rfl, unhooked⟩, ?_, fun _ => .inr rfl, sound.passed (iff_of_true attached (by decide))⟩
    intro hook
    exact absurd (unhooked.symm.trans hook) (by decide)
  | unmark here =>
    rw [here] at agrees
    obtain ⟨_, free, _⟩ := agrees
    exact ⟨free.symm, hooked, (by rintro ⟨⟩), calls⟩
  | callRead call idle =>
    rw [idle] at agrees
    exact ⟨SerialPoint.loop_head_agrees agrees call call 0, hooked,
      fun held => .inl (sound.still idle (by simp) held), calls⟩
  | poll call i byte here =>
    rw [here] at agrees
    refine ⟨?_, hooked, fun held => .inl (sound.still here (by simp) held), calls⟩
    cases byte with
    | none => exact ⟨agrees.1, fun _ => agrees.2 rfl⟩
    | some byte => exact SerialPoint.loop_head_agrees agrees.1 call _ (i + 1)
  | take call i ticks here =>
    rw [here] at agrees
    have attached := agrees.2 rfl
    exact ⟨⟨agrees.1, fun _ => attached⟩, hooked, fun _ => .inl attached,
      sound.passed (iff_of_true attached (by decide))⟩
  | check call i tick here =>
    rw [here] at agrees
    have attached := agrees.2 rfl
    exact ⟨⟨agrees.1, fun _ => attached⟩, hooked, fun _ => .inl attached, calls⟩
  | returned call count here =>
    rw [here] at agrees
    exact ⟨agrees.1, hooked, fun held => .inl (sound.still here (by simp) held), calls⟩

theorem run (sound : life.Sound) (run : Relation.ReflTransGen Step life life') : life'.Sound := by
  induction run with
  | refl => exact sound
  | tail _ step ih => exact ih.step step

/-- Between statements of an initialisation or a detachment apart, the flag says what the semaphore is. -/
theorem flag_iff (sound : life.Sound) (whole : life.point.halfway = false) :
    life.port.semInitialized = true ↔ life.attached = true := by
  have agrees := sound.agrees
  cases here : life.point with
  | mark resume => simp [here, SerialPoint.halfway] at whole
  | unmark => simp [here, SerialPoint.halfway] at whole
  | idle | find | test resume =>
    rw [here] at agrees
    exact Bool.eq_iff_iff.mp agrees
  | init resume =>
    rw [here] at agrees
    simp [agrees.1, agrees.2]
  | openDevice | setIndicate =>
    rw [here] at agrees
    simp [agrees.1, agrees.2]
  | closeDevice | detach =>
    rw [here] at agrees
    simp [agrees.1, agrees.2.1]
  | read call point =>
    rw [here] at agrees
    exact Bool.eq_iff_iff.mp agrees.1

end Sound

/-! Without interrupts the statements of a call do what the functions do. -/

section Functions

variable {life : SerialLife}

/-- The lazy initialisation is `initSem`. -/
theorem resumes (life : SerialLife) (resume : Resume) (here : life.point = .test resume) :
    ∃ life', Relation.ReflTransGen Step life life' ∧ life'.point = resume.point ∧
      life'.port = life.port.initSem := by
  have tested := Relation.ReflTransGen.single (Step.test life resume here)
  unfold SerialPort.initSem
  split
  next initialized => exact ⟨_, tested, by simp [initialized], rfl⟩
  next uninitialized =>
    have initialized := (tested.tail (.init _ resume (by simp [uninitialized]))).tail (.mark _ resume rfl)
    exact ⟨_, initialized, rfl, rfl⟩

theorem opens (idle : life.point = .idle) (released : life.held = false) (found opens : Bool) :
    ∃ life', Relation.ReflTransGen Step life life' ∧ life'.point = .idle ∧
      life'.held = (rttTransportOpen found opens life.port).1 ∧
      life'.port = (rttTransportOpen found opens life.port).2 := by
  have called := (Relation.ReflTransGen.single (Step.callOpen life idle released)).tail (.find _ found rfl)
  cases found with
  | false => exact ⟨_, called, rfl, released, rfl⟩
  | true =>
    obtain ⟨ready, resumed, here, port⟩ := resumes { life with
      port := { life.port with device := true }
      point := .test .opening } .opening rfl
    have opened := ((called.trans resumed).tail (.openDevice _ opens here)).tail (.setIndicate _ rfl)
    exact ⟨_, opened, rfl, rfl, by rw [port]; rfl⟩

theorem closes (idle : life.point = .idle) (held : life.held = true) (closes : Bool) :
    ∃ life', Relation.ReflTransGen Step life life' ∧ life'.point = .idle ∧ life'.held = false ∧
      life'.port = (rttTransportClose closes life.port).2 := by
  have called := Relation.ReflTransGen.single (Step.callClose life idle held)
  have closed := ((called.tail (.closeDevice _ closes rfl)).tail (.detach _ rfl)).tail (.unmark _ rfl)
  exact ⟨_, closed, rfl, rfl, rfl⟩

theorem loops (life : SerialLife) {call : ReadCall} {point : ReadPoint} (here : life.point = .loop call point) :
    ∃ life', Relation.ReflTransGen Step life life' ∧ life'.point = .read call point := by
  cases point with
  | poll i =>
    obtain ⟨life', run, there, _⟩ := resumes life _ here
    exact ⟨life', run, there⟩
  | take i ticks => exact ⟨life, .refl, here⟩
  | check i => exact ⟨life, .refl, here⟩
  | returned count => exact ⟨life, .refl, here⟩

theorem answers {call : ReadCall} {point : ReadPoint} (here : life.point = .read call point) (given : Answer) :
    ∃ life', Relation.ReflTransGen Step life life' ∧
      life'.point = .read (call.next point given).1 (call.next point given).2 := by
  -- An answer to another call than the next one does not occur, and moves nothing.
  cases point with
  | poll i =>
    cases given with
    | read byte =>
      have polled := Relation.ReflTransGen.single (Step.poll life call i byte here)
      obtain ⟨life', looped, there⟩ := loops { life with
        point := .loop (call.next (.poll i) (.read byte)).1 (call.next (.poll i) (.read byte)).2 } rfl
      exact ⟨life', polled.trans looped, there⟩
    | woken | now => exact ⟨life, .refl, here⟩
  | take i ticks =>
    cases given with
    | woken => exact ⟨_, .single (.take life call i ticks here), rfl⟩
    | read | now => exact ⟨life, .refl, here⟩
  | check i =>
    cases given with
    | now tick => exact ⟨_, .single (.check life call i tick here), rfl⟩
    | read | woken => exact ⟨life, .refl, here⟩
  | returned count => exact ⟨life, .refl, here⟩

theorem answered {call : ReadCall} {point : ReadPoint} (here : life.point = .read call point)
    (given : List Answer) :
    ∃ life', Relation.ReflTransGen Step life life' ∧
      life'.point = .read (call.run point given).1 (call.run point given).2 := by
  induction given generalizing life call point with
  | nil => exact ⟨life, .refl, here⟩
  | cons answer given ih =>
    obtain ⟨next, step, there⟩ := answers here answer
    obtain ⟨last, rest, final⟩ := ih there
    exact ⟨last, step.trans rest, final⟩

/-- A read gets where the answers of the kernel lead it. -/
theorem reads (idle : life.point = .idle) (call : ReadCall) (given : List Answer) :
    ∃ life', Relation.ReflTransGen Step life life' ∧
      life'.point = .read (call.run (call.head 0) given).1 (call.run (call.head 0) given).2 := by
  have called := Relation.ReflTransGen.single (Step.callRead life call idle)
  obtain ⟨entered, looped, here⟩ := loops { life with point := .loop call (call.head 0) } rfl
  obtain ⟨last, run, there⟩ := answered here given
  exact ⟨last, (called.trans looped).trans run, there⟩

end Functions

end SerialLife

/-- In every run of opens, closes and reads with interrupts in between, `sem_initialized` says whether `rx_sem` is
attached, except between two statements, and every call on `rx_sem` finds it as it must be. -/
theorem serial_semaphore_life {life : SerialLife} (run : Relation.ReflTransGen SerialLife.Step .boot life) :
    (life.point.halfway = false → (life.port.semInitialized = true ↔ life.attached = true)) ∧
      (∀ call ∈ life.calls, call.operation = .init → call.attached = false) ∧
      ∀ call ∈ life.calls, call.operation ≠ .init → call.attached = true := by
  have sound := SerialLife.Sound.boot.run run
  refine ⟨sound.flag_iff, ?_, ?_⟩
  · intro call member isInit
    have proper := sound.calls call member
    exact Bool.not_eq_true _ |>.mp fun attached => proper.mp attached isInit
  · intro call member notInit
    exact (sound.calls call member).mpr notInit

/-- A read before the open and a read after the close each make the semaphore. -/
theorem serial_semaphore_life_reads : ∃ life : SerialLife,
    life.calls.map SemCall.operation = [.init, .take, .release, .detach, .init] ∧ life.point.halfway = true ∧
      (∀ call ∈ life.calls, call.operation = .init → call.attached = false) ∧
      ∀ call ∈ life.calls, call.operation ≠ .init → call.attached = true := by
  have first := Relation.ReflTransGen.single (SerialLife.Step.callRead .boot ⟨1, 4, 0, fun _ => 0⟩ rfl)
  have made := ((first.tail (.test _ (.reading _ 0) rfl)).tail (.init _ (.reading _ 0) rfl)).tail (.mark _ _ rfl)
  have taken := (made.tail (.poll _ _ 0 none rfl)).tail (.take _ _ 0 1 rfl)
  have expired := (taken.tail (.check _ _ 0 5 rfl)).tail (.returned _ _ 0 rfl)
  have found := (expired.tail (.callOpen _ rfl rfl)).tail (.find _ true rfl)
  have opened := ((found.tail (.test _ .opening rfl)).tail (.openDevice _ true rfl)).tail (.setIndicate _ rfl)
  have closed := ((opened.tail (.interrupt _ rfl)).tail (.callClose _ rfl rfl)).tail (.closeDevice _ true rfl)
  have detached := (closed.tail (.detach _ rfl)).tail (.unmark _ rfl)
  have second := detached.tail (.callRead _ ⟨1, 4, 0, fun _ => 0⟩ rfl)
  have again := (second.tail (.test _ (.reading _ 0) rfl)).tail (.init _ (.reading _ 0) rfl)
  exact ⟨_, rfl, rfl, (serial_semaphore_life again).2⟩

end MicroRos
