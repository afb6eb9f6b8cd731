import LinuxPtp.Ordinary.Poll

/-!
# What stays as it is

Work on one port leaves the other ports and the clock alone.  A dispatch either
moves its port by the state machine, or takes it out of service and gives up its
foreign masters.
-/

namespace LinuxPtp.Ordinary

open Bmc Cells Port Wire

variable {env : Env} {p q : ℕ} {s s' s'' : PtpClock}

/-! ## One port -/

@[simp]
theorem modifyPort_same (f : PtpPort → PtpPort) :
    (modifyPort p f s).ports p = f (s.ports p) := by
  simp [modifyPort]

theorem modifyPort_other (f : PtpPort → PtpPort) (hother : q ≠ p) :
    (modifyPort p f s).ports q = s.ports q := by
  simp [modifyPort, hother]

/-- Putting several messages only gives back their buffers. -/
theorem msgPutAll_eq (cells : List ℕ) (s : PtpClock) :
    msgPutAll cells s =
      { s with cells := cells.foldl (fun pool cell => pool.put cell) s.cells } := by
  induction cells generalizing s with
  | nil => rfl
  | cons cell cells ih => exact ih (msgPut cell s)

@[simp]
theorem msgPutAll_ports (cells : List ℕ) (s : PtpClock) :
    (msgPutAll cells s).ports = s.ports := by
  rw [msgPutAll_eq]

@[simp]
theorem msgPutAll_held (cells : List ℕ) (s : PtpClock) :
    (msgPutAll cells s).held = s.held := by
  rw [msgPutAll_eq]

@[simp]
theorem msgPutAll_calls (cells : List ℕ) (s : PtpClock) :
    (msgPutAll cells s).calls = s.calls := by
  rw [msgPutAll_eq]

/-- Only the port, the buffers and the number of calls are other than before. -/
structure Within (p : ℕ) (s s' : PtpClock) : Prop where
  ports : ∀ q, q ≠ p → s'.ports q = s.ports q
  calls : s.calls ≤ s'.calls
  clock : { s' with
    ports := s.ports, cells := s.cells, held := s.held, calls := s.calls } = s

namespace Within

theorem refl (p : ℕ) (s : PtpClock) : Within p s s :=
  ⟨fun _ _ => rfl, le_rfl, rfl⟩

theorem trans (hfirst : Within p s s') (hsecond : Within p s' s'') :
    Within p s s'' where
  ports q hother := (hsecond.ports q hother).trans (hfirst.ports q hother)
  calls := hfirst.calls.trans hsecond.calls
  clock := by
    have hclock := hfirst.clock
    rw [← hsecond.clock] at hclock
    exact hclock

theorem modifyPort (hwithin : Within p s s') {f : PtpPort → PtpPort} :
    Within p s (modifyPort p f s') :=
  hwithin.trans ⟨fun _ hother => modifyPort_other f hother, le_rfl, rfl⟩

theorem called (hwithin : Within p s s') : Within p s (called s') :=
  hwithin.trans ⟨fun _ _ => rfl, Nat.le_succ _, rfl⟩

theorem msgPutHeld (hwithin : Within p s s') {cell : ℕ} :
    Within p s (msgPutHeld cell s') :=
  hwithin.trans ⟨fun _ _ => rfl, le_rfl, rfl⟩

theorem msgAllocate (hwithin : Within p s s') :
    Within p s (msgAllocate env s').2 :=
  hwithin.trans ⟨fun _ _ => rfl, Nat.le_succ _, rfl⟩

section

variable (hwithin : Within p s s')

include hwithin

theorem best : s'.best = s.best :=
  (congrArg PtpClock.best hwithin.clock :)

theorem bestId : s'.bestId = s.bestId :=
  (congrArg PtpClock.bestId hwithin.clock :)

theorem priority1 : s'.priority1 = s.priority1 :=
  (congrArg PtpClock.priority1 hwithin.clock :)

theorem priority2 : s'.priority2 = s.priority2 :=
  (congrArg PtpClock.priority2 hwithin.clock :)

theorem clockQuality : s'.clockQuality = s.clockQuality :=
  (congrArg PtpClock.clockQuality hwithin.clock :)

theorem utcOffset : s'.utcOffset = s.utcOffset :=
  (congrArg PtpClock.utcOffset hwithin.clock :)

theorem parentPortIdentity : s'.parentPortIdentity = s.parentPortIdentity :=
  (congrArg PtpClock.parentPortIdentity hwithin.clock :)

theorem stepsRemoved : s'.stepsRemoved = s.stepsRemoved :=
  (congrArg PtpClock.stepsRemoved hwithin.clock :)

theorem tds : s'.tds = s.tds :=
  (congrArg PtpClock.tds hwithin.clock :)

theorem sde : s'.sde = s.sde :=
  (congrArg PtpClock.sde hwithin.clock :)

theorem todo : s'.todo = s.todo :=
  (congrArg PtpClock.todo hwithin.clock :)

theorem synchronized : s'.synchronized = s.synchronized :=
  (congrArg PtpClock.synchronized hwithin.clock :)

theorem delaySamples : s'.delaySamples = s.delaySamples :=
  (congrArg PtpClock.delaySamples hwithin.clock :)

theorem peerSamples : s'.peerSamples = s.peerSamples :=
  (congrArg PtpClock.peerSamples hwithin.clock :)

end

end Within

/-- The buffers of the running handler are the same, too. -/
structure Kept (p : ℕ) (s s' : PtpClock) : Prop extends Within p s s' where
  held : s'.held = s.held

namespace Kept

theorem refl (p : ℕ) (s : PtpClock) : Kept p s s := ⟨.refl p s, rfl⟩

theorem trans (hfirst : Kept p s s') (hsecond : Kept p s' s'') :
    Kept p s s'' :=
  ⟨hfirst.toWithin.trans hsecond.toWithin, hsecond.held.trans hfirst.held⟩

theorem modifyPort (hkept : Kept p s s') {f : PtpPort → PtpPort} :
    Kept p s (modifyPort p f s') :=
  ⟨hkept.toWithin.modifyPort, hkept.held⟩

theorem setFda (hkept : Kept p s s') {fd : Fd} {f : Descriptor → Descriptor} :
    Kept p s (setFda p fd f s') :=
  hkept.modifyPort

theorem called (hkept : Kept p s s') : Kept p s (called s') :=
  ⟨hkept.toWithin.called, hkept.held⟩

theorem msgGet (hkept : Kept p s s') {cell : ℕ} : Kept p s (msgGet cell s') :=
  hkept.trans ⟨⟨fun _ _ => rfl, le_rfl, rfl⟩, rfl⟩

theorem msgPut (hkept : Kept p s s') {cell : ℕ} : Kept p s (msgPut cell s') :=
  hkept.trans ⟨⟨fun _ _ => rfl, le_rfl, rfl⟩, rfl⟩

theorem msgPutAll (hkept : Kept p s s') {cells : List ℕ} :
    Kept p s (msgPutAll cells s') := by
  rw [msgPutAll_eq]
  exact hkept.trans ⟨⟨fun _ _ => rfl, le_rfl, rfl⟩, rfl⟩

theorem setTmoRandom (hkept : Kept p s s') {fd : Fd} {minimum span : ℕ}
    {logSeconds : ℤ} :
    Kept p s (setTmoRandom env p fd minimum span logSeconds s') :=
  hkept.called.setFda

theorem portSetAnnounceTmo (hkept : Kept p s s') :
    Kept p s (portSetAnnounceTmo env p s') :=
  hkept.setTmoRandom

theorem portSetDelayTmo (hkept : Kept p s s') :
    Kept p s (portSetDelayTmo env p s') := by
  rw [Ordinary.portSetDelayTmo]
  split
  · exact hkept.setFda
  · exact hkept.setTmoRandom

theorem flushLastSync (hkept : Kept p s s') :
    Kept p s (flushLastSync p s') := by
  rw [Ordinary.flushLastSync]
  split
  · exact hkept
  · exact hkept.msgPutAll.modifyPort

theorem flushDelayReq (hkept : Kept p s s') :
    Kept p s (flushDelayReq p s') :=
  hkept.msgPutAll.modifyPort

theorem putPeerDelayReq (hkept : Kept p s s') :
    Kept p s (putPeerDelayReq p s') :=
  hkept.msgPutAll.modifyPort

theorem putPeerDelayResp (hkept : Kept p s s') :
    Kept p s (putPeerDelayResp p s') :=
  hkept.msgPutAll.modifyPort

theorem putPeerDelayFup (hkept : Kept p s s') :
    Kept p s (putPeerDelayFup p s') :=
  hkept.msgPutAll.modifyPort

theorem flushPeerDelay (hkept : Kept p s s') :
    Kept p s (flushPeerDelay p s') :=
  hkept.putPeerDelayReq.putPeerDelayResp.putPeerDelayFup

theorem freeForeignMasters (hkept : Kept p s s') :
    Kept p s (freeForeignMasters p s') :=
  hkept.msgPutAll.modifyPort

theorem portOpDisable (hkept : Kept p s s') :
    Kept p s (portOpDisable p s') := by
  rw [Ordinary.portOpDisable]
  exact hkept.flushLastSync.flushDelayReq.flushPeerDelay.modifyPort
    |>.freeForeignMasters.modifyPort

theorem openRtnl (hkept : Kept p s s') : Kept p s (openRtnl env p s') := by
  rw [Ordinary.openRtnl]
  split
  · exact hkept
  · exact hkept.setFda

theorem portInitialize (hkept : Kept p s s') :
    Kept p s (portInitialize env p s').2 := by
  rw [Ordinary.portInitialize]
  cases env.initOutcome s'.calls with
  | noTimers => exact hkept.called.modifyPort
  | noTransport => exact hkept.called.modifyPort
  | noUnicastTimer =>
    dsimp only
    exact hkept.called.modifyPort.modifyPort.portSetAnnounceTmo.modifyPort
  | ready =>
    dsimp only
    exact hkept.called.modifyPort.modifyPort.portSetAnnounceTmo.openRtnl

theorem restart (hkept : Kept p s s') :
    Kept p s (restart env p s').2 := by
  rw [Ordinary.restart]
  split_ifs
  · exact hkept.portOpDisable.portInitialize
  · exact hkept.portInitialize

theorem portStateUpdate (hkept : Kept p s s') {event : PortEvent}
    {mdiff : Bool} : Kept p s (portStateUpdate env p event mdiff s').2 := by
  rw [Ordinary.portStateUpdate]
  by_cases hinit : nextState env p event mdiff (s'.ports p) = .initializing
  · rw [if_pos hinit]
    dsimp only
    split
    · exact hkept.restart
    · dsimp only
      exact hkept.restart.modifyPort
  · rw [if_neg hinit]
    dsimp only
    split
    · exact hkept
    · dsimp only
      exact hkept.modifyPort

end Kept

/-! ## Transitions -/

def clearTmos (p : ℕ) (fds : List Fd) (s : PtpClock) : PtpClock :=
  fds.foldl (fun s fd => portClrTmo p fd s) s

theorem Kept.clearTmos (fds : List Fd) (hkept : Kept p s s') :
    Kept p s (clearTmos p fds s') := by
  induction fds generalizing s' with
  | nil => exact hkept
  | cons fd fds ih => exact ih hkept.setFda

def stateTimers : List Fd :=
  [.announceTimer, .syncRxTimer, .qualificationTimer, .mannoTimer, .syncTxTimer]

/-- What the new state of an E2E port asks for. -/
def e2eEnter (env : Env) (p : ℕ) (next : PortState) (s : PtpClock) : PtpClock :=
  match next with
  | .initializing => s
  | .faulty | .disabled => portOpDisable p s
  | .listening | .passive => portSetAnnounceTmo env p s
  | .preMaster => portSetQualificationTmo env p s
  | .master | .grandMaster =>
      setSyncTxTmo env p (setTmoLog env p .mannoTimer 1 (-10) s)
  | .uncalibrated =>
      portSetDelayTmo env p (portSetAnnounceTmo env p
        (flushDelayReq p (flushLastSync p s)))
  | .slave => portSetDelayTmo env p (portSetAnnounceTmo env p s)

/-- What the new state of a P2P port asks for. -/
def p2pEnter (env : Env) (p : ℕ) (next : PortState) (s : PtpClock) : PtpClock :=
  match next with
  | .initializing => s
  | .faulty | .disabled => portOpDisable p s
  | .listening => portSetDelayTmo env p (portSetAnnounceTmo env p s)
  | .preMaster => portSetQualificationTmo env p s
  | .master | .grandMaster =>
      setSyncTxTmo env p (setTmoLog env p .mannoTimer 1 (-10) s)
  | .passive => portSetAnnounceTmo env p s
  | .uncalibrated =>
      portSetAnnounceTmo env p (flushPeerDelay p (flushLastSync p s))
  | .slave => portSetAnnounceTmo env p s

/-- An E2E port clears all its timers but those of unicast and enters its state. -/
theorem e2eTransition_eq (next : PortState) :
    e2eTransition env p next s =
      e2eEnter env p next (clearTmos p [.announceTimer, .syncRxTimer,
        .delayTimer, .qualificationTimer, .mannoTimer, .syncTxTimer] s) := by
  cases next <;> rfl

/-- A P2P port keeps its delay timer. -/
theorem p2pTransition_eq (next : PortState) :
    p2pTransition env p next s =
      p2pEnter env p next (clearTmos p stateTimers s) := by
  cases next <;> rfl

namespace Kept

theorem e2eEnter (hkept : Kept p s s') (next : PortState) :
    Kept p s (e2eEnter env p next s') := by
  cases next with
  | initializing => exact hkept
  | faulty | disabled => exact hkept.portOpDisable
  | listening | passive => exact hkept.portSetAnnounceTmo
  | preMaster => exact hkept.setFda
  | master | grandMaster => exact hkept.setFda.setFda
  | uncalibrated =>
    exact hkept.flushLastSync.flushDelayReq.portSetAnnounceTmo.portSetDelayTmo
  | slave => exact hkept.portSetAnnounceTmo.portSetDelayTmo

theorem p2pEnter (hkept : Kept p s s') (next : PortState) :
    Kept p s (p2pEnter env p next s') := by
  cases next with
  | initializing => exact hkept
  | faulty | disabled => exact hkept.portOpDisable
  | listening => exact hkept.portSetAnnounceTmo.portSetDelayTmo
  | preMaster => exact hkept.setFda
  | master | grandMaster => exact hkept.setFda.setFda
  | passive | slave => exact hkept.portSetAnnounceTmo
  | uncalibrated =>
    exact hkept.flushLastSync.flushPeerDelay.portSetAnnounceTmo

theorem transition (hkept : Kept p s s') :
    Kept p s (transition env p s') := by
  rw [Ordinary.transition]
  split
  · rw [p2pTransition_eq]
    exact (hkept.clearTmos _).p2pEnter _
  · rw [e2eTransition_eq]
    exact (hkept.clearTmos _).e2eEnter _

theorem enterState (hkept : Kept p s s') {event : PortEvent} {mdiff : Bool} :
    Kept p s (enterState env p event mdiff s').2 := by
  rw [Ordinary.enterState]
  dsimp only
  split
  · exact hkept.portStateUpdate.transition
  · exact hkept.portStateUpdate

theorem bcDispatch (hkept : Kept p s s') {event : PortEvent} {mdiff : Bool} :
    Kept p s (bcDispatch env p event mdiff s') := by
  rw [Ordinary.bcDispatch]
  dsimp only
  split_ifs
  · exact hkept.enterState.called.modifyPort.enterState
  · exact hkept.enterState.called
  · exact hkept.enterState

end Kept

/-! ## The role of a port -/

/-- What a port is to the state decision, and its fault timer and link. -/
structure Role where
  bmc : BmcPort
  state : PortState
  best : Option ℕ
  decided : Option Announce
  reported : Bool
  faultArmed : Bool
  linkUp : Bool

def PtpPort.role (port : PtpPort) : Role :=
  ⟨port.toBmcPort, port.state, port.best, port.decided, port.reported,
    port.faultArmed, port.linkUp⟩

def Role.cleared (role : Role) : Role :=
  { role with bmc := { role.bmc with foreignMasters := [] }, best := none }

@[simp]
theorem called_ports : (called s).ports = s.ports := rfl

@[simp]
theorem setFda_same (fd : Fd) (f : Descriptor → Descriptor) :
    (setFda p fd f s).ports p =
      { s.ports p with
        fda := Function.update (s.ports p).fda fd (f ((s.ports p).fda fd)) } :=
  modifyPort_same _

@[simp]
theorem setTmoRandom_same (fd : Fd) (minimum span : ℕ) (logSeconds : ℤ) :
    (setTmoRandom env p fd minimum span logSeconds s).ports p =
      { s.ports p with
        fda := Function.update (s.ports p).fda fd
          (.settime (tmoRandom env (env.random s.calls) minimum span logSeconds)
            ((s.ports p).fda fd)) } :=
  setFda_same ..

@[simp]
theorem flushLastSync_same :
    (flushLastSync p s).ports p = { s.ports p with syfu := .empty } := by
  rw [flushLastSync]
  split_ifs with hempty
  · rw [← hempty]
  · simp

@[simp]
theorem flushDelayReq_same :
    (flushDelayReq p s).ports p = { s.ports p with delayReq := [] } := by
  simp [flushDelayReq]

@[simp]
theorem putPeerDelayReq_same :
    (putPeerDelayReq p s).ports p = { s.ports p with peerDelayReq := none } := by
  simp [putPeerDelayReq]

@[simp]
theorem putPeerDelayResp_same :
    (putPeerDelayResp p s).ports p =
      { s.ports p with peerDelayResp := none } := by
  simp [putPeerDelayResp]

@[simp]
theorem putPeerDelayFup_same :
    (putPeerDelayFup p s).ports p = { s.ports p with peerDelayFup := none } := by
  simp [putPeerDelayFup]

@[simp]
theorem flushPeerDelay_same :
    (flushPeerDelay p s).ports p =
      { s.ports p with
        peerDelayReq := none, peerDelayResp := none, peerDelayFup := none } := by
  simp [flushPeerDelay]

def disabledPort (port : PtpPort) : PtpPort :=
  { port with
    syfu := .empty
    delayReq := []
    peerDelayReq := none
    peerDelayResp := none
    peerDelayFup := none
    best := none
    foreignMasters := []
    fda := closeDescriptors port.fda }

@[simp]
theorem portOpDisable_same :
    (portOpDisable p s).ports p = disabledPort (s.ports p) := by
  simp [portOpDisable, freeForeignMasters, disabledPort]

@[simp]
theorem disabledPort_role (port : PtpPort) :
    (disabledPort port).role = port.role.cleared := rfl

@[simp]
theorem portSetDelayTmo_role :
    ((portSetDelayTmo env p s).ports p).role = (s.ports p).role := by
  rw [portSetDelayTmo]
  split <;> simp [PtpPort.role, setTmoLog]

@[simp]
theorem portSetAnnounceTmo_role :
    ((portSetAnnounceTmo env p s).ports p).role = (s.ports p).role := by
  simp [PtpPort.role, portSetAnnounceTmo]

@[simp]
theorem openRtnl_role :
    ((openRtnl env p s).ports p).role = (s.ports p).role := by
  rw [openRtnl]
  split <;> simp [PtpPort.role]

/-- Initialization is no business of the role. -/
theorem portInitialize_role :
    ((portInitialize env p s).2.ports p).role = (s.ports p).role := by
  have hreset : ((modifyPort p (portResetFields env p) (called s)).ports p).role
      = (s.ports p).role := by
    simp [PtpPort.role, portResetFields]
  rw [portInitialize]
  cases env.initOutcome s.calls with
  | noTimers => exact hreset
  | noTransport => exact hreset
  | noUnicastTimer => simp [PtpPort.role, portSetAnnounceTmo, portResetFields]
  | ready =>
    rw [← hreset]
    dsimp only
    rw [openRtnl_role, portSetAnnounceTmo_role, modifyPort_same]
    rfl

/-- A port that was in service loses its records and its master. -/
theorem restart_role :
    ((restart env p s).2.ports p).role =
      if portIsEnabled (s.ports p).state then (s.ports p).role.cleared
      else (s.ports p).role := by
  rw [restart]
  dsimp only
  rw [portInitialize_role]
  split
  · rw [portOpDisable_same, disabledPort_role]
  · rfl

@[simp]
theorem clearTmos_role (fds : List Fd) :
    ((clearTmos p fds s).ports p).role = (s.ports p).role := by
  induction fds generalizing s with
  | nil => rfl
  | cons fd fds ih =>
    rw [clearTmos, List.foldl_cons, ← clearTmos, ih]
    simp [PtpPort.role, portClrTmo]

def outOfService : PortState → Bool
  | .faulty | .disabled => true
  | _ => false

theorem e2eEnter_role (next : PortState) :
    ((e2eEnter env p next s).ports p).role =
      if outOfService next then (s.ports p).role.cleared
      else (s.ports p).role := by
  cases next with
  | initializing => rfl
  | faulty | disabled => simp [e2eEnter, outOfService]
  | listening | passive => simp [e2eEnter, outOfService]
  | preMaster =>
    simp [e2eEnter, outOfService, portSetQualificationTmo, setTmoLog,
      PtpPort.role]
  | master | grandMaster =>
    simp [e2eEnter, outOfService, setSyncTxTmo, setTmoLog, PtpPort.role]
  | uncalibrated =>
    rw [e2eEnter, portSetDelayTmo_role, portSetAnnounceTmo_role,
      flushDelayReq_same, flushLastSync_same]
    rfl
  | slave => simp [e2eEnter, outOfService]

theorem p2pEnter_role (next : PortState) :
    ((p2pEnter env p next s).ports p).role =
      if outOfService next then (s.ports p).role.cleared
      else (s.ports p).role := by
  cases next with
  | initializing => rfl
  | faulty | disabled => simp [p2pEnter, outOfService]
  | listening | passive => simp [p2pEnter, outOfService]
  | preMaster =>
    simp [p2pEnter, outOfService, portSetQualificationTmo, setTmoLog,
      PtpPort.role]
  | master | grandMaster =>
    simp [p2pEnter, outOfService, setSyncTxTmo, setTmoLog, PtpPort.role]
  | uncalibrated =>
    rw [p2pEnter, portSetAnnounceTmo_role, flushPeerDelay_same,
      flushLastSync_same]
    rfl
  | slave => simp [p2pEnter, outOfService]

/-- A change of state drops the role of a port whose new state is one out of service. -/
theorem transition_role :
    ((transition env p s).ports p).role =
      if outOfService (s.ports p).state then (s.ports p).role.cleared
      else (s.ports p).role := by
  rw [transition]
  split
  · rw [p2pTransition_eq, p2pEnter_role, clearTmos_role]
  · rw [e2eTransition_eq, e2eEnter_role, clearTmos_role]

/-! ## Dispatch -/

/-- A port whose fault is cleared starts anew, whichever machine it has. -/
theorem stateMachine_faultCleared :
    env.stateMachine .faulty .faultCleared false = .initializing := by
  rw [Env.stateMachine]
  split <;> rfl

/-- It then listens, or has its next fault. -/
theorem stateMachine_started (ready : Bool) :
    env.stateMachine .initializing
        (if ready then .initComplete else .faultDetected) false =
      if ready then .listening else .faulty := by
  rw [Env.stateMachine]
  cases ready <;> split <;> rfl

/-- A state that an event leads to is that of the state machine, unless the port
is initialized on the way. -/
theorem nextState_eq {event : PortEvent} {mdiff : Bool} {port : PtpPort}
    (hnext : nextState env p event mdiff port ≠ .initializing) :
    nextState env p event mdiff port =
      env.stateMachine port.state event mdiff := by
  rw [nextState] at hnext ⊢
  split_ifs at hnext ⊢ with hasap
  · rw [hasap.1] at hnext
    exact absurd stateMachine_faultCleared hnext
  · rfl

/-- A state that leads through the initialization is that of a fault or of a
start. -/
theorem portIsEnabled_of_initializing {event : PortEvent} {mdiff : Bool}
    {port : PtpPort}
    (hnext : nextState env p event mdiff port = .initializing) :
    portIsEnabled (env.stateMachine port.state event mdiff) = false := by
  rw [nextState] at hnext
  split_ifs at hnext with hasap
  · rw [hasap.1]
    rfl
  · rw [hnext]
    rfl

/-- The port is down, or listens again, and has given up its foreign masters if
it was enabled. -/
structure Dropped (role role' : Role) : Prop where
  state : role'.state = .listening ∨ outOfService role'.state
  rest : role' = { role.cleared with state := role'.state } ∨
    ¬portIsEnabled role.state ∧ role' = { role with state := role'.state }

/-- These are states in which a port is not enabled. -/
theorem portIsEnabled_of_outOfService {state : PortState}
    (hout : outOfService state) : portIsEnabled state = false := by
  cases state <;> simp_all [outOfService, portIsEnabled]

/-- A port that is started ends up listening or faulty. -/
theorem restart_state :
    (restart env p s).1 = .listening ∨ (restart env p s).1 = .faulty := by
  rw [restart]
  dsimp only
  rw [stateMachine_started]
  exact ite_eq_or_eq ..

def setState (p : ℕ) (next : PortState) : PtpClock → PtpClock :=
  modifyPort p fun port => { port with state := next }

/-- Every other state but the initial one is that of an enabled port. -/
theorem portIsEnabled_of_inService {state : PortState}
    (hout : ¬outOfService state) (hstarted : state ≠ .initializing) :
    portIsEnabled state := by
  cases state <;> simp_all [outOfService, portIsEnabled]

/-- The event changes nothing. -/
theorem enterState_same {event : PortEvent} {mdiff : Bool}
    (hnext : nextState env p event mdiff (s.ports p) ≠ .initializing)
    (hsame : env.stateMachine (s.ports p).state event mdiff =
      (s.ports p).state) :
    enterState env p event mdiff s = (false, s) := by
  rw [enterState, portStateUpdate, if_neg hnext, nextState_eq hnext]
  dsimp only
  rw [if_pos hsame]
  rfl

/-- The event leads to another state. -/
theorem enterState_changed {event : PortEvent} {mdiff : Bool}
    (hnext : nextState env p event mdiff (s.ports p) ≠ .initializing)
    (hchanged : env.stateMachine (s.ports p).state event mdiff ≠
      (s.ports p).state) :
    enterState env p event mdiff s =
      (true, transition env p
        (setState p (env.stateMachine (s.ports p).state event mdiff) s)) := by
  rw [enterState, portStateUpdate, if_neg hnext, nextState_eq hnext]
  dsimp only
  rw [if_neg hchanged]
  rfl

/-- The event leads through the initialization. -/
theorem enterState_started {event : PortEvent} {mdiff : Bool}
    (hnext : nextState env p event mdiff (s.ports p) = .initializing) :
    enterState env p event mdiff s =
      if (restart env p s).1 = ((restart env p s).2.ports p).state then
        (false, (restart env p s).2)
      else
        (true, transition env p
          (setState p (restart env p s).1 (restart env p s).2)) := by
  rw [enterState, portStateUpdate, if_pos hnext]
  dsimp only
  split <;> rfl

/-- A role that is cleared is dropped, whatever state it goes on in. -/
theorem transition_dropped {role : Role}
    (hstate : (s.ports p).state = .listening ∨ (s.ports p).state = .faulty)
    (hrole : (s.ports p).role = { role.cleared with state := (s.ports p).state }
      ∨ ¬portIsEnabled role.state ∧
        (s.ports p).role = { role with state := (s.ports p).state }) :
    Dropped role ((transition env p s).ports p).role := by
  rcases hstate with hlistening | hfaulty
  · rw [transition_role, hlistening]
    refine ⟨Or.inl hlistening, ?_⟩
    rcases hrole with hrole | ⟨henabled, hrole⟩
    · exact Or.inl hrole
    · exact Or.inr ⟨henabled, hrole⟩
  · rw [transition_role, hfaulty]
    refine ⟨Or.inr (congrArg _ hfaulty), Or.inl ?_⟩
    rcases hrole with hrole | ⟨-, hrole⟩ <;> simp [hrole, outOfService, Role.cleared]

/-- To start anew, a port is taken out of service first. -/
theorem enterState_initializing {event : PortEvent} {mdiff : Bool}
    (hnext : nextState env p event mdiff (s.ports p) = .initializing) :
    Dropped (s.ports p).role
      ((enterState env p event mdiff s).2.ports p).role := by
  have hstate := @restart_state env p s
  have hrole := @restart_role env p s
  rw [enterState_started hnext]
  generalize restart env p s = started at hstate hrole ⊢
  obtain ⟨next, s'⟩ := started
  dsimp only at hstate hrole ⊢
  have hgiven : ∀ state, 
    { (s'.ports p).role with state := state } = { (s.ports p).role.cleared with state := state }
      ∨ ¬portIsEnabled (s.ports p).state ∧
        { (s'.ports p).role with state := state } = { (s.ports p).role with state := state } := by
    intro state
    rw [hrole]
    split_ifs with henabled
    · exact Or.inl rfl
    · exact Or.inr ⟨henabled, rfl⟩
  by_cases hsame : next = (s'.ports p).state
  · rw [if_pos hsame]
    refine ⟨?_, hgiven (s'.ports p).state⟩
    rcases hstate with rfl | rfl
    · exact Or.inl hsame.symm
    · exact Or.inr (congrArg outOfService hsame.symm)
  · rw [if_neg hsame]
    refine transition_dropped ?_ ?_
    · simpa [setState] using hstate
    · simpa [setState, PtpPort.role] using hgiven next

/-- The state machine leaves the role of a port as it is, or moves it to a state
in service. -/
structure Moved (env : Env) (event : PortEvent) (mdiff : Bool)
    (role role' : Role) : Prop where
  machine : role' =
    { role with state := env.stateMachine role.state event mdiff }
  serves : env.stateMachine role.state event mdiff = role.state ∨
    portIsEnabled (env.stateMachine role.state event mdiff)

/-- What entering a state does: the port moves, or it is dropped. -/
theorem enterState_cases (event : PortEvent) (mdiff : Bool) :
    Moved env event mdiff (s.ports p).role
        ((enterState env p event mdiff s).2.ports p).role ∨
      portIsEnabled (env.stateMachine (s.ports p).state event mdiff) = false ∧
        Dropped (s.ports p).role
          ((enterState env p event mdiff s).2.ports p).role := by
  by_cases hnext : nextState env p event mdiff (s.ports p) = .initializing
  · exact Or.inr ⟨portIsEnabled_of_initializing hnext,
      enterState_initializing hnext⟩
  have hmachine := nextState_eq hnext
  by_cases hsame : env.stateMachine (s.ports p).state event mdiff =
      (s.ports p).state
  · rw [enterState_same hnext hsame]
    exact Or.inl ⟨by rw [PtpPort.role, hsame], Or.inl hsame⟩
  · rw [enterState_changed hnext hsame, transition_role, setState, modifyPort_same]
    dsimp only
    split_ifs with hout
    · exact Or.inr ⟨portIsEnabled_of_outOfService hout, Or.inr hout,
        Or.inl rfl⟩
    · refine Or.inl ⟨rfl, Or.inr ?_⟩
      rw [hmachine] at hnext
      exact portIsEnabled_of_inService hout hnext

/-- Between the two states a call to switch to another clock fails. -/
def SwitchFails (env : Env) (s s' : PtpClock) : Prop :=
  ∃ n, n < s'.calls ∧ s.calls ≤ n ∧ env.switchPhcFails n

instance : Decidable (SwitchFails env s s') :=
  inferInstanceAs (Decidable (∃ n, n < s'.calls ∧ _))

/-- What a dispatch makes of the role of its port: the state machine moves it, or
it is dropped. -/
inductive Dispatched (env : Env) (p : ℕ) (event : PortEvent) (mdiff : Bool)
    (switchFails : Prop) (role role' : Role) : Prop
  | moved (hmoved : Moved env event mdiff role role')
  | dropped (hdropped : Dropped role role')
      (hcause : portIsEnabled (env.stateMachine role.state event mdiff) = false
        ∨ ((env.config p).jbod ∧ switchFails ∧
          env.stateMachine role.state event mdiff = .uncalibrated))

/-- A fault stops a port that is about to follow a master. -/
theorem stateMachine_fault :
    env.stateMachine .uncalibrated .faultDetected false = .faulty := by
  rw [Env.stateMachine]
  split <;> rfl

/-- What a dispatch does to the role of its port. -/
theorem bcDispatch_cases (event : PortEvent) (mdiff : Bool) :
    Dispatched env p event mdiff
      (SwitchFails env s (bcDispatch env p event mdiff s)) (s.ports p).role
      ((bcDispatch env p event mdiff s).ports p).role := by
  have hentered := @enterState_cases env p s event mdiff
  have hcalls := (@Kept.enterState env p s s (.refl p s) event mdiff).calls
  rw [bcDispatch]
  generalize enterState env p event mdiff s = entered at hentered hcalls ⊢
  obtain ⟨changed, s'⟩ := entered
  dsimp only at hentered ⊢
  split_ifs with hswitch hfails
  · obtain ⟨-, hjbod, huncalibrated⟩ := hswitch
    have hmoved : Moved env event mdiff (s.ports p).role (s'.ports p).role := by
      rcases hentered with hmoved | ⟨-, hdropped⟩
      · exact hmoved
      · have hstate := hdropped.state
        simp [PtpPort.role, huncalibrated, outOfService] at hstate
    have hmachine : env.stateMachine (s.ports p).state event mdiff =
        .uncalibrated :=
      (congrArg Role.state hmoved.machine).symm.trans huncalibrated
    have hfault := @enterState_cases env p
      (setLastFault p .switchPhc (called s')) .faultDetected false
    have hrole : ((setLastFault p .switchPhc (called s')).ports p).role =
        (s'.ports p).role := by
      simp [setLastFault, PtpPort.role]
    rw [hrole] at hfault
    rcases hfault with hstays | ⟨-, hdropped⟩
    · have hserves := hstays.serves
      simp [PtpPort.role, huncalibrated, stateMachine_fault,
        portIsEnabled] at hserves
    · have hlater := (@Kept.enterState env p (called s')
        (setLastFault p .switchPhc (called s')) (Kept.refl p _).modifyPort
        .faultDetected false).calls
      refine .dropped ⟨hdropped.state, ?_⟩
        (Or.inr ⟨hjbod, ⟨s'.calls, ?_, hcalls, hfails⟩, hmachine⟩)
      rcases hdropped.rest with hrest | ⟨henabled, -⟩
      · rw [hmoved.machine] at hrest
        exact Or.inl hrest
      · simp [PtpPort.role, huncalibrated, portIsEnabled] at henabled
      · exact Nat.lt_of_succ_le hlater
  · rcases hentered with hmoved | ⟨hcause, hdropped⟩
    · exact .moved hmoved
    · exact .dropped hdropped (Or.inl hcause)
  · rcases hentered with hmoved | ⟨hcause, hdropped⟩
    · exact .moved hmoved
    · exact .dropped hdropped (Or.inl hcause)

end LinuxPtp.Ordinary
