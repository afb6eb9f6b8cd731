import LinuxPtp.Ordinary.Events

/-!
# Faulty ports

A port in the state FAULTY waits for its fault timer.  `clock_poll` sets the timer
when an event of the port has ended in that state, and clears it when it has
expired; a port that fails anywhere else waits for ever.
-/

namespace LinuxPtp.Ordinary

open Bmc Cells Port Wire
open Relation (ReflTransGen)

variable {env : Env} {p q : ℕ} {s s' : PtpClock} {linkFault : Prop}
variable {event : PortEvent} {mdiff : Bool}

/-! ## What a change of state leaves alone -/

/-- Only what the port remembers of others, and its descriptors, is other than
before. -/
def Forgets (port port' : PtpPort) : Prop :=
  port' =
    { port with
      best := port'.best
      foreignMasters := port'.foreignMasters
      syfu := port'.syfu
      delayReq := port'.delayReq
      peerDelayReq := port'.peerDelayReq
      peerDelayResp := port'.peerDelayResp
      peerDelayFup := port'.peerDelayFup
      fda := port'.fda }

namespace Forgets

theorem refl (port : PtpPort) : Forgets port port := rfl

theorem trans {port port' port'' : PtpPort} (hfirst : Forgets port port')
    (hsecond : Forgets port' port'') : Forgets port port'' := by
  rw [Forgets] at hfirst hsecond ⊢
  rw [hsecond, hfirst]

theorem setFda (fd : Fd) (f : Descriptor → Descriptor) :
    Forgets (s.ports p) ((setFda p fd f s).ports p) := by
  rw [Forgets, setFda_same]

theorem portSetAnnounceTmo :
    Forgets (s.ports p) ((portSetAnnounceTmo env p s).ports p) := by
  rw [Forgets, Ordinary.portSetAnnounceTmo, setTmoRandom_same]

theorem portSetDelayTmo :
    Forgets (s.ports p) ((portSetDelayTmo env p s).ports p) := by
  rw [Ordinary.portSetDelayTmo]
  split
  · exact setFda ..
  · rw [Forgets, setTmoRandom_same]

theorem portOpDisable :
    Forgets (s.ports p) ((portOpDisable p s).ports p) := by
  rw [Forgets, portOpDisable_same, disabledPort]

theorem flushLastSync :
    Forgets (s.ports p) ((flushLastSync p s).ports p) := by
  rw [Forgets, flushLastSync_same]

theorem flushDelayReq :
    Forgets (s.ports p) ((flushDelayReq p s).ports p) := by
  rw [Forgets, flushDelayReq_same]

theorem flushPeerDelay :
    Forgets (s.ports p) ((flushPeerDelay p s).ports p) := by
  rw [Forgets, flushPeerDelay_same]

theorem clearTmos (fds : List Fd) :
    Forgets (s.ports p) ((clearTmos p fds s).ports p) := by
  induction fds generalizing s with
  | nil => exact refl _
  | cons fd fds ih => exact (setFda fd _).trans ih

theorem e2eEnter (next : PortState) :
    Forgets (s.ports p) ((e2eEnter env p next s).ports p) := by
  cases next with
  | initializing => exact refl _
  | faulty | disabled => exact portOpDisable
  | listening | passive => exact portSetAnnounceTmo
  | preMaster => exact setFda ..
  | master | grandMaster => exact (setFda ..).trans (setFda ..)
  | uncalibrated =>
    exact flushLastSync.trans (flushDelayReq.trans
      (portSetAnnounceTmo.trans portSetDelayTmo))
  | slave => exact portSetAnnounceTmo.trans portSetDelayTmo

theorem p2pEnter (next : PortState) :
    Forgets (s.ports p) ((p2pEnter env p next s).ports p) := by
  cases next with
  | initializing => exact refl _
  | faulty | disabled => exact portOpDisable
  | listening => exact portSetAnnounceTmo.trans portSetDelayTmo
  | preMaster => exact setFda ..
  | master | grandMaster => exact (setFda ..).trans (setFda ..)
  | passive | slave => exact portSetAnnounceTmo
  | uncalibrated =>
    exact flushLastSync.trans (flushPeerDelay.trans portSetAnnounceTmo)

theorem transition :
    Forgets (s.ports p) ((transition env p s).ports p) := by
  rw [Ordinary.transition]
  split
  · rw [p2pTransition_eq]
    exact (clearTmos _).trans (p2pEnter _)
  · rw [e2eTransition_eq]
    exact (clearTmos _).trans (e2eEnter _)

section

variable {port port' : PtpPort} (hforgets : Forgets port port')

include hforgets

theorem state : port'.state = port.state := (congrArg PtpPort.state hforgets :)

theorem lastFaultType : port'.lastFaultType = port.lastFaultType :=
  (congrArg PtpPort.lastFaultType hforgets :)

theorem linkUp : port'.linkUp = port.linkUp :=
  (congrArg PtpPort.linkUp hforgets :)

theorem faultArmed : port'.faultArmed = port.faultArmed :=
  (congrArg PtpPort.faultArmed hforgets :)

theorem delayMechanism : port'.delayMechanism = port.delayMechanism :=
  (congrArg PtpPort.delayMechanism hforgets :)

theorem logMinDelayReqInterval :
    port'.logMinDelayReqInterval = port.logMinDelayReqInterval :=
  (congrArg PtpPort.logMinDelayReqInterval hforgets :)

end

end Forgets

/-! ## The way into the state FAULTY -/

theorem portOpDisable_calls : (portOpDisable p s).calls = s.calls := by
  have hflush : (flushLastSync p s).calls = s.calls := by
    rw [flushLastSync]
    split
    · rfl
    · exact msgPutAll_calls ..
  rw [portOpDisable]
  exact (msgPutAll_calls ..).trans ((msgPutAll_calls ..).trans
    ((msgPutAll_calls ..).trans ((msgPutAll_calls ..).trans
      ((msgPutAll_calls ..).trans hflush))))

theorem portInitialize_ready :
    (portInitialize env p s).1 = decide (env.initOutcome s.calls = .ready) := by
  rw [portInitialize]
  cases env.initOutcome s.calls <;> rfl

/-- Beyond the fields that it sets, the initialization only opens descriptors. -/
theorem portInitialize_forgets :
    Forgets (portResetFields env p (s.ports p))
      ((portInitialize env p s).2.ports p) := by
  have hreset : Forgets (portResetFields env p (s.ports p))
      ((modifyPort p (portResetFields env p) (called s)).ports p) := by
    rw [modifyPort_same]
    exact .refl _
  have hopened : Forgets (portResetFields env p (s.ports p))
      ((portSetAnnounceTmo env p (modifyPort p
        (fun port => { port with fda := openDescriptors port.fda })
        (modifyPort p (portResetFields env p) (called s)))).ports p) := by
    refine .trans ?_ Forgets.portSetAnnounceTmo
    rw [modifyPort_same, modifyPort_same]
    rfl
  rw [portInitialize]
  cases env.initOutcome s.calls with
  | noTimers => exact hreset
  | noTransport => exact hreset
  | noUnicastTimer =>
    refine hopened.trans ?_
    dsimp only
    rw [modifyPort_same]
    rfl
  | ready =>
    dsimp only
    rw [openRtnl]
    split
    · exact hopened
    · exact hopened.trans (.setFda ..)

/-- A start that does not succeed leads to the state FAULTY. -/
theorem restart_ready :
    (restart env p s).1 =
      if env.initOutcome s.calls = .ready then .listening else .faulty := by
  have hcalls : (if portIsEnabled (s.ports p).state then portOpDisable p s
      else s).calls = s.calls := by
    split
    · exact portOpDisable_calls
    · rfl
  rw [restart]
  dsimp only
  rw [stateMachine_started, portInitialize_ready, hcalls]
  by_cases hready : env.initOutcome s.calls = .ready <;> simp [hready]

theorem restart_lastFaultType :
    ((restart env p s).2.ports p).lastFaultType = .unspecified :=
  portInitialize_forgets.lastFaultType

/-- How a dispatch ends in the state FAULTY: the state machine leads there and
the fault is not cleared at once, or the start of the port fails, or the switch
to its clock does. -/
inductive Fails (env : Env) (p : ℕ) (event : PortEvent) (mdiff : Bool)
    (switchFails : Prop) (s : PtpClock) (type : FaultType) : Prop
  | straight (hnext : nextState env p event mdiff (s.ports p) = .faulty)
      (htype : type = (s.ports p).lastFaultType)
  | started (hnext : nextState env p event mdiff (s.ports p) = .initializing)
      (hinit : env.initOutcome s.calls ≠ .ready) (htype : type = .unspecified)
  | switched (hnext : env.stateMachine (s.ports p).state event mdiff =
        .uncalibrated)
      (hjbod : (env.config p).jbod) (hswitch : switchFails)
      (htype : type = .switchPhc)

theorem enterState_faulty {switchFails : Prop}
    (hfaulty : ((enterState env p event mdiff s).2.ports p).state = .faulty) :
    Fails env p event mdiff switchFails s
      ((enterState env p event mdiff s).2.ports p).lastFaultType := by
  by_cases hnext : nextState env p event mdiff (s.ports p) = .initializing
  · have hready := @restart_ready env p s
    have htype := @restart_lastFaultType env p s
    rw [enterState_started hnext] at hfaulty ⊢
    generalize restart env p s = started at hready htype hfaulty ⊢
    obtain ⟨next, s'⟩ := started
    dsimp only at hready htype hfaulty ⊢
    have hnot : next = .faulty → env.initOutcome s.calls ≠ .ready := by
      rintro rfl hinit
      rw [if_pos hinit] at hready
      exact absurd hready (by decide)
    split_ifs at hfaulty ⊢ with hsame
    · exact .started hnext (hnot (hsame.trans hfaulty)) htype
    · rw [Forgets.transition.state, setState, modifyPort_same] at hfaulty
      rw [Forgets.transition.lastFaultType, setState, modifyPort_same]
      exact .started hnext (hnot hfaulty) htype
  · have hmachine := nextState_eq hnext
    by_cases hsame : env.stateMachine (s.ports p).state event mdiff =
        (s.ports p).state
    · rw [enterState_same hnext hsame] at hfaulty ⊢
      exact .straight (hmachine.trans (hsame.trans hfaulty)) rfl
    · rw [enterState_changed hnext hsame, Forgets.transition.state, setState,
        modifyPort_same] at hfaulty
      rw [enterState_changed hnext hsame, Forgets.transition.lastFaultType,
        setState, modifyPort_same]
      exact .straight (hmachine.trans hfaulty) rfl

theorem enterState_uncalibrated
    (hstate : ((enterState env p event mdiff s).2.ports p).state =
      .uncalibrated) :
    env.stateMachine (s.ports p).state event mdiff = .uncalibrated := by
  rcases @enterState_cases env p s event mdiff with hmoved | ⟨-, hdropped⟩
  · exact (congrArg Role.state hmoved.machine).symm.trans hstate
  · have hdown := hdropped.state
    simp [PtpPort.role, hstate, outOfService] at hdown

/-- A switch that fails leads to the state FAULTY. -/
theorem enterState_switch (hstate : (s.ports p).state = .uncalibrated) :
    ((enterState env p .faultDetected false
      (setLastFault p .switchPhc (called s))).2.ports p).lastFaultType =
        .switchPhc := by
  have hfields : (setLastFault p .switchPhc (called s)).ports p =
      { s.ports p with lastFaultType := .switchPhc } := by
    rw [setLastFault, modifyPort_same]
    rfl
  have hmachine : env.stateMachine
      ((setLastFault p .switchPhc (called s)).ports p).state .faultDetected
        false = .faulty := by
    rw [hfields, hstate]
    exact stateMachine_fault
  have hnext : nextState env p .faultDetected false
      ((setLastFault p .switchPhc (called s)).ports p) ≠ .initializing := by
    have hstays : clearFaultAsap (faultInterval env p .switchPhc) = false := rfl
    rw [nextState, hmachine, hfields]
    simp [hstays]
  rw [enterState_changed hnext, Forgets.transition.lastFaultType, setState,
    modifyPort_same, hfields]
  rw [hmachine, hfields, hstate]
  decide

theorem bcDispatch_faulty
    (hfaulty : ((bcDispatch env p event mdiff s).ports p).state = .faulty) :
    Fails env p event mdiff (SwitchFails env s (bcDispatch env p event mdiff s))
      s ((bcDispatch env p event mdiff s).ports p).lastFaultType := by
  have hentered := @enterState_faulty env p s event mdiff
    (SwitchFails env s (bcDispatch env p event mdiff s))
  have huncalibrated := @enterState_uncalibrated env p s event mdiff
  have hcalls := (@Kept.enterState env p s s (.refl p s) event mdiff).calls
  rw [bcDispatch] at hfaulty hentered ⊢
  generalize enterState env p event mdiff s = entered
    at hfaulty hentered huncalibrated hcalls ⊢
  obtain ⟨changed, s'⟩ := entered
  dsimp only at hfaulty hentered huncalibrated hcalls ⊢
  split_ifs at hfaulty hentered ⊢ with hswitch hfails
  · obtain ⟨-, hjbod, hstate⟩ := hswitch
    have hlater := (@Kept.enterState env p (called s')
      (setLastFault p .switchPhc (called s')) (Kept.refl p _).modifyPort
      .faultDetected false).calls
    exact .switched (huncalibrated hstate) hjbod
      ⟨s'.calls, Nat.lt_of_succ_le hlater, hcalls, hfails⟩
      (enterState_switch hstate)
  · exact hentered hfaulty
  · exact hentered hfaulty

/-- A dispatch never leaves its port in the state INITIALIZING. -/
theorem bcDispatch_started :
    ((bcDispatch env p event mdiff s).ports p).state ≠ .initializing := by
  have hentered : ∀ event mdiff s',
      ((enterState env p event mdiff s').2.ports p).state ≠ .initializing := by
    intro event mdiff s'
    by_cases hnext : nextState env p event mdiff (s'.ports p) = .initializing
    · have hstate := (enterState_initializing hnext).state
      intro hinit
      simp [PtpPort.role, hinit, outOfService] at hstate
    · have hmachine := nextState_eq hnext
      rw [hmachine] at hnext
      by_cases hsame : env.stateMachine (s'.ports p).state event mdiff =
          (s'.ports p).state
      · rw [enterState_same (hmachine ▸ hnext) hsame, ← hsame]
        exact hnext
      · rw [enterState_changed (hmachine ▸ hnext) hsame,
          Forgets.transition.state, setState, modifyPort_same]
        exact hnext
  rw [bcDispatch]
  dsimp only
  split_ifs
  · exact hentered _ _ _
  · exact hentered _ _ _
  · exact hentered _ _ _

/-- A dispatch does not set the fault timer, and leaves the link as it is. -/
theorem bcDispatch_waits :
    ((bcDispatch env p event mdiff s).ports p).faultArmed =
        (s.ports p).faultArmed ∧
      ((bcDispatch env p event mdiff s).ports p).linkUp = (s.ports p).linkUp := by
  have hcases := @bcDispatch_cases env p s event mdiff
  generalize hrole : ((bcDispatch env p event mdiff s).ports p).role = role'
    at hcases
  have hgiven : role'.faultArmed = (s.ports p).faultArmed ∧
      role'.linkUp = (s.ports p).linkUp := by
    cases hcases with
    | moved hmoved =>
      rw [hmoved.machine]
      exact ⟨rfl, rfl⟩
    | dropped hdropped =>
      rcases hdropped.rest with hrest | ⟨-, hrest⟩ <;> rw [hrest] <;>
        exact ⟨rfl, rfl⟩
  rw [← hrole] at hgiven
  exact hgiven

/-! ## Ports that wait -/

/-- A port that has failed while its link is up has its fault timer running. -/
def Recovers (port : PtpPort) : Prop :=
  port.state = .faulty → port.linkUp → port.faultArmed

def NoneStranded (env : Env) (s : PtpClock) : Prop :=
  ∀ p < env.nports, Recovers (s.ports p)

instance (port : PtpPort) : Decidable (Recovers port) :=
  inferInstanceAs (Decidable (_ → _ → _))

instance : Decidable (NoneStranded env s) :=
  inferInstanceAs (Decidable (∀ p < env.nports, _))

/-- The port has been started, and does not wait for ever. -/
structure Waits (port : PtpPort) : Prop where
  started : port.state ≠ .initializing
  recovers : Recovers port

/-- Whether the fault timer runs once it has been set for a fault. -/
def faultTimerSet (env : Env) (p : ℕ) (type : FaultType) (armed : Bool) : Bool :=
  match faultInterval env p type with
  | .linearSeconds val => if val < 0 then armed else val ≠ 0
  | .log2Seconds val => tmoLog env 1 val ≠ 0

theorem clockFaultTimeout_set :
    clockFaultTimeout env p true s =
      modifyPort p (fun port =>
        { port with
          faultArmed := faultTimerSet env p port.lastFaultType port.faultArmed })
        s := rfl

theorem clockFaultTimeout_clear :
    clockFaultTimeout env p false s =
      modifyPort p (fun port => { port with faultArmed := false }) s := rfl

theorem faultTimerSet_switchPhc (armed : Bool) :
    faultTimerSet env p .switchPhc armed := by
  simp [faultTimerSet, faultInterval, tmoLog, intShift]

/-- Where the event fails the port, the fault timer can end that: its value for
this kind of fault is not zero, or the port is started anew and that succeeds. -/
def FaultEnds (env : Env) (p : ℕ) (event : PortEvent) (s : PtpClock) : Prop :=
  match nextState env p event false (s.ports p) with
  | .faulty =>
      faultTimerSet env p (s.ports p).lastFaultType (s.ports p).faultArmed
  | .initializing =>
      env.initOutcome s.calls = .ready ∨
        faultTimerSet env p .unspecified (s.ports p).faultArmed
  | _ => True

instance : Decidable (FaultEnds env p event s) := by
  rw [FaultEnds]
  split <;> infer_instance

/-- The condition on a task: a fault of an event is one that the timer can end;
the port is started anew when its timer has expired; and no switch to its clock
fails in a state decision. -/
def EndsFaults (env : Env) (task : Task) (s : PtpClock) : Prop :=
  match task with
  | .fd p fd _ =>
      ((bcEvent env p fd (expire p fd s)).2.ports p).linkUp →
        FaultEnds env p (bcEvent env p fd (expire p fd s)).1
          (bcEvent env p fd (expire p fd s)).2
  | .fault p =>
      (s.ports p).linkUp → (s.ports p).state = .faulty →
        env.initOutcome s.calls = .ready
  | .finish =>
      s.sde → (∃ p < env.nports, (env.config p).jbod) →
        ¬SwitchFails env s (handleStateDecisionEvent env s)
  | _ => True

instance (task : Task) : Decidable (EndsFaults env task s) :=
  match task with
  | .fd .. => inferInstanceAs (Decidable (_ → FaultEnds ..))
  | .fault _ => inferInstanceAs (Decidable (_ → _ → _))
  | .finish => inferInstanceAs (Decidable (_ → (∃ p < env.nports, _) → ¬_))
  | .uds .. => inferInstanceAs (Decidable True)

/-! ## Dispatches -/

theorem Waits.of_eq {port port' : PtpPort} (hwaits : Waits port)
    (hstate : port'.state = port.state)
    (harmed : port'.faultArmed = port.faultArmed)
    (hlink : port'.linkUp = port.linkUp) : Waits port' where
  started := hstate ▸ hwaits.started
  recovers hfaulty hup := by
    rw [harmed]
    exact hwaits.recovers (hstate ▸ hfaulty) (hlink ▸ hup)

/-- An event of the port, and the setting of its fault timer. -/
theorem bcDispatch_waits_of_faultEnds
    (hends : (s.ports p).linkUp → FaultEnds env p event s)
    (hfaulty : ((bcDispatch env p event false s).ports p).state = .faulty) :
    Waits ((clockFaultTimeout env p true
      (bcDispatch env p event false s)).ports p) := by
  obtain ⟨harmed, hlink⟩ := @bcDispatch_waits env p s event false
  have hfails := bcDispatch_faulty hfaulty
  rw [clockFaultTimeout_set, modifyPort_same]
  refine ⟨bcDispatch_started, fun _ hup => ?_⟩
  dsimp only at hup ⊢
  rw [hlink] at hup
  replace hends := hends hup
  rw [harmed]
  cases hfails with
  | straight hnext htype =>
    rw [FaultEnds, hnext] at hends
    rw [htype]
    exact hends
  | started hnext hinit htype =>
    rw [FaultEnds, hnext] at hends
    rw [htype]
    exact hends.resolve_left hinit
  | switched _ _ _ htype =>
    rw [htype]
    exact faultTimerSet_switchPhc _

theorem waits_of_not_faulty
    (hfaulty : ((bcDispatch env p event mdiff s).ports p).state ≠ .faulty) :
    Waits ((bcDispatch env p event mdiff s).ports p) :=
  ⟨bcDispatch_started, fun hstate => absurd hstate hfaulty⟩

/-- The end of a fault starts the port anew. -/
theorem bcDispatch_faultCleared_waits
    (hstarted : (s.ports p).state ≠ .initializing)
    (hready : (s.ports p).state = .faulty → env.initOutcome s.calls = .ready) :
    Waits ((bcDispatch env p .faultCleared false s).ports p) := by
  refine waits_of_not_faulty fun hfaulty => ?_
  by_cases henabled : portIsEnabled (s.ports p).state
  · rw [bcDispatch_faultCleared henabled] at hfaulty
    rw [hfaulty] at henabled
    exact Bool.false_ne_true henabled
  have hmachine : env.stateMachine (s.ports p).state .faultCleared false =
      if (s.ports p).state = .faulty then .initializing else .disabled := by
    rw [Env.stateMachine]
    generalize (s.ports p).state = state at hstarted henabled ⊢
    split <;> cases state <;> simp_all [portIsEnabled] <;> rfl
  cases bcDispatch_faulty hfaulty with
  | straight hnext =>
    rw [nextState_eq (by simp [hnext]), hmachine] at hnext
    split at hnext <;> exact PortState.noConfusion hnext
  | started hnext hinit =>
    by_cases hstate : (s.ports p).state = .faulty
    · exact hinit (hready hstate)
    · rw [nextState, hmachine, if_neg hstate, if_neg (by simp)] at hnext
      exact PortState.noConfusion hnext
  | switched hnext =>
    rw [hmachine] at hnext
    split at hnext <;> exact PortState.noConfusion hnext

/-- A recommended event does not fail a port. -/
theorem nextState_recommended {port : PtpPort} {state : PortState}
    (hstarted : port.state ≠ .initializing) (hfaulty : port.state ≠ .faulty)
    (hevent : ¬disables (recommendedEvent state)) :
    nextState env p (recommendedEvent state) mdiff port ≠ .initializing ∧
      nextState env p (recommendedEvent state) mdiff port ≠ .faulty := by
  have hmachine : portIsEnabled
        (env.stateMachine port.state (recommendedEvent state) mdiff) ∨
      env.stateMachine port.state (recommendedEvent state) mdiff = .disabled := by
    by_cases henabled : portIsEnabled port.state
    · exact Or.inl (stateMachine_enabled hevent henabled)
    · have hdisabled : port.state = .disabled := by
        generalize port.state = state' at hstarted hfaulty henabled ⊢
        cases state' <;> simp_all [portIsEnabled]
      rw [Env.stateMachine, hdisabled]
      right
      split <;> cases state <;> simp_all [recommendedEvent, disables] <;> rfl
  rw [nextState]
  generalize env.stateMachine port.state (recommendedEvent state) mdiff = next
    at hmachine ⊢
  constructor <;> split_ifs with hasap <;>
    cases next <;> simp_all [portIsEnabled]

/-- A state decision leaves no port waiting for ever, unless the switch to its
clock fails. -/
theorem decidePort_waits {fresh : Bool} (hwaits : Waits (s.ports p))
    (hswitch : (env.config p).jbod → ¬SwitchFails env s (decidePort env fresh p s)) :
    Waits ((decidePort env fresh p s).ports p) := by
  have hdecides := @recommendedUpdate_decides env p s (bmcStateDecision env p s)
  have hports := @recommendedUpdate_ports env s (bmcStateDecision env p s)
  rw [decidePort_eq] at hswitch ⊢
  generalize recommendedUpdate env (bmcStateDecision env p s) s = s₁
    at hdecides hports hswitch ⊢
  rw [← hports] at hwaits
  by_cases hstate : (s₁.ports p).state = .faulty
  · obtain ⟨harmed, hlink⟩ := @bcDispatch_waits env p s₁
      (recommendedEvent (bmcStateDecision env p s)) fresh
    refine ⟨bcDispatch_started, fun _ hup => ?_⟩
    rw [hlink] at hup
    rw [harmed]
    exact hwaits.recovers hstate hup
  · obtain ⟨hstarts, hfails⟩ := @nextState_recommended env p fresh (s₁.ports p)
      (bmcStateDecision env p s) hwaits.started hstate
      not_disables_recommendedEvent
    refine waits_of_not_faulty fun hfaulty => ?_
    cases bcDispatch_faulty hfaulty with
    | straight hnext => exact hfails hnext
    | started hnext => exact hstarts hnext
    | switched _ hjbod hfailed =>
      exact hswitch hjbod (hfailed.widen hdecides.calls le_rfl)

/-! ## Tasks -/

/-- Every network port has been started, and none waits for ever. -/
def AllWait (env : Env) (s : PtpClock) : Prop :=
  ∀ p < env.nports, Waits (s.ports p)

theorem decisionStart_waits (hwaits : AllWait env s) :
    AllWait env (decisionStart env s) := by
  refine @computeBest_keeps env s (AllWait env) (fun p s hwaits q hq => ?_)
    (List.range env.nports) none hwaits
  by_cases hsame : q = p
  · subst hsame
    rw [portComputeBest_same]
    exact (hwaits q hq).of_eq rfl rfl rfl
  · rw [portComputeBest_within.ports q hsame]
    exact hwaits q hq

theorem decision_waits (hwaits : AllWait env s) (hsde : s.sde)
    (hends : EndsFaults env .finish s) :
    AllWait env (handleStateDecisionEvent env s) := by
  rw [EndsFaults, handleStateDecisionEvent_eq] at hends
  rw [handleStateDecisionEvent_eq]
  refine @decidePorts_keeps_within env _ (AllWait env) _ _ List.nodup_range
    (fun p hp s' _ _ _ hfirst hlater hwaits q hq => ?_)
    (decisionStart_waits hwaits)
  by_cases hsame : q = p
  · subst hsame
    refine decidePort_waits (hwaits q hq) fun hjbod hfails => ?_
    exact hends hsde ⟨q, hq, hjbod⟩
      (hfails.widen (decisionStart_calls.trans hfirst) hlater)
  · rw [(decidePort_decides _).ports q hsame]
    exact hwaits q hq

theorem portEvent_waits {fd : Fd} {touched : ℕ}
    (hends : EndsFaults env (.fd p fd touched) s)
    (hfaulty : ((portEvent env p fd s).ports p).state = .faulty) :
    Waits ((clockFaultTimeout env p true (portEvent env p fd s)).ports p) := by
  obtain ⟨s', hs', -, hevent⟩ := @portEvent_eq env p s fd
  rw [EndsFaults] at hends
  rw [hevent] at hfaulty ⊢
  refine bcDispatch_waits_of_faultEnds ?_ hfaulty
  rcases hs' with rfl | rfl <;> exact hends

theorem runTask_waits (task : Task) (hends : EndsFaults env task s)
    (hwaits : AllWait env s) : AllWait env (runTask env task s) := by
  cases task with
  | fd p fd touched =>
    obtain ⟨hothers, -⟩ := @portEvent_elsewhere env p s fd
    have hstarted : ((portEvent env p fd s).ports p).state ≠ .initializing := by
      obtain ⟨s', -, -, hevent⟩ := @portEvent_eq env p s fd
      rw [hevent]
      exact bcDispatch_started
    rw [runTask]
    intro q hq
    by_cases hsame : q = p
    · subst hsame
      split
      · rename_i hfaulty
        exact portEvent_waits hends hfaulty
      · rename_i hfaulty
        exact ⟨hstarted, fun hstate => absurd hstate hfaulty⟩
    · have hother : Waits ((portEvent env p fd s).ports q) := by
        rw [hothers q hsame]
        exact hwaits q hq
      split
      · rw [skipPort, clockFaultTimeout_set]
        dsimp only
        rw [modifyPort_other _ hsame]
        exact hother
      · exact hother
  | fault p =>
    rw [runTask]
    intro q hq
    by_cases hsame : q = p
    · subst hsame
      have hcleared : (clockFaultTimeout env q false s).ports q =
          { s.ports q with faultArmed := false } := by
        rw [clockFaultTimeout_clear, modifyPort_same]
      split
      · rename_i hup
        refine bcDispatch_faultCleared_waits ?_ fun hstate => ?_
        · rw [hcleared]
          exact (hwaits q hq).started
        · rw [hcleared] at hup hstate
          exact hends hup hstate
      · rename_i hdown
        rw [hcleared] at hdown ⊢
        exact ⟨(hwaits q hq).started, fun _ hup => absurd hup hdown⟩
    · have hother : (clockFaultTimeout env p false s).ports q = s.ports q := by
        rw [clockFaultTimeout_clear, modifyPort_other _ hsame]
      split
      · rw [(Kept.refl p _).bcDispatch.ports q hsame, hother]
        exact hwaits q hq
      · rw [hother]
        exact hwaits q hq
  | uds fd touched =>
    obtain ⟨hothers, -⟩ := @bcEvent_elsewhere env env.udsPort s fd
    intro q hq
    have hother : Waits
        ((bcEvent env env.udsPort fd (expire env.udsPort fd s)).2.ports q) := by
      rw [hothers q hq.ne]
      exact hwaits q hq
    rw [runTask]
    dsimp only
    split <;> exact hother
  | finish =>
    rw [runTask]
    split
    · rename_i hsde
      exact decision_waits hwaits hsde hends
    · exact hwaits

/-! ## Every run -/

def startPorts (env : Env) (count : ℕ) : PtpClock :=
  (List.range count).foldl
    (fun s p => bcDispatch env p .initializePort false s) (newClock env)

theorem startPorts_succ (count : ℕ) :
    startPorts env (count + 1) =
      bcDispatch env count .initializePort false (startPorts env count) := by
  rw [startPorts, List.range_succ, List.foldl_append]
  rfl

/-- The start of every network port succeeds when the clock is created. -/
def StartsPorts (env : Env) : Prop :=
  ∀ p < env.nports, env.initOutcome (startPorts env p).calls = .ready

instance : Decidable (StartsPorts env) :=
  inferInstanceAs (Decidable (∀ p < env.nports, _))

theorem stateMachine_initializePort (state : PortState) :
    env.stateMachine state .initializePort mdiff = .initializing := by
  rw [Env.stateMachine]
  split <;> rfl

theorem bcDispatch_initializePort_waits
    (hready : env.initOutcome s.calls = .ready) :
    Waits ((bcDispatch env p .initializePort false s).ports p) := by
  refine waits_of_not_faulty fun hfaulty => ?_
  cases bcDispatch_faulty hfaulty with
  | straight hnext =>
    rw [nextState, stateMachine_initializePort, if_neg (by simp)] at hnext
    exact PortState.noConfusion hnext
  | started _ hinit => exact hinit hready
  | switched hnext =>
    rw [stateMachine_initializePort] at hnext
    exact PortState.noConfusion hnext

theorem startPorts_waits (hstarts : StartsPorts env) (count : ℕ) :
    ∀ p < count, p < env.nports → Waits ((startPorts env count).ports p) := by
  induction count with
  | zero => exact fun _ hp => absurd hp (Nat.not_lt_zero _)
  | succ count ih =>
    intro p hp hnetwork
    rw [startPorts_succ]
    by_cases hsame : p = count
    · subst hsame
      exact bcDispatch_initializePort_waits (hstarts p hnetwork)
    · rw [(Kept.refl count _).bcDispatch.ports p hsame]
      exact ih p (Nat.lt_of_le_of_ne (Nat.le_of_lt_succ hp) hsame) hnetwork

/-- Where the ports start and every fault can end, no network port waits for
ever, in any state of the run. -/
theorem runClock_noneStranded (env : Env) (steps : List Step)
    (hstarts : StartsPorts env) (hends : MeetsTasks env (EndsFaults env) steps) :
    NoneStranded env (runClock env steps) := by
  have hwaits : AllWait env (runClock env steps) := by
    refine runClock_of_tasks ?_ (fun _ _ hwaits => hwaits)
      (fun task s => runTask_waits task) hends
    exact fun p hp => startPorts_waits hstarts (env.nports + 1) p
      (Nat.lt_succ_of_lt hp) hp
  exact fun p hp => (hwaits p hp).recovers

/-- The sending of a request fails, and the port waits for its timer. -/
theorem runClock_noneStranded_muteClock :
    NoneStranded muteClock (runClock muteClock delayRequestSteps) :=
  runClock_noneStranded muteClock delayRequestSteps (by decide +kernel)
    (by decide +kernel)

def unwiredClock : Env := { soloClock with initOutcome := fun _ => .noTransport }

/-- Its port waits for ever from the start. -/
theorem unwiredClock_not_noneStranded :
    ¬NoneStranded unwiredClock (runClock unwiredClock []) := by decide +kernel

end LinuxPtp.Ordinary
