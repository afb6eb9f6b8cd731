import LinuxPtp.Lib.Stepping
import LinuxPtp.Ordinary.Handlers

/-!
# The main loop

What a port makes of a ready descriptor, the state decision, and the order in
which `clock_poll` goes through what `poll` has reported.
-/

namespace LinuxPtp.Ordinary

open Bmc Cells Port Wire

/-! ## Receiving -/

/-- `_portIgnore`: the port is not capable, the message has been here before, or
it is not for this domain or from this clock. -/
def portIgnore (env : Env) (p : ℕ) (port : PtpPort) (capable : Bool)
    (m : Message) : Bool :=
  (!capable && (m.type = .announce || m.type = .sync)) ||
    ((env.config p).pathTraceEnabled && m.type = .announce &&
      m.pathTrace.contains env.clockIdentity) ||
    ((env.config p).matchTransportSpecific &&
      m.transportSpecific ≠ (env.config p).transportSpecific) ||
    m.sourcePortIdentity = port.portIdentity ||
    m.domainNumber ≠ env.domainNumber ||
    m.sourcePortIdentity.clockIdentity = env.clockIdentity

def needsTimestamp : MsgType → Bool
  | .sync | .delayReq | .pdelayReq | .pdelayResp => true
  | _ => false

/-- An event message without its timestamp is of no use. -/
def sotsMissing (env : Env) (p : ℕ) (m : Message) : Bool :=
  needsTimestamp m.type && !m.stamped &&
    !((env.config p).p2pOneStep && m.type = .pdelayReq)

inductive Read
  | failed
  | dropped
  | accepted (m : Message)

/-- The reading half of `bc_event`. -/
def readMessage (env : Env) (p : ℕ) (s : PtpClock) : Read × PtpClock :=
  match msgAllocate env s with
  | (none, s) => (.failed, s)
  | (some cell, s) =>
      match env.receive s.calls with
      | .failed => (.failed, msgPutHeld cell (called s))
      | .rejected => (.dropped, msgPutHeld cell (called s))
      | .received m =>
          let m := { m with cell := cell, arrival := s.calls }
          if portIgnore env p (s.ports p) (env.capable s.calls) m ||
              sotsMissing env p m then
            (.dropped, msgPutHeld cell (called s))
          else (.accepted m, called s)

def orFault (result : Bool × PtpClock) : PortEvent × PtpClock :=
  (if result.1 then .none else .faultDetected, result.2)

/-- Tells the event of a handler that may ask for a state decision. -/
def orDecision (result : Bool × PtpClock) : PortEvent × PtpClock :=
  (if result.1 then .stateDecisionEvent else .none, result.2)

/-- For the record: an Announce has asked for a state decision. -/
def noteAnnounce (p : ℕ) (result : Bool × PtpClock) : Bool × PtpClock :=
  (result.1, modifyPort p (fun port =>
    { port with reported := port.reported || result.1 }) result.2)

def handleMessage (env : Env) (p : ℕ) (m : Message) (s : PtpClock) :
    PortEvent × PtpClock :=
  match m.type with
  | .sync => (.none, portMsgProSync env p m s)
  | .delayReq => orFault (portMsgProDelayReq env p m s)
  | .pdelayReq => orFault (portMsgProPDelayReq env p m s)
  | .pdelayResp => orFault (portMsgProPDelayResp env p m s)
  | .followUp => (.none, portMsgProFollowUp env p m s)
  | .delayResp => (.none, portMsgProDelayResp env p m s)
  | .pdelayRespFollowUp => (.none, portMsgProPDelayRespFollowUp env p m s)
  | .announce =>
      orDecision (noteAnnounce p (portMsgProAnnounce env p m s))
  | .signaling => orFault (portMsgProSignaling env p s)
  | .management => orDecision (clockManage env p m s)

def receiveMessage (env : Env) (p : ℕ) (s : PtpClock) : PortEvent × PtpClock :=
  match readMessage env p s with
  | (.failed, s) => (.faultDetected, s)
  | (.dropped, s) => (.none, s)
  | (.accepted m, s) =>
      let (event, s) := handleMessage env p m s
      (event, msgPutHeld m.cell s)

/-! ## Timers and the link -/

/-- `_renewTransport`, and whether it succeeds. -/
def renewTransport (env : Env) (p : ℕ) (s : PtpClock) : Bool × PtpClock :=
  if !portIsEnabled (s.ports p).state then (true, s)
  else
    let ok := env.transportOpen s.calls
    let renew : Descriptor → Descriptor := fun d =>
      if ok then d.closed.reopened else d.closed
    (ok, setFda p .event renew (setFda p .general renew (called s)))

def clearBest (p : ℕ) (s : PtpClock) : PtpClock :=
  match (s.ports p).best with
  | none => s
  | some best => fcClear p best s

def receiptTimeout (env : Env) (p : ℕ) (s : PtpClock) : PortEvent × PtpClock :=
  let s := delayReqPrune env p (portSetAnnounceTmo env p (clearBest p s))
  if env.slaveOnly ∧ (s.ports p).delayMechanism ≠ .p2p then
    let (ok, s) := renewTransport env p s
    (if ok then .announceReceiptTimeoutExpires else .faultDetected, s)
  else (.announceReceiptTimeoutExpires, s)

def setLink (p : ℕ) (linkUp linkChanged tsLabelChanged : Bool) :
    PtpClock → PtpClock :=
  modifyPort p fun port =>
    { port with
      linkUp := linkUp
      linkChanged := linkChanged
      tsLabelChanged := tsLabelChanged }

def askDecision (s : PtpClock) : PtpClock := { s with sde := true }

/-- `port_link_status`, called for each message about the link. -/
def portLinkStatus (env : Env) (p : ℕ) (report : LinkReport) (s : PtpClock) :
    PtpClock :=
  let changed := (s.ports p).linkUp ≠ report.linkUp
  let s := setLink p report.linkUp changed report.labelChanged s
  if report.linkUp ∧ (changed ∨ report.labelChanged) then
    if report.modesMissing then askDecision (setLink p false true false s)
    else if report.switchFailed then
      bcDispatch env p .faultDetected false
        (setLastFault p .switchPhc s)
    else s
  else if report.linkUp then s
  else askDecision s

def linkEvent (env : Env) (p : ℕ) (s : PtpClock) : PortEvent × PtpClock :=
  let s := (env.linkReports s.calls).foldl
    (fun s report => portLinkStatus env p report s) (called s)
  let port := s.ports p
  (if port.linkUp ∧ port.linkChanged ∧ ¬port.tsLabelChanged then .faultCleared
    else if (¬port.linkUp ∧ port.linkChanged ∧ ¬port.tsLabelChanged) ∨
        port.tsLabelChanged then .faultDetected
    else .none, s)

/-- A timer that has expired runs no more, but stays ready until it is set. -/
def expire (p : ℕ) (fd : Fd) (s : PtpClock) : PtpClock :=
  if fd.isTimer then
    setFda p fd (fun d => { d with armed := false, expired := true }) s
  else s

/-- `bc_event`, once the timer has expired or the socket has something to read. -/
def bcEvent (env : Env) (p : ℕ) (fd : Fd) (s : PtpClock) :
    PortEvent × PtpClock :=
  match fd with
  | .announceTimer | .syncRxTimer => receiptTimeout env p s
  | .delayTimer =>
      orFault (portDelayRequest env p
        (delayReqPrune env p (portSetDelayTmo env p s)))
  | .qualificationTimer => (.qualificationTimeoutExpires, s)
  | .mannoTimer => orFault (portTxAnnounce env p false (setMannoTmo env p s))
  | .syncTxTimer => orFault (portTxSync env p false (setSyncTxTmo env p s))
  | .unicastSrvTimer | .unicastReqTimer =>
      orFault (!env.unicastFails s.calls, sendAll env 1 (called s))
  | .rtnl => linkEvent env p s
  | .event | .general => receiveMessage env p s

/-! ## The state decision -/

def clockDefaultDs (env : Env) (s : PtpClock) : Dataset where
  priority1 := s.priority1
  identity := env.clockIdentity
  quality := s.clockQuality
  priority2 := s.priority2
  localPriority := env.localPriority
  stepsRemoved := 0
  sender := ⟨env.clockIdentity, 0⟩
  receiver := ⟨env.clockIdentity, 0⟩

def portBestDs (port : PtpPort) : Option Dataset :=
  (bestRecord port).map ForeignClock.dataset

def bmcStateDecision (env : Env) (p : ℕ) (s : PtpClock) : PortState :=
  let clockDs := some (clockDefaultDs env s)
  let clockBest := s.best.map ForeignClock.dataset
  let portBest := portBestDs (s.ports p)
  if portBest = none ∧ (s.ports p).state = .listening then .listening
  else if s.clockQuality.clockClass.toNat ≤ 127 then
    if env.dscmp clockDs portBest > 0 then .grandMaster else .passive
  else if env.dscmp clockDs clockBest > 0 then .grandMaster
  else if s.best.map ForeignClock.port = some p then .slave
  else if env.dscmp clockBest portBest = aBetterTopo then .passive
  else .master

def clockUpdateGrandmaster (env : Env) (s : PtpClock) : PtpClock :=
  { s with
    stepsRemoved := 0
    parentPortIdentity := ⟨env.clockIdentity, 0⟩
    grandmasterIdentity := env.clockIdentity
    grandmasterClockQuality := s.clockQuality
    grandmasterPriority1 := s.priority1
    grandmasterPriority2 := s.priority2
    tds := ⟨s.utcOffset, s.timeFlags, s.timeSource⟩ }

def utcOffValid : UInt8 := 4
def timeTraceable : UInt8 := 16

/-- Both flags are set: the announced UTC offset is to be trusted. -/
def utcTraceable (flags : UInt8) : Bool :=
  flags &&& utcOffValid ≠ 0 && flags &&& timeTraceable ≠ 0

/-- `clock_update_slave` with the newest message of the best record. -/
def clockUpdateSlave (s : PtpClock) : PtpClock :=
  match s.best with
  | none => s
  | some best =>
      match best.messages with
      | [] => s
      | msg :: _ =>
          let utcOffset := msg.currentUtcOffset.toInt
          { s with
            stepsRemoved := 1 + best.dataset.stepsRemoved
            parentPortIdentity := best.dataset.sender
            grandmasterIdentity := msg.grandmasterIdentity
            grandmasterClockQuality := msg.grandmasterClockQuality
            grandmasterPriority1 := msg.grandmasterPriority1
            grandmasterPriority2 := msg.grandmasterPriority2
            tds := ⟨utcOffset, msg.timeFlags, msg.timeSource⟩
            utcOffset :=
              if utcTraceable msg.timeFlags ∨ utcOffset > s.utcOffset then
                utcOffset
              else s.utcOffset }

def portComputeBest (env : Env) (p : ℕ) (s : PtpClock) :
    Option ForeignClock × PtpClock :=
  let examined := Bmc.portComputeBest env.bmc env.dscmp s.calls
    (s.ports p).toBmcPort
  (examined.best,
    modifyPort p (fun port =>
      { port with
        foreignMasters := examined.records
        best := examined.best.map ForeignClock.address
        decided := examined.best.bind fun fc => fc.messages.head?
        reported := false })
      (msgPutAll examined.puts { s with calls := examined.readings }))

/-- The first loop of `handle_state_decision_event`. -/
def computeBest (env : Env) :
    List ℕ → Option ForeignClock → PtpClock → Option ForeignClock × PtpClock
  | [], best, s => (best, s)
  | p :: rest, best, s =>
      let (fc, s) := portComputeBest env p s
      let best :=
        match fc with
        | none => best
        | some fc =>
            if ∀ held ∈ best, 0 < env.dscmp (some fc.dataset) (some held.dataset)
            then some fc
            else best
      computeBest env rest best s

def decidePort (env : Env) (freshBest : Bool) (p : ℕ) (s : PtpClock) :
    PtpClock :=
  match bmcStateDecision env p s with
  | .listening => bcDispatch env p .none freshBest s
  | .grandMaster =>
      bcDispatch env p .rsGrandMaster freshBest (clockUpdateGrandmaster env s)
  | .master => bcDispatch env p .rsMaster freshBest s
  | .passive => bcDispatch env p .rsPassive freshBest s
  | .slave => bcDispatch env p .rsSlave freshBest (clockUpdateSlave s)
  | _ => bcDispatch env p .faultDetected freshBest s

def decidePorts (env : Env) (freshBest : Bool) (ports : List ℕ) (s : PtpClock) :
    PtpClock :=
  ports.foldl (fun s p => decidePort env freshBest p s) s

def handleStateDecisionEvent (env : Env) (s : PtpClock) : PtpClock :=
  let (best, s) := computeBest env (List.range env.nports) none s
  let bestId := (best.map fun fc => fc.dataset.identity).getD env.clockIdentity
  let freshBest : Bool := bestId ≠ s.bestId
  decidePorts env freshBest (List.range env.nports)
    { s with best := best, bestId := bestId }

/-! ## The loop -/

/-- `clock_fault_timeout`; a negative number of seconds is refused. -/
def clockFaultTimeout (env : Env) (p : ℕ) (set : Bool) (s : PtpClock) :
    PtpClock :=
  if set then
    modifyPort p (fun port =>
      { port with
        faultArmed :=
          match faultInterval env p port.lastFaultType with
          | .linearSeconds val =>
              if val < 0 then port.faultArmed else val ≠ 0
          | .log2Seconds val => tmoLog env 1 val ≠ 0 }) s
  else modifyPort p (fun port => { port with faultArmed := false }) s

/-- A ready descriptor of a network port, up to the dispatch of its event. -/
def portEvent (env : Env) (p : ℕ) (fd : Fd) (s : PtpClock) : PtpClock :=
  let (event, s) := bcEvent env p fd (expire p fd s)
  let s :=
    if event = .stateDecisionEvent ∨ event = .announceReceiptTimeoutExpires then
      askDecision s
    else s
  bcDispatch env p event false s

/-- The descriptors of the port that are still to come are passed over. -/
def skipPort (p : ℕ) (s : PtpClock) : PtpClock :=
  { s with todo := s.todo.filter fun task =>
      match task with
      | .fd q _ _ => q ≠ p
      | _ => true }

def runTask (env : Env) (task : Task) (s : PtpClock) : PtpClock :=
  match task with
  | .fd p fd _ =>
      let s := portEvent env p fd s
      if (s.ports p).state = .faulty then
        skipPort p (clockFaultTimeout env p true s)
      else s
  | .fault p =>
      let s := clockFaultTimeout env p false s
      if (s.ports p).linkUp then bcDispatch env p .faultCleared false s else s
  | .uds fd _ =>
      let (event, s) := bcEvent env env.udsPort fd (expire env.udsPort fd s)
      if event = .stateDecisionEvent then askDecision s else s
  | .finish =>
      if s.sde then { handleStateDecisionEvent env s with sde := false } else s

/-- What `poll` can report of a port: descriptors that are open, timers only
where they run or have expired. -/
def pollable (port : PtpPort) (fd : Fd) : Bool :=
  (port.fda fd).isOpen &&
    (!fd.isTimer || (port.fda fd).armed || (port.fda fd).expired)

/-- What `poll` reports: ready descriptors, and ports whose fault timer has
expired. -/
structure Ready where
  fds : ℕ → Fd → Bool
  faults : ℕ → Bool

def portTasks (ready : Ready) (s : PtpClock) (p : ℕ) : List Task :=
  (Fd.all.filter fun fd => ready.fds p fd && pollable (s.ports p) fd).map
      (fun fd => .fd p fd ((s.ports p).fda fd).touched) ++
    if ready.faults p && (s.ports p).faultArmed then [.fault p] else []

def udsTasks (env : Env) (ready : Ready) (s : PtpClock) : List Task :=
  (Fd.all.filter fun fd =>
      ready.fds env.udsPort fd && pollable (s.ports env.udsPort) fd).map
    fun fd => .uds fd ((s.ports env.udsPort).fda fd).touched

/-- The tasks of one iteration, in the order of the loops of `clock_poll`; `poll`
does not return before something is ready. -/
def pollTasks (env : Env) (ready : Ready) (s : PtpClock) : List Task :=
  match (List.range env.nports).flatMap (portTasks ready s) ++
      udsTasks env ready s with
  | [] => []
  | first :: rest => first :: rest ++ [.finish]

/-- A step of the main loop: `poll` returns, or the next task is done. -/
inductive Step
  | poll (ready : Ready)
  | next

def step (env : Env) (s : PtpClock) : Step → PtpClock
  | .poll ready =>
      match s.todo with
      | [] => { s with todo := pollTasks env ready s }
      | _ :: _ => s
  | .next =>
      match s.todo with
      | [] => s
      | task :: rest => runTask env task { s with todo := rest }

/-! ## Creation -/

def newDescriptor : Descriptor := ⟨false, false, false, 0⟩

def portCreate (env : Env) (p : ℕ) : PtpPort where
  portIdentity :=
    ⟨env.clockIdentity, if p = env.udsPort then 0 else UInt16.ofNat (p + 1)⟩
  localPriority := (env.config p).localPriority
  masterOnly := (env.config p).masterOnly
  foreignMasters := []
  state := .initializing
  best := none
  syfu := .empty
  lastSyncfup := none
  peerDelayReq := none
  peerDelayResp := none
  peerDelayFup := none
  delayReq := []
  fda := fun _ => newDescriptor
  faultArmed := false
  linkUp := true
  linkChanged := false
  tsLabelChanged := false
  lastFaultType := .unspecified
  delayMechanism := (env.config p).delayMechanism
  logMinDelayReqInterval := 0
  multiplePdrDetected := false
  multipleSeqPdrCount := 0
  seqnumDelayreq := 0
  decided := none
  reported := false

def newClock (env : Env) : PtpClock where
  ports := portCreate env
  best := none
  bestId := ⟨Vector.replicate 8 0⟩
  priority1 := env.priority1
  priority2 := env.priority2
  clockQuality := env.clockQuality
  utcOffset := env.utcOffset
  timeFlags := env.timeFlags
  timeSource := env.timeSource
  parentPortIdentity := ⟨env.clockIdentity, 0⟩
  grandmasterIdentity := env.clockIdentity
  grandmasterClockQuality := env.clockQuality
  grandmasterPriority1 := env.priority1
  grandmasterPriority2 := env.priority2
  stepsRemoved := 0
  tds := ⟨env.utcOffset, env.timeFlags, env.timeSource⟩
  sde := false
  cells := .empty
  held := []
  calls := 0
  todo := []
  synchronized := []
  delaySamples := []
  peerSamples := []

/-- `clock_create`: the network ports are started, and then the UDS port. -/
def clockCreate (env : Env) : PtpClock :=
  (List.range (env.nports + 1)).foldl
    (fun s p => bcDispatch env p .initializePort false s) (newClock env)

/-- The states of a clock, within the iterations of `clock_poll` as well. -/
def runClock (env : Env) (steps : List Step) : PtpClock :=
  Stepping.run (step env) steps (clockCreate env)

end LinuxPtp.Ordinary
