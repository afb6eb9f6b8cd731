import LinuxPtp.Ordinary.State

/-!
# Timers and changes of state

Setting the timers of a port, giving up what it remembers, and the path of an
event through the state machine to the timers of the new state.
-/

namespace LinuxPtp.Ordinary

open Bmc Cells Port Wire

/-! ## Timer values, in nanoseconds -/

/-- `value << count` of 64 bits. -/
def longShiftLeft (env : Env) (value count : ℕ) : ℕ :=
  if count < 64 then value * 2 ^ count % 2 ^ 64
  else env.wideLongShift value count

/-- `value >> count` of 64 bits. -/
def longShiftRight (env : Env) (value count : ℕ) : ℕ :=
  if count < 64 then value / 2 ^ count else env.wideLongShift value count

def tmoLog (env : Env) (scale : ℕ) (logSeconds : ℤ) : ℕ :=
  if logSeconds < 0 then
    scale * 500000000 / 2 ^ ((-logSeconds).toNat - 1)
  else
    (scale * intShift env.bmc logSeconds.toNat % 2 ^ 32).toNat * 10 ^ 9

def tmoRandom (env : Env) (random minimum span : ℕ) (logSeconds : ℤ) : ℕ :=
  let shift := if logSeconds ≥ 0 then longShiftLeft env else longShiftRight env
  let minNs := shift (minimum * 10 ^ 9) logSeconds.natAbs
  let spanNs := shift (span * 10 ^ 9) logSeconds.natAbs
  (minNs + spanNs * (random % 2 ^ 15 + 1) % 2 ^ 64 / 2 ^ 15) % 2 ^ 64

/-- `timerfd_settime`: a zero value disarms; a closed descriptor is refused. -/
def Descriptor.settime (value : ℕ) (d : Descriptor) : Descriptor :=
  if d.isOpen then
    { d with armed := value ≠ 0, expired := false, touched := d.touched + 1 }
  else d

def Descriptor.reopened (d : Descriptor) : Descriptor :=
  { isOpen := true, armed := false, expired := false, touched := d.touched + 1 }

def Descriptor.closed (d : Descriptor) : Descriptor :=
  { isOpen := false, armed := false, expired := false, touched := d.touched + 1 }

/-! ## Timers of a port -/

def portClrTmo (p : ℕ) (fd : Fd) : PtpClock → PtpClock :=
  setFda p fd (Descriptor.settime 0)

def setTmoLog (env : Env) (p : ℕ) (fd : Fd) (scale : ℕ) (logSeconds : ℤ) :
    PtpClock → PtpClock :=
  setFda p fd (Descriptor.settime (tmoLog env scale logSeconds))

def setTmoRandom (env : Env) (p : ℕ) (fd : Fd) (minimum span : ℕ)
    (logSeconds : ℤ) (s : PtpClock) : PtpClock :=
  setFda p fd (Descriptor.settime
    (tmoRandom env (env.random s.calls) minimum span logSeconds)) (called s)

def portSetAnnounceTmo (env : Env) (p : ℕ) : PtpClock → PtpClock :=
  setTmoRandom env p .announceTimer (env.config p).announceReceiptTimeout
    (env.config p).announceSpan (env.config p).logAnnounceInterval

def portSetDelayTmo (env : Env) (p : ℕ) (s : PtpClock) : PtpClock :=
  if (s.ports p).delayMechanism = .p2p then
    setTmoLog env p .delayTimer 1 (env.config p).logMinPdelayReqInterval s
  else
    setTmoRandom env p .delayTimer 0 2 (s.ports p).logMinDelayReqInterval s

def portSetQualificationTmo (env : Env) (p : ℕ) (s : PtpClock) : PtpClock :=
  setTmoLog env p .qualificationTimer (1 + s.stepsRemoved.toNat)
    (env.config p).logAnnounceInterval s

def portSetSyncRxTmo (env : Env) (p : ℕ) : PtpClock → PtpClock :=
  setTmoLog env p .syncRxTimer (env.config p).syncReceiptTimeout
    (env.config p).logSyncInterval

def setSyncTxTmo (env : Env) (p : ℕ) : PtpClock → PtpClock :=
  setTmoLog env p .syncTxTimer 1 (env.config p).logSyncInterval

def setMannoTmo (env : Env) (p : ℕ) : PtpClock → PtpClock :=
  setTmoLog env p .mannoTimer 1 (env.config p).logAnnounceInterval

/-! ## Giving up what a port remembers -/

/-- The pointer stays; only `syfu` tells that nothing is pending. -/
def flushLastSync (p : ℕ) (s : PtpClock) : PtpClock :=
  if (s.ports p).syfu = .empty then s
  else
    modifyPort p (fun port => { port with syfu := .empty })
      (msgPutAll ((s.ports p).lastSyncfup.map Message.cell).toList s)

def flushDelayReq (p : ℕ) (s : PtpClock) : PtpClock :=
  modifyPort p (fun port => { port with delayReq := [] })
    (msgPutAll ((s.ports p).delayReq.map DelayReq.cell) s)

def putPeerDelayReq (p : ℕ) (s : PtpClock) : PtpClock :=
  modifyPort p (fun port => { port with peerDelayReq := none })
    (msgPutAll ((s.ports p).peerDelayReq.map DelayReq.cell).toList s)

def putPeerDelayResp (p : ℕ) (s : PtpClock) : PtpClock :=
  modifyPort p (fun port => { port with peerDelayResp := none })
    (msgPutAll ((s.ports p).peerDelayResp.map Message.cell).toList s)

def putPeerDelayFup (p : ℕ) (s : PtpClock) : PtpClock :=
  modifyPort p (fun port => { port with peerDelayFup := none })
    (msgPutAll ((s.ports p).peerDelayFup.map Message.cell).toList s)

def flushPeerDelay (p : ℕ) (s : PtpClock) : PtpClock :=
  putPeerDelayFup p (putPeerDelayResp p (putPeerDelayReq p s))

def delayReqCurrent (now : Timespec) (m : DelayReq) : Bool :=
  nanoseconds now - nanoseconds m.hostTime < 5 * 10 ^ 9

/-- `delay_req_prune`: the oldest requests go while they are not current. -/
def delayReqPrune (env : Env) (p : ℕ) (s : PtpClock) : PtpClock :=
  let requests := (s.ports p).delayReq
  let kept := requests.rdropWhile fun m =>
    !delayReqCurrent (env.bmc.monotonic s.calls) m
  modifyPort p (fun port => { port with delayReq := kept })
    (msgPutAll ((requests.drop kept.length).map DelayReq.cell).reverse
      (called s))

def setRecord (address : ℕ) (f : ForeignClock → ForeignClock)
    (records : List ForeignClock) : List ForeignClock :=
  records.map fun fc => if fc.address = address then f fc else fc

def findRecord (address : ℕ) (records : List ForeignClock) :
    Option ForeignClock :=
  records.find? fun fc => fc.address = address

/-- `fc_clear` of the record at an address, where the port has it. -/
def fcClear (p address : ℕ) (s : PtpClock) : PtpClock :=
  match findRecord address (s.ports p).foreignMasters with
  | none => s
  | some fc =>
      modifyPort p (fun port =>
        { port with
          foreignMasters := setRecord address
            (fun fc => { fc with messages := [] }) port.foreignMasters })
        (msgPutAll (released fc.messages []) s)

def freeForeignMasters (p : ℕ) (s : PtpClock) : PtpClock :=
  modifyPort p (fun port => { port with foreignMasters := [] })
    (msgPutAll ((s.ports p).foreignMasters.flatMap fun fc =>
      released fc.messages []) s)

def closeDescriptors (fda : Fd → Descriptor) : Fd → Descriptor
  | .rtnl => fda .rtnl
  | fd => (fda fd).closed

def portOpDisable (p : ℕ) (s : PtpClock) : PtpClock :=
  let s := flushPeerDelay p (flushDelayReq p (flushLastSync p s))
  let s := modifyPort p (fun port => { port with best := none }) s
  modifyPort p (fun port => { port with fda := closeDescriptors port.fda })
    (freeForeignMasters p s)

/-! ## Starting a port -/

/-- Sockets and timers are new; the link socket stays as it is. -/
def openDescriptors (fda : Fd → Descriptor) : Fd → Descriptor
  | .rtnl => fda .rtnl
  | fd => (fda fd).reopened

def openRtnl (env : Env) (p : ℕ) (s : PtpClock) : PtpClock :=
  if p = env.udsPort ∨ ((s.ports p).fda .rtnl).isOpen then s
  else setFda p .rtnl Descriptor.reopened s

def portResetFields (env : Env) (p : ℕ) (port : PtpPort) : PtpPort :=
  { port with
    multipleSeqPdrCount := 0
    multiplePdrDetected := false
    lastFaultType := .unspecified
    logMinDelayReqInterval := (env.config p).logMinDelayReqInterval }

/-- `port_initialize`, and whether it succeeds. -/
def portInitialize (env : Env) (p : ℕ) (s : PtpClock) : Bool × PtpClock :=
  let outcome := env.initOutcome s.calls
  let s := modifyPort p (portResetFields env p) (called s)
  let opened := portSetAnnounceTmo env p
    (modifyPort p (fun port => { port with fda := openDescriptors port.fda }) s)
  match outcome with
  | .noTimers | .noTransport => (false, s)
  | .noUnicastTimer =>
      (false, modifyPort p (fun port =>
        { port with fda := closeDescriptors port.fda }) opened)
  | .ready => (true, openRtnl env p opened)

/-! ## Changes of state -/

def portIsEnabled : PortState → Bool
  | .initializing | .faulty | .disabled => false
  | _ => true

def faultInterval (env : Env) (p : ℕ) : FaultType → FaultInterval
  | .unspecified => .log2Seconds (env.config p).faultResetInterval
  | .badPeerNetwork => .linearSeconds (env.config p).faultBadpeernetInterval
  | .switchPhc => .log2Seconds 4

def clearFaultAsap : FaultInterval → Bool
  | .linearSeconds val => val = 0
  | .log2Seconds val => val = -128

/-- The state an event leads to, a fault being cleared at once where the port is
set so. -/
def nextState (env : Env) (p : ℕ) (event : PortEvent) (mdiff : Bool)
    (port : PtpPort) : PortState :=
  let next := env.stateMachine port.state event mdiff
  if next = .faulty ∧ clearFaultAsap (faultInterval env p port.lastFaultType)
  then env.stateMachine next .faultCleared false
  else next

/-- The initialization on the way through the state INITIALIZING. -/
def restart (env : Env) (p : ℕ) (s : PtpClock) : PortState × PtpClock :=
  let s := if portIsEnabled (s.ports p).state then portOpDisable p s else s
  let (ready, s) := portInitialize env p s
  (env.stateMachine .initializing
    (if ready then .initComplete else .faultDetected) false, s)

/-- `portStateUpdate`, and whether the state is another. -/
def portStateUpdate (env : Env) (p : ℕ) (event : PortEvent) (mdiff : Bool)
    (s : PtpClock) : Bool × PtpClock :=
  let next := nextState env p event mdiff (s.ports p)
  let (next, s) :=
    if next = .initializing then restart env p s else (next, s)
  if next = (s.ports p).state then (false, s)
  else (true, modifyPort p (fun port => { port with state := next }) s)

def e2eTransition (env : Env) (p : ℕ) (next : PortState) (s : PtpClock) :
    PtpClock :=
  let s := portClrTmo p .announceTimer s
  let s := portClrTmo p .syncRxTimer s
  let s := portClrTmo p .delayTimer s
  let s := portClrTmo p .qualificationTimer s
  let s := portClrTmo p .mannoTimer s
  let s := portClrTmo p .syncTxTimer s
  match next with
  | .initializing => s
  | .faulty | .disabled => portOpDisable p s
  | .listening | .passive => portSetAnnounceTmo env p s
  | .preMaster => portSetQualificationTmo env p s
  | .master | .grandMaster =>
      setSyncTxTmo env p (setTmoLog env p .mannoTimer 1 (-10) s)
  | .uncalibrated =>
      portSetDelayTmo env p (portSetAnnounceTmo env p
        (flushDelayReq p (flushLastSync p s)))
  | .slave => portSetDelayTmo env p (portSetAnnounceTmo env p s)

/-- The delay timer is left running. -/
def p2pTransition (env : Env) (p : ℕ) (next : PortState) (s : PtpClock) :
    PtpClock :=
  let s := portClrTmo p .announceTimer s
  let s := portClrTmo p .syncRxTimer s
  let s := portClrTmo p .qualificationTimer s
  let s := portClrTmo p .mannoTimer s
  let s := portClrTmo p .syncTxTimer s
  match next with
  | .initializing => s
  | .faulty | .disabled => portOpDisable p s
  | .listening => portSetDelayTmo env p (portSetAnnounceTmo env p s)
  | .preMaster => portSetQualificationTmo env p s
  | .master | .grandMaster =>
      setSyncTxTmo env p (setTmoLog env p .mannoTimer 1 (-10) s)
  | .passive => portSetAnnounceTmo env p s
  | .uncalibrated =>
      portSetAnnounceTmo env p (flushPeerDelay p (flushLastSync p s))
  | .slave => portSetAnnounceTmo env p s

def transition (env : Env) (p : ℕ) (s : PtpClock) : PtpClock :=
  if (s.ports p).delayMechanism = .p2p then
    p2pTransition env p (s.ports p).state s
  else e2eTransition env p (s.ports p).state s

def enterState (env : Env) (p : ℕ) (event : PortEvent) (mdiff : Bool)
    (s : PtpClock) : Bool × PtpClock :=
  let (changed, s) := portStateUpdate env p event mdiff s
  (changed, if changed then transition env p s else s)

def setLastFault (p : ℕ) (type : FaultType) : PtpClock → PtpClock :=
  modifyPort p fun port => { port with lastFaultType := type }

/-- `bc_dispatch`.  A fault never leads to UNCALIBRATED, so the dispatch of the
failed switch does not switch again. -/
def bcDispatch (env : Env) (p : ℕ) (event : PortEvent) (mdiff : Bool)
    (s : PtpClock) : PtpClock :=
  let (changed, s) := enterState env p event mdiff s
  if changed ∧ (env.config p).jbod ∧ (s.ports p).state = .uncalibrated then
    if env.switchPhcFails s.calls then
      (enterState env p .faultDetected false
        (setLastFault p .switchPhc (called s))).2
    else called s
  else s

end LinuxPtp.Ordinary
