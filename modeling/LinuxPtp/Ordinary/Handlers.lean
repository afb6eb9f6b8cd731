import LinuxPtp.Ordinary.Transition

/-!
# Message handlers

What a port does with each kind of message, and the messages it sends of its
own.  A message that has been handled is put by the caller.
-/

namespace LinuxPtp.Ordinary

open Bmc Cells Port Wire

/-! ## Sending -/

/-- Allocates a message, runs the rest with it, and puts it; without memory the
whole fails. -/
def withMessage (env : Env) (body : ℕ → PtpClock → Bool × PtpClock)
    (s : PtpClock) : Bool × PtpClock :=
  match msgAllocate env s with
  | (none, s) => (false, s)
  | (some cell, s) =>
      let (ok, s) := body cell s
      (ok, msgPutHeld cell s)

/-- `port_prepare_and_send` or `peer_prepare_and_send`, and whether it succeeds. -/
def prepareAndSend (env : Env) (s : PtpClock) : Bool × PtpClock :=
  ((env.send s.calls).ok, called s)

/-- Sends an event message, which must come back with its timestamp. -/
def sendEvent (env : Env) (s : PtpClock) : Bool × PtpClock :=
  ((env.send s.calls).ok && (env.send s.calls).stamped, called s)

/-- Two messages: an event message and, on a two-step port, its follow-up. -/
def sendTwoStep (env : Env) (oneStep : Bool) (followUp : ℕ → PtpClock → Bool × PtpClock)
    (s : PtpClock) : Bool × PtpClock :=
  withMessage env (fun _ s =>
    withMessage env (fun fup s =>
      if oneStep then prepareAndSend env s
      else
        let (ok, s) := sendEvent env s
        if ok then followUp fup s else (false, s)) s) s

def portTxAnnounce (env : Env) (p : ℕ) (unicast : Bool) (s : PtpClock) :
    Bool × PtpClock :=
  if (env.config p).inhibitMulticastService && !unicast then (true, s)
  else if !env.capable s.calls then (true, called s)
  else withMessage env (fun _ s => prepareAndSend env s) (called s)

def portTxSync (env : Env) (p : ℕ) (unicast : Bool) (s : PtpClock) :
    Bool × PtpClock :=
  if (env.config p).inhibitMulticastService && !unicast then (true, s)
  else if !env.capable s.calls then (true, called s)
  else if env.syncIncapable s.calls then (true, called s)
  else
    sendTwoStep env ((env.config p).oneStep || (env.config p).p2pOneStep)
      (fun _ s =>
        if (env.config p).followUpInfo && !env.tlvMemory s.calls then
          (false, called s)
        else prepareAndSend env (called s)) (called s)

/-- The successive messages of a unicast timer or of a management reply. -/
def sendAll (env : Env) : ℕ → PtpClock → PtpClock
  | 0, s => s
  | count + 1, s =>
      sendAll env count (withMessage env (fun _ s => prepareAndSend env s) s).2

/-! ## Delay requests -/

/-- The handler's own reference becomes that of the port. -/
def keepPeerDelayReq (p : ℕ) (request : DelayReq) (s : PtpClock) : PtpClock :=
  modifyPort p (fun port => { port with peerDelayReq := some request })
    { s with held := s.held.erase request.cell }

def keepDelayReq (p : ℕ) (request : DelayReq) (s : PtpClock) : PtpClock :=
  modifyPort p (fun port => { port with delayReq := request :: port.delayReq })
    { s with held := s.held.erase request.cell }

def resetPeerCount (port : PtpPort) : PtpPort :=
  { port with
    multipleSeqPdrCount :=
      if port.multiplePdrDetected then port.multipleSeqPdrCount else 0
    multiplePdrDetected := false }

def nextSeqnum (port : PtpPort) : PtpPort :=
  { port with seqnumDelayreq := port.seqnumDelayreq + 1 }

/-- Builds and sends a request, which the port keeps once it is sent. -/
def sendRequest (env : Env) (p : ℕ) (keep : DelayReq → PtpClock → PtpClock)
    (s : PtpClock) : Bool × PtpClock :=
  match msgAllocate env s with
  | (none, s) => (false, s)
  | (some cell, s) =>
      let request : DelayReq :=
        ⟨cell, (s.ports p).seqnumDelayreq, env.bmc.monotonic s.calls, s.calls,
          env.transmitTime s.calls⟩
      let (ok, s) := sendEvent env (modifyPort p nextSeqnum s)
      if ok then (true, keep request s) else (false, msgPutHeld cell s)

def portPdelayRequest (env : Env) (p : ℕ) (s : PtpClock) : Bool × PtpClock :=
  sendRequest env p
    (fun request s => keepPeerDelayReq p request (putPeerDelayReq p s))
    (modifyPort p resetPeerCount s)

def portDelayRequest (env : Env) (p : ℕ) (s : PtpClock) : Bool × PtpClock :=
  let s := putPeerDelayFup p (putPeerDelayResp p s)
  if (s.ports p).delayMechanism = .p2p then portPdelayRequest env p s
  else sendRequest env p (keepDelayReq p) s

/-! ## Announce -/

/-- `__announceCompare`: whether the two say something else of the grandmaster. -/
def announceDiffers (m n : Announce) : Bool :=
  m.grandmasterPriority1 ≠ n.grandmasterPriority1 ||
    m.grandmasterClockQuality ≠ n.grandmasterClockQuality ||
    m.grandmasterPriority2 ≠ n.grandmasterPriority2 ||
    m.grandmasterIdentity ≠ n.grandmasterIdentity ||
    m.stepsRemoved ≠ n.stepsRemoved

def msgSourceEqual (m : Message) (fc : ForeignClock) : Bool :=
  m.sourcePortIdentity = fc.dataset.sender

def freshDataset (sender : PortIdentity) : Dataset where
  priority1 := 0
  identity := ⟨Vector.replicate 8 0⟩
  quality := ⟨0, 0, 0⟩
  priority2 := 0
  localPriority := 0
  stepsRemoved := 0
  sender := sender
  receiver := ⟨⟨Vector.replicate 8 0⟩, 0⟩

def keptMessages (env : Env) (fc : ForeignClock) (s : PtpClock) :
    List Announce :=
  fcPrune env.bmc (env.bmc.monotonic s.calls) fc.messages

def insertAnnounce (env : Env) (p : ℕ) (fc : ForeignClock) (m : Message)
    (s : PtpClock) : PtpClock :=
  let kept := keptMessages env fc s
  modifyPort p (fun port =>
    { port with
      foreignMasters := setRecord fc.address
        (fun fc => { fc with messages := m.toAnnounce :: kept })
        port.foreignMasters })
    (msgGet m.cell (msgPutAll (released fc.messages kept) (called s)))

def differsFromLast (m : Message) : List Announce → Bool
  | [] => false
  | before :: _ => announceDiffers m.toAnnounce before

def addRecord (p : ℕ) (m : Message) (s : PtpClock) : PtpClock :=
  modifyPort p (fun port =>
    { port with
      foreignMasters :=
        ⟨s.calls, p, [], freshDataset m.sourcePortIdentity⟩ ::
          port.foreignMasters }) (called s)

/-- `_addForeignMaster`, and whether the message is different from the last. -/
def addForeignMaster (env : Env) (p : ℕ) (m : Message) (s : PtpClock) :
    Bool × PtpClock :=
  match (s.ports p).foreignMasters.find? (msgSourceEqual m) with
  | none => (false, if env.memory s.calls then addRecord p m s else called s)
  | some fc =>
      let kept := keptMessages env fc s
      (kept.length = foreignMasterThreshold - 1 || differsFromLast m kept,
        insertAnnounce env p fc m s)

def setTimeProperties (m : Message) (s : PtpClock) : PtpClock :=
  { s with
    tds := ⟨m.announce.currentUtcOffset.toInt, m.timeFlags,
      m.announce.timeSource⟩ }

def bestRecord (port : PtpPort) : Option ForeignClock :=
  port.best.bind fun best => findRecord best port.foreignMasters

/-- `_updateCurrentMaster`.  Without a best record the source would read through
a null pointer. -/
def updateCurrentMaster (env : Env) (p : ℕ) (m : Message) (s : PtpClock) :
    Bool × PtpClock :=
  match bestRecord (s.ports p) with
  | none => (false, s)
  | some fc =>
      if !msgSourceEqual m fc then addForeignMaster env p m s
      else
        let s :=
          if (s.ports p).state ≠ .passive then setTimeProperties m s else s
        let s := portSetAnnounceTmo env p s
        (differsFromLast m (keptMessages env fc s), insertAnnounce env p fc m s)

/-- `portMsgProAnnounce`, and whether a state decision is needed. -/
def portMsgProAnnounce (env : Env) (p : ℕ) (m : Message) (s : PtpClock) :
    Bool × PtpClock :=
  if m.announce.stepsRemoved.toNat ≥ 255 then (false, s)
  else
    match (s.ports p).state with
    | .initializing | .faulty | .disabled => (false, s)
    | .listening | .preMaster | .master | .grandMaster =>
        addForeignMaster env p m s
    | .passive | .uncalibrated | .slave => updateCurrentMaster env p m s

/-! ## Sync and Follow_Up -/

def recordSynchronized (sync : Message) (followUp : Option Message)
    (s : PtpClock) : PtpClock :=
  { s with
    synchronized := ⟨sync, followUp, s.parentPortIdentity⟩ :: s.synchronized }

/-- `__portSynchronize`; the servo sees the times of the messages. -/
def portSynchronize (env : Env) (p : ℕ) (sync : Message)
    (followUp : Option Message) (s : PtpClock) : PtpClock :=
  let s := recordSynchronized sync followUp (portSetSyncRxTmo env p s)
  match env.servo s.calls with
  | .unlocked => bcDispatch env p .synchronizationFault false (called s)
  | .jump =>
      putPeerDelayReq p (flushDelayReq p
        (bcDispatch env p .synchronizationFault false (called s)))
  | .locked => bcDispatch env p .masterClockSelected false (called s)

inductive SyfuEvent
  | syncMismatch
  | syncMatch
  | fupMismatch
  | fupMatch
  deriving DecidableEq, Repr

/-- The pending message gives way to the new one. -/
def storeSyncfup (p : ℕ) (syfu : SyfuState) (m : Message) (s : PtpClock) :
    PtpClock :=
  let s :=
    if (s.ports p).syfu = .empty then s
    else msgPutAll ((s.ports p).lastSyncfup.map Message.cell).toList s
  modifyPort p (fun port =>
    { port with syfu := syfu, lastSyncfup := some m }) (msgGet m.cell s)

/-- The pending message is put, whatever has become of it. -/
def putSyncfup (p : ℕ) (s : PtpClock) : PtpClock :=
  modifyPort p (fun port => { port with syfu := .empty })
    (msgPutAll ((s.ports p).lastSyncfup.map Message.cell).toList s)

/-- Synchronizes with a Sync and its Follow_Up, one of which was pending. -/
def useSyncfup (env : Env) (p : ℕ) (sync followUp : Message) (s : PtpClock) :
    PtpClock :=
  putSyncfup p (portSynchronize env p sync (some followUp) s)

def portSyfufsm (env : Env) (p : ℕ) (event : SyfuEvent) (m : Message)
    (s : PtpClock) : PtpClock :=
  match event, (s.ports p).syfu, (s.ports p).lastSyncfup with
  | .syncMismatch, _, _ => storeSyncfup p .haveSync m s
  | .fupMismatch, _, _ => storeSyncfup p .haveFup m s
  | .fupMatch, .haveSync, some sync => useSyncfup env p sync m s
  | .syncMatch, .haveFup, some followUp => useSyncfup env p m followUp s
  | _, _, _ => s

def isSlave : PortState → Bool
  | .uncalibrated | .slave => true
  | _ => false

/-- The event of a Sync: a match with a pending Follow_Up that was not received
before it. -/
def syncEvent (port : PtpPort) (m : Message) : SyfuEvent :=
  match port.syfu, port.lastSyncfup with
  | .haveFup, some followUp =>
      if followUp.softwareTime ≥ m.softwareTime ∧
          followUp.sequenceId = m.sequenceId then .syncMatch
      else .syncMismatch
  | _, _ => .syncMismatch

def followUpEvent (port : PtpPort) (m : Message) : SyfuEvent :=
  match port.syfu, port.lastSyncfup with
  | .haveSync, some sync =>
      if sync.sequenceId = m.sequenceId then .fupMatch else .fupMismatch
  | _, _ => .fupMismatch

def portMsgProSync (env : Env) (p : ℕ) (m : Message) (s : PtpClock) :
    PtpClock :=
  if !isSlave (s.ports p).state then s
  else if s.parentPortIdentity ≠ m.sourcePortIdentity then s
  else if !m.twoStep then flushLastSync p (portSynchronize env p m none s)
  else portSyfufsm env p (syncEvent (s.ports p) m) m s

def portMsgProFollowUp (env : Env) (p : ℕ) (m : Message) (s : PtpClock) :
    PtpClock :=
  if !isSlave (s.ports p).state then s
  else if s.parentPortIdentity ≠ m.sourcePortIdentity then s
  else if (env.config p).followUpInfo && !m.followUpInfo then s
  else portSyfufsm env p (followUpEvent (s.ports p) m) m s

/-! ## Delay_Req and Delay_Resp -/

/-- Whether the message asks for a network synchronization reply. -/
def portNsmReply (env : Env) (p : ℕ) (m : Message) : Bool :=
  (env.config p).netSyncMonitor && (env.config p).hybridE2e && m.unicast &&
    m.monitorRequest

def portMsgProDelayReq (env : Env) (p : ℕ) (m : Message) (s : PtpClock) :
    Bool × PtpClock :=
  let nsm := portNsmReply env p m
  if !nsm ∧ (s.ports p).state ≠ .master ∧ (s.ports p).state ≠ .grandMaster then
    (true, s)
  else if (s.ports p).delayMechanism = .p2p then (true, s)
  else
    withMessage env (fun _ s =>
      if nsm && !env.tlvMemory s.calls then (false, called s)
      else
        let (ok, s) := prepareAndSend env (called s)
        if ok && nsm then portTxSync env p true s else (ok, s)) s

/-- `correction_to_tmv`: the correction is in units of 2⁻¹⁶ nanoseconds. -/
def correctionToTmv (correction : Int64) : Int64 := correction >>> 16

def timestampToTmv (time : Timespec) : Int64 := Int64.ofInt (nanoseconds time)

def delaySample (p : ℕ) (request : DelayReq) (m : Message)
    (parent : PortIdentity) : DelaySample where
  port := p
  request := request
  response := m
  parent := parent
  req := request.hwts
  rx := timestampToTmv m.pdu - correctionToTmv m.correction

/-- `ptpClockPathDelay`, of which the record is kept. -/
def ptpClockPathDelay (p : ℕ) (request : DelayReq) (m : Message)
    (s : PtpClock) : PtpClock :=
  { s with
    delaySamples := delaySample p request m s.parentPortIdentity ::
      s.delaySamples }

def dropDelayReq (p : ℕ) (request : DelayReq) (s : PtpClock) : PtpClock :=
  modifyPort p (fun port =>
    { port with delayReq := port.delayReq.erase request })
    (msgPut request.cell s)

def setLogMinDelayReqInterval (p : ℕ) (log : ℤ) : PtpClock → PtpClock :=
  modifyPort p fun port => { port with logMinDelayReqInterval := log }

def portMsgProDelayResp (env : Env) (p : ℕ) (m : Message) (s : PtpClock) :
    PtpClock :=
  if !isSlave (s.ports p).state then s
  else if m.requestingPortIdentity ≠ (s.ports p).portIdentity then s
  else if s.parentPortIdentity ≠ m.sourcePortIdentity then s
  else
    match (s.ports p).delayReq.find? fun request =>
        request.sequenceId = m.sequenceId with
    | none => s
    | some request =>
        let s := dropDelayReq p request (ptpClockPathDelay p request m s)
        let log := m.logMessageInterval.toInt
        if (s.ports p).logMinDelayReqInterval = log then s
        else if m.unicast then s
        else if log < -10 ∨ log > 22 then s
        else
          portSetDelayTmo env p (setLogMinDelayReqInterval p log s)

/-! ## The peer delay mechanism -/

def switchToP2p (env : Env) (p : ℕ) (s : PtpClock) : PtpClock :=
  portSetDelayTmo env p
    (modifyPort p (fun port => { port with delayMechanism := .p2p }) s)

def portMsgProPDelayReq (env : Env) (p : ℕ) (_m : Message) (s : PtpClock) :
    Bool × PtpClock :=
  if (s.ports p).delayMechanism = .e2e then (true, s)
  else
    let s :=
      if (s.ports p).delayMechanism = .auto then
        switchToP2p env p s
      else s
    sendTwoStep env (env.config p).p2pOneStep
      (fun _ s => prepareAndSend env s) s

def peerDelayComplete (port : PtpPort) : Bool :=
  match port.peerDelayReq, port.peerDelayResp with
  | some request, some response =>
      response.requestingPortIdentity = port.portIdentity &&
        response.sequenceId = request.sequenceId &&
        (!response.twoStep ||
          match port.peerDelayFup with
          | none => false
          | some followUp =>
              followUp.requestingPortIdentity = port.portIdentity &&
                followUp.sequenceId = response.sequenceId &&
                followUp.sourcePortIdentity = response.sourcePortIdentity)
  | _, _ => false

def peerSamples (p : ℕ) (port : PtpPort) : List PeerSample :=
  match port.peerDelayReq, port.peerDelayResp with
  | some request, some response =>
      [⟨p, request, response,
        if response.twoStep then port.peerDelayFup else none⟩]
  | _, _ => []

/-- For the record: the peer delay of the port has been updated. -/
def recordPeerDelay (p : ℕ) (s : PtpClock) : PtpClock :=
  { s with peerSamples := peerSamples p (s.ports p) ++ s.peerSamples }

/-- `port_peer_delay`: a request whose delay is known is done with. -/
def portPeerDelay (env : Env) (p : ℕ) (s : PtpClock) : PtpClock :=
  if !peerDelayComplete (s.ports p) then s
  else if !env.delayUpdated s.calls then called s
  else putPeerDelayReq p (recordPeerDelay p (called s))

def storePeerDelayResp (p : ℕ) (m : Message) (s : PtpClock) : PtpClock :=
  modifyPort p (fun port => { port with peerDelayResp := some m })
    (msgGet m.cell (putPeerDelayResp p s))

def storePeerDelayFup (p : ℕ) (m : Message) (s : PtpClock) : PtpClock :=
  modifyPort p (fun port => { port with peerDelayFup := some m })
    (msgGet m.cell (putPeerDelayFup p s))

def countPeerResponse (m : Message) (port : PtpPort) : PtpPort :=
  match port.peerDelayResp with
  | none => port
  | some response =>
      if response.sourcePortIdentity = m.sourcePortIdentity then port
      else if port.multiplePdrDetected then port
      else
        { port with
          multiplePdrDetected := true
          multipleSeqPdrCount := port.multipleSeqPdrCount + 1 }

/-- A second peer has answered in three successive exchanges. -/
def badPeerNetwork (m : Message) (port : PtpPort) : Bool :=
  match port.peerDelayResp with
  | none => false
  | some response =>
      response.sourcePortIdentity ≠ m.sourcePortIdentity &&
        (countPeerResponse m port).multipleSeqPdrCount ≥ 3

def portMsgProPDelayResp (env : Env) (p : ℕ) (m : Message) (s : PtpClock) :
    Bool × PtpClock :=
  let bad := badPeerNetwork m (s.ports p)
  let s := modifyPort p (countPeerResponse m) s
  if bad then
    (false, setLastFault p .badPeerNetwork s)
  else if (s.ports p).peerDelayReq = none then (false, s)
  else (true, portPeerDelay env p (storePeerDelayResp p m s))

def portMsgProPDelayRespFollowUp (env : Env) (p : ℕ) (m : Message)
    (s : PtpClock) : PtpClock :=
  if (s.ports p).peerDelayReq = none then s
  else portPeerDelay env p (storePeerDelayFup p m s)

/-! ## Signaling and management -/

/-- The unicast negotiation answers with messages of its own. -/
def portMsgProSignaling (env : Env) (p : ℕ) (s : PtpClock) : Bool × PtpClock :=
  if !portIsEnabled (s.ports p).state then (true, s)
  else (!env.unicastFails s.calls, sendAll env 1 (called s))

def applySet : ManagementSet → PtpClock → Bool × PtpClock
  | .priority1 val, s => (true, { s with priority1 := val })
  | .priority2 val, s => (true, { s with priority2 := val })
  | .grandmasterSettings quality utcOffset timeFlags timeSource, s =>
      (true, { s with
        clockQuality := quality
        utcOffset := utcOffset.toInt
        timeFlags := timeFlags
        timeSource := timeSource })
  | .other, s => (false, s)

def wildcardIdentity : ClockIdentity := ⟨Vector.replicate 8 0xff⟩

/-- `clock_manage`, and whether the clock has changed.  Only the UDS port may
change it. -/
def clockManage (env : Env) (p : ℕ) (m : Message) (s : PtpClock) :
    Bool × PtpClock :=
  if m.management.targetClock ≠ wildcardIdentity ∧
      m.management.targetClock ≠ env.clockIdentity then (false, s)
  else if m.management.tlvCount ≠ 1 then (false, s)
  else
    match m.management.set with
    | some setting =>
        if p = env.udsPort then
          let (changed, s) := applySet setting s
          (changed, sendAll env 1 s)
        else (false, sendAll env 1 s)
    | none => (false, sendAll env 1 s)

end LinuxPtp.Ordinary
