import LinuxPtp.Tc.Model

/-!
# Forwarding through a transparent clock

The forwarding functions of `tc.c` and the part of `p2p_event` and `e2e_event`
that calls them.
-/

namespace LinuxPtp.Tc

open ByteOrder Access Wire Port

/-! ## Matching -/

inductive TcMatch
  | mismatch
  | syncFup
  | fupSync
  | delayReqresp
  deriving DecidableEq, Repr

/-- The bytes of the source port identity, as on the wire. -/
def sourcePortIdentity (mem : Memory) : List UInt8 :=
  bytesAt mem Header.clockIdentity.offset 10

def requestingPortIdentity (mem : Memory) : List UInt8 :=
  bytesAt mem RequestingPort.clockIdentity.offset 10

def sequenceId (mem : Memory) : List UInt8 :=
  bytesAt mem Header.sequenceId.offset 2

def tcMatchDelay (ingressPort : ℕ) (resp req : Memory) (txd : Txd) : TcMatch :=
  if ingressPort ≠ txd.ingressPort then .mismatch
  else if sequenceId req ≠ sequenceId resp then .mismatch
  else if sourcePortIdentity req ≠ requestingPortIdentity resp then .mismatch
  else if messageType req = some .delayReq ∧
      messageType resp = some .delayResp then .delayReqresp
  else .mismatch

def tcMatchSyfup (ingressPort : ℕ) (msg held : Memory) (txd : Txd) : TcMatch :=
  if ingressPort ≠ txd.ingressPort then .mismatch
  else if sequenceId msg ≠ sequenceId held then .mismatch
  else if sourcePortIdentity msg ≠ sourcePortIdentity held then .mismatch
  else if messageType held = some .sync ∧
      messageType msg = some .followUp then .syncFup
  else if messageType held = some .followUp ∧
      messageType msg = some .sync then .fupSync
  else .mismatch

/-! ## Which ports are served -/

/-- Only Delay_Req swims against the stream. -/
def tcBlocked (env : Env) (q p m : ℕ) (s : TcState) : Bool :=
  let mem := (s.msgs m).mem
  let delayReq : Bool := messageType mem = some .delayReq
  if q = p then true
  else if p = 0 then true
  else if (s.ports q).tcSpanningTree = false then false
  else if (mem Header.domainNumber.offset).toNat ≠ env.domainNumber then false
  else
    match (s.ports q).state with
    | .initializing | .faulty | .disabled | .listening | .preMaster
    | .passive => true
    | .master | .grandMaster =>
        if delayReq then egressBlocked (s.ports p).state delayReq else true
    | .uncalibrated | .slave => egressBlocked (s.ports p).state delayReq
where
  egressBlocked (state : PortState) (delayReq : Bool) : Bool :=
    match state with
    | .initializing | .faulty | .disabled | .listening | .preMaster
    | .passive => true
    | .uncalibrated | .slave => !delayReq
    | .master | .grandMaster => delayReq

/-- The loop over the ports of the clock that skips the blocked ones. -/
def forEachPort (env : Env) (q m : ℕ) (body : ℕ → TcState → TcState)
    (s : TcState) : TcState :=
  Stepping.run (fun s p => if tcBlocked env q p m s then s else body p s)
    env.clkPorts s

/-! ## Completing what has been sent -/

def correction (env : Env) (mem : Memory) : ℕ :=
  env.host.endian.ntoh 8
    (hostWord env.host.endian mem Header.correction.offset 8)

def setCorrection (env : Env) (m : ℕ) (value : ℤ) (s : TcState) : TcState :=
  s.modifyMsg m fun msg => { msg with
    mem := storeBytes msg.mem Header.correction.offset
      (env.host.endian.encode 8
        (env.host.endian.ntoh 8 (value % 2 ^ 64).toNat)) }

def tmvToTimeInterval (x : ℤ) : ℤ := x * 2 ^ 16

def sendOrFault (env : Env) (p m : ℕ) (s : TcState) : TcState :=
  let (cnt, s) := transportSend env p m s
  if cnt ≤ 0 then portDispatch env p .faultDetected false s else s

/-- Send with another correction, and restore the original one for the next
egress port. -/
def sendCorrected (env : Env) (p m : ℕ) (extra : ℤ) (s : TcState) : TcState :=
  let c1 := correction env (s.msgs m).mem
  setCorrection env m c1
    (sendOrFault env p m (setCorrection env m (c1 + extra) s))

/-- Keep a message on the list of the port until its counterpart comes. -/
def tcStash (env : Env) (q p m : ℕ) (residence : ℤ) (s : TcState) : TcState :=
  match tcAllocate env s with
  | (none, s) => portDispatch env p .faultDetected false s
  | (some txd, s) => tcInsert p txd m residence q s

def tcCompleteRequest (env : Env) (q p req : ℕ) (residence : ℤ)
    (s : TcState) : TcState :=
  tcStash env q p req residence s

def delayMatch (q p resp : ℕ) (s : TcState) : Option ℕ :=
  (s.ports q).tcTransmitted.find? fun txd =>
    tcMatchDelay p (s.msgs resp).mem (s.msgs (s.txds txd).msg).mem
      (s.txds txd) = .delayReqresp

def tcCompleteResponse (env : Env) (q p resp : ℕ) (s : TcState) : TcState :=
  match delayMatch q p resp s with
  | none => s
  | some txd =>
      let residence := (s.txds txd).residence
      tcDiscard q txd
        (sendCorrected env p resp (tmvToTimeInterval residence) s)

def syfupKind (q msg txd : ℕ) (s : TcState) : TcMatch :=
  tcMatchSyfup q (s.msgs msg).mem (s.msgs (s.txds txd).msg).mem (s.txds txd)

def syfupMatch (q p msg : ℕ) (s : TcState) : Option ℕ :=
  (s.ports p).tcTransmitted.find? fun txd => syfupKind q msg txd s ≠ .mismatch

def tcCompleteSyfup (env : Env) (q p msg : ℕ) (residence : ℤ)
    (s : TcState) : TcState :=
  match syfupMatch q p msg s with
  | none => tcStash env q p msg residence s
  | some txd =>
      let held := s.txds txd
      let syncFirst : Bool := syfupKind q msg txd s = .syncFup
      let fup := if syncFirst then msg else held.msg
      let residence := if syncFirst then held.residence else residence
      tcDiscard p txd (sendCorrected env p fup
        (tmvToTimeInterval residence + tmvToTimeInterval (s.ports q).peerDelay +
          (s.ports q).asymmetry) s)

def tcComplete (env : Env) (q p msg : ℕ) (residence : ℤ) (s : TcState) :
    TcState :=
  match messageType (s.msgs msg).mem with
  | some .sync | some .followUp => tcCompleteSyfup env q p msg residence s
  | some .delayReq => tcCompleteRequest env q p msg residence s
  | some .delayResp => tcCompleteResponse env q p msg s
  | _ => s

/-! ## Forwarding -/

def stampEgress (p m : ℕ) (stamp : ℤ) (s : TcState) : TcState :=
  s.modifyMsg m fun msg =>
    { msg with hwts := stamp + (s.ports p).txTimestampOffset }

/-- Fetch the transmit time stamp on a port, and complete the message
there. -/
def tcGather (env : Env) (q m : ℕ) (ingress : ℤ) (p : ℕ) (s : TcState) :
    TcState :=
  match transportTxts env p m s with
  | (none, s) => portDispatch env p .faultDetected false s
  | (some stamp, s) =>
      let s := stampEgress p m stamp s
      let residence := env.rateRatio s.calls ((s.msgs m).hwts - ingress)
      tcComplete env q p m residence s

/-- The loop that sends a message out as it is. -/
def tcSendAll (env : Env) (q m : ℕ) (s : TcState) : TcState :=
  forEachPort env q m (fun p s => sendOrFault env p m s) s

def tcFwdEvent (env : Env) (q m : ℕ) (s : TcState) : TcState :=
  let ingress := (s.msgs m).hwts
  forEachPort env q m (tcGather env q m ingress)
    (tcSendAll env q m (stampHostTime env m s))

/-- `tc_fwd_folup` and `tc_fwd_response`. -/
def tcFwdFolup (env : Env) (q m : ℕ) (s : TcState) : TcState :=
  forEachPort env q m (fun p s => tcComplete env q p m 0 s)
    (stampHostTime env m s)

def tcFwdRequest (env : Env) (q m : ℕ) (s : TcState) : TcState :=
  tcFwdEvent env q m s

def tcFwdResponse (env : Env) (q m : ℕ) (s : TcState) : TcState :=
  tcFwdFolup env q m s

/-- `stepsRemoved` of an Announce in network order, one more. -/
def countStep (env : Env) (m : ℕ) (s : TcState) : TcState :=
  s.modifyMsg m fun msg =>
    let steps := env.host.endian.ntoh 2
      (hostWord env.host.endian msg.mem Announce.stepsRemoved.offset 2)
    { msg with
      mem := storeBytes msg.mem Announce.stepsRemoved.offset
        (env.host.endian.encode 2
          (env.host.endian.ntoh 2 ((1 + steps) % 2 ^ 16))) }

def tcForward (env : Env) (q m : ℕ) (s : TcState) : TcState :=
  let s := if (s.ports q).tcSpanningTree ∧
      messageType (s.msgs m).mem = some .announce then countStep env m s else s
  tcSendAll env q m s

def ctlFollowUp : UInt8 := 2

/-- The Follow_Up that stands in for a one-step Sync; `blank` is the memory of
a fresh message. -/
def synthesizedFollowUp (env : Env) (sync blank : Memory) : Memory :=
  let copyField (field : Field) (mem : Memory) : Memory :=
    storeBytes mem field.offset (bytesAt sync field.offset field.width)
  storeBytes blank Header.tsmt.offset
      [UInt8.ofNat MsgType.followUp.code ||| (sync 0 &&& 0xf0)]
    |> copyField Header.ver
    |> (storeBytes · Header.messageLength.offset
        (env.host.endian.encode 2 MsgType.followUp.pduLength))
    |> copyField Header.domainNumber
    |> copyField Header.clockIdentity
    |> copyField Header.portNumber
    |> copyField Header.sequenceId
    |> (storeBytes · Header.control.offset [ctlFollowUp])
    |> copyField Header.logMessageInterval
    |> copyField ⟨WireTimestamp.offset, 10⟩

/-- The Follow_Up is filled in, and the Sync becomes a two-step one. -/
def beginFollowUp (env : Env) (m fup : ℕ) (s : TcState) : TcState :=
  let sync := (s.msgs m).mem
  let s := s.modifyMsg fup fun msg => { msg with
    mem := synthesizedFollowUp env sync msg.mem
    origin := .standsIn sync }
  s.modifyMsg m fun msg => { msg with
    mem := storeBytes msg.mem Header.flagField0.offset
      [msg.mem Header.flagField0.offset ||| 2] }

/-- `tc_fwd_sync`; tells whether it has failed. -/
def tcFwdSync (env : Env) (q m : ℕ) (s : TcState) : Bool × TcState :=
  if oneStep env (s.msgs m).mem then
    match msgAllocate env s with
    | (none, s) => (true, s)
    | (some fup, s) =>
        (false, msgPut fup (tcFwdFolup env q fup
          (tcFwdEvent env q m (beginFollowUp env m fup s))))
  else (false, tcFwdEvent env q m s)

/-! ## Events -/

/-- `msg_duplicate` succeeds: the bytes are a PTP message, and an event
message has a time stamp. -/
def duplicates (env : Env) (mem : Memory) (cnt : ℕ) (hwts : ℤ)
    (s : TcState) : Bool :=
  let parsed := ptpMsgReceive env.host cnt ⟨mem, [],
    { tlvList := [], pdu := ⟨0, 0⟩, hostTime := ⟨0, 0⟩,
      pool := env.tlvPool s.calls }⟩
  let sotsMissing : Bool :=
    match messageType mem with
    | some .sync | some .delayReq | some .pdelayReq | some .pdelayResp =>
        hwts = 0
    | _ => false
  match parsed.1 with
  | .ok _ => !sotsMissing
  | .error _ => false

/-- What `p2p_event` and `e2e_event` do with a message they have accepted,
by its type. -/
def tcSwitch (env : Env) (q m : ℕ) (s : TcState) : TcState :=
  match messageType (s.msgs m).mem with
  | some .sync => (tcFwdSync env q m s).2
  | some .followUp => tcFwdFolup env q m s
  | some .delayReq => if (s.ports q).e2e then tcFwdRequest env q m s else s
  | some .delayResp => if (s.ports q).e2e then tcFwdResponse env q m s else s
  | some .announce | some .signaling | some .management => tcForward env q m s
  | some .pdelayReq | some .pdelayResp | some .pdelayRespFollowUp => s
  | none => s

/-- The transport has put `datagram` into the fresh message `m`. -/
def receiveInto (m : ℕ) (datagram : List UInt8) (hwts : ℤ) (s : TcState) :
    TcState :=
  s.modifyMsg m fun msg => { msg with
    mem := storeBytes msg.mem 0 datagram
    hwts := hwts }

/-- The message in `m` is taken for forwarding. -/
def markReceived (m : ℕ) (datagram : List UInt8) (s : TcState) : TcState :=
  s.modifyMsg m fun msg => { msg with origin := .received datagram }

/-- A datagram arrives; a message to be forwarded is returned.  The
duplicate on which the clock itself works is no part of this model. -/
def tcAccept (env : Env) (datagram : List UInt8) (hwts : ℤ) (s : TcState) :
    Option ℕ × TcState :=
  match msgAllocate env s with
  | (none, s) => (none, s)
  | (some m, s) =>
      let s := receiveInto m datagram hwts s
      if fieldIsSet (s.msgs m).mem unicastFlag then (none, msgPut m s)
      else if env.malloc s.calls = false ∨
          duplicates env (s.msgs m).mem datagram.length hwts s = false then
        (none, msgPut m s.called)
      else (some m, markReceived m datagram s.called)

def tcReceive (env : Env) (q : ℕ) (datagram : List UInt8) (hwts : ℤ)
    (s : TcState) : TcState :=
  match tcAccept env datagram hwts s with
  | (none, s) => s
  | (some m, s) => msgPut m (tcSwitch env q m s)

/-- Of `port_peer_delay`, what forwarding sees: the delay that
`tsproc_update_delay` has found. -/
def portPeerDelay (p : ℕ) (delay : ℤ) (s : TcState) : TcState :=
  s.modifyPort p fun port => { port with peerDelay := delay }

inductive Action
  | receive (q : ℕ) (datagram : List UInt8) (hwts : ℤ)
  | dispatch (p : ℕ) (event : PortEvent) (mdiff : Bool)
  | delayTimer (p : ℕ)
  | peerDelay (p : ℕ) (delay : ℤ)

def step (env : Env) (s : TcState) : Action → TcState
  | .receive q datagram hwts => tcReceive env q datagram hwts s
  | .dispatch p event mdiff => portDispatch env p event mdiff s
  | .delayTimer p => tcPrune env p s
  | .peerDelay p delay => portPeerDelay p delay s

/-- The state that `clock_create` leaves: every port has been initialised, and
is FAULTY where that has failed. -/
def TcState.initial (ports : ℕ → TcPort) (failed : ℕ → Bool) : TcState where
  ports p := { ports p with
    state := if failed p then .faulty else .listening
    tcTransmitted := [] }
  txds _ := ⟨0, 0, 0, 0, 0, 0⟩
  txdCount := 0
  tcPool := []
  msgs _ := .fresh
  msgCount := 0
  msgPool := []
  handed := []
  calls := 0

end LinuxPtp.Tc
