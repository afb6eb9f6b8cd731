import LinuxPtp.Lib.Oracle
import LinuxPtp.Tc.Forward

/-!
# What a transparent clock is for

A relay passes messages on as values.  A Sync, a Follow_Up or a Delay_Req that
has left on a port is remembered there with its residence time, until its
counterpart comes: then one message goes out whose correction accounts for the
residence, and what was remembered is forgotten.  There are no buffers to share,
no references to count and no pools; that memory can be short is left to an
oracle.
-/

namespace LinuxPtp.Tc

open ByteOrder Wire Port

structure Packet where
  mem : Memory
  origin : Origin

/-- A message that waits for its counterpart, with the time of its reception and
its residence time. -/
structure Pending where
  packet : Packet
  hostTime : Timespec
  residence : ℤ
  ingressPort : ℕ

/-- The relay.  `spare` tells of each allocation to come whether it needs no new
memory. -/
structure Relay where
  ports : ℕ → TcPort
  pending : ℕ → List Pending
  handed : List Handed
  calls : ℕ
  spare : List Bool

/-! ## Messages -/

def Packet.type (packet : Packet) : Option MsgType := messageType packet.mem

def Packet.correction (packet : Packet) : ℕ :=
  netWord packet.mem Header.correction.offset 8

/-- The message with another correction, of 64 bits. -/
def Packet.correct (packet : Packet) (extra : ℤ) : Packet :=
  { packet with
    mem := storeBytes packet.mem Header.correction.offset
      (bigEncode 8 ((packet.correction + extra) % 2 ^ 64).toNat) }

/-- A Sync and a Follow_Up of the same source, sequence number and ingress
port. -/
def Pending.syncs (packet : Packet) (q : ℕ) (held : Pending) : Bool :=
  held.ingressPort = q &&
    sequenceId held.packet.mem = sequenceId packet.mem &&
    sourcePortIdentity held.packet.mem = sourcePortIdentity packet.mem &&
    (held.packet.type = some .sync && packet.type = some .followUp ||
      held.packet.type = some .followUp && packet.type = some .sync)

/-- A Delay_Req that went out on the port on which its response comes in. -/
def Pending.asks (response : Packet) (p : ℕ) (held : Pending) : Bool :=
  held.ingressPort = p &&
    sequenceId held.packet.mem = sequenceId response.mem &&
    sourcePortIdentity held.packet.mem = requestingPortIdentity response.mem &&
    (held.packet.type = some .delayReq && response.type = some .delayResp)

namespace Relay

def called (r : Relay) : Relay := { r with calls := r.calls + 1 }

def setState (p : ℕ) (state : PortState) (r : Relay) : Relay :=
  { r with ports := Function.update r.ports p { r.ports p with state := state } }

def setPeerDelay (p : ℕ) (delay : ℤ) (r : Relay) : Relay :=
  { r with
    ports := Function.update r.ports p { r.ports p with peerDelay := delay } }

def modifyPending (p : ℕ) (f : List Pending → List Pending) (r : Relay) : Relay :=
  { r with pending := Function.update r.pending p (f (r.pending p)) }

def forget (p : ℕ) (r : Relay) : Relay := modifyPending p (fun _ => []) r

/-- Memory for one thing more, if it is to be had. -/
def allocate (env : Env) (r : Relay) : Bool × Relay :=
  match r.spare with
  | true :: rest => (true, { r with spare := rest })
  | false :: rest => (env.malloc r.calls, { r with spare := rest }.called)
  | [] => (env.malloc r.calls, r.called)

/-! ## State changes -/

/-- A fault whose interval is ASAP is cleared at once. -/
def clearFault (env : Env) (port : TcPort) (next : PortState) (r : Relay) :
    PortState × Relay :=
  if next = .faulty then
    (if env.clearFaultAsap r.calls then stateMachine port next .faultCleared false
      else next, r.called)
  else (next, r)

def start (env : Env) (p : ℕ) (port : TcPort) (next : PortState) (r : Relay) :
    PortState × Relay :=
  if next = .initializing then
    let r := if portIsEnabled port.state then forget p r else r
    (stateMachine port next
      (if env.portInitialize r.calls then .initComplete else .faultDetected) false,
      r.called)
  else (next, r)

/-- A port that has gone down or has been started anew remembers nothing. -/
def dispatch (env : Env) (p : ℕ) (event : PortEvent) (mdiff : Bool) (r : Relay) :
    Relay :=
  let port := r.ports p
  let cleared := clearFault env port (stateMachine port port.state event mdiff) r
  let final := start env p port cleared.1 cleared.2
  if final.1 = port.state then final.2
  else
    let r := setState p final.1 final.2
    if p ≠ 0 ∧ (final.1 = .faulty ∨ final.1 = .disabled) then forget p r else r

/-! ## Sending -/

def hand (env : Env) (p : ℕ) (packet : Packet) (bytes : List UInt8)
    (txts : Option ℕ) (r : Relay) : Relay :=
  { r.called with handed := r.handed ++
    [⟨p, transportLength env packet.mem, bytes, packet.origin, txts⟩] }

def send (env : Env) (p : ℕ) (packet : Packet) (r : Relay) : Relay :=
  let sent := hand env p packet
    (bytesAt packet.mem 0 (transportLength env packet.mem)) none r
  if env.send r.calls ≤ 0 then dispatch env p .faultDetected false sent else sent

def blocked (env : Env) (q p : ℕ) (packet : Packet) (r : Relay) : Bool :=
  let delayReq : Bool := packet.type = some .delayReq
  if q = p then true
  else if p = 0 then true
  else if (r.ports q).tcSpanningTree = false then false
  else if (packet.mem Header.domainNumber.offset).toNat ≠ env.domainNumber then false
  else
    match (r.ports q).state with
    | .initializing | .faulty | .disabled | .listening | .preMaster
    | .passive => true
    | .master | .grandMaster =>
        if delayReq then tcBlocked.egressBlocked (r.ports p).state delayReq else true
    | .uncalibrated | .slave => tcBlocked.egressBlocked (r.ports p).state delayReq

def forEachPort (env : Env) (q : ℕ) (packet : Packet) (body : ℕ → Relay → Relay)
    (r : Relay) : Relay :=
  Stepping.run (fun r p => if blocked env q p packet r then r else body p r)
    env.clkPorts r

/-! ## Counterparts -/

def stash (env : Env) (q p : ℕ) (packet : Packet) (hostTime : Timespec)
    (residence : ℤ) (r : Relay) : Relay :=
  let allocated := allocate env r
  if allocated.1 then
    modifyPending p (· ++ [⟨packet, hostTime, residence, q⟩]) allocated.2
  else dispatch env p .faultDetected false allocated.2

/-- The Follow_Up goes out once its Sync has, whichever came first: with the
residence time of the Sync, and the delay of the link on which both came in. -/
def completeSyfup (env : Env) (q p : ℕ) (packet : Packet) (hostTime : Timespec)
    (residence : ℤ) (r : Relay) : Relay :=
  match (r.pending p).find? (Pending.syncs packet q) with
  | none => stash env q p packet hostTime residence r
  | some held =>
      let syncFirst : Bool := packet.type = some .followUp
      let followUp := if syncFirst then packet else held.packet
      let residence := if syncFirst then held.residence else residence
      modifyPending p (List.eraseP (Pending.syncs packet q))
        (send env p (followUp.correct (tmvToTimeInterval residence +
          tmvToTimeInterval (r.ports q).peerDelay + (r.ports q).asymmetry)) r)

/-- The response goes out with the residence time of the request. -/
def completeResponse (env : Env) (q p : ℕ) (response : Packet) (r : Relay) :
    Relay :=
  match (r.pending q).find? (Pending.asks response p) with
  | none => r
  | some held =>
      modifyPending q (List.eraseP (Pending.asks response p))
        (send env p (response.correct (tmvToTimeInterval held.residence)) r)

def complete (env : Env) (q p : ℕ) (packet : Packet) (hostTime : Timespec)
    (residence : ℤ) (r : Relay) : Relay :=
  match packet.type with
  | some .sync | some .followUp => completeSyfup env q p packet hostTime residence r
  | some .delayReq => stash env q p packet hostTime residence r
  | some .delayResp => completeResponse env q p packet r
  | _ => r

/-! ## Forwarding -/

/-- The time stamp of the message on a port, and what follows from it. -/
def gather (env : Env) (q : ℕ) (packet : Packet) (hostTime : Timespec)
    (ingress : ℤ) (p : ℕ) (r : Relay) : Relay :=
  let asked := hand env p packet [] (some r.calls) r
  match env.txts r.calls with
  | none => dispatch env p .faultDetected false asked
  | some stamp =>
      if stamp = 0 then dispatch env p .faultDetected false asked
      else
        complete env q p packet hostTime
          (env.rateRatio asked.calls
            (stamp + (asked.ports p).txTimestampOffset - ingress)) asked

def sendAll (env : Env) (q : ℕ) (packet : Packet) (r : Relay) : Relay :=
  forEachPort env q packet (fun p r => send env p packet r) r

def fwdEvent (env : Env) (q : ℕ) (packet : Packet) (ingress : ℤ) (r : Relay) :
    Relay :=
  let now := env.monotonic r.calls
  forEachPort env q packet (gather env q packet now ingress)
    (sendAll env q packet r.called)

def fwdFolup (env : Env) (q : ℕ) (packet : Packet) (r : Relay) : Relay :=
  let now := env.monotonic r.calls
  forEachPort env q packet (fun p r => complete env q p packet now 0 r) r.called

/-- An Announce that goes on has made one step more. -/
def countStep (packet : Packet) : Packet :=
  { packet with
    mem := storeBytes packet.mem Announce.stepsRemoved.offset
      (bigEncode 2 ((1 + netWord packet.mem Announce.stepsRemoved.offset 2) %
        2 ^ 16)) }

def forward (env : Env) (q : ℕ) (packet : Packet) (r : Relay) : Relay :=
  sendAll env q
    (if (r.ports q).tcSpanningTree ∧ packet.type = some .announce then
      countStep packet else packet) r

/-- The Follow_Up that stands in for a one-step Sync. -/
def standIn (env : Env) (sync : Packet) : Packet :=
  ⟨synthesizedFollowUp env sync.mem (fun _ => 0), .standsIn sync.mem⟩

def asTwoStep (sync : Packet) : Packet :=
  { sync with
    mem := storeBytes sync.mem Header.flagField0.offset
      [sync.mem Header.flagField0.offset ||| 2] }

/-- A one-step Sync goes on as a two-step one, and its Follow_Up after it. -/
def fwdSync (env : Env) (q : ℕ) (packet : Packet) (ingress : ℤ) (r : Relay) :
    Relay :=
  if oneStep env packet.mem then
    let allocated := allocate env r
    if allocated.1 then
      fwdFolup env q (standIn env packet)
        (fwdEvent env q (asTwoStep packet) ingress allocated.2)
    else allocated.2
  else fwdEvent env q packet ingress r

def switch (env : Env) (q : ℕ) (packet : Packet) (ingress : ℤ) (r : Relay) :
    Relay :=
  match packet.type with
  | some .sync => fwdSync env q packet ingress r
  | some .followUp => fwdFolup env q packet r
  | some .delayReq =>
      if (r.ports q).e2e then fwdEvent env q packet ingress r else r
  | some .delayResp => if (r.ports q).e2e then fwdFolup env q packet r else r
  | some .announce | some .signaling | some .management => forward env q packet r
  | some .pdelayReq | some .pdelayResp | some .pdelayRespFollowUp => r
  | none => r

/-! ## Steps -/

/-- The bytes are a PTP message, and an event message has a time stamp. -/
def wellFormed (env : Env) (datagram : List UInt8) (hwts : ℤ) (r : Relay) : Bool :=
  let mem := storeBytes (fun _ => 0) 0 datagram
  let parsed := ptpMsgReceive env.host datagram.length ⟨mem, [],
    { tlvList := [], pdu := ⟨0, 0⟩, hostTime := ⟨0, 0⟩,
      pool := env.tlvPool r.calls }⟩
  let sotsMissing : Bool :=
    match messageType mem with
    | some .sync | some .delayReq | some .pdelayReq | some .pdelayResp =>
        hwts = 0
    | _ => false
  match parsed.1 with
  | .ok _ => !sotsMissing
  | .error _ => false

/-- A multicast message that is well formed goes on. -/
def receive (env : Env) (q : ℕ) (datagram : List UInt8) (hwts : ℤ) (r : Relay) :
    Relay :=
  let allocated := allocate env r
  if allocated.1 then
    let r := allocated.2
    let packet : Packet := ⟨storeBytes (fun _ => 0) 0 datagram, .received datagram⟩
    if fieldIsSet packet.mem unicastFlag then r
    else if env.malloc r.calls ∧ wellFormed env datagram hwts r then
      switch env q packet hwts r.called
    else r.called
  else allocated.2

/-- What is a second old is forgotten. -/
def prune (env : Env) (p : ℕ) (r : Relay) : Relay :=
  let now := env.monotonic r.calls
  modifyPending p (List.dropWhile fun held => !tcCurrent held.hostTime now) r.called

def step (env : Env) (r : Relay) : Action → Relay
  | .receive q datagram hwts => receive env q datagram hwts r
  | .dispatch p event mdiff => dispatch env p event mdiff r
  | .delayTimer p => prune env p r
  | .peerDelay p delay => setPeerDelay p delay r

def initial (ports : ℕ → TcPort) (failed : ℕ → Bool) (spare : List Bool) : Relay where
  ports p := { ports p with
    state := if failed p then .faulty else .listening
    tcTransmitted := [] }
  pending _ := []
  handed := []
  calls := 0
  spare := spare

end Relay

end LinuxPtp.Tc
