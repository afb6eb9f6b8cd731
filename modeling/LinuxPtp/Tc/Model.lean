import LinuxPtp.Lib.Stepping
import LinuxPtp.Port.StateMachine
import LinuxPtp.Wire.Message

/-!
# Transparent clocks: messages, descriptors and ports

What the forwarding code of `tc.c` works on.  Messages and transmit
descriptors live in two heaps with a pool each; a port keeps the descriptors
of what it has sent and not yet completed.  Every call out of the program asks
the environment, whose answers are indexed by the calls made so far.
-/

namespace LinuxPtp.Tc

open ByteOrder Wire Port

/-- Where the bytes of a message come from: from nowhere yet, from a datagram
that has been taken for forwarding, or from the Sync that a Follow_Up stands in
for. -/
inductive Origin
  | blank
  | received (datagram : List UInt8)
  | standsIn (sync : Memory)

structure PtpMessage where
  mem : Memory
  refcnt : ℤ
  hostTime : Timespec
  hwts : ℤ
  origin : Origin

/-- `struct tc_txd`.  The counts say how often, since it was allocated, the
descriptor has been taken off a list, put back into the pool, and its message
been released. -/
structure Txd where
  msg : ℕ
  residence : ℤ
  ingressPort : ℕ
  removals : ℕ := 0
  recycles : ℕ := 0
  releases : ℕ := 0
  deriving DecidableEq, Repr

structure TcPort where
  state : PortState
  slaveOnly : Bool
  e2e : Bool
  tcSpanningTree : Bool
  peerDelay : ℤ
  asymmetry : ℤ
  txTimestampOffset : ℤ
  tcTransmitted : List ℕ
  deriving DecidableEq, Repr

/-- A length given to a transport, with the bytes it covers when they are
sent, or with the number of the call when a time stamp is asked for. -/
structure Handed where
  port : ℕ
  length : ℕ
  bytes : List UInt8
  origin : Origin
  txts : Option ℕ

structure TcState where
  ports : ℕ → TcPort
  txds : ℕ → Txd
  txdCount : ℕ
  tcPool : List ℕ
  msgs : ℕ → PtpMessage
  msgCount : ℕ
  msgPool : List ℕ
  handed : List Handed
  calls : ℕ

/-- The configuration of the clock, and what calls out of the program
return. -/
structure Env where
  host : Host
  clkPorts : List ℕ
  domainNumber : ℕ
  assumeTwoStep : Bool
  malloc : ℕ → Bool
  tlvPool : ℕ → TlvPool
  monotonic : ℕ → Timespec
  send : ℕ → ℤ
  txts : ℕ → Option ℤ
  rateRatio : ℕ → ℤ → ℤ
  clearFaultAsap : ℕ → Bool
  portInitialize : ℕ → Bool

namespace TcState

def modifyPort (s : TcState) (p : ℕ) (f : TcPort → TcPort) : TcState :=
  { s with ports := Function.update s.ports p (f (s.ports p)) }

def modifyTxd (s : TcState) (txd : ℕ) (f : Txd → Txd) : TcState :=
  { s with txds := Function.update s.txds txd (f (s.txds txd)) }

def modifyMsg (s : TcState) (m : ℕ) (f : PtpMessage → PtpMessage) : TcState :=
  { s with msgs := Function.update s.msgs m (f (s.msgs m)) }

def called (s : TcState) : TcState :=
  { s with calls := s.calls + 1 }

end TcState

/-! ## Messages -/

def PtpMessage.fresh : PtpMessage where
  mem _ := 0
  refcnt := 1
  hostTime := ⟨0, 0⟩
  hwts := 0
  origin := .blank

def msgAllocate (env : Env) (s : TcState) : Option ℕ × TcState :=
  match s.msgPool with
  | m :: rest =>
      (some m, { s with msgPool := rest }.modifyMsg m fun _ => .fresh)
  | [] =>
      if env.malloc s.calls then
        (some s.msgCount, { s.called with msgCount := s.msgCount + 1 }.modifyMsg
          s.msgCount fun _ => .fresh)
      else (none, s.called)

def msgGet (m : ℕ) (s : TcState) : TcState :=
  s.modifyMsg m fun msg => { msg with refcnt := msg.refcnt + 1 }

def msgPut (m : ℕ) (s : TcState) : TcState :=
  let s := s.modifyMsg m fun msg => { msg with refcnt := msg.refcnt - 1 }
  if (s.msgs m).refcnt ≠ 0 then s else { s with msgPool := m :: s.msgPool }

/-- `PTP_GET_SYS_TIME_MONOTONIC(&msg->ts.host)`. -/
def stampHostTime (env : Env) (m : ℕ) (s : TcState) : TcState :=
  s.called.modifyMsg m fun msg =>
    { msg with hostTime := env.monotonic s.calls }

def messageType (mem : Memory) : Option MsgType :=
  MsgType.ofCode ((mem Header.tsmt.offset).toNat % 16)

def twoStepFlag : ℕ := 1
def unicastFlag : ℕ := 2

/-- `field_is_set(m, 0, mask)` for the mask of one bit. -/
def fieldIsSet (mem : Memory) (bit : ℕ) : Bool :=
  (mem Header.flagField0.offset).toNat.testBit bit

def oneStep (env : Env) (mem : Memory) : Bool :=
  if env.assumeTwoStep then false else !fieldIsSet mem twoStepFlag

/-! ## Transports -/

/-- The length that `transport_send` and `transport_txts` compute,
`ntohs(messageLength)`. -/
def transportLength (env : Env) (mem : Memory) : ℕ :=
  env.host.endian.ntoh 2
    (hostWord env.host.endian mem Header.messageLength.offset 2)

def transportSend (env : Env) (p m : ℕ) (s : TcState) : ℤ × TcState :=
  let msg := s.msgs m
  let length := transportLength env msg.mem
  (env.send s.calls, { s.called with handed := s.handed ++
    [⟨p, length, bytesAt msg.mem 0 length, msg.origin, none⟩] })

/-- The time stamp that was fetched, if it is valid. -/
def transportTxts (env : Env) (p m : ℕ) (s : TcState) : Option ℤ × TcState :=
  let msg := s.msgs m
  let s' := { s.called with handed := s.handed ++
    [⟨p, transportLength env msg.mem, [], msg.origin, some s.calls⟩] }
  match env.txts s.calls with
  | some stamp =>
      if stamp = 0 then (none, s')
      else (some stamp, s'.modifyMsg m fun msg => { msg with hwts := stamp })
  | none => (none, s')

/-! ## Descriptors -/

def tcAllocate (env : Env) (s : TcState) : Option ℕ × TcState :=
  match s.tcPool with
  | txd :: rest =>
      (some txd, { s with tcPool := rest }.modifyTxd txd fun _ => ⟨0, 0, 0, 0, 0, 0⟩)
  | [] =>
      if env.malloc s.calls then
        (some s.txdCount, { s.called with txdCount := s.txdCount + 1 }.modifyTxd
          s.txdCount fun _ => ⟨0, 0, 0, 0, 0, 0⟩)
      else (none, s.called)

/-- Fill in a descriptor and append it to the list of the port; the message is
referenced once more. -/
def tcInsert (p txd m : ℕ) (residence : ℤ) (ingressPort : ℕ) (s : TcState) :
    TcState :=
  ((msgGet m s).modifyTxd txd fun entry =>
      { entry with msg := m, residence := residence, ingressPort := ingressPort })
    |>.modifyPort p fun port =>
      { port with tcTransmitted := port.tcTransmitted ++ [txd] }

/-- `TAILQ_REMOVE(&p->tc_transmitted, txd, list)`.  It unlinks the descriptor
through its own pointers, wherever it is; here one that is not on the list of
the port stays where it is, and the count alone tells. -/
def tcRemove (p txd : ℕ) (s : TcState) : TcState :=
  (s.modifyPort p fun port =>
      { port with tcTransmitted := port.tcTransmitted.erase txd })
    |>.modifyTxd txd fun entry => { entry with removals := entry.removals + 1 }

/-- `msg_put(txd->msg)`. -/
def tcRelease (txd : ℕ) (s : TcState) : TcState :=
  (msgPut (s.txds txd).msg s).modifyTxd txd fun entry =>
    { entry with releases := entry.releases + 1 }

def tcRecycle (txd : ℕ) (s : TcState) : TcState :=
  { s with tcPool := txd :: s.tcPool }.modifyTxd txd fun entry =>
    { entry with recycles := entry.recycles + 1 }

/-- The three calls with which every descriptor ends. -/
def tcDiscard (p txd : ℕ) (s : TcState) : TcState :=
  tcRecycle txd (tcRelease txd (tcRemove p txd s))

/-- `tc_flush`: its loop takes the first descriptor until none is left. -/
def tcFlush (p : ℕ) (s : TcState) : TcState :=
  (s.ports p).tcTransmitted.foldl (fun s txd => tcDiscard p txd s) s

/-- `tc_current`, in nanoseconds. -/
def tcCurrent (hostTime now : Timespec) : Bool :=
  (now.tvSec * 10 ^ 9 + now.tvNsec) -
      (hostTime.tvSec * 10 ^ 9 + hostTime.tvNsec) <
    10 ^ 9

/-- The loop of `tc_prune` over the descriptors from the first one on. -/
def tcPruneLoop (p : ℕ) (now : Timespec) : List ℕ → TcState → TcState
  | [], s => s
  | txd :: rest, s =>
      if tcCurrent (s.msgs (s.txds txd).msg).hostTime now then s
      else tcPruneLoop p now rest (tcDiscard p txd s)

def tcPrune (env : Env) (p : ℕ) (s : TcState) : TcState :=
  tcPruneLoop p (env.monotonic s.calls) (s.ports p).tcTransmitted s.called

/-! ## State changes -/

def portIsEnabled : PortState → Bool
  | .initializing | .faulty | .disabled => false
  | _ => true

def stateMachine (port : TcPort) : PortState → PortEvent → Bool → PortState :=
  if port.slaveOnly then ptpSlaveFsm else ptpFsm

/-- Of `portOpDisable`, what concerns descriptors. -/
def portOpDisable (p : ℕ) (s : TcState) : TcState :=
  tcFlush p s

/-- A fault whose interval is ASAP is cleared at once. -/
def clearFault (env : Env) (port : TcPort) (next : PortState) (s : TcState) :
    PortState × TcState :=
  if next = .faulty then
    if env.clearFaultAsap s.calls then
      (stateMachine port next .faultCleared false, s.called)
    else (next, s.called)
  else (next, s)

def initializePort (env : Env) (p : ℕ) (port : TcPort) (next : PortState)
    (s : TcState) : PortState × TcState :=
  if next = .initializing then
    let s := if portIsEnabled port.state then portOpDisable p s else s
    if env.portInitialize s.calls then
      (stateMachine port next .initComplete false, s.called)
    else (stateMachine port next .faultDetected false, s.called)
  else (next, s)

/-- `portStateUpdate`; tells whether the state has changed. -/
def portStateUpdate (env : Env) (p : ℕ) (event : PortEvent) (mdiff : Bool)
    (s : TcState) : Bool × TcState :=
  let port := s.ports p
  let cleared := clearFault env port
    (stateMachine port port.state event mdiff) s
  let final := initializePort env p port cleared.1 cleared.2
  if final.1 ≠ port.state then
    (true, final.2.modifyPort p fun port => { port with state := final.1 })
  else (false, final.2)

/-- `p2p_dispatch` and `e2e_dispatch`. -/
def portDispatch (env : Env) (p : ℕ) (event : PortEvent) (mdiff : Bool)
    (s : TcState) : TcState :=
  let updated := portStateUpdate env p event mdiff s
  if updated.1 = false ∨ p = 0 then updated.2
  else
    match (updated.2.ports p).state with
    | .faulty | .disabled => portOpDisable p updated.2
    | _ => updated.2

end LinuxPtp.Tc
