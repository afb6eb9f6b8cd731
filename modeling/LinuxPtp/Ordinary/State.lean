import LinuxPtp.Bmc.ForeignMaster
import LinuxPtp.Lib.CellPool
import LinuxPtp.Port.StateMachine
import LinuxPtp.Wire.Layout

/-!
# Ordinary and boundary clocks

The clock, its ports with their timers and remembered messages, and the machine
they run on.  What the source reads from outside, the model asks of numbered
calls, so that one environment fixes a whole run.
-/

namespace LinuxPtp.Ordinary

open Bmc Cells Port Wire

/-! ## Ports -/

/-- The descriptors of a port, in the order `clock_poll` looks at them. -/
inductive Fd
  | event
  | general
  | delayTimer
  | announceTimer
  | syncRxTimer
  | qualificationTimer
  | mannoTimer
  | syncTxTimer
  | unicastReqTimer
  | unicastSrvTimer
  | rtnl
  deriving DecidableEq, Repr

def Fd.all : List Fd :=
  [.event, .general, .delayTimer, .announceTimer, .syncRxTimer,
    .qualificationTimer, .mannoTimer, .syncTxTimer, .unicastReqTimer,
    .unicastSrvTimer, .rtnl]

def Fd.isTimer : Fd → Bool
  | .event | .general | .rtnl => false
  | _ => true

/-- A descriptor, whether its timer is running, whether it has expired and not
been set since, and how often the program has opened, closed or set it. -/
structure Descriptor where
  isOpen : Bool
  armed : Bool
  expired : Bool
  touched : ℕ
  deriving DecidableEq, Repr

inductive SyfuState
  | empty
  | haveSync
  | haveFup
  deriving DecidableEq, Repr

inductive DelayMechanism
  | auto
  | e2e
  | p2p
  deriving DecidableEq, Repr

inductive FaultType
  | unspecified
  | badPeerNetwork
  | switchPhc
  deriving DecidableEq, Repr

inductive FaultInterval
  | linearSeconds (val : ℤ)
  | log2Seconds (val : ℤ)
  deriving DecidableEq, Repr

inductive ServoState
  | unlocked
  | jump
  | locked
  deriving DecidableEq, Repr

/-- What an Announce message says of its grandmaster and of its time. -/
structure AnnounceBody where
  currentUtcOffset : Int16
  grandmasterPriority1 : UInt8
  grandmasterClockQuality : ClockQuality
  grandmasterPriority2 : UInt8
  grandmasterIdentity : ClockIdentity
  stepsRemoved : UInt16
  timeSource : UInt8
  deriving DecidableEq, Repr

inductive ManagementSet
  | priority1 (val : UInt8)
  | priority2 (val : UInt8)
  | grandmasterSettings (quality : ClockQuality) (utcOffset : Int16)
      (timeFlags : UInt8) (timeSource : UInt8)
  | other
  deriving DecidableEq, Repr

/-- A management message: the clock it is for, the number of its TLVs, and what
it sets, where it does. -/
structure ManagementBody where
  targetClock : ClockIdentity
  tlvCount : ℕ
  set : Option ManagementSet
  deriving DecidableEq, Repr

/-- A received message in host order, the buffer it lies in, and the number of
its arrival. -/
structure Message where
  cell : ℕ
  arrival : ℕ
  type : MsgType
  transportSpecific : UInt8
  domainNumber : UInt8
  unicast : Bool
  twoStep : Bool
  timeFlags : UInt8
  sourcePortIdentity : PortIdentity
  sequenceId : UInt16
  logMessageInterval : Int8
  stamped : Bool
  softwareTime : ℤ
  hostTime : Timespec
  pdu : Timespec
  correction : Int64
  requestingPortIdentity : PortIdentity
  pathTrace : List ClockIdentity
  followUpInfo : Bool
  monitorRequest : Bool
  announce : AnnounceBody
  management : ManagementBody
  deriving DecidableEq, Repr

def Message.toAnnounce (m : Message) : Announce where
  cell := m.cell
  sourcePortIdentity := m.sourcePortIdentity
  timeFlags := m.timeFlags
  logMessageInterval := m.logMessageInterval
  hostTime := m.hostTime
  currentUtcOffset := m.announce.currentUtcOffset
  grandmasterPriority1 := m.announce.grandmasterPriority1
  grandmasterClockQuality := m.announce.grandmasterClockQuality
  grandmasterPriority2 := m.announce.grandmasterPriority2
  grandmasterIdentity := m.announce.grandmasterIdentity
  stepsRemoved := m.announce.stepsRemoved
  timeSource := m.announce.timeSource

/-- A Delay_Req or Pdelay_Req that waits for its response, with the number of the
call that sent it and the time at which it left. -/
structure DelayReq where
  cell : ℕ
  sequenceId : UInt16
  hostTime : Timespec
  sent : ℕ
  hwts : Int64
  deriving DecidableEq, Repr

structure PortConfig where
  localPriority : UInt8
  masterOnly : Bool
  delayMechanism : DelayMechanism
  hybridE2e : Bool
  netSyncMonitor : Bool
  jbod : Bool
  followUpInfo : Bool
  pathTraceEnabled : Bool
  matchTransportSpecific : Bool
  inhibitMulticastService : Bool
  transportSpecific : UInt8
  oneStep : Bool
  p2pOneStep : Bool
  announceReceiptTimeout : ℕ
  announceSpan : ℕ
  syncReceiptTimeout : ℕ
  logAnnounceInterval : ℤ
  logSyncInterval : ℤ
  logMinDelayReqInterval : ℤ
  logMinPdelayReqInterval : ℤ
  faultResetInterval : ℤ
  faultBadpeernetInterval : ℤ
  deriving DecidableEq, Repr

/-- A port.  The pending Sync or Follow_Up counts only where `syfu` is not empty,
but the pointer stays.  For the record, `decided` is the newest Announce of the
best record at the last state decision, and `reported` tells whether an
Announce since then has asked for another. -/
structure PtpPort extends BmcPort where
  state : PortState
  best : Option ℕ
  syfu : SyfuState
  lastSyncfup : Option Message
  peerDelayReq : Option DelayReq
  peerDelayResp : Option Message
  peerDelayFup : Option Message
  delayReq : List DelayReq
  fda : Fd → Descriptor
  faultArmed : Bool
  linkUp : Bool
  linkChanged : Bool
  tsLabelChanged : Bool
  lastFaultType : FaultType
  delayMechanism : DelayMechanism
  logMinDelayReqInterval : ℤ
  multiplePdrDetected : Bool
  multipleSeqPdrCount : ℕ
  seqnumDelayreq : UInt16
  decided : Option Announce
  reported : Bool

/-! ## The clock -/

structure TimeProperties where
  currentUtcOffset : ℤ
  flags : UInt8
  timeSource : UInt8
  deriving DecidableEq, Repr

/-- What remains to be looked at after `poll` has returned: a ready descriptor of
a port, with the count it had then, its fault timer, a ready descriptor of the
UDS port, and the end of the iteration. -/
inductive Task
  | fd (p : ℕ) (fd : Fd) (touched : ℕ)
  | fault (p : ℕ)
  | uds (fd : Fd) (touched : ℕ)
  | finish
  deriving DecidableEq, Repr

/-- One call of `__portSynchronize`, for the record: the Sync, the Follow_Up of a
two-step Sync, and the parent of that moment. -/
structure Synchronized where
  sync : Message
  followUp : Option Message
  parent : PortIdentity
  deriving DecidableEq, Repr

/-- One call of `ptpClockPathDelay`, for the record: the port, its request, the
response, the parent of that moment, and the two time stamps. -/
structure DelaySample where
  port : ℕ
  request : DelayReq
  response : Message
  parent : PortIdentity
  req : Int64
  rx : Int64
  deriving DecidableEq, Repr

/-- One update of the peer delay of a port, for the record: what it is computed
from. -/
structure PeerSample where
  port : ℕ
  request : DelayReq
  response : Message
  followUp : Option Message
  deriving DecidableEq, Repr

/-- The clock.  Its network ports come first; the UDS port follows them.
`best` is the record chosen by the last decision, as that decision left it;
`held` are the buffers in local variables of the handler that is running. -/
structure PtpClock where
  ports : ℕ → PtpPort
  best : Option ForeignClock
  bestId : ClockIdentity
  priority1 : UInt8
  priority2 : UInt8
  clockQuality : ClockQuality
  utcOffset : ℤ
  timeFlags : UInt8
  timeSource : UInt8
  parentPortIdentity : PortIdentity
  grandmasterIdentity : ClockIdentity
  grandmasterClockQuality : ClockQuality
  grandmasterPriority1 : UInt8
  grandmasterPriority2 : UInt8
  stepsRemoved : UInt16
  tds : TimeProperties
  sde : Bool
  cells : CellPool
  held : List ℕ
  calls : ℕ
  todo : List Task
  synchronized : List Synchronized
  delaySamples : List DelaySample
  peerSamples : List PeerSample

/-! ## The machine -/

inductive Reception
  | failed
  | rejected
  | received (m : Message)

/-- The outcome of sending a message, and whether a timestamp came back. -/
structure Sent where
  ok : Bool
  stamped : Bool
  deriving DecidableEq, Repr

inductive Initialized
  | noTimers
  | noTransport
  | noUnicastTimer
  | ready
  deriving DecidableEq, Repr

/-- One message about the link: whether it is up, whether the time stamping
interface changed, whether that lacks the required modes, and what became of
the switch to its clock. -/
structure LinkReport where
  linkUp : Bool
  labelChanged : Bool
  modesMissing : Bool
  switchFailed : Bool
  deriving DecidableEq, Repr

/-- The configuration and the outcomes of the successive calls. -/
structure Env where
  bmc : BmcHost
  comparison : DatasetComparison
  slaveOnly : Bool
  nports : ℕ
  clockIdentity : ClockIdentity
  domainNumber : UInt8
  localPriority : UInt8
  priority1 : UInt8
  priority2 : UInt8
  clockQuality : ClockQuality
  utcOffset : ℤ
  timeFlags : UInt8
  timeSource : UInt8
  config : ℕ → PortConfig
  wideLongShift : ℕ → ℕ → ℕ
  memory : ℕ → Bool
  random : ℕ → ℕ
  receive : ℕ → Reception
  capable : ℕ → Bool
  syncIncapable : ℕ → Bool
  send : ℕ → Sent
  transmitTime : ℕ → Int64
  servo : ℕ → ServoState
  delayUpdated : ℕ → Bool
  initOutcome : ℕ → Initialized
  transportOpen : ℕ → Bool
  switchPhcFails : ℕ → Bool
  linkReports : ℕ → List LinkReport
  unicastFails : ℕ → Bool
  tlvMemory : ℕ → Bool

def Env.udsPort (env : Env) : ℕ := env.nports

def Env.dscmp (env : Env) : Option Dataset → Option Dataset → ℤ :=
  env.comparison.dscmp env.bmc.endian

def Env.stateMachine (env : Env) : PortState → PortEvent → Bool → PortState :=
  if env.slaveOnly then ptpSlaveFsm else ptpFsm

/-! ## Updates -/

def modifyPort (p : ℕ) (f : PtpPort → PtpPort) (s : PtpClock) : PtpClock :=
  { s with ports := Function.update s.ports p (f (s.ports p)) }

/-- One more call of the outside. -/
def called (s : PtpClock) : PtpClock := { s with calls := s.calls + 1 }

def setFda (p : ℕ) (fd : Fd) (f : Descriptor → Descriptor) (s : PtpClock) :
    PtpClock :=
  modifyPort p (fun port =>
    { port with fda := Function.update port.fda fd (f (port.fda fd)) }) s

def msgGet (cell : ℕ) (s : PtpClock) : PtpClock :=
  { s with cells := s.cells.get cell }

def msgPut (cell : ℕ) (s : PtpClock) : PtpClock :=
  { s with cells := s.cells.put cell }

def msgPutAll (cells : List ℕ) (s : PtpClock) : PtpClock :=
  cells.foldl (fun s cell => msgPut cell s) s

/-- `msg_allocate`: the handler holds what it gets. -/
def msgAllocate (env : Env) (s : PtpClock) : Option ℕ × PtpClock :=
  let (cell, cells) := s.cells.allocate (env.memory s.calls)
  (cell, { called s with cells := cells, held := cell.toList ++ s.held })

/-- `msg_put` of a buffer that the handler itself holds. -/
def msgPutHeld (cell : ℕ) (s : PtpClock) : PtpClock :=
  { msgPut cell s with held := s.held.erase cell }

end LinuxPtp.Ordinary
