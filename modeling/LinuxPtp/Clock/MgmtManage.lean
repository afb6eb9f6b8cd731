import LinuxPtp.Clock.MgmtForward
import LinuxPtp.Clock.MgmtReply

/-!
# Dispatching management messages

`clock_manage` and `port_manage` act on the one TLV behind a management message.
The dispatchers look at its identifier, some handlers also at its data; each such
use is recorded beside what is changed and what is answered.
-/

namespace LinuxPtp.Clock

open ByteOrder Access Wire Port Bmc

/-! ## State -/

/-- A client for local events, its transport address apart. -/
structure Subscriber where
  targetPortIdentity : PortIdentity
  events : Vector UInt8 64
  expiration : ℤ

/-- What management messages read and change. -/
structure ManagedClock where
  reported : ReportedClock
  subscribers : List Subscriber
  clkPorts : List ReportedPort
  udsPort : MgmtPort

namespace ReportedPort

def number (port : ReportedPort) : ℕ :=
  port.portIdentity.portNumber.toNat

end ReportedPort

/-- The clock as forwarding sees it. -/
def ManagedClock.forwarding (c : ManagedClock) : MgmtClock where
  clkPorts := c.clkPorts.map fun port => ⟨port.number, port.state⟩
  udsPort := c.udsPort

/-- A use of the TLV as a management TLV: its identifier is read, or data of the
given size is applied. -/
inductive MgmtUse
  | id
  | data (size : ℕ)
  deriving DecidableEq, Repr

inductive MgmtError
  | noSuchId
  | wrongLength
  | wrongValue
  | notSupported
  deriving DecidableEq, Repr

inductive Answer
  | dataSet (port id : ℕ) (reply : Reply)
  | error (port : ℕ) (error : MgmtError) (id : ℕ)

/-- The clock while a message is handled, and how often memory has been asked
for. -/
structure Handling where
  clock : ManagedClock
  changed : Bool := false
  uses : List MgmtUse := []
  answers : List Answer := []
  allocations : ℕ := 0

abbrev Handle (α : Type) : Type := StateM Handling α

/-! ## Identifiers -/

/-- Identifiers of a clock that `clock_manage` answers with an error when nothing
else has answered. -/
def clockManagementIds : List ℕ :=
  [0x0002, 0x0003, 0x0004, 0x0005, 0x0006, 0x0007, 0x2000, 0x2001, 0x2002,
    0x2003, 0x2005, 0x2006, 0x2007, 0x2008, 0x200F, 0x2010, 0x2011, 0x2012,
    0x2013, 0x2015, 0x2016, 0x2017, 0x201A, 0x201C, 0x201E, 0x201F, 0x2020,
    0x2021, 0x4000, 0x4002, 0xC000, 0xC001, 0xC003]

/-- The same for `port_manage`. -/
def portManagementIds : List ℕ :=
  [0x0000, 0x0001, 0x2004, 0x2009, 0x200A, 0x200B, 0x200C, 0x200D, 0x200E,
    0x2014, 0x2018, 0x2019, 0x201B, 0x201D, 0x4001, 0x6000, 0x6001]

/-! ## Handlers -/

section

variable (host : Host) (allocate : ℕ → Bool) (mem : Memory)

def managementId : ℕ :=
  hostWord host.endian mem (mgmtTlv + ManagementTlv.id.offset)
    ManagementTlv.id.width

/-- `mgt->type` and `mgt->length`. -/
def managementType : ℕ :=
  hostWord host.endian mem (mgmtTlv + Tlv.type.offset) Tlv.type.width

def managementLength : ℕ :=
  hostWord host.endian mem (mgmtTlv + Tlv.length.offset) Tlv.length.width

/-- A member of the data, as the handlers find it. -/
def dataByte (offset : ℕ) : UInt8 :=
  mem (mgmtData + offset)

def dataWord (offset width : ℕ) : ℕ :=
  hostWord host.endian mem (mgmtData + offset) width

def use (how : MgmtUse) : Handle Unit :=
  modify fun handling => { handling with uses := handling.uses ++ [how] }

def readId : Handle ℕ := do
  use .id
  pure (managementId host mem)

def requestMemory : Handle Bool := do
  let handling ← get
  set { handling with allocations := handling.allocations + 1 }
  pure (allocate handling.allocations)

def answer (given : Answer) : Handle Unit :=
  modify fun handling =>
    { handling with answers := handling.answers ++ [given] }

/-- `port_management_error`: a message, a descriptor, and the identifier of the
request. -/
def portManagementError (port : ℕ) (error : MgmtError) : Handle Unit := do
  if ← requestMemory allocate then
    if ← requestMemory allocate then do
      let id ← readId host mem
      answer (.error port error id)

/-- What `clock_management_get_response` and `port_management_get_response` have
in common. -/
def getResponse (port id : ℕ) (reply : Option Reply) : Handle Bool := do
  if ← requestMemory allocate then
    if ← requestMemory allocate then
      match reply with
      | none => pure false
      | some reply => do
          answer (.dataSet port id reply)
          pure true
    else pure false
  else pure false

/-- `pid_eq` with the sender of the message. -/
def fromRequester (subscriber : Subscriber) : Bool :=
  bytesAt mem Header.clockIdentity.offset 8 ==
      subscriber.targetPortIdentity.clockIdentity.bytes &&
    hostWord host.endian mem Header.portNumber.offset 2 ==
      subscriber.targetPortIdentity.portNumber.toNat

def clockGetSubscription (c : ManagedClock) : Subscription :=
  match c.subscribers.find? (fromRequester host mem) with
  | some subscriber =>
      { duration := if subscriber.expiration < host.monotonic.tvSec then 0
          else UInt16.ofNat (subscriber.expiration - host.monotonic.tvSec).toNat
        bitmask := subscriber.events }
  | none => { duration := 0, bitmask := Vector.replicate 64 0 }

def clockManagementGetResponse (ingress : MgmtPort) (id : ℕ) : Handle Bool := do
  let handling ← get
  let subscription :=
    if ingress.number = handling.clock.udsPort.number then
      some (clockGetSubscription host mem handling.clock)
    else none
  getResponse allocate ingress.number id
    ((MgmtId.ofCode id).bind (clockReply handling.clock.reported subscription))

def portManagementGetResponse (target : ReportedPort) (id : ℕ) : Handle Bool :=
  getResponse allocate target.number id
    ((MgmtId.ofCode id).bind (portReply target))

/-- Apply data of the given size to the clock. -/
def applyData (size : ℕ) (update : ManagedClock → ManagedClock) :
    Handle Unit := do
  use (.data size)
  modify fun handling => { handling with clock := update handling.clock }

def setChanged : Handle Unit :=
  modify fun handling => { handling with changed := true }

/-- The requester as a subscriber, with the events and the time from the data. -/
def requestedSubscriber : Subscriber where
  targetPortIdentity :=
    { clockIdentity := ⟨Vector.ofFn fun i => mem (Header.clockIdentity.offset + i)⟩
      portNumber :=
        UInt16.ofNat (hostWord host.endian mem Header.portNumber.offset 2) }
  events := Vector.ofFn fun i => dataByte mem (2 + i)
  expiration := host.monotonic.tvSec + dataWord host mem 0 2

/-- `clock_update_subscription`, with `duration` and `bitmask` from the data. -/
def clockUpdateSubscription : Handle Unit := do
  let subscriber := requestedSubscriber host mem
  let remove := subscriber.events.toList.all (· == 0)
  let handling ← get
  let old := handling.clock.subscribers
  match old.findIdx? (fromRequester host mem) with
  | some i =>
      let kept := if remove then old.eraseIdx i
        else old.modify i fun found => { found with
          events := subscriber.events
          expiration := subscriber.expiration }
      set { handling with clock.subscribers := kept }
  | none =>
      if remove then pure ()
      else if ← requestMemory allocate then
        modify fun handling =>
          { handling with clock.subscribers := subscriber :: old }

/-- The switch of `clock_management_set`. -/
def clockSet : Option MgmtId → Handle Bool
  | some .priority1 => do
      applyData 2 fun c =>
        { c with reported.dds.priority1 := dataByte mem 0 }
      setChanged
      pure true
  | some .priority2 => do
      applyData 2 fun c =>
        { c with reported.dds.priority2 := dataByte mem 0 }
      setChanged
      pure true
  | some .grandmasterSettingsNp => do
      applyData GrandmasterSettingsNp.size fun c =>
        { c with
          reported.dds.clockQuality :=
            { clockClass := dataByte mem 0
              clockAccuracy := dataByte mem 1
              offsetScaledLogVariance := UInt16.ofNat (dataWord host mem 2 2) }
          reported.utcOffset :=
            (UInt16.ofNat (dataWord host mem 4 2)).toInt16.toInt32
          reported.timeFlags := Int32.ofNat (dataByte mem 6).toNat
          reported.timeSource := Int32.ofNat (dataByte mem 7).toNat }
      setChanged
      pure true
  | some .subscribeEventsNp => do
      use (.data SubscribeEventsNp.size)
      clockUpdateSubscription host allocate mem
      pure true
  | _ => pure false

def clockManagementSet (ingress : MgmtPort) (id : ℕ) : Handle Bool := do
  let respond ← clockSet host allocate mem (MgmtId.ofCode id)
  if respond then
    let _ ← clockManagementGetResponse host allocate mem ingress id
  pure respond

/-- The switch of `port_management_set`. -/
def portSet (target : ReportedPort) : Option MgmtId → Handle ReportedPort
  | some .portDataSetNp => do
      let updated := { target with
        neighborPropDelayThresh := UInt32.ofNat (dataWord host mem 0 4) }
      applyData PortDsNp.size fun c =>
        { c with clkPorts := c.clkPorts.map fun port =>
            if port.number = target.number then updated else port }
      pure updated
  | _ => pure target

def portManagementSet (target : ReportedPort) (id : ℕ) : Handle Bool := do
  let updated ← portSet host mem target (MgmtId.ofCode id)
  if MgmtId.ofCode id = some .portDataSetNp then do
    let _ ← portManagementGetResponse allocate updated id
    pure true
  else pure false

/-- What `port_manage` does when nobody has answered yet. -/
def portManageRest (target : ReportedPort) : Handle ℤ := do
  let id ← readId host mem
  if id ∈ portManagementIds then do
    portManagementError host allocate mem target.number .notSupported
    pure 1
  else do
    portManagementError host allocate mem target.number .noSuchId
    pure (-1)

def portManage (target : ReportedPort) : Handle ℤ := do
  let number := hostWord host.endian mem TargetPort.portNumber.offset 2
  if number ≠ target.number ∧ number ≠ 0xffff then pure 0
  else
    match managementAction mem with
    | some .get => do
        let id ← readId host mem
        if ← portManagementGetResponse allocate target id then pure 1
        else portManageRest host allocate mem target
    | some .set => do
        let id ← readId host mem
        if ← portManagementSet host allocate mem target id then pure 1
        else portManageRest host allocate mem target
    | some .command => portManageRest host allocate mem target
    | _ => pure (-1)

/-- The loop over the ports in `clock_manage`; the result is the number of ports
that answered, unless one has called the message off. -/
def managePorts : List ReportedPort → ℕ → Handle (Option ℕ)
  | [], answers => pure (some answers)
  | target :: rest, answers => do
      let res ← portManage host allocate mem target
      if res < 0 then pure none
      else managePorts rest (if 0 < res then answers + 1 else answers)

def hasChanged : Handle Bool := do
  let handling ← get
  pure handling.changed

/-- The last switch of `clock_manage`. -/
def manageById (ingress : MgmtPort) : Handle Bool := do
  let id ← readId host mem
  if id ∈ clockManagementIds then do
    portManagementError host allocate mem ingress.number .notSupported
    hasChanged
  else do
    let handling ← get
    let answers ← managePorts host allocate mem handling.clock.clkPorts 0
    if answers = some 0 then
      portManagementError host allocate mem ingress.number .wrongValue
    hasChanged

/-- What `clock_manage` does when the clock itself has not answered. -/
def manageRest (ingress : MgmtPort) : Handle Bool := do
  let handling ← get
  let id ← readId host mem
  if id = MgmtId.portPropertiesNp.code ∧
      ingress.number ≠ handling.clock.udsPort.number then do
    portManagementError host allocate mem ingress.number .notSupported
    pure false
  else manageById host allocate mem ingress

/-- `mgt->length == 2 && mgt->id != TLV_NULL_MANAGEMENT`. -/
def emptySet : Handle Bool := do
  if managementLength host mem = 2 then
    let id ← readId host mem
    pure (id ≠ MgmtId.nullManagement.code)
  else pure false

/-- The SET case of `clock_manage`: an empty body is refused, and so is every port
but the one for local clients. -/
def manageSet (ingress : MgmtPort) (empty : Bool) : Handle Bool := do
  let handling ← get
  if empty then do
    portManagementError host allocate mem ingress.number .wrongLength
    hasChanged
  else if ingress.number ≠ handling.clock.udsPort.number then do
    portManagementError host allocate mem ingress.number .notSupported
    hasChanged
  else do
    let id ← readId host mem
    if ← clockManagementSet host allocate mem ingress id then hasChanged
    else manageRest host allocate mem ingress

/-- The switch of `clock_manage` over the action. -/
def manageAction (ingress : MgmtPort) : Handle Bool := do
  match managementAction mem with
  | some .get => do
      let id ← readId host mem
      if ← clockManagementGetResponse host allocate mem ingress id then hasChanged
      else manageRest host allocate mem ingress
  | some .set => do
      let empty ← emptySet host mem
      manageSet host allocate mem ingress empty
  | some .command => manageRest host allocate mem ingress
  | _ => hasChanged

/-- `cid_eq` of the target with all ones or with the clock itself. -/
def isTarget (c : ManagedClock) : Bool :=
  bytesAt mem TargetPort.clockIdentity.offset 8 == List.replicate 8 0xff ||
    bytesAt mem TargetPort.clockIdentity.offset 8 ==
      c.reported.dds.clockIdentity.bytes

end

/-- `clock_manage` after forwarding. -/
def clockDispatch (host : Host) (allocate : ℕ → Bool) (ingress : MgmtPort)
    (message : Store ParseState) : Handle Bool := do
  let handling ← get
  if isTarget message.mem handling.clock = false then hasChanged
  else if message.rest.tlvList.length ≠ 1 then hasChanged
  else manageAction host allocate message.mem ingress

def clockManage (host : Host) (allocate : ℕ → Bool) (c : ManagedClock)
    (ingress : MgmtPort) (message : Store ParseState) : Bool × Handling :=
  let forwarded := clockForwardMgmtMsg host c.forwarding ingress message
  (clockDispatch host allocate ingress forwarded.message).run { clock := c }

end LinuxPtp.Clock
