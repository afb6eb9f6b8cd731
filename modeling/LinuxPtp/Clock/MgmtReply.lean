import LinuxPtp.Bmc.Dataset
import LinuxPtp.Lib.Members
import LinuxPtp.Ordinary.State
import LinuxPtp.Wire.HostMessage

/-!
# Replies to management requests

`clock_management_fill_response` and `port_management_fill_response` lay the data
sets that a client asks for behind a reply, in host order.  What is assigned to
each member is listed per identifier; the two functions do the rest alike.
-/

namespace LinuxPtp.Clock

open ByteOrder Access Wire Port Bmc
open Ordinary (DelayMechanism)

/-! ## Identifiers -/

/-- The identifiers that are answered with a data set. -/
inductive MgmtId
  | nullManagement
  | clockDescription
  | userDescription
  | defaultDataSet
  | currentDataSet
  | parentDataSet
  | timePropertiesDataSet
  | portDataSet
  | priority1
  | priority2
  | domain
  | slaveOnly
  | logAnnounceInterval
  | announceReceiptTimeout
  | logSyncInterval
  | versionNumber
  | clockAccuracy
  | traceabilityProperties
  | timescaleProperties
  | delayMechanism
  | logMinPdelayReqInterval
  | timeStatusNp
  | grandmasterSettingsNp
  | portDataSetNp
  | subscribeEventsNp
  | portPropertiesNp
  deriving DecidableEq, Repr

namespace MgmtId

def code : MgmtId → ℕ
  | nullManagement => 0x0000
  | clockDescription => 0x0001
  | userDescription => 0x0002
  | defaultDataSet => 0x2000
  | currentDataSet => 0x2001
  | parentDataSet => 0x2002
  | timePropertiesDataSet => 0x2003
  | portDataSet => 0x2004
  | priority1 => 0x2005
  | priority2 => 0x2006
  | domain => 0x2007
  | slaveOnly => 0x2008
  | logAnnounceInterval => 0x2009
  | announceReceiptTimeout => 0x200A
  | logSyncInterval => 0x200B
  | versionNumber => 0x200C
  | clockAccuracy => 0x2010
  | traceabilityProperties => 0x2012
  | timescaleProperties => 0x2013
  | delayMechanism => 0x6000
  | logMinPdelayReqInterval => 0x6001
  | timeStatusNp => 0xC000
  | grandmasterSettingsNp => 0xC001
  | portDataSetNp => 0xC002
  | subscribeEventsNp => 0xC003
  | portPropertiesNp => 0xC004

def all : List MgmtId :=
  [nullManagement, clockDescription, userDescription, defaultDataSet,
    currentDataSet, parentDataSet, timePropertiesDataSet, portDataSet, priority1,
    priority2, domain, slaveOnly, logAnnounceInterval, announceReceiptTimeout,
    logSyncInterval, versionNumber, clockAccuracy, traceabilityProperties,
    timescaleProperties, delayMechanism, logMinPdelayReqInterval, timeStatusNp,
    grandmasterSettingsNp, portDataSetNp, subscribeEventsNp, portPropertiesNp]

def ofCode (number : ℕ) : Option MgmtId :=
  all.find? (·.code == number)

theorem code_of_ofCode {number : ℕ} {id : MgmtId} (hid : ofCode number = some id) :
    id.code = number := by
  simpa using List.find?_some hid

end MgmtId

/-! ## What is reported -/

structure DefaultDs where
  flags : UInt8
  reserved1 : UInt8
  numberPorts : UInt16
  priority1 : UInt8
  clockQuality : ClockQuality
  priority2 : UInt8
  clockIdentity : ClockIdentity
  domainNumber : UInt8
  reserved2 : UInt8

structure CurrentDs where
  stepsRemoved : UInt16
  offsetFromMaster : Int64
  meanPathDelay : Int64

structure ParentDs where
  parentPortIdentity : PortIdentity
  parentStats : UInt8
  reserved : UInt8
  observedParentOffsetScaledLogVariance : UInt16
  observedParentClockPhaseChangeRate : Int32
  grandmasterPriority1 : UInt8
  grandmasterClockQuality : ClockQuality
  grandmasterPriority2 : UInt8
  grandmasterIdentity : ClockIdentity

structure TimePropertiesDs where
  currentUtcOffset : Int16
  flags : UInt8
  timeSource : UInt8

/-- A text with its length in one byte. -/
structure PtpText where
  text : List UInt8
  length_lt : text.length < 256

structure TransportAddress where
  address : List UInt8
  length_le : address.length ≤ transportAddrLen

structure PhaseChange where
  nanosecondsMsb : UInt16
  nanosecondsLsb : UInt64
  fractionalNanoseconds : UInt16

/-- The members of `struct time_status_np` that the clock keeps; the rate is the one
relative to the grandmaster, for which the code works with floating point. -/
structure TimeStatus where
  cumulativeScaledRateOffset : Int32
  scaledLastGmPhaseChange : Int32
  gmTimeBaseIndicator : UInt16
  lastGmPhaseChange : PhaseChange

/-- The events that a client has subscribed to, and for how long. -/
structure Subscription where
  duration : UInt16
  bitmask : Vector UInt8 64

/-- What a clock reports of itself.  `utcOffset`, `timeFlags` and `timeSource` are
of type `int`. -/
structure ReportedClock where
  userDescription : PtpText
  dds : DefaultDs
  cur : CurrentDs
  pds : ParentDs
  tds : TimePropertiesDs
  masterOffset : Int64
  ingressTs : Int64
  status : TimeStatus
  utcOffset : Int32
  timeFlags : Int32
  timeSource : Int32

inductive ClockType
  | ordinary
  | boundary
  | p2p
  | e2e
  | management
  deriving DecidableEq, Repr

def ClockType.code : ClockType → ℕ
  | ordinary => 0x8000
  | boundary => 0x4000
  | p2p => 0x2000
  | e2e => 0x1000
  | management => 0x0800

inductive TransportType
  | uds
  | udpIpv4
  | udpIpv6
  | ieee8023
  | deviceNet
  | controlNet
  | profinet
  deriving DecidableEq, Repr

def TransportType.code : TransportType → ℕ
  | uds => 0
  | udpIpv4 => 1
  | udpIpv6 => 2
  | ieee8023 => 3
  | deviceNet => 4
  | controlNet => 5
  | profinet => 6

/-- `struct ClockDescription`, with the type of the clock. -/
structure ClockDescription where
  clockType : ClockType
  manufacturerIdentity : Vector UInt8 3
  productDescription : PtpText
  revisionData : PtpText
  userDescription : PtpText

inductive TimestampType
  | software
  | hardware
  | legacyHw
  | oneStep
  | p2p1Step
  deriving DecidableEq, Repr

def TimestampType.code : TimestampType → ℕ
  | software => 0
  | hardware => 1
  | legacyHw => 2
  | oneStep => 3
  | p2p1Step => 4

/-- What a port reports of itself and of its clock.  `tsLabel` is the string without
the zero that ends it. -/
structure ReportedPort where
  description : ClockDescription
  transport : TransportType
  physicalAddress : TransportAddress
  protocolAddress : TransportAddress
  portIdentity : PortIdentity
  state : PortState
  timestamping : TimestampType
  tsLabel : PtpText
  asCapable : Int32
  logMinDelayReqInterval : Int8
  peerMeanPathDelay : Int64
  logAnnounceInterval : Int8
  announceReceiptTimeout : UInt8
  logSyncInterval : Int8
  delayMechanism : DelayMechanism
  logMinPdelayReqInterval : Int8
  neighborPropDelayThresh : UInt32
  versionNumber : UInt32

/-! ## Members of the data sets -/

/-- A member of an integer type of C. -/
def uint8 (offset : ℕ) (value : UInt8) : Member := .unsigned offset 1 value.toNat
def uint16 (offset : ℕ) (value : UInt16) : Member := .unsigned offset 2 value.toNat
def uint32 (offset : ℕ) (value : UInt32) : Member := .unsigned offset 4 value.toNat
def uint64 (offset : ℕ) (value : UInt64) : Member := .unsigned offset 8 value.toNat

def int8 (offset : ℕ) (value : Int8) : Member := .signed offset 1 value.toInt
def int16 (offset : ℕ) (value : Int16) : Member := .signed offset 2 value.toInt
def int32 (offset : ℕ) (value : Int32) : Member := .signed offset 4 value.toInt
def int64 (offset : ℕ) (value : Int64) : Member := .signed offset 8 value.toInt

def ClockQuality.members (offset : ℕ) (quality : ClockQuality) : List Member :=
  [uint8 offset quality.clockClass, uint8 (offset + 1) quality.clockAccuracy,
    uint16 (offset + 2) quality.offsetScaledLogVariance]

def PortIdentity.members (offset : ℕ) (identity : PortIdentity) : List Member :=
  [.octets offset identity.clockIdentity.bytes, uint16 (offset + 8) identity.portNumber]

def DefaultDs.members (dds : DefaultDs) : List Member :=
  [uint8 0 dds.flags, uint8 1 dds.reserved1, uint16 2 dds.numberPorts,
    uint8 4 dds.priority1] ++ ClockQuality.members 5 dds.clockQuality ++
  [uint8 9 dds.priority2, .octets 10 dds.clockIdentity.bytes,
    uint8 18 dds.domainNumber, uint8 19 dds.reserved2]

def CurrentDs.members (cur : CurrentDs) : List Member :=
  [uint16 0 cur.stepsRemoved, int64 2 cur.offsetFromMaster, int64 10 cur.meanPathDelay]

def ParentDs.members (pds : ParentDs) : List Member :=
  PortIdentity.members 0 pds.parentPortIdentity ++
  [uint8 10 pds.parentStats, uint8 11 pds.reserved,
    uint16 12 pds.observedParentOffsetScaledLogVariance,
    int32 14 pds.observedParentClockPhaseChangeRate,
    uint8 18 pds.grandmasterPriority1] ++
  ClockQuality.members 19 pds.grandmasterClockQuality ++
  [uint8 23 pds.grandmasterPriority2, .octets 24 pds.grandmasterIdentity.bytes]

def TimePropertiesDs.members (tds : TimePropertiesDs) : List Member :=
  [int16 0 tds.currentUtcOffset, uint8 2 tds.flags, uint8 3 tds.timeSource]

/-- `enum PORT_STATE`. -/
def portStateCode : PortState → ℕ
  | .initializing => 1
  | .faulty => 2
  | .disabled => 3
  | .listening => 4
  | .preMaster => 5
  | .master => 6
  | .passive => 7
  | .uncalibrated => 8
  | .slave => 9
  | .grandMaster => 10

/-- A grandmaster is reported as a master. -/
def reportedState : PortState → PortState
  | .grandMaster => .master
  | state => state

/-- `DM_AUTO` is reported as `DM_E2E`. -/
def reportedDelayMechanism : DelayMechanism → ℕ
  | .p2p => 2
  | .auto | .e2e => 1

/-- The length byte of a text and the text. -/
def PtpText.members (offset : ℕ) (text : PtpText) : List Member :=
  [.unsigned offset sizeofPtpText text.text.length,
    .octets (offset + sizeofPtpText) text.text]

/-! ## Replies -/

/-- What is laid out behind the identifier: the members of the data, `datalen`, and
the pointers that are kept in the descriptor. -/
structure Reply where
  members : List Member
  dataLen : ℕ
  cd : MgmtClockDescription := {}

/-- `struct management_tlv_datum`; the reserved byte is not written. -/
def datum (value : UInt8) : Reply where
  members := [uint8 0 value]
  dataLen := 2

/-- Where the TLV of a reply starts, and its data. -/
def mgmtTlv : ℕ := 48
def mgmtData : ℕ := mgmtTlv + ManagementTlv.data

def ddsSlaveOnly : UInt8 := 0x02
def ptpTimescale : UInt8 := 0x08
def timeTraceable : UInt8 := 0x10
def freqTraceable : UInt8 := 0x20

/-- The switch of `clock_management_fill_response`; there is a subscription to report
when the request came in over the port for local clients. -/
def clockReply (c : ReportedClock) (subscription : Option Subscription) :
    MgmtId → Option Reply
  | .userDescription => some
      { members := c.userDescription.members 0
        dataLen := sizeofPtpText + c.userDescription.text.length }
  | .defaultDataSet => some { members := c.dds.members, dataLen := DefaultDS.size }
  | .currentDataSet => some { members := c.cur.members, dataLen := CurrentDS.size }
  | .parentDataSet => some { members := c.pds.members, dataLen := ParentDS.size }
  | .timePropertiesDataSet => some
      { members := c.tds.members, dataLen := TimePropertiesDS.size }
  | .priority1 => some (datum c.dds.priority1)
  | .priority2 => some (datum c.dds.priority2)
  | .domain => some (datum c.dds.domainNumber)
  | .slaveOnly => some (datum (c.dds.flags &&& ddsSlaveOnly))
  | .clockAccuracy => some (datum c.dds.clockQuality.clockAccuracy)
  | .traceabilityProperties => some
      (datum (c.tds.flags &&& (timeTraceable ||| freqTraceable)))
  | .timescaleProperties => some (datum (c.tds.flags &&& ptpTimescale))
  | .timeStatusNp => some
      { members :=
          [int64 0 c.masterOffset, int64 8 c.ingressTs,
            int32 16 c.status.cumulativeScaledRateOffset,
            int32 20 c.status.scaledLastGmPhaseChange,
            uint16 24 c.status.gmTimeBaseIndicator,
            uint16 26 c.status.lastGmPhaseChange.nanosecondsMsb,
            uint64 28 c.status.lastGmPhaseChange.nanosecondsLsb,
            uint16 36 c.status.lastGmPhaseChange.fractionalNanoseconds,
            int32 38 (if c.pds.grandmasterIdentity = c.dds.clockIdentity then 0 else 1),
            .octets 42 c.pds.grandmasterIdentity.bytes]
        dataLen := TimeStatusNp.size }
  | .grandmasterSettingsNp => some
      { members := ClockQuality.members 0 c.dds.clockQuality ++
          [.signed 4 2 c.utcOffset.toInt, .unsigned 6 1 c.timeFlags.toInt,
            .unsigned 7 1 c.timeSource.toInt]
        dataLen := GrandmasterSettingsNp.size }
  | .subscribeEventsNp => some
      { members := match subscription with
          | none => []
          | some subscription =>
              [.octets 2 subscription.bitmask.toList, uint16 0 subscription.duration]
        dataLen := 0 }
  | _ => none

namespace ReportedPort

variable (target : ReportedPort)

/-- `"IEEE 802.3"`, or nothing. -/
def physicalLayerProtocol : List UInt8 :=
  match target.transport with
  | .udpIpv4 | .udpIpv6 | .ieee8023 =>
      [0x49, 0x45, 0x45, 0x45, 0x20, 0x38, 0x30, 0x32, 0x2e, 0x33]
  | _ => []

/-- `profile_id_p2p` or `profile_id_drr`. -/
def profileIdentity : List UInt8 :=
  match target.delayMechanism with
  | .p2p => [0x00, 0x1B, 0x19, 0x00, 0x02, 0x00]
  | _ => [0x00, 0x1B, 0x19, 0x00, 0x01, 0x00]

/-! Where the members of the clock description start, each behind the one before
it. -/

def physicalLayerProtocolAt : ℕ := 2

def physicalAddressAt : ℕ :=
  physicalLayerProtocolAt + sizeofPtpText + target.physicalLayerProtocol.length

def protocolAddressAt : ℕ :=
  target.physicalAddressAt + sizeofPhysicalAddress +
    target.physicalAddress.address.length

def manufacturerIdentityAt : ℕ :=
  target.protocolAddressAt + sizeofPortAddress + target.protocolAddress.address.length

def productDescriptionAt : ℕ := target.manufacturerIdentityAt + ouiLen + 1

def revisionDataAt : ℕ :=
  target.productDescriptionAt + sizeofPtpText +
    target.description.productDescription.text.length

def userDescriptionAt : ℕ :=
  target.revisionDataAt + sizeofPtpText + target.description.revisionData.text.length

def profileIdentityAt : ℕ :=
  target.userDescriptionAt + sizeofPtpText +
    target.description.userDescription.text.length

end ReportedPort

/-- The clock description; the pointer to the profile identity is not kept. -/
def clockDescriptionReply (target : ReportedPort) : Reply where
  members :=
    [.unsigned 0 2 target.description.clockType.code,
      .unsigned ReportedPort.physicalLayerProtocolAt sizeofPtpText
        target.physicalLayerProtocol.length,
      .octets (ReportedPort.physicalLayerProtocolAt + sizeofPtpText)
        target.physicalLayerProtocol,
      .unsigned target.physicalAddressAt 2 target.physicalAddress.address.length,
      .octets (target.physicalAddressAt + sizeofPhysicalAddress)
        target.physicalAddress.address,
      .unsigned target.protocolAddressAt 2 target.transport.code,
      .unsigned (target.protocolAddressAt + 2) 2 target.protocolAddress.address.length,
      .octets (target.protocolAddressAt + sizeofPortAddress)
        target.protocolAddress.address,
      .octets target.manufacturerIdentityAt
        target.description.manufacturerIdentity.toList,
      .unsigned (target.manufacturerIdentityAt + ouiLen) 1 0] ++
    target.description.productDescription.members target.productDescriptionAt ++
    target.description.revisionData.members target.revisionDataAt ++
    target.description.userDescription.members target.userDescriptionAt ++
    [.octets target.profileIdentityAt target.profileIdentity]
  dataLen := target.profileIdentityAt + profileIdLen
  cd :=
    { clockType := some mgmtData
      physicalLayerProtocol := some (mgmtData + ReportedPort.physicalLayerProtocolAt)
      physicalAddress := some (mgmtData + target.physicalAddressAt)
      protocolAddress := some (mgmtData + target.protocolAddressAt)
      manufacturerIdentity := some (mgmtData + target.manufacturerIdentityAt)
      productDescription := some (mgmtData + target.productDescriptionAt)
      revisionData := some (mgmtData + target.revisionDataAt)
      userDescription := some (mgmtData + target.userDescriptionAt) }

/-- The switch of `port_management_fill_response`. -/
def portReply (target : ReportedPort) : MgmtId → Option Reply
  | .nullManagement => some { members := [], dataLen := 0 }
  | .clockDescription => some (clockDescriptionReply target)
  | .portDataSet => some
      { members := PortIdentity.members 0 target.portIdentity ++
          [.unsigned 10 1 (portStateCode (reportedState target.state)),
            int8 11 target.logMinDelayReqInterval,
            int64 12 target.peerMeanPathDelay,
            int8 20 target.logAnnounceInterval,
            uint8 21 target.announceReceiptTimeout,
            int8 22 target.logSyncInterval,
            .unsigned 23 1 (reportedDelayMechanism target.delayMechanism),
            int8 24 target.logMinPdelayReqInterval,
            .unsigned 25 1 target.versionNumber.toNat]
        dataLen := PortDS.size }
  | .logAnnounceInterval => some
      { members := [int8 0 target.logAnnounceInterval], dataLen := 2 }
  | .announceReceiptTimeout => some (datum target.announceReceiptTimeout)
  | .logSyncInterval => some
      { members := [int8 0 target.logSyncInterval], dataLen := 2 }
  | .versionNumber => some
      { members := [.unsigned 0 1 target.versionNumber.toNat], dataLen := 2 }
  | .delayMechanism => some
      { members := [.unsigned 0 1 (reportedDelayMechanism target.delayMechanism)]
        dataLen := 2 }
  | .logMinPdelayReqInterval => some
      { members := [int8 0 target.logMinPdelayReqInterval], dataLen := 2 }
  | .portDataSetNp => some
      { members := [uint32 0 target.neighborPropDelayThresh, int32 4 target.asCapable]
        dataLen := PortDsNp.size }
  | .portPropertiesNp => some
      { members := PortIdentity.members 0 target.portIdentity ++
          [.unsigned 10 1 (portStateCode (reportedState target.state)),
            .unsigned 11 1 target.timestamping.code] ++
          target.tsLabel.members PortPropertiesNp.intfTxtLength
        dataLen := PortPropertiesNp.size + target.tsLabel.text.length }
  | _ => none

/-! ## Filling in a reply -/

section

variable (host : Host)

/-- The data of a reply, a byte of padding if need be, and both lengths. -/
def layOutData (reply : Reply) : WireM Unit := do
  writeMembers host.endian mgmtData reply.members
  writeBytes (mgmtData + reply.dataLen) (if reply.dataLen % 2 = 0 then [] else [0])
  writeWord host.endian (mgmtTlv + Tlv.length.offset) Tlv.length.width
    (ManagementTlv.id.width + roundUp reply.dataLen)
  let messageLength ← readField host 0 Header.messageLength
  writeWord host.endian Header.messageLength.offset Header.messageLength.width
    (messageLength + ManagementTlv.size + roundUp reply.dataLen)

/-- What the two functions have in common.  The result tells whether the caller is to
answer. -/
def fillResponse (id : ℕ) (reply : Option Reply) : WireM Bool := do
  let found ← Access.succeeds (tlvExtraAlloc host)
  if found then do
    writeWord host.endian (mgmtTlv + Tlv.type.offset) Tlv.type.width
      TlvType.management.code
    writeWord host.endian (mgmtTlv + ManagementTlv.id.offset) ManagementTlv.id.width id
    match reply with
    | none => do
        modifyRest ParseState.recycle
        pure false
    | some reply => do
        layOutData host reply
        msgTlvAttach { tlv := mgmtTlv, cd := reply.cd }
        pure true
  else pure false

def clockManagementFillResponse (c : ReportedClock)
    (subscription : Option Subscription) (id : ℕ) : WireM Bool :=
  fillResponse host id ((MgmtId.ofCode id).bind (clockReply c subscription))

def portManagementFillResponse (target : ReportedPort) (id : ℕ) : WireM Bool :=
  fillResponse host id ((MgmtId.ofCode id).bind (portReply target))

end

def reportedClock : ReportedClock where
  userDescription := ⟨[0x61], by decide⟩
  dds :=
    { flags := 0, reserved1 := 0, numberPorts := 1, priority1 := 128
      clockQuality := ⟨248, 0xfe, 0xffff⟩, priority2 := 128
      clockIdentity := ⟨#v[1, 2, 3, 4, 5, 6, 7, 8]⟩, domainNumber := 0, reserved2 := 0 }
  cur := ⟨0, 0, 0⟩
  pds :=
    { parentPortIdentity := ⟨⟨#v[1, 2, 3, 4, 5, 6, 7, 8]⟩, 0⟩, parentStats := 0
      reserved := 0, observedParentOffsetScaledLogVariance := 0xffff
      observedParentClockPhaseChangeRate := 0x7fffffff, grandmasterPriority1 := 128
      grandmasterClockQuality := ⟨248, 0xfe, 0xffff⟩, grandmasterPriority2 := 128
      grandmasterIdentity := ⟨#v[1, 2, 3, 4, 5, 6, 7, 8]⟩ }
  tds := ⟨37, 8, 0xa0⟩
  masterOffset := 0
  ingressTs := 0
  status := ⟨0, 0, 0, ⟨0, 0, 0⟩⟩
  utcOffset := 37
  timeFlags := 8
  timeSource := 0xa0

end LinuxPtp.Clock
