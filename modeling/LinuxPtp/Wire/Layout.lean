import LinuxPtp.Lib.Access

/-!
# Layout of PTP messages

The packed structures of a PTP message, as offsets and widths of the members
the code converts or reads, and the enumerations found in them.
-/

namespace LinuxPtp.Wire

open ByteOrder

structure Field where
  offset : ℕ
  width : ℕ
  deriving DecidableEq, Repr

/-! ## Messages -/

inductive MsgType
  | sync
  | delayReq
  | pdelayReq
  | pdelayResp
  | followUp
  | delayResp
  | pdelayRespFollowUp
  | announce
  | signaling
  | management
  deriving DecidableEq, Repr

namespace MsgType

def code : MsgType → ℕ
  | sync => 0x0
  | delayReq => 0x1
  | pdelayReq => 0x2
  | pdelayResp => 0x3
  | followUp => 0x8
  | delayResp => 0x9
  | pdelayRespFollowUp => 0xA
  | announce => 0xB
  | signaling => 0xC
  | management => 0xD

def all : List MsgType :=
  [sync, delayReq, pdelayReq, pdelayResp, followUp, delayResp,
    pdelayRespFollowUp, announce, signaling, management]

def ofCode (number : ℕ) : Option MsgType :=
  all.find? (·.code == number)

@[simp]
theorem ofCode_code (type : MsgType) : ofCode type.code = some type := by
  cases type <;> rfl

theorem code_of_ofCode {number : ℕ} {type : MsgType}
    (hcode : ofCode number = some type) : type.code = number := by
  have h := List.find?_some hcode
  simpa using h

def pduLength : MsgType → ℕ
  | sync => 44
  | delayReq => 44
  | pdelayReq => 54
  | pdelayResp => 54
  | followUp => 44
  | delayResp => 54
  | pdelayRespFollowUp => 54
  | announce => 64
  | signaling => 44
  | management => 48

/-- Where the appended TLVs of a message start, for the types that admit
them. -/
def suffix : MsgType → Option ℕ
  | sync => none
  | delayReq => some 44
  | pdelayReq => none
  | pdelayResp => none
  | followUp => some 44
  | delayResp => some 54
  | pdelayRespFollowUp => some 54
  | announce => some 64
  | signaling => some 44
  | management => some 48

theorem suffix_eq_pduLength {type : MsgType} {ptr : ℕ}
    (hsuffix : type.suffix = some ptr) : ptr = type.pduLength := by
  cases type <;> simp_all [suffix, pduLength]

end MsgType

def versionMask : ℕ := 0x0f
def version : ℕ := 0x02

def messageDataSize : ℕ := 1500

namespace Header

def size : ℕ := 34
def tsmt : Field := ⟨0, 1⟩
def ver : Field := ⟨1, 1⟩
def messageLength : Field := ⟨2, 2⟩
def domainNumber : Field := ⟨4, 1⟩
def flagField0 : Field := ⟨6, 1⟩
def flagField1 : Field := ⟨7, 1⟩
def correction : Field := ⟨8, 8⟩
def clockIdentity : Field := ⟨20, 8⟩
def portNumber : Field := ⟨28, 2⟩
def sequenceId : Field := ⟨30, 2⟩
def control : Field := ⟨32, 1⟩
def logMessageInterval : Field := ⟨33, 1⟩

end Header

/-! The timestamp that follows the header in every message that carries
one. -/

namespace WireTimestamp

def offset : ℕ := 34
def secondsMsb : Field := ⟨0, 2⟩
def secondsLsb : Field := ⟨2, 4⟩
def nanoseconds : Field := ⟨6, 4⟩

end WireTimestamp

/-! The requesting port identity of the delay responses. -/

namespace RequestingPort

def clockIdentity : Field := ⟨44, 8⟩
def portNumber : Field := ⟨52, 2⟩

end RequestingPort

/-! The target port identity of signaling and management messages. -/

namespace TargetPort

def clockIdentity : Field := ⟨34, 8⟩
def portNumber : Field := ⟨42, 2⟩

end TargetPort

namespace Announce

def currentUtcOffset : Field := ⟨44, 2⟩
def grandmasterPriority1 : Field := ⟨47, 1⟩
def clockClass : Field := ⟨48, 1⟩
def clockAccuracy : Field := ⟨49, 1⟩
def offsetScaledLogVariance : Field := ⟨50, 2⟩
def grandmasterPriority2 : Field := ⟨52, 1⟩
def grandmasterIdentity : Field := ⟨53, 8⟩
def stepsRemoved : Field := ⟨61, 2⟩
def timeSource : Field := ⟨63, 1⟩

end Announce

namespace Management

def boundaryHops : Field := ⟨45, 1⟩
def flags : Field := ⟨46, 1⟩

end Management

inductive ManagementAction
  | get
  | set
  | response
  | command
  | acknowledge
  deriving DecidableEq, Repr

def ManagementAction.ofCode : ℕ → Option ManagementAction
  | 0 => some .get
  | 1 => some .set
  | 2 => some .response
  | 3 => some .command
  | 4 => some .acknowledge
  | _ => none

/-! ## TLVs -/

inductive TlvType
  | management
  | managementErrorStatus
  | organizationExtension
  | requestUnicastTransmission
  | grantUnicastTransmission
  | cancelUnicastTransmission
  | acknowledgeCancelUnicastTransmission
  | pathTrace
  | alternateTimeOffsetIndicator
  | authentication
  | authenticationChallenge
  | securityAssociationUpdate
  | cumFreqScaleFactorOffset
  | ptpmonReq
  | ptpmonResp
  deriving DecidableEq, Repr

namespace TlvType

def code : TlvType → ℕ
  | management => 0x0001
  | managementErrorStatus => 0x0002
  | organizationExtension => 0x0003
  | requestUnicastTransmission => 0x0004
  | grantUnicastTransmission => 0x0005
  | cancelUnicastTransmission => 0x0006
  | acknowledgeCancelUnicastTransmission => 0x0007
  | pathTrace => 0x0008
  | alternateTimeOffsetIndicator => 0x0009
  | authentication => 0x2000
  | authenticationChallenge => 0x2001
  | securityAssociationUpdate => 0x2002
  | cumFreqScaleFactorOffset => 0x2003
  | ptpmonReq => 0x21FE
  | ptpmonResp => 0x21FF

def all : List TlvType :=
  [management, managementErrorStatus, organizationExtension,
    requestUnicastTransmission, grantUnicastTransmission,
    cancelUnicastTransmission, acknowledgeCancelUnicastTransmission,
    pathTrace, alternateTimeOffsetIndicator, authentication,
    authenticationChallenge, securityAssociationUpdate,
    cumFreqScaleFactorOffset, ptpmonReq, ptpmonResp]

def ofCode (number : ℕ) : Option TlvType :=
  all.find? (·.code == number)

end TlvType

/-- Size of the type and length that every TLV starts with. -/
def sizeofTlv : ℕ := 4

namespace Tlv

def type : Field := ⟨0, 2⟩
def length : Field := ⟨2, 2⟩

end Tlv

/-- The management identifiers whose data the parser looks into. -/
inductive ManagementId
  | clockDescription
  | userDescription
  | saveInNonVolatileStorage
  | resetNonVolatileStorage
  | initializeTlv
  | faultLogReset
  | defaultDataSet
  | currentDataSet
  | parentDataSet
  | timePropertiesDataSet
  | portDataSet
  | enablePort
  | disablePort
  | timeStatusNp
  | grandmasterSettingsNp
  | portDataSetNp
  | subscribeEventsNp
  | portPropertiesNp
  deriving DecidableEq, Repr

namespace ManagementId

def code : ManagementId → ℕ
  | clockDescription => 0x0001
  | userDescription => 0x0002
  | saveInNonVolatileStorage => 0x0003
  | resetNonVolatileStorage => 0x0004
  | initializeTlv => 0x0005
  | faultLogReset => 0x0007
  | defaultDataSet => 0x2000
  | currentDataSet => 0x2001
  | parentDataSet => 0x2002
  | timePropertiesDataSet => 0x2003
  | portDataSet => 0x2004
  | enablePort => 0x200D
  | disablePort => 0x200E
  | timeStatusNp => 0xC000
  | grandmasterSettingsNp => 0xC001
  | portDataSetNp => 0xC002
  | subscribeEventsNp => 0xC003
  | portPropertiesNp => 0xC004

def all : List ManagementId :=
  [clockDescription, userDescription, saveInNonVolatileStorage,
    resetNonVolatileStorage, initializeTlv, faultLogReset, defaultDataSet,
    currentDataSet, parentDataSet, timePropertiesDataSet, portDataSet,
    enablePort, disablePort, timeStatusNp, grandmasterSettingsNp,
    portDataSetNp, subscribeEventsNp, portPropertiesNp]

def ofCode (number : ℕ) : Option ManagementId :=
  all.find? (·.code == number)

end ManagementId

namespace ManagementTlv

def size : ℕ := 6
def id : Field := ⟨4, 2⟩
def data : ℕ := 6

end ManagementTlv

namespace ManagementErrorStatus

def size : ℕ := 12
def error : Field := ⟨4, 2⟩
def id : Field := ⟨6, 2⟩

end ManagementErrorStatus

namespace DefaultDS

def size : ℕ := 20
def numberPorts : Field := ⟨2, 2⟩
def offsetScaledLogVariance : Field := ⟨7, 2⟩

end DefaultDS

namespace CurrentDS

def size : ℕ := 18
def stepsRemoved : Field := ⟨0, 2⟩
def offsetFromMaster : Field := ⟨2, 8⟩
def meanPathDelay : Field := ⟨10, 8⟩

end CurrentDS

namespace ParentDS

def size : ℕ := 32
def portNumber : Field := ⟨8, 2⟩
def observedParentOffsetScaledLogVariance : Field := ⟨12, 2⟩
def observedParentClockPhaseChangeRate : Field := ⟨14, 4⟩
def offsetScaledLogVariance : Field := ⟨21, 2⟩

end ParentDS

namespace TimePropertiesDS

def size : ℕ := 4
def currentUtcOffset : Field := ⟨0, 2⟩

end TimePropertiesDS

namespace PortDS

def size : ℕ := 26
def portNumber : Field := ⟨8, 2⟩
def peerMeanPathDelay : Field := ⟨12, 8⟩

end PortDS

/-! The scaled nanoseconds of IEEE 802.1AS, sixteen bits, sixty-four bits and
sixteen bits of fraction. -/

namespace ScaledNs

def size : ℕ := 12
def nanosecondsMsb : Field := ⟨0, 2⟩
def nanosecondsLsb : Field := ⟨2, 8⟩
def fractionalNanoseconds : Field := ⟨10, 2⟩

end ScaledNs

namespace TimeStatusNp

def size : ℕ := 50
def masterOffset : Field := ⟨0, 8⟩
def ingressTime : Field := ⟨8, 8⟩
def cumulativeScaledRateOffset : Field := ⟨16, 4⟩
def scaledLastGmPhaseChange : Field := ⟨20, 4⟩
def gmTimeBaseIndicator : Field := ⟨24, 2⟩
def lastGmPhaseChange : ℕ := 26
def gmPresent : Field := ⟨38, 4⟩

end TimeStatusNp

namespace GrandmasterSettingsNp

def size : ℕ := 8
def offsetScaledLogVariance : Field := ⟨2, 2⟩
def utcOffset : Field := ⟨4, 2⟩

end GrandmasterSettingsNp

namespace PortDsNp

def size : ℕ := 8
def neighborPropDelayThresh : Field := ⟨0, 4⟩
def asCapable : Field := ⟨4, 4⟩

end PortDsNp

namespace SubscribeEventsNp

def size : ℕ := 66
def duration : Field := ⟨0, 2⟩

end SubscribeEventsNp

namespace PortPropertiesNp

def size : ℕ := 13
def portNumber : Field := ⟨8, 2⟩
def intfTxtLength : ℕ := 12

end PortPropertiesNp

def sizeofPtpText : ℕ := 1
def sizeofPhysicalAddress : ℕ := 2
def sizeofPortAddress : ℕ := 4
def transportAddrLen : ℕ := 16
def ouiLen : ℕ := 3
def profileIdLen : ℕ := 6

namespace PhysicalAddress

def length : Field := ⟨0, 2⟩

end PhysicalAddress

namespace PortAddress

def networkProtocol : Field := ⟨0, 2⟩
def addressLength : Field := ⟨2, 2⟩

end PortAddress

/-- Pointers into a clock description, which has members of variable size.
A member that has not been located is a null pointer. -/
structure MgmtClockDescription where
  clockType : Option ℕ := none
  physicalLayerProtocol : Option ℕ := none
  physicalAddress : Option ℕ := none
  protocolAddress : Option ℕ := none
  manufacturerIdentity : Option ℕ := none
  productDescription : Option ℕ := none
  revisionData : Option ℕ := none
  userDescription : Option ℕ := none
  profileIdentity : Option ℕ := none
  deriving DecidableEq, Repr

namespace NsmResp

def headSize : ℕ := 10
def footSize : ℕ := 64
def portState : Field := ⟨4, 1⟩
def parentAddr : ℕ := 6
def footParent : ℕ := 0
def footCurrent : ℕ := 32
def footTimeprop : ℕ := 50
def footLastsync : ℕ := 54

end NsmResp

/-- `IEEE_802_1_COMMITTEE`. -/
def ieee8021Id : List ℕ := [0x00, 0x80, 0xC2]

namespace OrganizationTlv

def size : ℕ := 10
def id : ℕ := 4
def subtype : ℕ := 7

end OrganizationTlv

namespace FollowUpInfoTlv

def size : ℕ := 32
def cumulativeScaledRateOffset : Field := ⟨10, 4⟩
def gmTimeBaseIndicator : Field := ⟨14, 2⟩
def lastGmPhaseChange : ℕ := 16
def scaledLastGmPhaseChange : Field := ⟨28, 4⟩

end FollowUpInfoTlv

namespace UnicastXmitTlv

def requestSize : ℕ := 10
def grantSize : ℕ := 12
def cancelSize : ℕ := 6
def messageType : ℕ := 4
def logInterMessagePeriod : ℕ := 5
def durationField : Field := ⟨6, 4⟩

end UnicastXmitTlv

def sizeofClockIdentity : ℕ := 8

/-- `PATH_TRACE_MAX`, the clock identities that fit behind an Announce. -/
def pathTraceMax : ℕ :=
  (messageDataSize - MsgType.announce.pduLength - sizeofTlv) /
    sizeofClockIdentity

/-- Descriptor of a TLV: where it starts, and pointers to the parts of its
body that do not lie at fixed offsets. -/
structure TlvExtra where
  tlv : ℕ
  cd : MgmtClockDescription := {}
  foot : Option ℕ := none
  deriving DecidableEq, Repr

end LinuxPtp.Wire
