import LinuxPtp.Wire.Layout

/-!
# Conversion of TLVs

What `tlv.c` does to the body of a TLV after it was received and before it is
sent.  Pointers are offsets from the start of the message.  The type and the
length of a TLV are read by the caller, who has them in host order at that
point, and handed down.
-/

namespace LinuxPtp.Wire

open ByteOrder Access

/-- Why a message is refused, as the code reports it; the last two stand for a
null pointer and for a loop that does not end. -/
inductive Errno
  | ebadmsg
  | eproto
  | enomem
  | nullPointer
  | endlessLoop
  deriving DecidableEq, Repr

structure LocalTimestamp where
  sec : ℕ
  nsec : ℕ
  deriving DecidableEq, Repr

structure Timespec where
  tvSec : ℤ
  tvNsec : ℤ
  deriving DecidableEq, Repr

/-- TLV descriptors waiting for reuse, and how often `calloc` has been asked
for a new one. -/
structure TlvPool where
  free : ℕ
  callocs : ℕ
  deriving DecidableEq, Repr

/-- What parsing writes outside the data of the message. -/
structure ParseState where
  tlvList : List TlvExtra
  pdu : LocalTimestamp
  hostTime : Timespec
  pool : TlvPool
  deriving DecidableEq, Repr

/-- The machine the code runs on: its byte order, the outcome of each
`calloc`, and the reading of the monotonic clock. -/
structure Host where
  endian : Endian
  calloc : ℕ → Bool
  monotonic : Timespec

abbrev WireM (α : Type) : Type := Access ParseState Errno α

section

variable (host : Host)

/-- Convert members of the structure at `base`, one after the other. -/
def swapFields (base : ℕ) : List Field → WireM Unit
  | [] => pure ()
  | field :: fields => do
      swapWord host.endian (base + field.offset) field.width
      swapFields base fields

def readField (base : ℕ) (field : Field) : WireM ℕ :=
  readWord host.endian (base + field.offset) field.width

/-! ## Scaled nanoseconds and text -/

def scaledNsN2h (sns : ℕ) : WireM Unit := do
  swapFields host sns [ScaledNs.nanosecondsMsb]
  let msb ← readField host sns ScaledNs.nanosecondsMsb
  writeWord host.endian (sns + ScaledNs.nanosecondsLsb.offset) 8
    (host.endian.ntoh 8 msb)
  swapFields host sns [ScaledNs.fractionalNanoseconds]

def scaledNsH2n (sns : ℕ) : WireM Unit := do
  swapFields host sns [ScaledNs.nanosecondsMsb]
  let msb ← readField host sns ScaledNs.nanosecondsMsb
  writeWord host.endian (sns + ScaledNs.nanosecondsLsb.offset) 8
    (host.endian.ntoh 8 msb)
  swapFields host sns [ScaledNs.fractionalNanoseconds]

/-- Convert sixteen bits in place and return what they have become. -/
def flip16 (ptr : ℕ) : WireM ℕ := do
  swapWord host.endian ptr 2
  readWord host.endian ptr 2

/-! ## Management TLVs -/

/-- Where the parser stands in a clock description, and what is left of it. -/
structure Cursor where
  buf : ℕ
  len : ℕ

/-- `buf += n; len -= n; if (len < 0) goto bad_length;` -/
def Cursor.skip (cursor : Cursor) (count : ℕ) : WireM Cursor :=
  if cursor.len < count then fail .ebadmsg
  else pure ⟨cursor.buf + count, cursor.len - count⟩

/-- A `PTPText`: its length byte and the text. -/
def Cursor.skipText (cursor : Cursor) : WireM Cursor := do
  let text := cursor.buf
  let cursor ← cursor.skip sizeofPtpText
  let length ← readByte text
  cursor.skip length

def Cursor.skipAddress (cursor : Cursor) (length : ℕ) : WireM Cursor :=
  if length > transportAddrLen then fail .ebadmsg else cursor.skip length

/-- The `TLV_CLOCK_DESCRIPTION` case of `mgt_post_recv`.  Returns the pointers
and the bytes used. -/
def clockDescriptionPostRecv (data dataLen : ℕ) :
    WireM (MgmtClockDescription × ℕ) := do
  let cursor : Cursor := ⟨data, dataLen⟩
  let clockType := cursor.buf
  let cursor ← cursor.skip 2
  let _ ← flip16 host clockType
  let physicalLayerProtocol := cursor.buf
  let cursor ← cursor.skipText
  let physicalAddress := cursor.buf
  let cursor ← cursor.skip sizeofPhysicalAddress
  let u16 ← flip16 host (physicalAddress + PhysicalAddress.length.offset)
  let cursor ← cursor.skipAddress u16
  let protocolAddress := cursor.buf
  let cursor ← cursor.skip sizeofPortAddress
  let _ ← flip16 host (protocolAddress + PortAddress.networkProtocol.offset)
  let u16 ← flip16 host (protocolAddress + PortAddress.addressLength.offset)
  let cursor ← cursor.skipAddress u16
  let manufacturerIdentity := cursor.buf
  let cursor ← cursor.skip (ouiLen + 1)
  let productDescription := cursor.buf
  let cursor ← cursor.skipText
  let revisionData := cursor.buf
  let cursor ← cursor.skipText
  let userDescription := cursor.buf
  let cursor ← cursor.skipText
  let profileIdentity := cursor.buf
  let cursor ← cursor.skip profileIdLen
  pure ({ clockType := some clockType
          physicalLayerProtocol := some physicalLayerProtocol
          physicalAddress := some physicalAddress
          protocolAddress := some protocolAddress
          manufacturerIdentity := some manufacturerIdentity
          productDescription := some productDescription
          revisionData := some revisionData
          userDescription := some userDescription
          profileIdentity := some profileIdentity }, cursor.buf - data)

/-- A data set of fixed size: check the length, then convert. -/
def dataSetPostRecv (dataLen size : ℕ) (convert : WireM Unit)
    (extra : TlvExtra) : WireM (TlvExtra × ℕ) :=
  if dataLen ≠ size then fail .ebadmsg
  else do
    convert
    pure (extra, 0)

/-- The switch of `mgt_post_recv`.  The second result is `extra_len`. -/
def mgtDataPostRecv (id data dataLen : ℕ) (extra : TlvExtra) :
    WireM (TlvExtra × ℕ) :=
  match ManagementId.ofCode id with
  | some .clockDescription => do
      let (cd, extraLen) ← clockDescriptionPostRecv host data dataLen
      pure ({ extra with cd := cd }, extraLen)
  | some .userDescription =>
      if dataLen < sizeofPtpText then fail .ebadmsg
      else do
        let length ← readByte data
        pure ({ extra with cd := { extra.cd with userDescription := some data } },
          sizeofPtpText + length)
  | some .defaultDataSet =>
      dataSetPostRecv dataLen DefaultDS.size
        (swapFields host data
          [DefaultDS.numberPorts, DefaultDS.offsetScaledLogVariance]) extra
  | some .currentDataSet =>
      dataSetPostRecv dataLen CurrentDS.size
        (swapFields host data
          [CurrentDS.stepsRemoved, CurrentDS.offsetFromMaster,
            CurrentDS.meanPathDelay]) extra
  | some .parentDataSet =>
      dataSetPostRecv dataLen ParentDS.size
        (swapFields host data
          [ParentDS.portNumber,
            ParentDS.observedParentOffsetScaledLogVariance,
            ParentDS.observedParentClockPhaseChangeRate,
            ParentDS.offsetScaledLogVariance]) extra
  | some .timePropertiesDataSet =>
      dataSetPostRecv dataLen TimePropertiesDS.size
        (swapFields host data [TimePropertiesDS.currentUtcOffset]) extra
  | some .portDataSet =>
      dataSetPostRecv dataLen PortDS.size
        (swapFields host data [PortDS.portNumber, PortDS.peerMeanPathDelay])
        extra
  | some .timeStatusNp =>
      dataSetPostRecv dataLen TimeStatusNp.size
        (do
          swapFields host data
            [TimeStatusNp.masterOffset, TimeStatusNp.ingressTime,
              TimeStatusNp.cumulativeScaledRateOffset,
              TimeStatusNp.scaledLastGmPhaseChange,
              TimeStatusNp.gmTimeBaseIndicator]
          scaledNsN2h host (data + TimeStatusNp.lastGmPhaseChange)
          swapFields host data [TimeStatusNp.gmPresent]) extra
  | some .grandmasterSettingsNp =>
      dataSetPostRecv dataLen GrandmasterSettingsNp.size
        (swapFields host data
          [GrandmasterSettingsNp.offsetScaledLogVariance,
            GrandmasterSettingsNp.utcOffset]) extra
  | some .portDataSetNp =>
      dataSetPostRecv dataLen PortDsNp.size
        (swapFields host data
          [PortDsNp.neighborPropDelayThresh, PortDsNp.asCapable]) extra
  | some .subscribeEventsNp =>
      dataSetPostRecv dataLen SubscribeEventsNp.size
        (swapFields host data [SubscribeEventsNp.duration]) extra
  | some .portPropertiesNp =>
      if dataLen < PortPropertiesNp.size then fail .ebadmsg
      else do
        swapFields host data [PortPropertiesNp.portNumber]
        let length ← readByte (data + PortPropertiesNp.intfTxtLength)
        pure (extra, PortPropertiesNp.size + length)
  | some .saveInNonVolatileStorage | some .resetNonVolatileStorage
  | some .initializeTlv | some .faultLogReset | some .enablePort
  | some .disablePort =>
      dataSetPostRecv dataLen 0 (pure ()) extra
  | none => pure (extra, 0)

def mgtPostRecv (m length dataLen : ℕ) (extra : TlvExtra) :
    WireM TlvExtra := do
  let id ← readField host m ManagementTlv.id
  let (extra, extraLen) ←
    mgtDataPostRecv host id (m + ManagementTlv.data) dataLen extra
  if extraLen ≠ 0 ∧
      extraLen + extraLen % 2 + ManagementTlv.id.width ≠ length then
    fail .ebadmsg
  else pure extra

/-- `flip16` through a pointer that may be null. -/
def flip16At (ptr : Option ℕ) (offset : ℕ) : WireM Unit :=
  match ptr with
  | none => fail .nullPointer
  | some ptr => do
      let _ ← flip16 host (ptr + offset)
      pure ()

def mgtPreSend (m : ℕ) (extra : TlvExtra) : WireM Unit := do
  let id ← readField host m ManagementTlv.id
  let data := m + ManagementTlv.data
  match ManagementId.ofCode id with
  | some .clockDescription => do
      flip16At host extra.cd.clockType 0
      flip16At host extra.cd.physicalAddress PhysicalAddress.length.offset
      flip16At host extra.cd.protocolAddress PortAddress.networkProtocol.offset
      flip16At host extra.cd.protocolAddress PortAddress.addressLength.offset
  | some .defaultDataSet =>
      swapFields host data
        [DefaultDS.numberPorts, DefaultDS.offsetScaledLogVariance]
  | some .currentDataSet =>
      swapFields host data
        [CurrentDS.stepsRemoved, CurrentDS.offsetFromMaster,
          CurrentDS.meanPathDelay]
  | some .parentDataSet =>
      swapFields host data
        [ParentDS.portNumber, ParentDS.observedParentOffsetScaledLogVariance,
          ParentDS.observedParentClockPhaseChangeRate,
          ParentDS.offsetScaledLogVariance]
  | some .timePropertiesDataSet =>
      swapFields host data [TimePropertiesDS.currentUtcOffset]
  | some .portDataSet =>
      swapFields host data [PortDS.portNumber, PortDS.peerMeanPathDelay]
  | some .timeStatusNp => do
      swapFields host data
        [TimeStatusNp.masterOffset, TimeStatusNp.ingressTime,
          TimeStatusNp.cumulativeScaledRateOffset,
          TimeStatusNp.scaledLastGmPhaseChange,
          TimeStatusNp.gmTimeBaseIndicator]
      scaledNsH2n host (data + TimeStatusNp.lastGmPhaseChange)
      swapFields host data [TimeStatusNp.gmPresent]
  | some .grandmasterSettingsNp =>
      swapFields host data
        [GrandmasterSettingsNp.offsetScaledLogVariance,
          GrandmasterSettingsNp.utcOffset]
  | some .portDataSetNp =>
      swapFields host data
        [PortDsNp.neighborPropDelayThresh, PortDsNp.asCapable]
  | some .subscribeEventsNp =>
      swapFields host data [SubscribeEventsNp.duration]
  | some .portPropertiesNp =>
      swapFields host data [PortPropertiesNp.portNumber]
  | _ => pure ()

/-! ## Monitoring responses -/

/-- The members of the foot of a monitoring response that are converted. -/
def nsmRespFootFields : List (ℕ × List Field) :=
  [(NsmResp.footParent,
      [ParentDS.portNumber, ParentDS.observedParentOffsetScaledLogVariance,
        ParentDS.observedParentClockPhaseChangeRate,
        ParentDS.offsetScaledLogVariance]),
    (NsmResp.footCurrent,
      [CurrentDS.stepsRemoved, CurrentDS.offsetFromMaster,
        CurrentDS.meanPathDelay]),
    (NsmResp.footTimeprop, [TimePropertiesDS.currentUtcOffset]),
    (NsmResp.footLastsync,
      [WireTimestamp.secondsLsb, WireTimestamp.secondsMsb,
        WireTimestamp.nanoseconds])]

def swapNsmRespFoot (foot : ℕ) : List (ℕ × List Field) → WireM Unit
  | [] => pure ()
  | (member, fields) :: rest => do
      swapFields host (foot + member) fields
      swapNsmRespFoot foot rest

/-- The address length a network protocol calls for. -/
def expectedAddressLength : ℕ → Option ℕ
  | 1 => some 4
  | 2 => some 16
  | 3 => some 6
  | _ => none

def nsmRespPostRecv (tlv length : ℕ) (extra : TlvExtra) : WireM TlvExtra :=
  if length < NsmResp.headSize + NsmResp.footSize - sizeofTlv then
    fail .ebadmsg
  else do
    let paddr := tlv + NsmResp.parentAddr
    swapFields host paddr
      [PortAddress.networkProtocol, PortAddress.addressLength]
    let networkProtocol ← readField host paddr PortAddress.networkProtocol
    match expectedAddressLength networkProtocol with
    | none => fail .ebadmsg
    | some expected => do
        let addressLength ← readField host paddr PortAddress.addressLength
        if addressLength ≠ expected then fail .ebadmsg
        else if length ≠ NsmResp.headSize + NsmResp.footSize + addressLength -
            sizeofTlv then
          fail .ebadmsg
        else do
          swapNsmRespFoot host (tlv + NsmResp.headSize + addressLength)
            nsmRespFootFields
          pure { extra with foot := some (tlv + NsmResp.headSize + addressLength) }

def nsmRespPreSend (extra : TlvExtra) : WireM Unit := do
  swapFields host (extra.tlv + NsmResp.parentAddr)
    [PortAddress.networkProtocol, PortAddress.addressLength]
  match extra.foot with
  | none => fail .nullPointer
  | some foot => swapNsmRespFoot host foot nsmRespFootFields

/-! ## Organization extensions -/

/-- Whether the TLV is one of IEEE 802.1 whose subtype has two leading zeros,
and if so the third byte of the subtype. -/
def orgSubtype (org : ℕ) : WireM (Option ℕ) := do
  let id0 ← readByte (org + OrganizationTlv.id)
  let id1 ← readByte (org + OrganizationTlv.id + 1)
  let id2 ← readByte (org + OrganizationTlv.id + 2)
  if [id0, id1, id2] = ieee8021Id then do
    let subtype0 ← readByte (org + OrganizationTlv.subtype)
    let subtype1 ← readByte (org + OrganizationTlv.subtype + 1)
    if subtype0 ≠ 0 ∨ subtype1 ≠ 0 then pure none
    else do
      let subtype2 ← readByte (org + OrganizationTlv.subtype + 2)
      pure (some subtype2)
  else pure none

def orgPostRecv (org length : ℕ) : WireM Unit := do
  let subtype ← orgSubtype org
  if subtype = some 1 then
    if length + sizeofTlv ≠ FollowUpInfoTlv.size then fail .ebadmsg
    else do
      swapFields host org
        [FollowUpInfoTlv.cumulativeScaledRateOffset,
          FollowUpInfoTlv.gmTimeBaseIndicator]
      scaledNsN2h host (org + FollowUpInfoTlv.lastGmPhaseChange)
      swapFields host org [FollowUpInfoTlv.scaledLastGmPhaseChange]
  else pure ()

def orgPreSend (org : ℕ) : WireM Unit := do
  let subtype ← orgSubtype org
  if subtype = some 1 then do
    swapFields host org
      [FollowUpInfoTlv.cumulativeScaledRateOffset,
        FollowUpInfoTlv.gmTimeBaseIndicator]
    scaledNsH2n host (org + FollowUpInfoTlv.lastGmPhaseChange)
    swapFields host org [FollowUpInfoTlv.scaledLastGmPhaseChange]
  else pure ()

/-! ## Unicast negotiation -/

def unicastMessageTypeValid (messageType : ℕ) : Bool :=
  match MsgType.ofCode (messageType / 16) with
  | some .announce | some .sync | some .delayResp | some .pdelayResp => true
  | _ => false

/-- The checks that the four negotiation TLVs share: room for the structure,
and a message type that may be negotiated. -/
def unicastTlvPostRecv (tlv length size : ℕ) (convert : WireM Unit) :
    WireM Unit :=
  if length < size - sizeofTlv then fail .ebadmsg
  else do
    let messageType ← readByte (tlv + UnicastXmitTlv.messageType)
    if unicastMessageTypeValid messageType = false then fail .ebadmsg
    else convert

def unicastNegotiationPostRecv (type : TlvType) (tlv length : ℕ) :
    WireM Unit :=
  match type with
  | .requestUnicastTransmission =>
      unicastTlvPostRecv tlv length UnicastXmitTlv.requestSize
        (swapFields host tlv [UnicastXmitTlv.durationField])
  | .grantUnicastTransmission =>
      unicastTlvPostRecv tlv length UnicastXmitTlv.grantSize
        (swapFields host tlv [UnicastXmitTlv.durationField])
  | .cancelUnicastTransmission | .acknowledgeCancelUnicastTransmission =>
      unicastTlvPostRecv tlv length UnicastXmitTlv.cancelSize (pure ())
  | _ => pure ()

def unicastNegotiationPreSend (type : TlvType) (tlv : ℕ) : WireM Unit :=
  match type with
  | .requestUnicastTransmission =>
      swapFields host tlv [UnicastXmitTlv.durationField]
  | .grantUnicastTransmission =>
      swapFields host tlv [UnicastXmitTlv.durationField]
  | _ => pure ()

/-! ## Any TLV -/

def tlvPostRecv (type length : ℕ) (extra : TlvExtra) : WireM TlvExtra :=
  let tlv := extra.tlv
  match TlvType.ofCode type with
  | some .management =>
      if length < ManagementTlv.size - sizeofTlv then fail .ebadmsg
      else do
        swapFields host tlv [ManagementTlv.id]
        if length > ManagementTlv.id.width then
          mgtPostRecv host tlv length (length - ManagementTlv.id.width) extra
        else pure extra
  | some .managementErrorStatus =>
      if length < ManagementErrorStatus.size - sizeofTlv then fail .ebadmsg
      else do
        swapFields host tlv
          [ManagementErrorStatus.error, ManagementErrorStatus.id]
        pure extra
  | some .organizationExtension =>
      if length < OrganizationTlv.size - sizeofTlv then fail .ebadmsg
      else do
        orgPostRecv host tlv length
        pure extra
  | some .requestUnicastTransmission =>
      do unicastNegotiationPostRecv host .requestUnicastTransmission tlv length
         pure extra
  | some .grantUnicastTransmission =>
      do unicastNegotiationPostRecv host .grantUnicastTransmission tlv length
         pure extra
  | some .cancelUnicastTransmission =>
      do unicastNegotiationPostRecv host .cancelUnicastTransmission tlv length
         pure extra
  | some .acknowledgeCancelUnicastTransmission =>
      do unicastNegotiationPostRecv host .acknowledgeCancelUnicastTransmission
          tlv length
         pure extra
  | some .pathTrace =>
      if length / sizeofClockIdentity > pathTraceMax then do
        writeWord host.endian (tlv + Tlv.length.offset) 2
          (pathTraceMax * sizeofClockIdentity)
        pure extra
      else pure extra
  | some .ptpmonResp => nsmRespPostRecv host tlv length extra
  | _ => pure extra

def tlvPreSend (type length : ℕ) (extra : TlvExtra) : WireM Unit :=
  let tlv := extra.tlv
  match TlvType.ofCode type with
  | some .management => do
      if length > ManagementTlv.id.width then mgtPreSend host tlv extra
      else pure ()
      swapFields host tlv [ManagementTlv.id]
  | some .managementErrorStatus =>
      swapFields host tlv
        [ManagementErrorStatus.error, ManagementErrorStatus.id]
  | some .organizationExtension => orgPreSend host tlv
  | some .requestUnicastTransmission =>
      unicastNegotiationPreSend host .requestUnicastTransmission tlv
  | some .grantUnicastTransmission =>
      unicastNegotiationPreSend host .grantUnicastTransmission tlv
  | some .cancelUnicastTransmission =>
      unicastNegotiationPreSend host .cancelUnicastTransmission tlv
  | some .acknowledgeCancelUnicastTransmission =>
      unicastNegotiationPreSend host .acknowledgeCancelUnicastTransmission tlv
  | some .ptpmonResp => nsmRespPreSend host extra
  | _ => pure ()

/-! ## Descriptors -/

def tlvExtraAlloc : WireM Unit := do
  let state ← getRest
  if 0 < state.pool.free then
    modifyRest fun state =>
      { state with pool := { state.pool with free := state.pool.free - 1 } }
  else do
    modifyRest fun state =>
      { state with
        pool := { state.pool with callocs := state.pool.callocs + 1 } }
    if host.calloc state.pool.callocs then pure () else fail .enomem

end

def ParseState.recycle (state : ParseState) : ParseState :=
  { state with pool := { state.pool with free := state.pool.free + 1 } }

end LinuxPtp.Wire
