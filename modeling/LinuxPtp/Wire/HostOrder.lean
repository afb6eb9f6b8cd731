import LinuxPtp.Wire.RoundTrip

/-!
# TLVs in host order

What the format asks of a TLV that has not been converted for sending, said
without the parser.  A TLV of this form is converted and, on reception, converted
back; again the low word of scaled nanoseconds is the exception.
-/

namespace LinuxPtp.Wire

open ByteOrder Access

/-! ## The format -/

def textEnd (mem : Memory) (text : ℕ) : ℕ :=
  text + sizeofPtpText + (mem text).toNat

/-- The members of the clock description at `data`, and its end. -/
def clockDescriptionAt (endian : Endian) (data : ℕ) (mem : Memory) :
    MgmtClockDescription × ℕ :=
  let physicalAddress := textEnd mem (data + 2)
  let protocolAddress := physicalAddress + sizeofPhysicalAddress +
    hostWord endian mem physicalAddress 2
  let manufacturerIdentity := protocolAddress + sizeofPortAddress +
    hostWord endian mem (protocolAddress + 2) 2
  let productDescription := manufacturerIdentity + (ouiLen + 1)
  let revisionData := textEnd mem productDescription
  let userDescription := textEnd mem revisionData
  let profileIdentity := textEnd mem userDescription
  ({ clockType := some data
     physicalLayerProtocol := some (data + 2)
     physicalAddress := some physicalAddress
     protocolAddress := some protocolAddress
     manufacturerIdentity := some manufacturerIdentity
     productDescription := some productDescription
     revisionData := some revisionData
     userDescription := some userDescription
     profileIdentity := some profileIdentity }, profileIdentity + profileIdLen)

def AddressesFit (endian : Endian) (data : ℕ) (mem : Memory) : Prop :=
  let physicalAddress := textEnd mem (data + 2)
  let protocolAddress := physicalAddress + sizeofPhysicalAddress +
    hostWord endian mem physicalAddress 2
  hostWord endian mem physicalAddress 2 ≤ transportAddrLen ∧
    hostWord endian mem (protocolAddress + 2) 2 ≤ transportAddrLen

instance (endian : Endian) (data : ℕ) (mem : Memory) :
    Decidable (AddressesFit endian data mem) :=
  inferInstanceAs (Decidable (_ ∧ _))

def roundUp (length : ℕ) : ℕ := length + length % 2

/-- The data of a management TLV have the length that their identifier calls
for; those of unknown identifiers may have any. -/
def MgtFormatted (endian : Endian) (id data dataLen : ℕ) (mem : Memory) : Prop :=
  match ManagementId.ofCode id with
  | some .clockDescription =>
      AddressesFit endian data mem ∧
        roundUp ((clockDescriptionAt endian data mem).2 - data) = dataLen
  | some .userDescription => roundUp (textEnd mem data - data) = dataLen
  | some .defaultDataSet => dataLen = DefaultDS.size
  | some .currentDataSet => dataLen = CurrentDS.size
  | some .parentDataSet => dataLen = ParentDS.size
  | some .timePropertiesDataSet => dataLen = TimePropertiesDS.size
  | some .portDataSet => dataLen = PortDS.size
  | some .timeStatusNp => dataLen = TimeStatusNp.size
  | some .grandmasterSettingsNp => dataLen = GrandmasterSettingsNp.size
  | some .portDataSetNp => dataLen = PortDsNp.size
  | some .subscribeEventsNp => dataLen = SubscribeEventsNp.size
  | some .portPropertiesNp =>
      roundUp (textEnd mem (data + PortPropertiesNp.intfTxtLength) - data) =
        dataLen
  | some .saveInNonVolatileStorage | some .resetNonVolatileStorage
  | some .initializeTlv | some .faultLogReset | some .enablePort
  | some .disablePort => dataLen = 0
  | none => True

instance (endian : Endian) (id data dataLen : ℕ) (mem : Memory) :
    Decidable (MgtFormatted endian id data dataLen mem) := by
  unfold MgtFormatted
  split <;> infer_instance

/-- A TLV of the negotiation of unicast transmission. -/
def UnicastFormatted (tlv length size : ℕ) (mem : Memory) : Prop :=
  size - sizeofTlv ≤ length ∧
    unicastMessageTypeValid (mem (tlv + UnicastXmitTlv.messageType)).toNat = true

instance (tlv length size : ℕ) (mem : Memory) :
    Decidable (UnicastFormatted tlv length size mem) :=
  inferInstanceAs (Decidable (_ ∧ _))

/-- The body of a TLV, with all words in host order, is what the format asks of
its type. -/
def Formatted (endian : Endian) (type length tlv : ℕ) (mem : Memory) : Prop :=
  match TlvType.ofCode type with
  | some .management =>
      ManagementTlv.size - sizeofTlv ≤ length ∧
        (ManagementTlv.id.width < length →
          MgtFormatted endian (hostWord endian mem (tlv + 4) 2)
            (tlv + ManagementTlv.data) (length - ManagementTlv.id.width) mem)
  | some .managementErrorStatus => ManagementErrorStatus.size - sizeofTlv ≤ length
  | some .organizationExtension =>
      OrganizationTlv.size - sizeofTlv ≤ length ∧
        (orgSubtypeOf mem tlv = some 1 →
          length + sizeofTlv = FollowUpInfoTlv.size)
  | some .requestUnicastTransmission =>
      UnicastFormatted tlv length UnicastXmitTlv.requestSize mem
  | some .grantUnicastTransmission =>
      UnicastFormatted tlv length UnicastXmitTlv.grantSize mem
  | some .cancelUnicastTransmission =>
      UnicastFormatted tlv length UnicastXmitTlv.cancelSize mem
  | some .acknowledgeCancelUnicastTransmission =>
      UnicastFormatted tlv length UnicastXmitTlv.cancelSize mem
  | some .pathTrace => length / sizeofClockIdentity ≤ pathTraceMax
  | some .ptpmonResp =>
      expectedAddressLength (hostWord endian mem (tlv + 6) 2) =
          some (hostWord endian mem (tlv + 8) 2) ∧
        length = NsmResp.headSize + NsmResp.footSize +
          hostWord endian mem (tlv + 8) 2 - sizeofTlv
  | _ => True

instance (endian : Endian) (type length tlv : ℕ) (mem : Memory) :
    Decidable (Formatted endian type length tlv mem) := by
  unfold Formatted
  split <;> infer_instance

/-- Pointers into management data in host order. -/
def mgtLocated (endian : Endian) (id data : ℕ) (mem : Memory) (extra : TlvExtra) :
    TlvExtra :=
  match ManagementId.ofCode id with
  | some .clockDescription =>
      { extra with cd := (clockDescriptionAt endian data mem).1 }
  | some .userDescription =>
      { extra with cd := { extra.cd with userDescription := some data } }
  | _ => extra

/-- The descriptor of a TLV in host order. -/
def located (endian : Endian) (type length tlv : ℕ) (mem : Memory) : TlvExtra :=
  match TlvType.ofCode type with
  | some .management =>
      if ManagementTlv.id.width < length then
        mgtLocated endian (hostWord endian mem (tlv + 4) 2)
          (tlv + ManagementTlv.data) mem { tlv := tlv }
      else { tlv := tlv }
  | some .ptpmonResp =>
      { tlv := tlv
        foot := some (tlv + NsmResp.headSize + hostWord endian mem (tlv + 8) 2) }
  | _ => { tlv := tlv }

/-- The pointers that sending follows are the right ones. -/
structure PointsInto (extra expected : TlvExtra) : Prop where
  tlv : extra.tlv = expected.tlv
  clockType : expected.cd.clockType ≠ none →
    extra.cd.clockType = expected.cd.clockType
  physicalAddress : expected.cd.physicalAddress ≠ none →
    extra.cd.physicalAddress = expected.cd.physicalAddress
  protocolAddress : expected.cd.protocolAddress ≠ none →
    extra.cd.protocolAddress = expected.cd.protocolAddress
  foot : expected.foot ≠ none → extra.foot = expected.foot

theorem PointsInto.refl (extra : TlvExtra) : PointsInto extra extra :=
  ⟨rfl, fun _ => rfl, fun _ => rfl, fun _ => rfl, fun _ => rfl⟩

variable (host : Host)

/-! ## Parsing a clock description -/

/-- The cursor moves on where there is room. -/
theorem skip_runs {cursor : Cursor} {count : ℕ} (hroom : count ≤ cursor.len)
    (mem : Memory) :
    Runs (cursor.skip count) mem
      ⟨cursor.buf + count, cursor.len - count⟩ mem := by
  rw [Cursor.skip, if_neg (Nat.not_lt.mpr hroom)]
  exact .pure _ mem

/-- It moves behind a text, -/
theorem skipText_runs {cursor : Cursor} {mem : Memory}
    (hroom : sizeofPtpText + (mem cursor.buf).toNat ≤ cursor.len) :
    Runs cursor.skipText mem
      ⟨textEnd mem cursor.buf,
        cursor.len - sizeofPtpText - (mem cursor.buf).toNat⟩ mem := by
  refine (skip_runs (by omega) mem).bind ?_
  refine (readByte_runs cursor.buf mem).bind ?_
  have hrest : (mem cursor.buf).toNat ≤
      (Cursor.mk (cursor.buf + sizeofPtpText) (cursor.len - sizeofPtpText)).len := by
    simp only
    omega
  exact skip_runs hrest mem

/-- and behind an address. -/
theorem skipAddress_runs {cursor : Cursor} {length : ℕ}
    (hshort : length ≤ transportAddrLen) (hroom : length ≤ cursor.len)
    (mem : Memory) :
    Runs (cursor.skipAddress length) mem
      ⟨cursor.buf + length, cursor.len - length⟩ mem := by
  rw [Cursor.skipAddress, if_neg (Nat.not_lt.mpr hshort)]
  exact skip_runs hroom mem

/-- A word that is converted before others that it does not overlap. -/
theorem netSwap_swapAll_cons {endian : Endian} {offset : ℕ} {fields : List Field}
    (hdisjoint : ∀ other ∈ fields, Field.Disjoint ⟨offset, 2⟩ other)
    (mem : Memory) :
    netSwap endian offset 2 (swapAll endian 0 (⟨offset, 2⟩ :: fields) mem) =
      swapAll endian 0 fields mem := by
  have hcomm := @swapAll_netSwap endian 0 ⟨offset, 2⟩ fields hdisjoint mem
  simp only [Nat.zero_add] at hcomm
  rw [swapAll_cons, Nat.zero_add, hcomm, netSwap_netSwap]

theorem textEnd_eq (mem : Memory) (text : ℕ) :
    textEnd mem text = text + 1 + (mem text).toNat := rfl

/-- The parser finds the members of a converted clock description and converts
them back. -/
theorem clockDescriptionPostRecv_runs {data dataLen physicalAddress
    protocolAddress : ℕ} {mem : Memory}
    (hphysical : physicalAddress = textEnd mem (data + 2))
    (hprotocol : protocolAddress = physicalAddress + sizeofPhysicalAddress +
      hostWord host.endian mem physicalAddress 2)
    (hfit : AddressesFit host.endian data mem)
    (hroom : (clockDescriptionAt host.endian data mem).2 ≤ data + dataLen) :
    Runs (clockDescriptionPostRecv host data dataLen)
      (swapAll host.endian 0
        (clockDescriptionFields data physicalAddress protocolAddress) mem)
      ((clockDescriptionAt host.endian data mem).1,
        (clockDescriptionAt host.endian data mem).2 - data) mem := by
  obtain ⟨hfit₁, hfit₂⟩ := hfit
  simp only [clockDescriptionAt, ← hphysical, ← hprotocol] at hfit₁ hfit₂ hroom ⊢
  generalize hproduct : protocolAddress + sizeofPortAddress +
    hostWord host.endian mem (protocolAddress + 2) 2 + (ouiLen + 1) =
      productDescription at hroom ⊢
  generalize hrevision : textEnd mem productDescription = revisionData at hroom ⊢
  generalize huser : textEnd mem revisionData = userDescription at hroom ⊢
  generalize hprofile : textEnd mem userDescription = profileIdentity at hroom ⊢
  have hlayer : physicalAddress = data + 2 + 1 + (mem (data + 2)).toNat := hphysical
  have htext₁ := hrevision.symm.trans (textEnd_eq mem productDescription)
  have htext₂ := huser.symm.trans (textEnd_eq mem revisionData)
  have htext₃ := hprofile.symm.trans (textEnd_eq mem userDescription)
  simp only [sizeofPhysicalAddress, sizeofPortAddress, profileIdLen, ouiLen]
    at hroom hprotocol hproduct
  have houtside : ∀ i < physicalAddress, swapAll host.endian 0
      [⟨physicalAddress, 2⟩, ⟨protocolAddress, 2⟩, ⟨protocolAddress + 2, 2⟩] mem i =
        mem i := fun i hi => swapAll_outside physicalAddress (protocolAddress + 4) (by
      simp only [FieldsWithin, List.forall_mem_cons, List.not_mem_nil,
        false_implies, implies_true, and_true]
      omega) (by omega) mem
  have hword₁ : hostWord host.endian (swapAll host.endian 0
      [⟨protocolAddress, 2⟩, ⟨protocolAddress + 2, 2⟩] mem) physicalAddress 2 =
        hostWord host.endian mem physicalAddress 2 :=
    hostWord_congr _ fun i _ _ => swapAll_outside protocolAddress
      (protocolAddress + 4) (by
        simp only [FieldsWithin, List.forall_mem_cons, List.not_mem_nil,
          false_implies, implies_true, and_true]
        omega) (by omega) mem
  refine (skip_runs ?_ _).bind ((flip16_runs host data _).bind ?_)
  · simp only
    omega
  rw [clockDescriptionFields, netSwap_swapAll_cons (by
    simp only [Field.Disjoint, List.forall_mem_cons, List.not_mem_nil,
      false_implies, implies_true, and_true]
    omega)]
  have hbyte := houtside (data + 2) (by omega)
  refine (skipText_runs ?_).bind ?_
  · simp only [hbyte, sizeofPtpText]
    omega
  have hbuf : textEnd (swapAll host.endian 0 [⟨physicalAddress, 2⟩,
      ⟨protocolAddress, 2⟩, ⟨protocolAddress + 2, 2⟩] mem) (data + 2) =
      physicalAddress := by
    rw [textEnd_eq, hbyte]
    exact hlayer.symm
  simp only [hbuf, hbyte, sizeofPtpText]
  refine (skip_runs ?_ _).bind ((flip16_runs host _ _).bind ?_)
  · simp only [sizeofPhysicalAddress]
    omega
  simp only [PhysicalAddress.length, Nat.add_zero]
  rw [netSwap_swapAll_cons (by
    simp only [Field.Disjoint, List.forall_mem_cons, List.not_mem_nil,
      false_implies, implies_true, and_true]
    omega), hword₁]
  simp only [sizeofPhysicalAddress]
  refine (skipAddress_runs hfit₁ ?_ _).bind ?_
  · simp only
    omega
  simp only [← hprotocol]
  refine (skip_runs ?_ _).bind ((flip16_runs host _ _).bind ?_)
  · simp only [sizeofPortAddress]
    omega
  simp only [PortAddress.networkProtocol, PortAddress.addressLength, Nat.add_zero]
  rw [netSwap_swapAll_cons (by
    simp only [Field.Disjoint, List.forall_mem_cons, List.not_mem_nil,
      false_implies, implies_true, and_true]
    omega)]
  refine (flip16_runs host _ _).bind ?_
  rw [netSwap_swapAll_cons (by simp), swapAll_nil]
  simp only [sizeofPortAddress]
  refine (skipAddress_runs hfit₂ ?_ _).bind ((skip_runs ?_ _).bind ?_)
  · simp only
    omega
  · simp only [ouiLen]
    omega
  simp only [ouiLen, hproduct]
  refine (skipText_runs ?_).bind ?_
  · simp only [sizeofPtpText]
    omega
  simp only [hrevision, sizeofPtpText]
  refine (skipText_runs ?_).bind ?_
  · simp only [sizeofPtpText]
    omega
  simp only [huser, sizeofPtpText]
  refine (skipText_runs ?_).bind ?_
  · simp only [sizeofPtpText]
    omega
  simp only [hprofile, sizeofPtpText]
  refine (skip_runs ?_ _).bind (.pure _ mem)
  simp only [profileIdLen]
  omega

/-! ## Management data -/

/-- What sending makes of management data and how reception undoes it. -/
structure MgtConverts (m id dataLen : ℕ) (extra : TlvExtra) (mem wire : Memory) :
    Prop where
  sent : Runs (mgtPreSend host m extra) mem () wire
  frame : ∀ i, i < m + ManagementTlv.data ∨ m + ManagementTlv.data + dataLen ≤ i →
    wire i = mem i
  received : ∃ extraLen, (extraLen ≠ 0 → roundUp extraLen = dataLen) ∧
    Runs (mgtDataPostRecv host id (m + ManagementTlv.data) dataLen { tlv := m }) wire
      (mgtLocated host.endian id (m + ManagementTlv.data) mem { tlv := m }, extraLen)
      (mgtEcho host.endian id (m + ManagementTlv.data) mem)

variable {host}

/-- A data set whose members are converted in one go. -/
theorem dataSetPostRecv_runs {data size : ℕ} {fields : List Field}
    (hdisjoint : fields.Pairwise Field.Disjoint) (extra : TlvExtra) (mem : Memory) :
    Runs (dataSetPostRecv size size (swapFields host data fields) extra)
      (swapAll host.endian data fields mem) (extra, 0) mem := by
  rw [dataSetPostRecv, if_neg (not_not.mpr rfl)]
  have hconvert := swapFields_runs host data fields
    (swapAll host.endian data fields mem)
  rw [swapAll_swapAll hdisjoint] at hconvert
  exact hconvert.bind (.pure _ mem)

/-- Members of a data set lie in the data of the TLV. -/
theorem swapAll_data {m size : ℕ} {fields : List Field}
    (hfields : FieldsWithin 0 size fields) (mem : Memory) {i : ℕ}
    (hi : i < m + ManagementTlv.data ∨ m + ManagementTlv.data + size ≤ i) :
    swapAll host.endian (m + ManagementTlv.data) fields mem i = mem i :=
  swapAll_outside 0 size hfields (by omega) mem

theorem le_roundUp (length : ℕ) : length ≤ roundUp length :=
  Nat.le_add_right _ _

/-- A clock description is converted where its texts and addresses fit. -/
theorem mgtConverts_clockDescription {m id dataLen : ℕ} {extra : TlvExtra}
    {mem : Memory} (hid : hostWord host.endian mem (m + 4) 2 = id)
    (hcode : ManagementId.ofCode id = some .clockDescription)
    (hformat : MgtFormatted host.endian id (m + ManagementTlv.data) dataLen mem)
    (hpoints : PointsInto extra
      (mgtLocated host.endian id (m + ManagementTlv.data) mem { tlv := m })) :
    ∃ wire, MgtConverts host m id dataLen extra mem wire := by
  simp only [MgtFormatted, hcode] at hformat
  obtain ⟨hfit, rfl⟩ := hformat
  simp only [mgtLocated, hcode] at hpoints
  generalize hdata : m + ManagementTlv.data = data at *
  obtain ⟨physicalAddress, hphysical⟩ :
    ∃ physicalAddress, physicalAddress = textEnd mem (data + 2) := ⟨_, rfl⟩
  obtain ⟨protocolAddress, hprotocol⟩ :
    ∃ protocolAddress, protocolAddress = physicalAddress + sizeofPhysicalAddress +
      hostWord host.endian mem physicalAddress 2 := ⟨_, rfl⟩
  have hclock : extra.cd.clockType = some data :=
    hpoints.clockType (Option.some_ne_none _)
  have hphysicalAt : extra.cd.physicalAddress = some physicalAddress := by
    rw [hphysical]
    exact hpoints.physicalAddress (Option.some_ne_none _)
  have hprotocolAt : extra.cd.protocolAddress = some protocolAddress := by
    rw [hprotocol, hphysical]
    exact hpoints.protocolAddress (Option.some_ne_none _)
  have hround := le_roundUp ((clockDescriptionAt host.endian data mem).2 - data)
  have hend : protocolAddress + 4 ≤ (clockDescriptionAt host.endian data mem).2 := by
    simp only [clockDescriptionAt, ← hphysical, ← hprotocol, textEnd_eq,
      sizeofPortAddress]
    omega
  have hlayer := hphysical.trans (textEnd_eq mem (data + 2))
  simp only [sizeofPhysicalAddress] at hprotocol
  refine ⟨swapAll host.endian 0
    (clockDescriptionFields data physicalAddress protocolAddress) mem, ?_,
    fun i hi => ?_, (clockDescriptionAt host.endian data mem).2 - data,
    fun _ => rfl, ?_⟩
  · refine (Runs.readWord host.endian _ _ mem).bind ?_
    simp only [ManagementTlv.id, hid, hcode, hclock, hphysicalAt, hprotocolAt]
    refine (flip16At_runs host data 0 mem).bind ?_
    refine (flip16At_runs host physicalAddress _ _).bind ?_
    refine (flip16At_runs host protocolAddress _ _).bind ?_
    simpa [clockDescriptionFields, PhysicalAddress.length,
      PortAddress.networkProtocol, PortAddress.addressLength]
      using flip16At_runs host protocolAddress 2 _
  · refine swapAll_outside data (protocolAddress + 4) ?_ (by omega) mem
    simp only [FieldsWithin, clockDescriptionFields, List.forall_mem_cons,
      List.not_mem_nil, false_implies, implies_true, and_true]
    omega
  · rw [hdata]
    simp only [mgtDataPostRecv, mgtLocated, mgtEcho, hcode]
    exact (clockDescriptionPostRecv_runs host hphysical hprotocol hfit
      (by omega)).bind (.pure _ mem)

/-- Data of a fixed layout is converted field by field. -/
theorem mgtConverts_fields {m id size : ℕ} {extra : TlvExtra} {mem : Memory}
    {fields : List Field} {name : ManagementId}
    (hcode : ManagementId.ofCode id = some name)
    (hfields : FieldsWithin 0 size fields)
    (hdisjoint : fields.Pairwise Field.Disjoint)
    (hsent : Runs (mgtPreSend host m extra) mem ()
      (swapAll host.endian (m + ManagementTlv.data) fields mem))
    (hlocated : mgtLocated host.endian id (m + ManagementTlv.data) mem
      { tlv := m } = { tlv := m })
    (hecho : name ≠ .timeStatusNp)
    (hreceived : mgtDataPostRecv host id (m + ManagementTlv.data) size
      { tlv := m } = dataSetPostRecv size size
        (swapFields host (m + ManagementTlv.data) fields) { tlv := m }) :
    ∃ wire, MgtConverts host m id size extra mem wire := by
  refine ⟨_, hsent, fun i hi => swapAll_data hfields mem hi, 0,
    fun hnot => absurd rfl hnot, ?_⟩
  rw [hreceived, hlocated, mgtEcho, if_neg (by rw [hcode]; simpa using hecho)]
  exact dataSetPostRecv_runs hdisjoint _ mem

/-- Members around scaled nanoseconds, all of them converted. -/
def phaseChangeSwap (endian : Endian) (base sns : ℕ) (before after : List Field)
    (mem : Memory) : Memory :=
  swapAll endian base after ((scaledNsConversion endian (base + sns)).apply
    (swapAll endian base before mem))

theorem phaseChangeSwap_outside {endian : Endian} {base sns i : ℕ}
    {before after : List Field} (start stop : ℕ)
    (hbefore : FieldsWithin start sns before)
    (hafter : FieldsWithin (sns + 12) stop after) (hstart : start ≤ sns)
    (hstop : sns + 12 ≤ stop) (hi : i < base + start ∨ base + stop ≤ i)
    (mem : Memory) : phaseChangeSwap endian base sns before after mem i = mem i := by
  rw [phaseChangeSwap, swapAll_outside (sns + 12) stop hafter (by omega),
    (scaledNsConversion endian (base + sns)).frame _ i (by
      show i < base + sns ∨ base + sns + 12 ≤ i
      omega), swapAll_outside start sns hbefore (by omega)]

/-- The conversion that turns the phase change into host order undoes itself. -/
theorem phaseChangeSwap_twice {endian : Endian} {base sns : ℕ}
    {before after : List Field} (start stop : ℕ)
    (hbefore : FieldsWithin start sns before)
    (hafter : FieldsWithin (sns + 12) stop after)
    (hdisjoint : before.Pairwise Field.Disjoint)
    (hdisjoint' : after.Pairwise Field.Disjoint) (mem : Memory) :
    phaseChangeSwap endian base sns before after
        (phaseChangeSwap endian base sns before after mem) =
      scaledNsEcho endian (base + sns) mem :=
  phaseChange_twice endian hbefore hafter hdisjoint hdisjoint' mem

variable (host) in
theorem phaseChangeSwap_runs (base sns : ℕ) (before after : List Field)
    (mem : Memory) :
    Runs (do
        swapFields host base before
        scaledNsN2h host (base + sns)
        swapFields host base after) mem ()
      (phaseChangeSwap host.endian base sns before after mem) :=
  (swapFields_runs host base before mem).bind
    ((scaledNsN2h_runs host (base + sns) _).bind (swapFields_runs host base after _))

/-- The members before the scaled nanoseconds of the time status. -/
def timeStatusBefore : List Field :=
  [TimeStatusNp.masterOffset, TimeStatusNp.ingressTime,
    TimeStatusNp.cumulativeScaledRateOffset, TimeStatusNp.scaledLastGmPhaseChange,
    TimeStatusNp.gmTimeBaseIndicator]

/-- The phase change is the only field that is not converted like the others. -/
theorem mgtConverts_timeStatusNp {m id : ℕ} {extra : TlvExtra} {mem : Memory}
    (hid : hostWord host.endian mem (m + 4) 2 = id)
    (hcode : ManagementId.ofCode id = some .timeStatusNp) :
    ∃ wire, MgtConverts host m id TimeStatusNp.size extra mem wire := by
  have htwice := @phaseChangeSwap_twice host.endian (m + ManagementTlv.data)
    TimeStatusNp.lastGmPhaseChange timeStatusBefore [TimeStatusNp.gmPresent] 0
    TimeStatusNp.size (by decide) (by decide) (by decide) (by decide) mem
  refine ⟨phaseChangeSwap host.endian (m + ManagementTlv.data)
    TimeStatusNp.lastGmPhaseChange timeStatusBefore
    [TimeStatusNp.gmPresent] mem, (Runs.readWord host.endian _ _ mem).bind ?_,
    fun i hi => ?_, 0, fun hnot => absurd rfl hnot, ?_⟩
  · simp only [ManagementTlv.id, hid, hcode]
    exact phaseChangeSwap_runs host _ _ _ _ mem
  · exact phaseChangeSwap_outside 0 TimeStatusNp.size (by decide) (by decide)
      (by decide) (by decide) hi mem
  · simp only [mgtDataPostRecv, mgtLocated, mgtEcho, hcode, if_true]
    rw [dataSetPostRecv, if_neg (not_not.mpr rfl)]
    rw [← htwice]
    exact (phaseChangeSwap_runs host _ _ _ _ _).bind (.pure _ _)

/-- All data of management TLVs is converted and converted back. -/
theorem mgtConverts {m id dataLen : ℕ} {extra : TlvExtra} {mem : Memory}
    (hid : hostWord host.endian mem (m + 4) 2 = id)
    (hformat : MgtFormatted host.endian id (m + ManagementTlv.data) dataLen mem)
    (hpoints : PointsInto extra
      (mgtLocated host.endian id (m + ManagementTlv.data) mem { tlv := m })) :
    ∃ wire, MgtConverts host m id dataLen extra mem wire := by
  cases hcode : ManagementId.ofCode id with
  | none =>
    refine ⟨mem, ?_, fun _ _ => rfl, 0, fun hnot => absurd rfl hnot, ?_⟩
    · refine (Runs.readWord host.endian _ _ mem).bind ?_
      simp only [ManagementTlv.id, hid, hcode]
      exact .pure () mem
    · simp only [mgtDataPostRecv, mgtLocated, mgtEcho, hcode]
      exact .pure _ mem
  | some name =>
    cases name with
    | clockDescription => exact mgtConverts_clockDescription hid hcode hformat hpoints
    | userDescription =>
      simp only [MgtFormatted, hcode] at hformat
      refine ⟨mem, ?_, fun _ _ => rfl,
        sizeofPtpText + (mem (m + ManagementTlv.data)).toNat, fun _ => ?_, ?_⟩
      · refine (Runs.readWord host.endian _ _ mem).bind ?_
        simp only [ManagementTlv.id, hid, hcode]
        exact .pure () mem
      · rw [← hformat, textEnd, Nat.add_assoc, Nat.add_sub_cancel_left]
      · have hround := le_roundUp
          (textEnd mem (m + ManagementTlv.data) - (m + ManagementTlv.data))
        rw [hformat, textEnd_eq] at hround
        simp only [mgtDataPostRecv, mgtLocated, mgtEcho, hcode]
        rw [if_neg (by simp only [sizeofPtpText]; omega)]
        exact (readByte_runs _ mem).bind (.pure _ mem)
    | portPropertiesNp =>
      simp only [MgtFormatted, hcode] at hformat
      have hround := le_roundUp (textEnd mem (m + ManagementTlv.data +
        PortPropertiesNp.intfTxtLength) - (m + ManagementTlv.data))
      have hkept : swapAll host.endian (m + ManagementTlv.data)
          [PortPropertiesNp.portNumber] (swapAll host.endian
            (m + ManagementTlv.data) [PortPropertiesNp.portNumber] mem) = mem :=
        swapAll_swapAll (by decide) mem
      have hsize : PortPropertiesNp.size = 13 := rfl
      have htext : PortPropertiesNp.intfTxtLength = 12 := rfl
      rw [hformat, textEnd_eq] at hround
      refine ⟨swapAll host.endian (m + ManagementTlv.data)
        [PortPropertiesNp.portNumber] mem, ?_, fun i hi => ?_,
        PortPropertiesNp.size +
          (mem (m + ManagementTlv.data + PortPropertiesNp.intfTxtLength)).toNat,
        fun _ => ?_, ?_⟩
      · refine (Runs.readWord host.endian _ _ mem).bind ?_
        simp only [ManagementTlv.id, hid, hcode]
        exact swapFields_runs host _ _ mem
      · exact swapAll_outside 0 PortPropertiesNp.size (by decide) (by omega) mem
      · rw [← hformat, textEnd_eq, hsize, htext]
        exact congrArg roundUp (by omega)
      · simp only [mgtDataPostRecv, mgtLocated, mgtEcho, hcode]
        rw [if_neg (by omega)]
        have hconvert := swapFields_runs host (m + ManagementTlv.data)
          [PortPropertiesNp.portNumber] (swapAll host.endian
            (m + ManagementTlv.data) [PortPropertiesNp.portNumber] mem)
        rw [hkept] at hconvert
        exact hconvert.bind ((readByte_runs _ mem).bind (.pure _ mem))
    | timeStatusNp =>
      simp only [MgtFormatted, hcode] at hformat
      subst hformat
      exact mgtConverts_timeStatusNp hid hcode
    | saveInNonVolatileStorage | resetNonVolatileStorage | initializeTlv
    | faultLogReset | enablePort | disablePort =>
      simp only [MgtFormatted, hcode] at hformat
      subst hformat
      refine ⟨mem, ?_, fun _ _ => rfl, 0, fun hnot => absurd rfl hnot, ?_⟩
      · refine (Runs.readWord host.endian _ _ mem).bind ?_
        simp only [ManagementTlv.id, hid, hcode]
        exact .pure () mem
      · simp only [mgtDataPostRecv, mgtLocated, mgtEcho, hcode]
        exact (Runs.pure () mem).bind (.pure _ mem)
    | _ =>
      simp only [MgtFormatted, hcode] at hformat
      subst hformat
      refine @mgtConverts_fields host m id _ extra mem ?_ _ hcode ?_ ?_
        ((Runs.readWord host.endian _ _ mem).bind ?_) ?_ (fun hnot => absurd hnot (by decide))
        ?_
      pick_goal 4
      · simp only [ManagementTlv.id, hid, hcode]
        exact swapFields_runs host _ _ mem
      · decide
      · decide
      · simp only [mgtLocated, hcode]
      · simp only [mgtDataPostRecv, hcode]

/-! ## Any TLV -/

/-- Where a TLV in host order holds scaled nanoseconds. -/
def hostPhaseChange (endian : Endian) (type length tlv : ℕ) (mem : Memory) :
    Option ℕ :=
  match TlvType.ofCode type with
  | some .management =>
      if length > ManagementTlv.id.width ∧
          ManagementId.ofCode (hostWord endian mem (tlv + 4) 2) =
            some .timeStatusNp then
        some (tlv + ManagementTlv.data + TimeStatusNp.lastGmPhaseChange)
      else none
  | some .organizationExtension =>
      if orgSubtypeOf mem tlv = some 1 then
        some (tlv + FollowUpInfoTlv.lastGmPhaseChange)
      else none
  | _ => none

/-- The body of a TLV in host order, as it is received after sending. -/
def hostEcho (endian : Endian) (type length tlv : ℕ) (mem : Memory) : Memory :=
  match hostPhaseChange endian type length tlv mem with
  | some sns => scaledNsEcho endian sns mem
  | none => mem

/-- What sending makes of a TLV and how reception undoes it. -/
structure TlvConverts (host : Host) (type length : ℕ) (extra : TlvExtra)
    (mem wire : Memory) : Prop where
  sent : Runs (tlvPreSend host type length extra) mem () wire
  frame : ∀ i, i < extra.tlv + 4 ∨ extra.tlv + 4 + length ≤ i → wire i = mem i
  received : Runs (tlvPostRecv host type length { tlv := extra.tlv }) wire
    (located host.endian type length extra.tlv mem)
    (hostEcho host.endian type length extra.tlv mem)

variable {type length : ℕ} {extra : TlvExtra} {mem : Memory}

private theorem hostEcho_management {endian : Endian} {tlv : ℕ} (length : ℕ)
    (htype : TlvType.ofCode type = some .management) :
    hostEcho endian type length tlv mem =
      if ManagementTlv.id.width < length then
        mgtEcho endian (hostWord endian mem (tlv + 4) 2)
          (tlv + ManagementTlv.data) mem
      else mem := by
  simp only [hostEcho, hostPhaseChange, htype, mgtEcho]
  split_ifs <;> simp_all

private theorem hostEcho_organizationExtension {endian : Endian} {tlv : ℕ}
    (length : ℕ) (htype : TlvType.ofCode type = some .organizationExtension) :
    hostEcho endian type length tlv mem = orgEcho endian tlv mem := by
  simp only [hostEcho, hostPhaseChange, htype, orgEcho]
  split_ifs <;> simp_all

/-- A management TLV is converted with its data. -/
theorem tlvConverts_management (htype : TlvType.ofCode type = some .management)
    (hformat : Formatted host.endian type length extra.tlv mem)
    (hpoints : PointsInto extra (located host.endian type length extra.tlv mem)) :
    ∃ wire, TlvConverts host type length extra mem wire := by
  simp only [Formatted, htype] at hformat
  obtain ⟨hlen, hdata⟩ := hformat
  have htwice : ∀ mem, swapAll host.endian extra.tlv [ManagementTlv.id]
      (swapAll host.endian extra.tlv [ManagementTlv.id] mem) = mem :=
    swapAll_swapAll (by decide)
  have hframe : ∀ mem i, i < extra.tlv + 4 ∨ extra.tlv + 6 ≤ i →
      swapAll host.endian extra.tlv [ManagementTlv.id] mem i = mem i :=
    fun mem i hi => swapAll_outside 4 6 (by decide) (by omega) mem
  by_cases hmore : ManagementTlv.id.width < length
  · have hmgt := hdata hmore
    simp only [located, htype, if_pos hmore] at hpoints
    obtain ⟨wire, hconverts⟩ := mgtConverts rfl hmgt hpoints
    refine ⟨swapAll host.endian extra.tlv [ManagementTlv.id] wire, ?_, ?_, ?_⟩
    · simp only [tlvPreSend, htype, if_pos hmore]
      exact hconverts.sent.bind (swapFields_runs host _ _ wire)
    · intro i hi
      have hwidth : ManagementTlv.id.width = 2 := rfl
      have hbody : ManagementTlv.data = 6 := rfl
      rw [hframe wire i (by omega)]
      exact hconverts.frame i (by omega)
    · have hid : hostWord host.endian wire (extra.tlv + 4) 2 =
          hostWord host.endian mem (extra.tlv + 4) 2 :=
        hostWord_congr _ fun i _ hlt => hconverts.frame i (Or.inl (by
          simp only [ManagementTlv.data]
          omega))
      obtain ⟨extraLen, hround, hreceived⟩ := hconverts.received
      have hswap := swapFields_runs host extra.tlv [ManagementTlv.id]
        (swapAll host.endian extra.tlv [ManagementTlv.id] wire)
      rw [htwice] at hswap
      rw [hostEcho_management length htype, if_pos hmore]
      simp only [tlvPostRecv, located, htype, if_pos hmore]
      rw [if_neg (Nat.not_lt.mpr hlen)]
      refine hswap.bind ((Runs.readWord host.endian _ _ wire).bind ?_)
      have hread : hostWord host.endian wire
          (extra.tlv + ManagementTlv.id.offset) ManagementTlv.id.width =
            hostWord host.endian mem (extra.tlv + 4) 2 := hid
      rw [hread]
      refine hreceived.bind (Runs.passes ?_ (.pure _ _))
      rintro ⟨hsome, hlength⟩
      have hrounded : extraLen + extraLen % 2 =
        length - ManagementTlv.id.width := hround hsome
      omega
  · refine ⟨swapAll host.endian extra.tlv [ManagementTlv.id] mem, ?_, ?_, ?_⟩
    · simp only [tlvPreSend, htype, if_neg hmore]
      exact swapFields_runs host _ _ mem
    · intro i hi
      simp only [ManagementTlv.size, sizeofTlv] at hlen
      exact hframe mem i (by omega)
    · have hswap := swapFields_runs host extra.tlv [ManagementTlv.id]
        (swapAll host.endian extra.tlv [ManagementTlv.id] mem)
      rw [htwice] at hswap
      rw [hostEcho_management length htype, if_neg hmore]
      simp only [tlvPostRecv, located, htype, if_neg hmore]
      rw [if_neg (Nat.not_lt.mpr hlen)]
      exact hswap.bind (.pure _ mem)

/-- So is an extension that the program knows. -/
theorem tlvConverts_organizationExtension
    (htype : TlvType.ofCode type = some .organizationExtension)
    (hformat : Formatted host.endian type length extra.tlv mem) :
    ∃ wire, TlvConverts host type length extra mem wire := by
  simp only [Formatted, htype] at hformat
  obtain ⟨hlen, hinfo⟩ := hformat
  by_cases hsubtype : orgSubtypeOf mem extra.tlv = some 1
  · have hexact := hinfo hsubtype
    have hsize : FollowUpInfoTlv.size = 32 := rfl
    have hheader : sizeofTlv = 4 := rfl
    let wire := phaseChangeSwap host.endian extra.tlv
      FollowUpInfoTlv.lastGmPhaseChange
      [FollowUpInfoTlv.cumulativeScaledRateOffset,
        FollowUpInfoTlv.gmTimeBaseIndicator]
      [FollowUpInfoTlv.scaledLastGmPhaseChange] mem
    have houtside : ∀ i, i < extra.tlv + 10 ∨ extra.tlv + 32 ≤ i →
        wire i = mem i := fun i hi =>
      phaseChangeSwap_outside 10 32 (by decide) (by decide) (by decide) (by decide)
        hi mem
    have htwice := @phaseChangeSwap_twice host.endian extra.tlv
      FollowUpInfoTlv.lastGmPhaseChange
      [FollowUpInfoTlv.cumulativeScaledRateOffset,
        FollowUpInfoTlv.gmTimeBaseIndicator]
      [FollowUpInfoTlv.scaledLastGmPhaseChange] 10 32 (by decide) (by decide)
      (by decide) (by decide) mem
    have hsame : orgSubtypeOf wire extra.tlv = some 1 := by
      rw [← hsubtype]
      have hagree : AgreeOn (extra.tlv + 4) (extra.tlv + 10) wire mem :=
        fun i _ hlt => houtside i (Or.inl hlt)
      exact orgSubtypeOf_congr hagree le_rfl le_rfl
    refine ⟨wire, ?_, fun i hi => houtside i (by omega), ?_⟩
    · simp only [tlvPreSend, htype]
      refine (orgSubtype_runs extra.tlv mem).bind ?_
      rw [if_pos hsubtype]
      exact phaseChangeSwap_runs host _ _ _ _ mem
    · rw [hostEcho_organizationExtension length htype, orgEcho, if_pos hsubtype,
        ← htwice]
      simp only [tlvPostRecv, located, htype]
      rw [if_neg (Nat.not_lt.mpr hlen)]
      have hrun : Runs (orgPostRecv host extra.tlv length) wire ()
          (phaseChangeSwap host.endian extra.tlv FollowUpInfoTlv.lastGmPhaseChange
            [FollowUpInfoTlv.cumulativeScaledRateOffset,
              FollowUpInfoTlv.gmTimeBaseIndicator]
            [FollowUpInfoTlv.scaledLastGmPhaseChange] wire) := by
        refine (orgSubtype_runs extra.tlv wire).bind ?_
        rw [if_pos hsame, if_neg (not_not.mpr hexact)]
        exact phaseChangeSwap_runs host _ _ _ _ wire
      exact hrun.bind (.pure _ _)
  · refine ⟨mem, ?_, fun _ _ => rfl, ?_⟩
    · simp only [tlvPreSend, htype]
      refine (orgSubtype_runs extra.tlv mem).bind ?_
      rw [if_neg hsubtype]
      exact .pure () mem
    · rw [hostEcho_organizationExtension length htype, orgEcho, if_neg hsubtype]
      simp only [tlvPostRecv, located, htype]
      rw [if_neg (Nat.not_lt.mpr hlen)]
      have hrun : Runs (orgPostRecv host extra.tlv length) mem () mem := by
        refine (orgSubtype_runs extra.tlv mem).bind ?_
        rw [if_neg hsubtype]
        exact .pure () mem
      exact hrun.bind (.pure _ _)

/-- A negotiation TLV with members behind the message type. -/
theorem unicastTlvPostRecv_runs {tlv size : ℕ} {fields : List Field}
    (hformat : UnicastFormatted tlv length size mem)
    (hfields : FieldsWithin 6 10 fields)
    (hdisjoint : fields.Pairwise Field.Disjoint) :
    Runs (unicastTlvPostRecv tlv length size (swapFields host tlv fields))
      (swapAll host.endian tlv fields mem) () mem := by
  obtain ⟨hlen, hvalid⟩ := hformat
  have hbyte : swapAll host.endian tlv fields mem
      (tlv + UnicastXmitTlv.messageType) = mem (tlv + UnicastXmitTlv.messageType) :=
    swapAll_outside 6 10 hfields (Or.inl (by
      simp only [UnicastXmitTlv.messageType]
      omega)) mem
  have hswap := swapFields_runs host tlv fields (swapAll host.endian tlv fields mem)
  rw [swapAll_swapAll hdisjoint] at hswap
  rw [unicastTlvPostRecv, if_neg (Nat.not_lt.mpr hlen)]
  refine (readByte_runs _ _).bind ?_
  rw [hbyte, hvalid, if_neg Bool.false_ne_true.symm]
  exact hswap

theorem swapNsmRespFoot_eq (foot : ℕ) (mem : Memory) :
    Runs (swapNsmRespFoot host foot nsmRespFootFields) mem ()
      (swapAll host.endian foot nsmRespFields mem) :=
  swapNsmRespFoot_runs host foot nsmRespFootFields mem

/-- A monitoring response is converted, if the foot is where the pointer says. -/
theorem tlvConverts_ptpmonResp (htype : TlvType.ofCode type = some .ptpmonResp)
    (hformat : Formatted host.endian type length extra.tlv mem)
    (hpoints : PointsInto extra (located host.endian type length extra.tlv mem)) :
    ∃ wire, TlvConverts host type length extra mem wire := by
  simp only [Formatted, htype] at hformat
  simp only [located, htype] at hpoints
  obtain ⟨hexpected, hlength⟩ := hformat
  have hfoot := hpoints.foot (Option.some_ne_none _)
  generalize haddress : hostWord host.endian mem (extra.tlv + 8) 2 = addressLength
    at hexpected hlength hfoot
  have hhead : NsmResp.headSize = 10 := rfl
  have hsize : NsmResp.footSize = 64 := rfl
  have hheader : sizeofTlv = 4 := rfl
  let address := fieldsConversion host.endian (extra.tlv + NsmResp.parentAddr) 0 4
    [PortAddress.networkProtocol, PortAddress.addressLength] (by decide)
  let foot := fieldsConversion host.endian
    (extra.tlv + NsmResp.headSize + addressLength) 0 64 nsmRespFields (by decide)
  have hcomm : ∀ mem, address.apply (foot.apply mem) =
      foot.apply (address.apply mem) :=
    Conversion.apply_comm _ _ (Or.inl (by
      show extra.tlv + 6 + 4 ≤ extra.tlv + 10 + addressLength + 0
      omega))
  have haddressTwice : ∀ mem, address.apply (address.apply mem) = mem :=
    swapAll_swapAll (by decide)
  have hfootTwice : ∀ mem, foot.apply (foot.apply mem) = mem :=
    swapAll_swapAll (by decide)
  have hfootFrame : ∀ mem i, i < extra.tlv + 10 → foot.apply mem i = mem i :=
    fun mem i hi => foot.frame mem i (Or.inl (by
      show i < extra.tlv + 10 + addressLength + 0
      omega))
  refine ⟨foot.apply (address.apply mem), ?_, fun i hi => ?_, ?_⟩
  · simp only [tlvPreSend, nsmRespPreSend, htype, hfoot]
    exact (swapFields_runs host _ _ mem).bind (swapNsmRespFoot_eq _ _)
  · rw [foot.frame _ i (by
        show i < extra.tlv + 10 + addressLength + 0 ∨
          extra.tlv + 10 + addressLength + 64 ≤ i
        omega), address.frame mem i (by
        show i < extra.tlv + 6 + 0 ∨ extra.tlv + 6 + 4 ≤ i
        omega)]
  · have hswap := swapFields_runs host (extra.tlv + NsmResp.parentAddr)
      [PortAddress.networkProtocol, PortAddress.addressLength]
      (foot.apply (address.apply mem))
    have hconverted : swapAll host.endian (extra.tlv + NsmResp.parentAddr)
        [PortAddress.networkProtocol, PortAddress.addressLength]
        (foot.apply (address.apply mem)) = foot.apply mem :=
      (hcomm _).trans (congrArg foot.apply (haddressTwice mem))
    rw [hconverted] at hswap
    have hword : ∀ offset, offset + 2 ≤ extra.tlv + 10 →
        hostWord host.endian (foot.apply mem) offset 2 =
          hostWord host.endian mem offset 2 := fun offset hoffset =>
      hostWord_congr _ fun i _ hlt => hfootFrame mem i (by omega)
    have hprotocol : hostWord host.endian (foot.apply mem)
        (extra.tlv + NsmResp.parentAddr + PortAddress.networkProtocol.offset)
        PortAddress.networkProtocol.width =
          hostWord host.endian mem (extra.tlv + 6) 2 :=
      hword (extra.tlv + 6) (by omega)
    have hlengthWord : hostWord host.endian (foot.apply mem)
        (extra.tlv + NsmResp.parentAddr + PortAddress.addressLength.offset)
        PortAddress.addressLength.width = addressLength :=
      (hword (extra.tlv + 8) (by omega)).trans haddress
    simp only [tlvPostRecv, located, hostEcho, hostPhaseChange, htype, haddress]
    rw [nsmRespPostRecv]
    refine .passes (by omega) (hswap.bind ((Runs.readWord host.endian _ _ _).bind ?_))
    simp only [hprotocol, hexpected]
    refine (Runs.readWord host.endian _ _ _).bind ?_
    simp only [hlengthWord]
    refine .passes (not_not.mpr rfl) (.passes (by omega) ?_)
    have hrestore := @swapNsmRespFoot_eq host
      (extra.tlv + NsmResp.headSize + addressLength) (foot.apply mem)
    have hback : swapAll host.endian (extra.tlv + NsmResp.headSize + addressLength)
        nsmRespFields (foot.apply mem) = mem := hfootTwice mem
    rw [hback] at hrestore
    exact hrestore.bind (.pure _ mem)

/-- Every well-formed TLV in host order is converted, and converted back on
reception. -/
theorem tlvConverts (hformat : Formatted host.endian type length extra.tlv mem)
    (hpoints : PointsInto extra (located host.endian type length extra.tlv mem)) :
    ∃ wire, TlvConverts host type length extra mem wire := by
  cases htype : TlvType.ofCode type with
  | none =>
    refine ⟨mem, ?_, fun _ _ => rfl, ?_⟩
    · simp only [tlvPreSend, htype]
      exact .pure () mem
    · simp only [tlvPostRecv, located, hostEcho, hostPhaseChange, htype]
      exact .pure _ mem
  | some name =>
    cases name with
    | management => exact tlvConverts_management htype hformat hpoints
    | organizationExtension => exact tlvConverts_organizationExtension htype hformat
    | ptpmonResp => exact tlvConverts_ptpmonResp htype hformat hpoints
    | managementErrorStatus =>
      simp only [Formatted, htype] at hformat
      have hsize : ManagementErrorStatus.size = 12 := rfl
      have hheader : sizeofTlv = 4 := rfl
      refine ⟨swapAll host.endian extra.tlv
        [ManagementErrorStatus.error, ManagementErrorStatus.id] mem, ?_,
        fun i hi => swapAll_outside 4 8 (by decide) (by omega) mem, ?_⟩
      · simp only [tlvPreSend, htype]
        exact swapFields_runs host _ _ mem
      · simp only [tlvPostRecv, located, hostEcho, hostPhaseChange, htype]
        have hswap := swapFields_runs host extra.tlv
          [ManagementErrorStatus.error, ManagementErrorStatus.id]
          (swapAll host.endian extra.tlv
            [ManagementErrorStatus.error, ManagementErrorStatus.id] mem)
        rw [swapAll_swapAll (by decide)] at hswap
        exact .passes (Nat.not_lt.mpr hformat) (hswap.bind (.pure _ mem))
    | requestUnicastTransmission =>
      simp only [Formatted, htype] at hformat
      have hroom := hformat.1
      simp only [UnicastXmitTlv.requestSize, sizeofTlv] at hroom
      refine ⟨swapAll host.endian extra.tlv [UnicastXmitTlv.durationField] mem, ?_,
        fun i hi => swapAll_outside 6 10 (by decide) (by omega) mem, ?_⟩
      · simp only [tlvPreSend, unicastNegotiationPreSend, htype]
        exact swapFields_runs host _ _ mem
      · simp only [tlvPostRecv, unicastNegotiationPostRecv, located, hostEcho,
          hostPhaseChange, htype]
        exact (unicastTlvPostRecv_runs hformat (by decide) (by decide)).bind
          (.pure _ mem)
    | grantUnicastTransmission =>
      simp only [Formatted, htype] at hformat
      have hroom := hformat.1
      simp only [UnicastXmitTlv.grantSize, sizeofTlv] at hroom
      refine ⟨swapAll host.endian extra.tlv [UnicastXmitTlv.durationField] mem, ?_,
        fun i hi => swapAll_outside 6 10 (by decide) (by omega) mem, ?_⟩
      · simp only [tlvPreSend, unicastNegotiationPreSend, htype]
        exact swapFields_runs host _ _ mem
      · simp only [tlvPostRecv, unicastNegotiationPostRecv, located, hostEcho,
          hostPhaseChange, htype]
        exact (unicastTlvPostRecv_runs hformat (by decide) (by decide)).bind
          (.pure _ mem)
    | cancelUnicastTransmission | acknowledgeCancelUnicastTransmission =>
      simp only [Formatted, htype] at hformat
      refine ⟨mem, ?_, fun _ _ => rfl, ?_⟩
      · simp only [tlvPreSend, unicastNegotiationPreSend, htype]
        exact .pure () mem
      · simp only [tlvPostRecv, unicastNegotiationPostRecv, located, hostEcho,
          hostPhaseChange, htype]
        exact (@unicastTlvPostRecv_runs host length mem extra.tlv _ [] hformat
          (by decide) (by decide)).bind (.pure _ mem)
    | pathTrace =>
      simp only [Formatted, htype] at hformat
      refine ⟨mem, ?_, fun _ _ => rfl, ?_⟩
      · simp only [tlvPreSend, htype]
        exact .pure () mem
      · simp only [tlvPostRecv, located, hostEcho, hostPhaseChange, htype]
        rw [if_neg (Nat.not_lt.mpr hformat)]
        exact .pure _ mem
    | _ =>
      refine ⟨mem, ?_, fun _ _ => rfl, ?_⟩
      · simp only [tlvPreSend, htype]
        exact .pure () mem
      · simp only [tlvPostRecv, located, hostEcho, hostPhaseChange, htype]
        exact .pure _ mem

end LinuxPtp.Wire
