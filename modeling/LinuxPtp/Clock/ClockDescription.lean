import LinuxPtp.Clock.MgmtDecoded

/-!
# The clock description

Nine members, each behind the one before it.  The parser computes their offsets
again from the lengths that it reads, and finds every one where it was put.
-/

namespace LinuxPtp.Clock

open ByteOrder Access Wire Port Bmc

variable {endian : Endian} {host : Host} {mem : Memory}

/-! ## Reading back -/

theorem TlvLies.readsAs {id dataLen : ℕ} {members : List Member} {member : Member}
    (hlies : TlvLies endian id dataLen members mem) (hmember : member ∈ members)
    (hfits : member.Fits) : member.ReadsAs endian mem mgmtData :=
  (Member.readsAs_iff_fits (hlies.members member hmember)).mpr hfits

/-- A word as it was assigned. -/
theorem TlvLies.hostWord {id dataLen offset width value : ℕ} {members : List Member}
    (hlies : TlvLies endian id dataLen members mem)
    (hmember : .unsigned offset width value ∈ members) (hfits : value < 256 ^ width) :
    hostWord endian mem (mgmtData + offset) width = value := by
  have hreads : (ByteOrder.hostWord endian mem (mgmtData + offset) width : ℤ) = value :=
    hlies.readsAs hmember ⟨Int.natCast_nonneg value, by exact_mod_cast hfits⟩
  exact_mod_cast hreads

/-- The end of a text as it was assigned. -/
theorem TlvLies.textEnd {id dataLen offset length : ℕ} {members : List Member}
    (hlies : TlvLies endian id dataLen members mem)
    (hmember : .unsigned offset sizeofPtpText length ∈ members) (hfits : length < 256) :
    textEnd mem (mgmtData + offset) = mgmtData + (offset + sizeofPtpText + length) := by
  have hword := hlies.hostWord hmember (by simpa [sizeofPtpText] using hfits)
  rw [sizeofPtpText, hostWord_byte] at hword
  rw [Wire.textEnd, hword]
  omega

/-! ## The members of a clock description -/

variable (target : ReportedPort)

theorem physicalLayerProtocol_length : target.physicalLayerProtocol.length ≤ 10 := by
  unfold ReportedPort.physicalLayerProtocol
  split <;> decide

theorem profileIdentity_length : target.profileIdentity.length = profileIdLen := by
  unfold ReportedPort.profileIdentity
  split <;> rfl

/-- Every member starts where the one before it ends. -/
theorem clockDescriptionReply_isChain :
    (clockDescriptionReply target).members.IsChain Member.Before := by
  simp only [clockDescriptionReply, PtpText.members, List.cons_append, List.nil_append,
    List.isChain_cons_cons, List.isChain_singleton, Member.Before, Member.offset,
    Member.width, ReportedPort.physicalLayerProtocolAt, ReportedPort.physicalAddressAt,
    ReportedPort.protocolAddressAt, ReportedPort.manufacturerIdentityAt,
    ReportedPort.productDescriptionAt, ReportedPort.revisionDataAt,
    ReportedPort.userDescriptionAt, ReportedPort.profileIdentityAt, sizeofPtpText,
    sizeofPhysicalAddress, sizeofPortAddress, ouiLen, Vector.length_toList, and_true]
  omega

theorem clockDescriptionReply_within :
    Within (clockDescriptionReply target).dataLen
      (clockDescriptionReply target).members := by
  simp only [Within, clockDescriptionReply, PtpText.members, List.cons_append,
    List.nil_append, List.forall_mem_cons, List.not_mem_nil, false_implies,
    implies_true, Member.offset, Member.width, profileIdentity_length,
    ReportedPort.physicalLayerProtocolAt, ReportedPort.physicalAddressAt,
    ReportedPort.protocolAddressAt, ReportedPort.manufacturerIdentityAt,
    ReportedPort.productDescriptionAt, ReportedPort.revisionDataAt,
    ReportedPort.userDescriptionAt, ReportedPort.profileIdentityAt, sizeofPtpText,
    sizeofPhysicalAddress, sizeofPortAddress, ouiLen, Vector.length_toList, and_true]
  omega

/-! ## What the parser finds -/

/-- The descriptor of a clock description with all of its pointers. -/
def describedAt : TlvExtra where
  tlv := mgmtTlv
  cd := { (clockDescriptionReply target).cd with
    profileIdentity := some (mgmtData + target.profileIdentityAt) }

def Described (endian : Endian) (mem : Memory) : Prop :=
  TlvLies endian MgmtId.clockDescription.code (clockDescriptionReply target).dataLen
    (clockDescriptionReply target).members mem

variable {target}

namespace Described

theorem physicalAddress (hlies : Described target endian mem) :
    textEnd mem (mgmtData + 2) = mgmtData + target.physicalAddressAt := by
  have hlayer := physicalLayerProtocol_length target
  exact TlvLies.textEnd hlies (by simp [clockDescriptionReply,
    ReportedPort.physicalLayerProtocolAt]) (by omega)

theorem physicalAddress_length (hlies : Described target endian mem) :
    hostWord endian mem (mgmtData + target.physicalAddressAt) 2 =
      target.physicalAddress.address.length := by
  have haddress := target.physicalAddress.length_le
  simp only [transportAddrLen] at haddress
  exact TlvLies.hostWord hlies (by simp [clockDescriptionReply]) (by omega)

theorem protocolAddress_length (hlies : Described target endian mem) :
    hostWord endian mem (mgmtData + target.protocolAddressAt + 2) 2 =
      target.protocolAddress.address.length := by
  have haddress := target.protocolAddress.length_le
  simp only [transportAddrLen] at haddress
  rw [Nat.add_assoc]
  exact TlvLies.hostWord hlies (by simp [clockDescriptionReply]) (by omega)

theorem productDescription (hlies : Described target endian mem) :
    textEnd mem (mgmtData + target.productDescriptionAt) =
      mgmtData + target.revisionDataAt :=
  TlvLies.textEnd hlies (by simp [clockDescriptionReply, PtpText.members])
    target.description.productDescription.length_lt

theorem revisionData (hlies : Described target endian mem) :
    textEnd mem (mgmtData + target.revisionDataAt) =
      mgmtData + target.userDescriptionAt :=
  TlvLies.textEnd hlies (by simp [clockDescriptionReply, PtpText.members])
    target.description.revisionData.length_lt

theorem userDescription (hlies : Described target endian mem) :
    textEnd mem (mgmtData + target.userDescriptionAt) =
      mgmtData + target.profileIdentityAt :=
  TlvLies.textEnd hlies (by simp [clockDescriptionReply, PtpText.members])
    target.description.userDescription.length_lt

theorem clockDescriptionAt (hlies : Described target endian mem) :
    Wire.clockDescriptionAt endian mgmtData mem =
      ((describedAt target).cd,
        mgmtData + (clockDescriptionReply target).dataLen) := by
  have hprotocol : mgmtData + target.physicalAddressAt + sizeofPhysicalAddress +
      target.physicalAddress.address.length =
        mgmtData + target.protocolAddressAt := by
    simp only [ReportedPort.protocolAddressAt]
    omega
  have hmanufacturer : mgmtData + target.protocolAddressAt + sizeofPortAddress +
      target.protocolAddress.address.length =
        mgmtData + target.manufacturerIdentityAt := by
    simp only [ReportedPort.manufacturerIdentityAt]
    omega
  have hproduct : mgmtData + target.manufacturerIdentityAt + (ouiLen + 1) =
      mgmtData + target.productDescriptionAt := by
    simp only [ReportedPort.productDescriptionAt]
    omega
  simp only [Wire.clockDescriptionAt, hlies.physicalAddress,
    hlies.physicalAddress_length, hprotocol, hlies.protocolAddress_length,
    hmanufacturer, hproduct, hlies.productDescription, hlies.revisionData,
    hlies.userDescription]
  rfl

theorem addressesFit (hlies : Described target endian mem) :
    AddressesFit endian mgmtData mem := by
  have hprotocol : mgmtData + target.physicalAddressAt + sizeofPhysicalAddress +
      target.physicalAddress.address.length =
        mgmtData + target.protocolAddressAt := by
    simp only [ReportedPort.protocolAddressAt]
    omega
  simp only [AddressesFit, hlies.physicalAddress, hlies.physicalAddress_length,
    hprotocol, hlies.protocolAddress_length]
  exact ⟨target.physicalAddress.length_le, target.protocolAddress.length_le⟩

end Described

theorem clockDescription_ofCode :
    ManagementId.ofCode MgmtId.clockDescription.code = some .clockDescription := by
  decide

theorem clockDescriptionReply_dataLen_pos (target : ReportedPort) :
    0 < roundUp (clockDescriptionReply target).dataLen := by
  simp only [roundUp, clockDescriptionReply, profileIdLen]
  omega

theorem clockDescription_understood (target : ReportedPort) :
    Understood endian MgmtId.clockDescription.code
      (clockDescriptionReply target).dataLen (clockDescriptionReply target).members
      (describedAt target) := by
  intro mem hlies
  have hpositive := clockDescriptionReply_dataLen_pos target
  have hmore : ManagementTlv.id.width <
      2 + roundUp (clockDescriptionReply target).dataLen := by
    simp only [ManagementTlv.id]
    omega
  have hid : hostWord endian mem (mgmtTlv + 4) 2 = MgmtId.clockDescription.code :=
    hlies.id
  have hat := Described.clockDescriptionAt hlies
  constructor
  · simp only [Formatted, management_ofCode]
    refine ⟨Nat.le_add_right _ _, fun _ => ?_⟩
    rw [hid]
    simp only [MgtFormatted, clockDescription_ofCode]
    refine ⟨Described.addressesFit hlies, ?_⟩
    have hdata : mgmtTlv + ManagementTlv.data = mgmtData := rfl
    rw [hdata, hat]
    simp only [ManagementTlv.id, Nat.add_sub_cancel_left]
  · simp only [located, management_ofCode, if_pos hmore]
    rw [hid]
    simp only [mgtLocated, clockDescription_ofCode]
    have hdata : mgmtTlv + ManagementTlv.data = mgmtData := rfl
    rw [hdata, hat]
    rfl

/-! ## What the client reads -/

def textAt (mem : Memory) (ptr : ℕ) : List UInt8 :=
  bytesAt mem (ptr + sizeofPtpText) (mem ptr).toNat

/-- What the pointers designate is the clock description of `target`. -/
structure Designates (endian : Endian) (mem : Memory) (cd : MgmtClockDescription)
    (target : ReportedPort) : Prop where
  clockType : ∃ ptr, cd.clockType = some ptr ∧
    hostWord endian mem ptr 2 = target.description.clockType.code
  physicalLayerProtocol : ∃ ptr, cd.physicalLayerProtocol = some ptr ∧
    textAt mem ptr = target.physicalLayerProtocol
  physicalAddress : ∃ ptr, cd.physicalAddress = some ptr ∧
    bytesAt mem (ptr + sizeofPhysicalAddress) (hostWord endian mem ptr 2) =
      target.physicalAddress.address
  protocolAddress : ∃ ptr, cd.protocolAddress = some ptr ∧
    hostWord endian mem ptr 2 = target.transport.code ∧
    bytesAt mem (ptr + sizeofPortAddress) (hostWord endian mem (ptr + 2) 2) =
      target.protocolAddress.address
  manufacturerIdentity : ∃ ptr, cd.manufacturerIdentity = some ptr ∧
    bytesAt mem ptr ouiLen = target.description.manufacturerIdentity.toList
  productDescription : ∃ ptr, cd.productDescription = some ptr ∧
    textAt mem ptr = target.description.productDescription.text
  revisionData : ∃ ptr, cd.revisionData = some ptr ∧
    textAt mem ptr = target.description.revisionData.text
  userDescription : ∃ ptr, cd.userDescription = some ptr ∧
    textAt mem ptr = target.description.userDescription.text
  profileIdentity : ∃ ptr, cd.profileIdentity = some ptr ∧
    bytesAt mem ptr profileIdLen = target.profileIdentity

/-- A text as it was assigned. -/
theorem TlvLies.textAt {id dataLen offset : ℕ} {members : List Member}
    {text : List UInt8} (hlies : TlvLies endian id dataLen members mem)
    (hlength : .unsigned offset sizeofPtpText text.length ∈ members)
    (htext : .octets (offset + sizeofPtpText) text ∈ members)
    (hfits : text.length < 256) : textAt mem (mgmtData + offset) = text := by
  have hword := hlies.hostWord hlength (by simpa [sizeofPtpText] using hfits)
  rw [sizeofPtpText, hostWord_byte] at hword
  rw [Clock.textAt, hword, Nat.add_assoc]
  exact hlies.members _ htext

theorem TlvLies.bytesAt {id dataLen offset : ℕ} {members : List Member}
    {bytes : List UInt8} (hlies : TlvLies endian id dataLen members mem)
    (hbytes : .octets offset bytes ∈ members) :
    bytesAt mem (mgmtData + offset) bytes.length = bytes :=
  hlies.members _ hbytes

theorem Described.designates {target : ReportedPort}
    (hlies : Described target endian mem) :
    Designates endian mem (describedAt target).cd target where
  clockType := by
    have hword : hostWord endian mem (mgmtData + 0) 2 =
        target.description.clockType.code :=
      TlvLies.hostWord hlies (by simp [clockDescriptionReply])
        (by cases target.description.clockType <;> decide)
    exact ⟨mgmtData, rfl, hword⟩
  physicalLayerProtocol := by
    have hlayer := physicalLayerProtocol_length target
    exact ⟨_, rfl, TlvLies.textAt hlies (by simp [clockDescriptionReply])
      (by simp [clockDescriptionReply]) (by omega)⟩
  physicalAddress := by
    refine ⟨_, rfl, ?_⟩
    rw [hlies.physicalAddress_length, Nat.add_assoc]
    exact TlvLies.bytesAt hlies (by simp [clockDescriptionReply])
  protocolAddress := by
    refine ⟨_, rfl, TlvLies.hostWord hlies (by simp [clockDescriptionReply])
      (by cases target.transport <;> decide), ?_⟩
    rw [hlies.protocolAddress_length, Nat.add_assoc]
    exact TlvLies.bytesAt hlies (by simp [clockDescriptionReply])
  manufacturerIdentity := by
    have hbytes : ByteOrder.bytesAt mem (mgmtData + target.manufacturerIdentityAt)
        target.description.manufacturerIdentity.toList.length =
          target.description.manufacturerIdentity.toList :=
      TlvLies.bytesAt hlies (by simp [clockDescriptionReply])
    rw [Vector.length_toList] at hbytes
    exact ⟨_, rfl, hbytes⟩
  productDescription := ⟨_, rfl, TlvLies.textAt hlies
    (by simp [clockDescriptionReply, PtpText.members])
    (by simp [clockDescriptionReply, PtpText.members])
    target.description.productDescription.length_lt⟩
  revisionData := ⟨_, rfl, TlvLies.textAt hlies
    (by simp [clockDescriptionReply, PtpText.members])
    (by simp [clockDescriptionReply, PtpText.members])
    target.description.revisionData.length_lt⟩
  userDescription := ⟨_, rfl, TlvLies.textAt hlies
    (by simp [clockDescriptionReply, PtpText.members])
    (by simp [clockDescriptionReply, PtpText.members])
    target.description.userDescription.length_lt⟩
  profileIdentity := by
    refine ⟨_, rfl, ?_⟩
    rw [← profileIdentity_length target]
    exact TlvLies.bytesAt hlies (by simp [clockDescriptionReply])

/-! ## There and back -/

theorem clockDescriptionReply_dataLen (target : ReportedPort) :
    (clockDescriptionReply target).dataLen =
      ((clockDescriptionReply target).members.map Member.width).sum := by
  simp only [clockDescriptionReply, PtpText.members, List.cons_append, List.nil_append,
    List.map_cons, List.map_nil, List.sum_cons, List.sum_nil, Member.width,
    profileIdentity_length, ReportedPort.physicalLayerProtocolAt,
    ReportedPort.physicalAddressAt, ReportedPort.protocolAddressAt,
    ReportedPort.manufacturerIdentityAt, ReportedPort.productDescriptionAt,
    ReportedPort.revisionDataAt, ReportedPort.userDescriptionAt,
    ReportedPort.profileIdentityAt, sizeofPtpText, sizeofPhysicalAddress,
    sizeofPortAddress, ouiLen, profileIdLen, Vector.length_toList]
  omega

theorem clockDescriptionReply_wellFormed (target : ReportedPort) :
    (clockDescriptionReply target).WellFormed where
  disjoint := Member.disjoint_of_isChain (clockDescriptionReply_isChain target)
  padded := Or.inr (clockDescriptionReply_within target)
  small := by
    have hlayer := physicalLayerProtocol_length target
    have hphysical := target.physicalAddress.length_le
    have hprotocol := target.protocolAddress.length_le
    have hproduct := target.description.productDescription.length_lt
    have hrevision := target.description.revisionData.length_lt
    have huser := target.description.userDescription.length_lt
    simp only [transportAddrLen] at hphysical hprotocol
    simp only [clockDescriptionReply, ReportedPort.physicalLayerProtocolAt,
      ReportedPort.physicalAddressAt, ReportedPort.protocolAddressAt,
      ReportedPort.manufacturerIdentityAt, ReportedPort.productDescriptionAt,
      ReportedPort.revisionDataAt, ReportedPort.userDescriptionAt,
      ReportedPort.profileIdentityAt, sizeofPtpText, sizeofPhysicalAddress,
      sizeofPortAddress, ouiLen, profileIdLen]
    omega

theorem clockDescriptionReply_points (target : ReportedPort) :
    PointsInto { tlv := mgmtTlv, cd := (clockDescriptionReply target).cd }
      (describedAt target) :=
  ⟨rfl, fun _ => rfl, fun _ => rfl, fun _ => rfl, fun hno => absurd rfl hno⟩

/-- Every clock description is laid out with the length of what is written, rounded
up to even, it is encoded and parsed, and the pointers that the parser finds
designate it. -/
theorem clockDescription_roundTrips (host : Host) (target : ReportedPort)
    {rsp : Store ParseState} (hblank : Blank host.endian rsp)
    (hfree : HasDescriptors host rsp.rest 1) :
    ∃ built sent, portManagementFillResponse host target
        MgmtId.clockDescription.code rsp = (.ok true, built) ∧
      hostWord host.endian built.mem (mgmtTlv + 2) 2 = ManagementTlv.id.width +
        roundUp ((clockDescriptionReply target).members.map Member.width).sum ∧
      msgPreSend host built = (.ok true, sent) ∧
      ∀ other : Store ParseState,
        AgreeOn 0 (hostWord host.endian built.mem 2 2) other.mem sent.mem →
        other.rest.tlvList = [] → HasDescriptors host other.rest 1 →
        ∃ received extra, ptpMsgReceive host (hostWord host.endian built.mem 2 2)
            other = (.ok (), received) ∧
          received.rest.tlvList = [extra] ∧
          Designates host.endian received.mem extra.cd target := by
  have hwithin := clockDescriptionReply_within target
  have hwithin' : Within (roundUp (clockDescriptionReply target).dataLen)
      (clockDescriptionReply target).members := fun member hmember =>
    (hwithin member hmember).trans (Nat.le_add_right _ _)
  obtain ⟨done, built, hfill, -, hsupply⟩ := fillResponse_run host
    MgmtId.clockDescription.code (some (clockDescriptionReply target)) rsp
  obtain rfl : done = true := hsupply (Option.some_ne_none _) hfree
  obtain ⟨hlaidOut, sent, hsent, hclient⟩ := fillResponse_decodes hfill
    hblank (by decide) (clockDescriptionReply_wellFormed target)
    (List.Subset.refl _) hwithin' (clockDescription_understood target)
    (clockDescriptionReply_points target)
  refine ⟨built, sent, hfill, ?_, hsent, fun other hagree hempty hsupply => ?_⟩
  · rw [hlaidOut.length, ← clockDescriptionReply_dataLen]
    rfl
  · obtain ⟨received, hreceived, hlist, htype, hlength, hid, hdata⟩ :=
      hclient other hagree hempty hsupply
    have hnot : ¬(0 < roundUp (clockDescriptionReply target).dataLen ∧
        ManagementId.ofCode MgmtId.clockDescription.code = some .timeStatusNp) := by
      rw [clockDescription_ofCode]
      exact fun hboth => absurd hboth.2 (by decide)
    rw [replyEcho, if_neg hnot] at hdata
    refine ⟨received, describedAt target, hreceived, hlist,
      Described.designates ⟨htype, hlength, hid, fun member hmember => ?_⟩⟩
    rw [← hlaidOut.members member hmember]
    refine bytesAt_congr fun i hge hlt => hdata i ?_ ?_
    · exact (Nat.le_add_right _ _).trans hge
    · have := hwithin' member hmember
      omega

/-- A port of an ordinary clock with short texts and a physical address only. -/
def describedPort : ReportedPort where
  description :=
    { clockType := .ordinary
      manufacturerIdentity := #v[0x00, 0x1B, 0x19]
      productDescription := reportedClock.userDescription
      revisionData := ⟨[], by decide⟩
      userDescription := ⟨[0x62, 0x63], by decide⟩ }
  transport := .ieee8023
  physicalAddress := ⟨[1, 2, 3, 4, 5, 6], by decide⟩
  protocolAddress := ⟨[], by decide⟩
  portIdentity := ⟨reportedClock.dds.clockIdentity, 1⟩
  state := .slave
  timestamping := .hardware
  tsLabel := ⟨[0x65, 0x30], by decide⟩
  asCapable := 1
  logMinDelayReqInterval := 0
  peerMeanPathDelay := 0
  logAnnounceInterval := 1
  announceReceiptTimeout := 3
  logSyncInterval := 0
  delayMechanism := .e2e
  logMinPdelayReqInterval := 0
  neighborPropDelayThresh := 20000000
  versionNumber := 2

/-- The client gets the bytes that are sent, and finds the port in them. -/
theorem clockDescription_roundTrips_describedPort :
    ∃ built sent received extra, portManagementFillResponse smallHost describedPort
        MgmtId.clockDescription.code blankReply = (.ok true, built) ∧
      hostWord .little built.mem 50 2 = 44 ∧
      msgPreSend smallHost built = (.ok true, sent) ∧
      ptpMsgReceive smallHost (hostWord .little built.mem 2 2)
        ⟨sent.mem, [], blankReply.rest⟩ = (.ok (), received) ∧
      received.rest.tlvList = [extra] ∧
      Designates .little received.mem extra.cd describedPort := by
  obtain ⟨built, sent, hfill, hlength, hsent, hclient⟩ :=
    clockDescription_roundTrips smallHost describedPort blankReply_blank
      (Or.inr fun _ => rfl)
  obtain ⟨received, extra, hreceived, hlist, hdesignates⟩ :=
    hclient ⟨sent.mem, [], blankReply.rest⟩ (fun _ _ _ => rfl) rfl
      (Or.inr fun _ => rfl)
  exact ⟨built, sent, received, extra, hfill, hlength.trans (by decide), hsent,
    hreceived, hlist, hdesignates⟩

end LinuxPtp.Clock
