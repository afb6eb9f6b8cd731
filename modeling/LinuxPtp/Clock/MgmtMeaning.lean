import LinuxPtp.Clock.MgmtReplies

/-!
# What a client reads in a reply

Every reply is decoded to the values that were meant, except in four cases: the
events subscribed to are not counted in the length, the low word of the last phase
change is computed, and numbers of type `int` are cut to the size of their member.
-/

namespace LinuxPtp.Clock

open ByteOrder Access Wire Port Bmc

/-! ## When a reply says what was meant -/

/-- The low word is the one that conversion computes from the high word. -/
def PhaseChange.LowWordComputed (endian : Endian) (change : PhaseChange) : Prop :=
  change.nanosecondsLsb.toNat = endian.ntoh 8 change.nanosecondsMsb.toNat

/-- The settings of the grandmaster fit the members that report them. -/
def ReportedClock.SettingsFit (c : ReportedClock) : Prop :=
  (-2 ^ 15 ≤ c.utcOffset.toInt ∧ c.utcOffset.toInt < 2 ^ 15) ∧
    (0 ≤ c.timeFlags.toInt ∧ c.timeFlags.toInt < 2 ^ 8) ∧
    0 ≤ c.timeSource.toInt ∧ c.timeSource.toInt < 2 ^ 8

/-- What a clock reports is reported as it is. -/
structure ClockMeant (endian : Endian) (c : ReportedClock) (id : MgmtId) : Prop where
  answered : id ≠ .subscribeEventsNp
  phaseChange : id = .timeStatusNp → c.status.lastGmPhaseChange.LowWordComputed endian
  settings : id = .grandmasterSettingsNp → c.SettingsFit

/-- What a port reports is reported as it is. -/
def PortMeant (target : ReportedPort) (id : MgmtId) : Prop :=
  id = .versionNumber ∨ id = .portDataSet → target.versionNumber.toNat < 2 ^ 8

/-- The reply is encoded, and every client parses it and finds a TLV with this
identifier, with data unless there are none to report, and with the values that were
assigned. -/
def DecodesAsMeant (host : Host) (id : MgmtId) (reply : Reply)
    (built : Store ParseState) : Prop :=
  ∃ sent, msgPreSend host built = (.ok true, sent) ∧
    ∀ other : Store ParseState,
      AgreeOn 0 (hostWord host.endian built.mem 2 2) other.mem sent.mem →
      other.rest.tlvList = [] → HasDescriptors host other.rest 1 →
      ∃ received extra, ptpMsgReceive host (hostWord host.endian built.mem 2 2)
          other = (.ok (), received) ∧
        received.rest.tlvList = [extra] ∧ extra.tlv = mgmtTlv ∧
        hostWord host.endian received.mem mgmtTlv 2 = TlvType.management.code ∧
        hostWord host.endian received.mem (mgmtTlv + 4) 2 = id.code ∧
        (id ≠ .nullManagement →
          2 < hostWord host.endian received.mem (mgmtTlv + 2) 2) ∧
        ∀ member ∈ reply.members,
          member.ReadsAs host.endian received.mem mgmtData

variable {endian : Endian} {host : Host} {mem : Memory}
variable {c : ReportedClock} {subscription : Option Subscription}
variable {target : ReportedPort} {id : MgmtId} {reply : Reply}
variable {rsp built : Store ParseState} {expected : TlvExtra}

/-! ## Values that fit -/

theorem PtpText.fits (offset : ℕ) (text : PtpText) :
    ∀ member ∈ text.members offset, member.Fits := by
  have hlength := text.length_lt
  simp only [PtpText.members, List.forall_mem_cons, List.not_mem_nil, false_implies,
    implies_true, and_true, Member.Fits, sizeofPtpText]
  omega

theorem clockReply_fits_iff (hreply : clockReply c subscription id = some reply) :
    (∀ member ∈ reply.members, member.Fits) ↔
      (id = .grandmasterSettingsNp → c.SettingsFit) := by
  by_cases hid : id = .grandmasterSettingsNp
  · subst hid
    simp only [clockReply, Option.some.injEq] at hreply
    subst hreply
    have hquality : ∀ member ∈ ClockQuality.members 0 c.dds.clockQuality,
        member.Fits := by simp [ClockQuality.members]
    simp only [List.forall_mem_append, eq_true hquality, List.forall_mem_cons,
      List.not_mem_nil, false_implies, implies_true, and_true, true_and]
    simp only [Member.Fits, ReportedClock.SettingsFit, true_implies]
    omega
  · refine iff_of_true ?_ fun hsettings => absurd hsettings hid
    have htext := c.userDescription.fits 0
    cases id <;> simp only [clockReply, Option.some.injEq, reduceCtorEq] at hreply <;>
      subst hreply <;>
      first
      | exact htext
      | exact absurd rfl hid
      | (cases subscription <;>
          simp [datum, DefaultDs.members, CurrentDs.members, ParentDs.members,
            TimePropertiesDs.members, ClockQuality.members, PortIdentity.members])

theorem clockDescriptionReply_fits (target : ReportedPort) :
    ∀ member ∈ (clockDescriptionReply target).members, member.Fits := by
  have hlayer := physicalLayerProtocol_length target
  have hphysical := target.physicalAddress.length_le
  have hprotocol := target.protocolAddress.length_le
  have htype : target.description.clockType.code < 2 ^ 16 := by
    cases target.description.clockType <;> decide
  have htransport : target.transport.code < 2 ^ 16 := by
    cases target.transport <;> decide
  simp only [transportAddrLen] at hphysical hprotocol
  simp only [clockDescriptionReply, List.forall_mem_append,
    eq_true (target.description.productDescription.fits _),
    eq_true (target.description.revisionData.fits _),
    eq_true (target.description.userDescription.fits _), List.forall_mem_cons,
    List.not_mem_nil, false_implies, implies_true, and_true]
  simp only [Member.Fits, sizeofPtpText, true_and, and_true]
  omega

theorem portStateCode_lt (state : PortState) : portStateCode state < 2 ^ 8 := by
  cases state <;> decide

theorem reportedDelayMechanism_lt (mechanism : Ordinary.DelayMechanism) :
    reportedDelayMechanism mechanism < 2 ^ 8 := by
  cases mechanism <;> decide

theorem portReply_fits_iff (hreply : portReply target id = some reply) :
    (∀ member ∈ reply.members, member.Fits) ↔ PortMeant target id := by
  have hstate := portStateCode_lt (reportedState target.state)
  have hmechanism := reportedDelayMechanism_lt target.delayMechanism
  have htimestamping : target.timestamping.code < 2 ^ 8 := by
    cases target.timestamping <;> decide
  have hsmall : ∀ {offset value : ℕ}, value < 2 ^ 8 →
      (Member.unsigned offset 1 value).Fits := fun hvalue =>
    ⟨Int.natCast_nonneg _, by exact_mod_cast hvalue⟩
  have hversion : ∀ {offset : ℕ},
      (Member.unsigned offset 1 target.versionNumber.toNat).Fits ↔
        target.versionNumber.toNat < 2 ^ 8 := by
    intro offset
    simp only [Member.Fits]
    omega
  cases id <;> simp only [portReply, Option.some.injEq, reduceCtorEq] at hreply <;>
    subst hreply
  case clockDescription =>
    exact iff_of_true (clockDescriptionReply_fits target) (by simp [PortMeant])
  case portPropertiesNp =>
    refine iff_of_true ?_ (by simp [PortMeant])
    simp only [List.forall_mem_append, eq_true (target.tsLabel.fits _)]
    simp [PortIdentity.members, hsmall hstate, hsmall htimestamping]
  all_goals
    simp [PortMeant, datum, PortIdentity.members, hsmall hstate, hsmall hmechanism,
      hversion]

/-! ## What is read -/

/-- The members are read as assigned exactly when they fit, where reception changes
nothing. -/
theorem readsAs_iff_of_same {members : List Member} {size : ℕ} {received : Memory}
    (hstored : ∀ member ∈ members,
      bytesAt mem (mgmtData + member.offset) member.width = member.stored endian)
    (hwithin : Within size members)
    (hagree : AgreeOn mgmtData (mgmtData + size) received mem) :
    (∀ member ∈ members, member.ReadsAs endian received mgmtData) ↔
      ∀ member ∈ members, member.Fits := by
  refine forall₂_congr fun member hmember => Member.readsAs_iff_fits ?_
  rw [← hstored member hmember]
  have hend := hwithin member hmember
  exact bytesAt_congr fun i hge hlt => hagree i (by omega) (by omega)

/-- The low word is read as assigned exactly when it is the computed one. -/
theorem timeStatus_readsAs_iff {received : Memory}
    (hreply : clockReply c subscription .timeStatusNp = some reply)
    (hlies : ∀ member ∈ reply.members,
      bytesAt mem (mgmtData + member.offset) member.width = member.stored endian)
    (hagree : AgreeOn mgmtData (mgmtData + roundUp reply.dataLen) received
      (replyEcho endian MgmtId.timeStatusNp.code reply.dataLen mem)) :
    (∀ member ∈ reply.members, member.ReadsAs endian received mgmtData) ↔
      c.status.lastGmPhaseChange.LowWordComputed endian := by
  have hfits := (clockReply_fits_iff hreply).mpr fun hno => absurd hno (by decide)
  have hwithin := clockReply_within hreply (by decide)
  simp only [clockReply, Option.some.injEq] at hreply
  have hsize : reply.dataLen = 50 := by rw [← hreply]; rfl
  have hecho : replyEcho endian MgmtId.timeStatusNp.code reply.dataLen mem =
      scaledNsEcho endian 80 mem := by
    rw [replyEcho, if_pos ⟨by rw [hsize]; decide, by decide⟩]
    rfl
  rw [hecho, hsize] at hagree
  have hmsb : hostWord endian mem 80 2 =
      c.status.lastGmPhaseChange.nanosecondsMsb.toNat := by
    have hread := (Member.readsAs_iff_fits (hlies (uint16 26
      c.status.lastGmPhaseChange.nanosecondsMsb) (by rw [← hreply]; simp))).mpr
      (uint16_fits _ _)
    exact_mod_cast (show (hostWord endian mem 80 2 : ℤ) =
      c.status.lastGmPhaseChange.nanosecondsMsb.toNat from hread)
  have hlow : hostWord endian received 82 8 =
      endian.ntoh 8 c.status.lastGmPhaseChange.nanosecondsMsb.toNat := by
    rw [Endian.ntoh, hostWord, ← hmsb]
    have hbytes := bytesAt_storeBytes mem 82 (bigEncode 8 (hostWord endian mem 80 2))
    rw [length_bigEncode] at hbytes
    rw [← hbytes]
    exact congrArg _ (bytesAt_congr fun i hge hlt =>
      hagree i (show 54 ≤ i by omega) (show i < 54 + roundUp 50 by
        simp only [roundUp]
        omega))
  have hword : (uint64 28 c.status.lastGmPhaseChange.nanosecondsLsb).ReadsAs endian
      received mgmtData ↔ c.status.lastGmPhaseChange.LowWordComputed endian := by
    show (hostWord endian received 82 8 : ℤ) = _ ↔ _
    rw [hlow, PhaseChange.LowWordComputed, eq_comm]
    exact_mod_cast Iff.rfl
  have hothers : ∀ member ∈ reply.members,
      member = uint64 28 c.status.lastGmPhaseChange.nanosecondsLsb ∨
        member.offset + member.width ≤ 28 ∨ 36 ≤ member.offset := by
    rw [← hreply]
    simp [uint16, uint64, int32, int64, Member.offset, Member.width]
  rw [← hword]
  refine ⟨fun hall => hall _ (by rw [← hreply]; simp), fun hlsb member hmember => ?_⟩
  rcases hothers member hmember with rfl | hplace
  · exact hlsb
  · refine (Member.readsAs_iff_fits ?_).mpr (hfits member hmember)
    have hend := hwithin member hmember
    rw [← hlies member hmember]
    refine bytesAt_congr fun i hge hlt => ?_
    simp only [mgmtData, mgmtTlv, ManagementTlv.data] at hge hlt
    rw [hagree i (show 54 ≤ i by omega) (show i < 54 + roundUp 50 by
      simp only [roundUp]
      omega)]
    exact scaledNsEcho_outside _ _ (by omega)

/-! ## Replies -/

/-- A store that holds the bytes sent and one descriptor. -/
def client (mem : Memory) : Store ParseState where
  mem := mem
  spans := []
  rest := ⟨[], ⟨0, 0⟩, ⟨0, 0⟩, ⟨1, 0⟩⟩

theorem client_hasDescriptors : HasDescriptors host (client mem).rest 1 :=
  Or.inl le_rfl

theorem decodesAsMeant_iff {sent : Store ParseState} {meant : Prop}
    (hsent : msgPreSend host built = (.ok true, sent))
    (hclient : ClientReceives host id.code reply expected built sent)
    (htlv : expected.tlv = mgmtTlv)
    (hdata : id ≠ .nullManagement → 0 < roundUp reply.dataLen)
    (hreads : ∀ received,
      AgreeOn mgmtData (mgmtData + roundUp reply.dataLen) received
        (replyEcho host.endian id.code reply.dataLen built.mem) →
      ((∀ member ∈ reply.members, member.ReadsAs host.endian received mgmtData) ↔
        meant)) :
    DecodesAsMeant host id reply built ↔ meant := by
  constructor
  · rintro ⟨sent', hsent', hdecodes⟩
    obtain ⟨-, rfl⟩ := Prod.mk.inj (hsent.symm.trans hsent')
    obtain ⟨received, hreceived, -, -, -, -, hagree⟩ := hclient (client sent.mem)
      (fun _ _ _ => rfl) rfl client_hasDescriptors
    obtain ⟨received', -, hreceived', -, -, -, -, -, hmembers⟩ := hdecodes
      (client sent.mem) (fun _ _ _ => rfl) rfl client_hasDescriptors
    obtain ⟨-, rfl⟩ := Prod.mk.inj (hreceived.symm.trans hreceived')
    exact (hreads received.mem hagree).mp hmembers
  · intro hmeant
    refine ⟨sent, hsent, fun other hagree hempty hsupply => ?_⟩
    obtain ⟨received, hreceived, hlist, htype, hlength, hid, hsame⟩ :=
      hclient other hagree hempty hsupply
    refine ⟨received, expected, hreceived, hlist, htlv, htype, hid, fun hnull => ?_,
      (hreads received.mem hsame).mpr hmeant⟩
    have hpositive := hdata hnull
    omega

/-- A reply without data is none, unless there is nothing to report. -/
theorem not_decodesAsMeant_of_empty {sent : Store ParseState}
    (hsent : msgPreSend host built = (.ok true, sent))
    (hclient : ClientReceives host id.code reply expected built sent)
    (hid : id ≠ .nullManagement) (hempty : roundUp reply.dataLen = 0) :
    ¬DecodesAsMeant host id reply built := by
  rintro ⟨sent', hsent', hdecodes⟩
  obtain ⟨-, rfl⟩ := Prod.mk.inj (hsent.symm.trans hsent')
  obtain ⟨received, hreceived, -, -, hlength, -, -⟩ := hclient (client sent.mem)
    (fun _ _ _ => rfl) rfl client_hasDescriptors
  obtain ⟨received', -, hreceived', -, -, -, -, hmore, -⟩ := hdecodes
    (client sent.mem) (fun _ _ _ => rfl) rfl client_hasDescriptors
  obtain ⟨-, rfl⟩ := Prod.mk.inj (hreceived.symm.trans hreceived')
  have hpositive := hmore hid
  omega

theorem replyEcho_of_ne (hid : id ≠ .timeStatusNp) (dataLen : ℕ) :
    replyEcho endian id.code dataLen mem = mem := by
  rw [replyEcho, if_neg]
  rintro ⟨-, hno⟩
  rw [MgmtId.ofCode_code] at hno
  cases id <;> simp [MgmtId.parsed] at hno hid

theorem clockReply_dataLen (hreply : clockReply c subscription id = some reply)
    (hid : id ≠ .subscribeEventsNp) : 0 < roundUp reply.dataLen := by
  cases id <;> simp only [clockReply, Option.some.injEq, reduceCtorEq] at hreply <;>
    subst hreply <;>
    first
    | exact absurd rfl hid
    | (simp only [roundUp, datum, DefaultDS.size, CurrentDS.size, ParentDS.size,
        TimePropertiesDS.size, TimeStatusNp.size, GrandmasterSettingsNp.size,
        sizeofPtpText]
       omega)

theorem portReply_dataLen (hreply : portReply target id = some reply)
    (hid : id ≠ .nullManagement) : 0 < roundUp reply.dataLen := by
  cases id <;> simp only [portReply, Option.some.injEq, reduceCtorEq] at hreply <;>
    subst hreply <;>
    first
    | exact absurd rfl hid
    | exact clockDescriptionReply_dataLen_pos target
    | (simp only [roundUp, datum, PortDS.size, PortDsNp.size, PortPropertiesNp.size]
       omega)

/-- What `fillResponse` has answered. -/
theorem fillResponse_answer {n : ℕ} {answer : MgmtId → Option Reply}
    (hfill : fillResponse host n ((MgmtId.ofCode n).bind answer) rsp =
      (.ok true, built)) :
    ∃ id reply, id.code = n ∧ answer id = some reply ∧
      fillResponse host id.code (some reply) rsp = (.ok true, built) := by
  obtain ⟨done, built', hrun, hdone, -⟩ := fillResponse_run host n
    ((MgmtId.ofCode n).bind answer) rsp
  obtain ⟨hsame, rfl⟩ := Prod.mk.inj (hfill.symm.trans hrun)
  obtain rfl := Except.ok.inj hsame
  obtain ⟨reply, hreply, -, -⟩ := hdone rfl
  obtain ⟨id, hid, hanswer⟩ := Option.bind_eq_some_iff.mp hreply
  obtain rfl := MgmtId.code_of_ofCode hid
  exact ⟨id, reply, rfl, hanswer, hreply ▸ hfill⟩

theorem clockReply_decodes_iff (hreply : clockReply c subscription id = some reply)
    (hfill : fillResponse host id.code (some reply) rsp = (.ok true, built))
    (hblank : Blank host.endian rsp) :
    DecodesAsMeant host id reply built ↔ ClockMeant host.endian c id := by
  have hwellFormed := clockReply_wellFormed hreply
  by_cases hevents : id = .subscribeEventsNp
  · subst hevents
    have hsize : reply.dataLen = 0 := by
      simp only [clockReply, Option.some.injEq] at hreply
      rw [← hreply]
    have hcd : reply.cd = {} := by
      simp only [clockReply, Option.some.injEq] at hreply
      rw [← hreply]
    obtain ⟨-, sent, hsent, hclient⟩ := fillResponse_decodes hfill hblank (by decide)
      hwellFormed (List.nil_subset _) (fun _ hno => absurd hno List.not_mem_nil)
      (hsize ▸ subscribeEvents_understood) (plainly reply.cd).1
    exact iff_of_false (not_decodesAsMeant_of_empty hsent hclient (by decide)
      (by rw [hsize]; rfl)) fun hmeant => hmeant.answered rfl
  · have hwithin := clockReply_within hreply hevents
    have hwithin' : Within (roundUp reply.dataLen) reply.members :=
      fun member hmember => (hwithin member hmember).trans (Nat.le_add_right _ _)
    obtain ⟨expected, hunderstood, hpoints, htlv⟩ :=
      @clockReply_understood host.endian _ _ _ _ hreply hevents
    obtain ⟨hlaidOut, sent, hsent, hclient⟩ := fillResponse_decodes hfill hblank
      id.code_lt hwellFormed (List.Subset.refl _) hwithin' hunderstood hpoints
    refine decodesAsMeant_iff hsent hclient htlv
      (fun _ => clockReply_dataLen hreply hevents) fun received hagree => ?_
    by_cases htime : id = .timeStatusNp
    · subst htime
      rw [timeStatus_readsAs_iff hreply hlaidOut.members hagree]
      exact ⟨fun hlow => ⟨by decide, fun _ => hlow, fun hno => absurd hno (by decide)⟩,
        fun hmeant => hmeant.phaseChange rfl⟩
    · rw [replyEcho_of_ne htime] at hagree
      rw [readsAs_iff_of_same hlaidOut.members hwithin' hagree,
        clockReply_fits_iff hreply]
      exact ⟨fun hsettings => ⟨hevents, fun hno => absurd hno htime, hsettings⟩,
        fun hmeant => hmeant.settings⟩

theorem portReply_decodes_iff (hreply : portReply target id = some reply)
    (hfill : fillResponse host id.code (some reply) rsp = (.ok true, built))
    (hblank : Blank host.endian rsp) :
    DecodesAsMeant host id reply built ↔ PortMeant target id := by
  have hwithin := portReply_within hreply
  have hwithin' : Within (roundUp reply.dataLen) reply.members :=
    fun member hmember => (hwithin member hmember).trans (Nat.le_add_right _ _)
  have htime : id ≠ .timeStatusNp := by
    rintro rfl
    simp [portReply] at hreply
  obtain ⟨expected, hunderstood, hpoints, htlv⟩ :=
    @portReply_understood host.endian _ _ _ hreply
  obtain ⟨hlaidOut, sent, hsent, hclient⟩ := fillResponse_decodes hfill hblank
    id.code_lt (portReply_wellFormed hreply) (List.Subset.refl _) hwithin' hunderstood
    hpoints
  refine decodesAsMeant_iff hsent hclient htlv (portReply_dataLen hreply)
    fun received hagree => ?_
  rw [replyEcho_of_ne htime] at hagree
  rw [readsAs_iff_of_same hlaidOut.members hwithin' hagree, portReply_fits_iff hreply]

/-- Exactly the replies that say what was meant are decoded to it, among all that the
two functions produce. -/
theorem mgmtReply_decodes_iff (host : Host) (n : ℕ) {rsp built : Store ParseState}
    (hblank : Blank host.endian rsp) :
    (∀ (c : ReportedClock) (subscription : Option Subscription),
      clockManagementFillResponse host c subscription n rsp = (.ok true, built) →
      ∃ id reply, id.code = n ∧ clockReply c subscription id = some reply ∧
        (DecodesAsMeant host id reply built ↔ ClockMeant host.endian c id)) ∧
    ∀ target : ReportedPort,
      portManagementFillResponse host target n rsp = (.ok true, built) →
      ∃ id reply, id.code = n ∧ portReply target id = some reply ∧
        (DecodesAsMeant host id reply built ↔ PortMeant target id) := by
  constructor
  · intro c subscription hrun
    obtain ⟨id, reply, hid, hreply, hfill⟩ := fillResponse_answer hrun
    exact ⟨id, reply, hid, hreply, clockReply_decodes_iff hreply hfill hblank⟩
  · intro target hrun
    obtain ⟨id, reply, hid, hreply, hfill⟩ := fillResponse_answer hrun
    exact ⟨id, reply, hid, hreply, portReply_decodes_iff hreply hfill hblank⟩

/-! ## A client that asks for its subscription -/

def subscribed : Subscription where
  duration := 60
  bitmask := Vector.replicate 64 0xff

/-- The reply to a request for the events subscribed to carries no data. -/
theorem subscribeEvents_not_decodesAsMeant :
    ∃ built reply, clockManagementFillResponse smallHost reportedClock (some subscribed)
        MgmtId.subscribeEventsNp.code blankReply = (.ok true, built) ∧
      clockReply reportedClock (some subscribed) .subscribeEventsNp = some reply ∧
      ¬DecodesAsMeant smallHost .subscribeEventsNp reply built := by
  have hid : MgmtId.ofCode MgmtId.subscribeEventsNp.code = some .subscribeEventsNp := by
    decide
  obtain ⟨reply, hreply⟩ : ∃ reply,
      clockReply reportedClock (some subscribed) .subscribeEventsNp = some reply :=
    ⟨_, rfl⟩
  obtain ⟨done, built, hrun, -, hsupply⟩ := fillResponse_run smallHost
    MgmtId.subscribeEventsNp.code (some reply) blankReply
  obtain rfl : done = true := hsupply (Option.some_ne_none _) (Or.inr fun _ => rfl)
  refine ⟨built, reply, ?_, hreply, ?_⟩
  · rw [clockManagementFillResponse, hid, Option.bind_some, hreply]
    exact hrun
  · rw [clockReply_decodes_iff hreply hrun blankReply_blank]
    exact fun hmeant => hmeant.answered rfl

theorem mgmtReply_decodes_iff_defaultDataSet :
    ∃ built reply, clockManagementFillResponse smallHost reportedClock none
        MgmtId.defaultDataSet.code blankReply = (.ok true, built) ∧
      clockReply reportedClock none .defaultDataSet = some reply ∧
      DecodesAsMeant smallHost .defaultDataSet reply built := by
  have hid : MgmtId.ofCode MgmtId.defaultDataSet.code = some .defaultDataSet := by decide
  obtain ⟨done, built, hrun, -, hsupply⟩ := fillResponse_run smallHost
    MgmtId.defaultDataSet.code
    ((MgmtId.ofCode MgmtId.defaultDataSet.code).bind (clockReply reportedClock none))
    blankReply
  obtain rfl : done = true := hsupply (by rw [hid]; exact Option.some_ne_none _)
    (Or.inr fun _ => rfl)
  obtain ⟨id, reply, hcode, hreply, hiff⟩ :=
    (mgmtReply_decodes_iff smallHost MgmtId.defaultDataSet.code blankReply_blank).1
      reportedClock none hrun
  obtain rfl : id = .defaultDataSet := by
    cases id <;> first | rfl | exact absurd hcode (by decide)
  exact ⟨built, reply, hrun, hreply, hiff.mpr ⟨by decide,
    fun hno => absurd hno (by decide), fun hno => absurd hno (by decide)⟩⟩

end LinuxPtp.Clock
