import LinuxPtp.Clock.MgmtLaidOut

/-!
# Decoding replies

A reply is a message with one management TLV.  When the data are laid out as the
format asks, encoding succeeds and every receiver finds the same TLV, but for the
low word of the last phase change of the grandmaster.
-/

namespace LinuxPtp.Clock

open ByteOrder Access Wire Port Bmc

/-! ## The TLV of a reply -/

/-- A management TLV with these members lies where the TLV of a reply does. -/
structure TlvLies (endian : Endian) (id dataLen : ℕ) (members : List Member)
    (mem : Memory) : Prop where
  type : hostWord endian mem mgmtTlv 2 = TlvType.management.code
  length : hostWord endian mem (mgmtTlv + 2) 2 = 2 + roundUp dataLen
  id : hostWord endian mem (mgmtTlv + 4) 2 = id
  members : ∀ member ∈ members,
    bytesAt mem (mgmtData + member.offset) member.width = member.stored endian

def Within (size : ℕ) (members : List Member) : Prop :=
  ∀ member ∈ members, member.offset + member.width ≤ size

/-- Wherever the TLV lies, it has the form that the parser asks for, and the parser
finds what `expected` points to. -/
def Understood (endian : Endian) (id dataLen : ℕ) (members : List Member)
    (expected : TlvExtra) : Prop :=
  ∀ mem, TlvLies endian id dataLen members mem →
    Formatted endian TlvType.management.code (2 + roundUp dataLen) mgmtTlv mem ∧
      located endian TlvType.management.code (2 + roundUp dataLen) mgmtTlv mem =
        expected

variable {endian : Endian} {host : Host} {id dataLen : ℕ} {members : List Member}
variable {mem mem' : Memory} {expected extra : TlvExtra}

theorem TlvLies.congr (hlies : TlvLies endian id dataLen members mem)
    (hwithin : Within (roundUp dataLen) members)
    (hagree : AgreeOn 48 (54 + roundUp dataLen) mem' mem) :
    TlvLies endian id dataLen members mem' where
  type := (hostWord_congr endian fun i hge hlt => by
    simp only [mgmtTlv] at hge hlt
    exact hagree i (by omega) (by omega)).trans hlies.type
  length := (hostWord_congr endian fun i hge hlt => by
    simp only [mgmtTlv] at hge hlt
    exact hagree i (by omega) (by omega)).trans hlies.length
  id := (hostWord_congr endian fun i hge hlt => by
    simp only [mgmtTlv] at hge hlt
    exact hagree i (by omega) (by omega)).trans hlies.id
  members member hmember := (bytesAt_congr fun i hge hlt => by
    have hend := hwithin member hmember
    simp only [mgmtData, mgmtTlv, ManagementTlv.data] at hge hlt
    exact hagree i (by omega) (by omega)).trans (hlies.members member hmember)

/-- The TLV as it is received: the low word of the last phase change is computed. -/
def replyEcho (endian : Endian) (id dataLen : ℕ) (mem : Memory) : Memory :=
  if 0 < roundUp dataLen ∧ ManagementId.ofCode id = some .timeStatusNp then
    scaledNsEcho endian (mgmtData + TimeStatusNp.lastGmPhaseChange) mem
  else mem

theorem management_ofCode :
    TlvType.ofCode TlvType.management.code = some .management := by decide

theorem TlvLies.hostEcho (hlies : TlvLies endian id dataLen members mem) :
    hostEcho endian TlvType.management.code (2 + roundUp dataLen) mgmtTlv mem =
      replyEcho endian id dataLen mem := by
  have hmore : 2 + roundUp dataLen > ManagementTlv.id.width ↔
      0 < roundUp dataLen := by
    simp only [ManagementTlv.id]
    omega
  simp only [Wire.hostEcho, hostPhaseChange, management_ofCode, hlies.id, replyEcho,
    hmore]
  split_ifs <;> rfl

theorem Understood.replyEcho_agreeOn
    (hunderstood : Understood endian id dataLen members expected)
    (hlies : TlvLies endian id dataLen members mem)
    (hagree : AgreeOn 48 (54 + roundUp dataLen) mem' mem) :
    AgreeOn 48 (54 + roundUp dataLen) (replyEcho endian id dataLen mem')
      (replyEcho endian id dataLen mem) := by
  unfold replyEcho
  split
  · rename_i htimeStatus
    obtain ⟨hmore, htimeStatus⟩ := htimeStatus
    obtain ⟨hformat, -⟩ := hunderstood mem hlies
    simp only [Formatted, management_ofCode] at hformat
    have hdata := hformat.2 (by simp only [ManagementTlv.id]; omega)
    rw [hlies.id] at hdata
    simp only [MgtFormatted, htimeStatus, ManagementTlv.id, TimeStatusNp.size] at hdata
    refine scaledNsEcho_agreeOn endian hagree (by decide) ?_
    simp only [mgmtData, mgmtTlv, ManagementTlv.data, TimeStatusNp.lastGmPhaseChange]
    omega
  · exact hagree

/-! ## Decoding -/

/-- A reply whose TLV is understood is encoded and decoded. -/
theorem Understood.decodes {built : Store ParseState}
    (hunderstood : Understood host.endian id dataLen members expected)
    (hlies : TlvLies host.endian id dataLen members built.mem)
    (hwithin : Within (roundUp dataLen) members)
    (hpoints : PointsInto extra expected) (hextra : extra.tlv = mgmtTlv)
    (hlist : built.rest.tlvList = [extra])
    (hversion : versionOf built.mem = version)
    (htype : typeOf built.mem = some .management) :
    ∃ sent, msgPreSend host built = (.ok true, sent) ∧
      Decodes host .management (54 + roundUp dataLen) sent.mem built.mem
        (replyEcho host.endian id dataLen built.mem) [expected] := by
  have hconverts : ∀ mem, AgreeOn 48 (54 + roundUp dataLen) mem built.mem →
      ListConverts host built.rest.tlvList [expected] 48 (54 + roundUp dataLen) mem
        (replyEcho host.endian id dataLen built.mem) := by
    intro mem hagree
    have hlies' := hlies.congr hwithin hagree
    obtain ⟨hformat, hlocated⟩ := hunderstood mem hlies'
    obtain ⟨wire, hconverts⟩ := @suffixConverts host extra mem
      TlvType.management.code (2 + roundUp dataLen)
      (by rw [hextra]; exact hlies'.type) (by rw [hextra]; exact hlies'.length)
      (by simp only [roundUp]; omega) (by rw [hextra]; exact hformat)
      (by rw [hextra, hlocated]; exact hpoints)
    rw [hextra, hlocated, hlies'.hostEcho] at hconverts
    rw [hlist]
    exact listConverts_cons hconverts hextra
      (show 48 + 4 + (2 + roundUp dataLen) = 54 + roundUp dataLen by omega) le_rfl
      (hunderstood.replyEcho_agreeOn hlies hagree) fun mem' _ =>
      ListConverts.congr listConverts_nil fun i hge hlt =>
        absurd hlt (Nat.not_lt.mpr hge)
  obtain ⟨sent, hsent, -, -, hdecodes⟩ := @message_decodes host .management
    (54 + roundUp dataLen) built [expected]
    (replyEcho host.endian id dataLen built.mem) hversion htype
    (show 48 ≤ 54 + roundUp dataLen by omega)
    (fun hno => absurd hno (by decide)) (fun hno => absurd hno (by decide)) hconverts
  exact ⟨sent, hsent, hdecodes⟩

/-! ## From filling in to decoding -/

/-- A reply as `port_management_reply` makes it: the fixed part of a message. -/
structure Blank (endian : Endian) (rsp : Store ParseState) : Prop where
  version : versionOf rsp.mem = version
  type : typeOf rsp.mem = some .management
  tlvList : rsp.rest.tlvList = []
  messageLength : hostWord endian rsp.mem 2 2 = mgmtTlv

/-- A client that receives the reply parses it, and finds the TLV and its data. -/
def ClientReceives (host : Host) (id : ℕ) (reply : Reply) (expected : TlvExtra)
    (built sent : Store ParseState) : Prop :=
  ∀ other : Store ParseState,
    AgreeOn 0 (hostWord host.endian built.mem 2 2) other.mem sent.mem →
    other.rest.tlvList = [] → HasDescriptors host other.rest 1 →
    ∃ received, ptpMsgReceive host (hostWord host.endian built.mem 2 2) other =
        (.ok (), received) ∧
      received.rest.tlvList = [expected] ∧
      hostWord host.endian received.mem mgmtTlv 2 = TlvType.management.code ∧
      hostWord host.endian received.mem (mgmtTlv + 2) 2 = 2 + roundUp reply.dataLen ∧
      hostWord host.endian received.mem (mgmtTlv + 4) 2 = id ∧
      AgreeOn mgmtData (mgmtData + roundUp reply.dataLen) received.mem
        (replyEcho host.endian id reply.dataLen built.mem)

/-- The client receives what was filled in. -/
theorem fillResponse_decodes {rsp built : Store ParseState} {reply : Reply}
    (hfill : fillResponse host id (some reply) rsp = (.ok true, built))
    (hblank : Blank host.endian rsp) (hid : id < 2 ^ 16)
    (hwellFormed : reply.WellFormed) {members : List Member}
    (hmembers : members ⊆ reply.members)
    (hwithin : Within (roundUp reply.dataLen) members)
    (hunderstood : Understood host.endian id reply.dataLen members expected)
    (hpoints : PointsInto { tlv := mgmtTlv, cd := reply.cd } expected) :
    LaidOut host.endian id reply rsp.mem built.mem ∧
      ∃ sent, msgPreSend host built = (.ok true, sent) ∧
        ClientReceives host id reply expected built sent := by
  obtain ⟨done, built', hfill', hdone, -⟩ := fillResponse_run host id (some reply) rsp
  obtain ⟨hsame, rfl⟩ := Prod.mk.inj (hfill.symm.trans hfill')
  obtain rfl := Except.ok.inj hsame
  obtain ⟨answer, hanswer, hmem, hlist⟩ := hdone rfl
  obtain rfl := Option.some.inj hanswer
  have hlaidOut : LaidOut host.endian id reply rsp.mem built.mem :=
    hmem ▸ layOut_laidOut hwellFormed hid hblank.messageLength
  have hlies : TlvLies host.endian id reply.dataLen members built.mem :=
    ⟨hlaidOut.type, hlaidOut.length, hlaidOut.id, fun member hmember =>
      hlaidOut.members member (hmembers hmember)⟩
  have hversion : versionOf built.mem = version := by
    rw [versionOf, hlaidOut.fixed 1 (by decide) (by decide)]
    exact hblank.version
  have htype : typeOf built.mem = some .management := by
    rw [typeOf, hlaidOut.fixed 0 (by decide) (by decide)]
    exact hblank.type
  rw [hblank.tlvList, List.nil_append] at hlist
  obtain ⟨sent, hsent, hdecodes⟩ :=
    hunderstood.decodes hlies hwithin hpoints rfl hlist hversion htype
  have hcnt : hostWord host.endian built.mem 2 2 = 54 + roundUp reply.dataLen :=
    hlaidOut.messageLength
  refine ⟨hlaidOut, sent, hsent, fun other hagree hempty hfree => ?_⟩
  rw [hcnt] at hagree ⊢
  obtain ⟨received, hreceived, hlist', -, hbehind, -⟩ :=
    hdecodes other hagree hempty hfree
  have hheader : ∀ offset, 48 ≤ offset → offset + 2 ≤ 54 →
      hostWord host.endian received.mem offset 2 =
        hostWord host.endian built.mem offset 2 := by
    intro offset hge hle
    refine hostWord_congr _ fun i hlow hhigh => ?_
    rw [hbehind i (show 48 ≤ i by omega) (by omega), replyEcho]
    split
    · refine scaledNsEcho_outside _ _ (Or.inl ?_)
      simp only [mgmtData, mgmtTlv, ManagementTlv.data,
        TimeStatusNp.lastGmPhaseChange]
      omega
    · rfl
  refine ⟨received, hreceived, hlist', ?_, ?_, ?_, fun i hge hlt => ?_⟩
  · rw [hheader mgmtTlv (by decide) (by decide)]
    exact hlaidOut.type
  · rw [hheader (mgmtTlv + 2) (by decide) (by decide)]
    exact hlaidOut.length
  · rw [hheader (mgmtTlv + 4) (by decide) (by decide)]
    exact hlaidOut.id
  · simp only [mgmtData, mgmtTlv, ManagementTlv.data] at hge hlt
    exact hbehind i (show 48 ≤ i by omega) (by omega)

/-- The fixed part of a reply, on a machine that stores the low byte first. -/
def blankReply : Store ParseState where
  mem i := ([13, 2, 48] : List UInt8).getD i 0
  spans := []
  rest := ⟨[], ⟨0, 0⟩, ⟨0, 0⟩, ⟨0, 0⟩⟩

theorem blankReply_blank : Blank smallHost.endian blankReply :=
  ⟨by decide, by decide, rfl, by decide⟩

end LinuxPtp.Clock
