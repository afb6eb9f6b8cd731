import LinuxPtp.Wire.Fields

/-!
# Parsing stays inside the datagram

Each conversion of a TLV is confined to the bytes of that TLV, hence the whole
of `ptpMsgReceive` to the bytes received.  The TLV list it leaves behind tiles
an initial part of what follows the body.
-/

namespace LinuxPtp.Wire

open ByteOrder Access

/-- The errors that a parser reports about a message, as opposed to running
away. -/
def Refusal : Errno → Prop
  | .ebadmsg | .eproto | .enomem => True
  | .nullPointer | .endlessLoop => False

def onBuffer : Effects ParseState Errno := .bufferOnly Refusal

section

variable (host : Host) {lo hi : ℕ}

/-! ## Fields and scalars -/

/-- Fields are converted where they are. -/
theorem confined_swapFields {base : ℕ} (start stop : ℕ) {fields : List Field}
    (hfields : FieldsWithin start stop fields) (hlo : lo ≤ base + start)
    (hhi : base + stop ≤ hi) :
    Confined onBuffer lo hi (swapFields host base fields) := by
  induction fields with
  | nil => exact .pure ()
  | cons field fields ih =>
    have hfield := hfields field (List.mem_cons_self ..)
    refine .bind (.swapWord _ (by omega) (by omega)) fun _ => ih ?_
    exact fun other hother => hfields other (List.mem_cons_of_mem _ hother)

theorem confined_readField {base : ℕ} {field : Field}
    (hlo : lo ≤ base + field.offset)
    (hhi : base + field.offset + field.width ≤ hi) :
    Confined onBuffer lo hi (readField host base field) :=
  .readWord _ hlo hhi

theorem confined_flip16 {ptr : ℕ} (hlo : lo ≤ ptr) (hhi : ptr + 2 ≤ hi) :
    Confined onBuffer lo hi (flip16 host ptr) :=
  .bind (.swapWord _ hlo hhi) fun _ => .readWord _ hlo hhi

theorem confined_scaledNsN2h {sns : ℕ} (hlo : lo ≤ sns)
    (hhi : sns + ScaledNs.size ≤ hi) :
    Confined onBuffer lo hi (scaledNsN2h host sns) := by
  simp only [ScaledNs.size] at hhi
  refine .bind (confined_swapFields host 0 12 (by decide) hlo hhi)
    fun _ => ?_
  refine .bind (confined_readField host ?_ ?_) fun _ => ?_
  · simp only [ScaledNs.nanosecondsMsb]; omega
  · simp only [ScaledNs.nanosecondsMsb]; omega
  refine .bind (.writeWord _ ?_ ?_) fun _ => ?_
  · simp only [ScaledNs.nanosecondsLsb]; omega
  · simp only [ScaledNs.nanosecondsLsb]; omega
  exact confined_swapFields host 0 12 (by decide) hlo hhi

/-! ## Clock descriptions -/

/-- The later cursor has moved on by at least `count` bytes and still ends
where the earlier one ends. -/
def Cursor.Advances (cursor later : Cursor) (count : ℕ) : Prop :=
  cursor.buf + count ≤ later.buf ∧
    later.buf + later.len = cursor.buf + cursor.len

theorem skip_returns (cursor : Cursor) (count : ℕ) :
    Returns (cursor.skip count) fun later => cursor.Advances later count := by
  refine .ite (fun _ => .fail _) fun hlen => .pure ?_
  constructor <;> simp only <;> omega

theorem skipAddress_returns (cursor : Cursor) (length : ℕ) :
    Returns (cursor.skipAddress length) fun later =>
      cursor.Advances later 0 := by
  refine .ite (fun _ => .fail _) fun _ => ?_
  refine (skip_returns cursor length).mono fun later hlater => ?_
  exact ⟨by have := hlater.1; omega, hlater.2⟩

/-- The cursor moves over a text by its length byte at least. -/
theorem skipText_returns (cursor : Cursor) :
    Returns cursor.skipText fun later =>
      cursor.Advances later sizeofPtpText := by
  refine .bind (skip_returns cursor _) fun middle hmiddle => ?_
  refine .bind (.trivial _) fun length _ => ?_
  refine (skip_returns middle length).mono fun later hlater => ?_
  have := hmiddle.1
  have := hmiddle.2
  have := hlater.1
  exact ⟨by omega, by rw [hlater.2, hmiddle.2]⟩

theorem confined_skip (cursor : Cursor) (count : ℕ) :
    Confined onBuffer lo hi (cursor.skip count) :=
  .ite (fun _ => .fail trivial) fun _ => .pure _

theorem confined_skipAddress (cursor : Cursor) (length : ℕ) :
    Confined onBuffer lo hi (cursor.skipAddress length) :=
  .ite (fun _ => .fail trivial) fun _ => confined_skip cursor length

theorem confined_skipText {cursor : Cursor} (hlo : lo ≤ cursor.buf)
    (hhi : cursor.buf + cursor.len ≤ hi) : Confined onBuffer lo hi cursor.skipText := by
  refine .bind_of_returns (confined_skip _ _) (skip_returns cursor _)
    fun middle hmiddle => ?_
  have hroom : cursor.buf + 1 ≤ hi := by
    have := hmiddle.1
    have := hmiddle.2
    simp only [sizeofPtpText] at *
    omega
  exact .bind (.readByte hlo hroom) fun _ => confined_skip _ _

/-- A clock description is parsed within its data. -/
theorem confined_clockDescriptionPostRecv {data dataLen : ℕ} (hlo : lo ≤ data)
    (hhi : data + dataLen ≤ hi) :
    Confined onBuffer lo hi (clockDescriptionPostRecv host data dataLen) := by
  unfold clockDescriptionPostRecv
  refine .bind_of_returns (confined_skip _ _) (skip_returns _ _)
    fun c1 ⟨h1, e1⟩ => ?_
  simp only at h1 e1
  refine .bind (confined_flip16 host (by simpa using hlo) (by simp only; omega)) fun _ => ?_
  refine .bind_of_returns (confined_skipText (by omega) (by omega))
    (skipText_returns _) fun c2 ⟨h2, e2⟩ => ?_
  refine .bind_of_returns (confined_skip _ _) (skip_returns _ _)
    fun c3 ⟨h3, e3⟩ => ?_
  simp only [sizeofPtpText, sizeofPhysicalAddress] at h2 h3
  refine .bind (confined_flip16 host ?_ ?_) fun u16 => ?_
  · simp only [PhysicalAddress.length]; omega
  · simp only [PhysicalAddress.length]; omega
  refine .bind_of_returns (confined_skipAddress _ _) (skipAddress_returns _ _)
    fun c4 ⟨h4, e4⟩ => ?_
  refine .bind_of_returns (confined_skip _ _) (skip_returns _ _)
    fun c5 ⟨h5, e5⟩ => ?_
  simp only [sizeofPortAddress] at h5
  refine .bind (confined_flip16 host ?_ ?_) fun _ => ?_
  · simp only [PortAddress.networkProtocol]; omega
  · simp only [PortAddress.networkProtocol]; omega
  refine .bind (confined_flip16 host ?_ ?_) fun u16 => ?_
  · simp only [PortAddress.addressLength]; omega
  · simp only [PortAddress.addressLength]; omega
  refine .bind_of_returns (confined_skipAddress _ _) (skipAddress_returns _ _)
    fun c6 ⟨h6, e6⟩ => ?_
  refine .bind_of_returns (confined_skip _ _) (skip_returns _ _)
    fun c7 ⟨h7, e7⟩ => ?_
  refine .bind_of_returns (confined_skipText (by omega) (by omega))
    (skipText_returns _) fun c8 ⟨h8, e8⟩ => ?_
  refine .bind_of_returns (confined_skipText (by omega) (by omega))
    (skipText_returns _) fun c9 ⟨h9, e9⟩ => ?_
  refine .bind (confined_skipText (by omega) (by omega)) fun c10 => ?_
  exact .bind (confined_skip _ _) fun c11 => .pure _

/-! ## Management TLVs -/

theorem confined_dataSetPostRecv {dataLen size : ℕ} {convert : WireM Unit}
    (extra : TlvExtra)
    (hconvert : dataLen = size → Confined onBuffer lo hi convert) :
    Confined onBuffer lo hi (dataSetPostRecv dataLen size convert extra) :=
  .ite (fun _ => .fail trivial) fun hlen =>
    .bind (hconvert (not_not.mp hlen)) fun _ => .pure _

/-- A data set whose members are converted in one go. -/
theorem confined_dataSetFields {data dataLen size : ℕ} {fields : List Field}
    (extra : TlvExtra) (hfields : FieldsWithin 0 size fields) (hlo : lo ≤ data)
    (hhi : data + dataLen ≤ hi) :
    Confined onBuffer lo hi
      (dataSetPostRecv dataLen size (swapFields host data fields) extra) :=
  confined_dataSetPostRecv extra fun hlen =>
    confined_swapFields host 0 _ hfields hlo (by omega)

theorem confined_timeStatusNp {data : ℕ} (hlo : lo ≤ data)
    (hhi : data + TimeStatusNp.size ≤ hi) :
    Confined onBuffer lo hi (do
      swapFields host data
        [TimeStatusNp.masterOffset, TimeStatusNp.ingressTime,
          TimeStatusNp.cumulativeScaledRateOffset,
          TimeStatusNp.scaledLastGmPhaseChange,
          TimeStatusNp.gmTimeBaseIndicator]
      scaledNsN2h host (data + TimeStatusNp.lastGmPhaseChange)
      swapFields host data [TimeStatusNp.gmPresent]) := by
  refine .bind (confined_swapFields host 0 _ (by decide) hlo hhi)
    fun _ => ?_
  refine .bind (confined_scaledNsN2h host (by omega) ?_) fun _ => ?_
  · simp only [TimeStatusNp.lastGmPhaseChange, ScaledNs.size,
      TimeStatusNp.size] at *
    omega
  · exact confined_swapFields host 0 _ (by decide) hlo hhi

/-- All management data is. -/
theorem confined_mgtDataPostRecv (id : ℕ) {data dataLen : ℕ}
    (extra : TlvExtra) (hlo : lo ≤ data) (hhi : data + dataLen ≤ hi) :
    Confined onBuffer lo hi (mgtDataPostRecv host id data dataLen extra) := by
  unfold mgtDataPostRecv
  split
  case h_1 =>
    exact .bind (confined_clockDescriptionPostRecv host hlo hhi) fun _ => .pure _
  case h_2 =>
    refine .ite (fun _ => .fail trivial) fun hlen => ?_
    simp only [sizeofPtpText] at hlen
    exact .bind (.readByte hlo (by omega)) fun _ => .pure _
  case h_8 =>
    exact confined_dataSetPostRecv extra fun hlen =>
      confined_timeStatusNp host hlo (by omega)
  case h_12 =>
    refine .ite (fun _ => .fail trivial) fun hlen => ?_
    have hroom : data + PortPropertiesNp.size ≤ hi := by omega
    refine .bind (confined_swapFields host 0 _ (by decide) hlo hroom)
      fun _ => ?_
    refine .bind (.readByte (by omega) ?_) fun _ => .pure _
    simp only [PortPropertiesNp.intfTxtLength, PortPropertiesNp.size] at *
    omega
  case h_13 | h_14 | h_15 | h_16 | h_17 | h_18 =>
    exact confined_dataSetPostRecv extra fun _ => .pure ()
  case h_19 => exact .pure _
  all_goals exact confined_dataSetFields host extra (by decide) hlo hhi

/-- So a management TLV is parsed within its bounds, -/
theorem confined_mgtPostRecv {m length : ℕ} (extra : TlvExtra) (hlo : lo ≤ m + 4)
    (hlen : ManagementTlv.id.width ≤ length) (hhi : m + sizeofTlv + length ≤ hi) :
    Confined onBuffer lo hi
      (mgtPostRecv host m length (length - ManagementTlv.id.width) extra) := by
  simp only [ManagementTlv.id, sizeofTlv] at *
  refine .bind (confined_readField host hlo ?_) fun id => ?_
  · simp only [ManagementTlv.id]
    omega
  refine .bind (confined_mgtDataPostRecv host id extra ?_ ?_) fun result => ?_
  · simp only [ManagementTlv.data]
    omega
  · simp only [ManagementTlv.data]
    omega
  · exact .ite (fun _ => .fail trivial) fun _ => .pure _

/-! ## The other TLVs -/

theorem confined_swapNsmRespFoot {foot : ℕ} {members : List (ℕ × List Field)}
    (hmembers : ∀ member ∈ members,
      FieldsWithin 0 (NsmResp.footSize - member.1) member.2 ∧
        member.1 ≤ NsmResp.footSize)
    (hlo : lo ≤ foot) (hhi : foot + NsmResp.footSize ≤ hi) :
    Confined onBuffer lo hi (swapNsmRespFoot host foot members) := by
  induction members with
  | nil => exact .pure ()
  | cons member members ih =>
    obtain ⟨hfields, hmember⟩ := hmembers member (List.mem_cons_self ..)
    refine .bind (confined_swapFields host 0 _ hfields (by omega)
      (by omega)) fun _ => ih ?_
    exact fun other hother => hmembers other (List.mem_cons_of_mem _ hother)

/-- a monitoring response, -/
theorem confined_nsmRespPostRecv {tlv length : ℕ} (extra : TlvExtra)
    (hlo : lo ≤ tlv + 4) (hhi : tlv + sizeofTlv + length ≤ hi) :
    Confined onBuffer lo hi (nsmRespPostRecv host tlv length extra) := by
  refine .ite (fun _ => .fail trivial) fun hlen => ?_
  simp only [NsmResp.headSize, NsmResp.footSize, sizeofTlv] at hlen hhi
  refine .bind (confined_swapFields host 0 4 (by decide) ?_ ?_)
    fun _ => ?_
  · simp only [NsmResp.parentAddr]
    omega
  · simp only [NsmResp.parentAddr]
    omega
  refine .bind (confined_readField host ?_ ?_) fun networkProtocol => ?_
  · simp only [NsmResp.parentAddr, PortAddress.networkProtocol]
    omega
  · simp only [NsmResp.parentAddr, PortAddress.networkProtocol]
    omega
  split
  · exact .fail trivial
  refine .bind (confined_readField host ?_ ?_) fun addressLength => ?_
  · simp only [NsmResp.parentAddr, PortAddress.addressLength]
    omega
  · simp only [NsmResp.parentAddr, PortAddress.addressLength]
    omega
  refine .ite (fun _ => .fail trivial) fun _ => ?_
  refine .ite (fun _ => .fail trivial) fun hexact => ?_
  simp only [NsmResp.headSize, NsmResp.footSize, sizeofTlv] at hexact
  refine .bind (confined_swapNsmRespFoot host (by decide) ?_ ?_) fun _ => .pure _
  · simp only [NsmResp.headSize]
    omega
  · simp only [NsmResp.headSize, NsmResp.footSize]
    omega

theorem confined_orgSubtype {org : ℕ} (hlo : lo ≤ org + 4)
    (hhi : org + OrganizationTlv.size ≤ hi) :
    Confined onBuffer lo hi (orgSubtype org) := by
  simp only [OrganizationTlv.size] at hhi
  unfold orgSubtype
  simp only [OrganizationTlv.id, OrganizationTlv.subtype]
  refine .bind (.readByte (by omega) (by omega)) fun id0 => ?_
  refine .bind (.readByte (by omega) (by omega)) fun id1 => ?_
  refine .bind (.readByte (by omega) (by omega)) fun id2 => ?_
  refine .ite (fun _ => ?_) fun _ => .pure _
  refine .bind (.readByte (by omega) (by omega)) fun subtype0 => ?_
  refine .bind (.readByte (by omega) (by omega)) fun subtype1 => ?_
  refine .ite (fun _ => .pure _) fun _ => ?_
  exact .bind (.readByte (by omega) (by omega)) fun subtype2 => .pure _

theorem confined_followUpInfo {org : ℕ} (hlo : lo ≤ org + 10)
    (hhi : org + FollowUpInfoTlv.size ≤ hi) :
    Confined onBuffer lo hi (do
      swapFields host org
        [FollowUpInfoTlv.cumulativeScaledRateOffset,
          FollowUpInfoTlv.gmTimeBaseIndicator]
      scaledNsN2h host (org + FollowUpInfoTlv.lastGmPhaseChange)
      swapFields host org [FollowUpInfoTlv.scaledLastGmPhaseChange]) := by
  simp only [FollowUpInfoTlv.size] at hhi
  refine .bind (confined_swapFields host 10 32
    (by decide) (by omega) (by omega)) fun _ => ?_
  refine .bind (confined_scaledNsN2h host ?_ ?_) fun _ => ?_
  · simp only [FollowUpInfoTlv.lastGmPhaseChange]
    omega
  · simp only [FollowUpInfoTlv.lastGmPhaseChange, ScaledNs.size]
    omega
  exact confined_swapFields host 10 32 (by decide)
    (by omega) (by omega)

/-- an extension, -/
theorem confined_orgPostRecv {org length : ℕ} (hlo : lo ≤ org + 4)
    (hlen : OrganizationTlv.size - sizeofTlv ≤ length)
    (hhi : org + sizeofTlv + length ≤ hi) :
    Confined onBuffer lo hi (orgPostRecv host org length) := by
  simp only [OrganizationTlv.size, sizeofTlv] at hlen hhi
  refine .bind (confined_orgSubtype hlo ?_) fun subtype => ?_
  · simp only [OrganizationTlv.size]
    omega
  refine .ite (fun _ => ?_) fun _ => .pure ()
  refine .ite (fun _ => .fail trivial) fun hsize => ?_
  simp only [sizeofTlv] at hsize
  exact confined_followUpInfo host (by omega) (by omega)

theorem confined_unicastTlvPostRecv {tlv length size : ℕ}
    {convert : WireM Unit} (hsize : UnicastXmitTlv.cancelSize ≤ size)
    (hlo : lo ≤ tlv + 4) (hhi : tlv + sizeofTlv + length ≤ hi)
    (hconvert : tlv + size ≤ hi → Confined onBuffer lo hi convert) :
    Confined onBuffer lo hi (unicastTlvPostRecv tlv length size convert) := by
  simp only [UnicastXmitTlv.cancelSize, sizeofTlv] at hsize hhi
  refine .ite (fun _ => .fail trivial) fun hlen => ?_
  simp only [sizeofTlv] at hlen
  refine .bind (.readByte ?_ ?_) fun messageType => ?_
  · simp only [UnicastXmitTlv.messageType]
    omega
  · simp only [UnicastXmitTlv.messageType]
    omega
  exact .ite (fun _ => .fail trivial) fun _ => hconvert (by omega)

/-- and a TLV of the unicast negotiation. -/
theorem confined_unicastNegotiationPostRecv (type : TlvType) {tlv length : ℕ}
    (hlo : lo ≤ tlv + 4) (hhi : tlv + sizeofTlv + length ≤ hi) :
    Confined onBuffer lo hi
      (unicastNegotiationPostRecv host type tlv length) := by
  have hduration : ∀ size, UnicastXmitTlv.requestSize ≤ size →
      tlv + size ≤ hi → Confined onBuffer lo hi
        (swapFields host tlv [UnicastXmitTlv.durationField]) := by
    intro size hsize hroom
    simp only [UnicastXmitTlv.requestSize] at hsize
    exact confined_swapFields host 6 10 (by decide)
      (by omega) (by omega)
  unfold unicastNegotiationPostRecv
  split
  · exact confined_unicastTlvPostRecv (by decide) hlo hhi
      (hduration _ (by decide))
  · exact confined_unicastTlvPostRecv (by decide) hlo hhi
      (hduration _ (by decide))
  · exact confined_unicastTlvPostRecv (by decide) hlo hhi fun _ => .pure ()
  · exact confined_unicastTlvPostRecv (by decide) hlo hhi fun _ => .pure ()
  · exact .pure ()

/-- A TLV is converted within its body; a path trace may also have its length
changed. -/
theorem confined_tlvPostRecv {type length : ℕ} {extra : TlvExtra}
    (hlo' : lo ≤ extra.tlv + 4)
    (hlo : TlvType.ofCode type = some .pathTrace → lo ≤ extra.tlv + 2)
    (hhi : extra.tlv + sizeofTlv + length ≤ hi) :
    Confined onBuffer lo hi (tlvPostRecv host type length extra) := by
  have hbody : sizeofTlv = 4 := rfl
  unfold tlvPostRecv
  split
  case h_1 =>
    refine .ite (fun _ => .fail trivial) fun hlen => ?_
    simp only [ManagementTlv.size, sizeofTlv] at hlen
    refine .bind (confined_swapFields host 4 6
      (by decide) hlo' (by omega)) fun _ => ?_
    refine .ite (fun hmore => ?_) fun _ => .pure _
    exact confined_mgtPostRecv host extra hlo' (by omega) hhi
  case h_2 =>
    refine .ite (fun _ => .fail trivial) fun hlen => ?_
    simp only [ManagementErrorStatus.size, sizeofTlv] at hlen
    exact .bind (confined_swapFields host 4 8
      (by decide) hlo' (by omega)) fun _ => .pure _
  case h_3 =>
    refine .ite (fun _ => .fail trivial) fun hlen => ?_
    exact .bind (confined_orgPostRecv host hlo' (by omega) hhi)
      fun _ => .pure _
  case h_4 | h_5 | h_6 | h_7 =>
    exact .bind (confined_unicastNegotiationPostRecv host _ hlo' hhi)
      fun _ => .pure _
  case h_8 htype =>
    refine .ite (fun _ => ?_) fun _ => .pure _
    refine .bind (.writeWord _ ?_ ?_) fun _ => .pure _
    · simpa only [Tlv.length] using hlo htype
    · simp only [Tlv.length]
      omega
  case h_9 => exact confined_nsmRespPostRecv host extra hlo' hhi
  case h_10 => exact .pure _

/-! ## The loop over the TLVs -/

/-- Parsing may add to the TLV list of a message, and only refuses. -/
def whileParsing : Effects ParseState Errno where
  errors := Refusal
  updates first second := first.tlvList <+: second.tlvList
  same := Eq
  refl _ := List.prefix_rfl
  trans _ _ _ := List.IsPrefix.trans

theorem whileParsing_congr (update : ParseState → ParseState) :
    ∀ left right, whileParsing.same left right →
      whileParsing.same (update left) (update right) :=
  fun _ _ => congrArg update

theorem onBuffer_parsing {α : Type} {program : WireM α}
    (hprogram : Confined onBuffer lo hi program) :
    Confined whileParsing lo hi program :=
  hprogram.ofBuffer fun _ herr => herr

/-- Whatever the TLV, its length has been checked before. -/
theorem confined_suffixTlvPostRecv {ptr len : ℕ} (hlo : lo ≤ ptr)
    (hlen : sizeofTlv ≤ len) (hhi : ptr + len ≤ hi) :
    Confined onBuffer lo hi (suffixTlvPostRecv host ptr len) := by
  simp only [sizeofTlv] at hlen
  refine .bind (confined_swapFields host 0 4 (by decide)
    hlo (by omega)) fun _ => ?_
  refine .bind (confined_readField host hlo ?_) fun type => ?_
  · simp only [Tlv.type]
    omega
  refine .bind (confined_readField host ?_ ?_) fun length => ?_
  · simp only [Tlv.length]
    omega
  · simp only [Tlv.length]
    omega
  refine .ite (fun _ => .fail trivial) fun _ => ?_
  refine .ite (fun _ => .fail trivial) fun hfits => ?_
  simp only [sizeofTlv] at hfits
  refine .bind (confined_tlvPostRecv host ?_ (fun _ => ?_) ?_) fun _ => .pure _
  · simp only
    omega
  · simp only
    omega
  · simp only [sizeofTlv]
    omega

/-- It is not longer than the rest of the message. -/
theorem suffixTlvPostRecv_returns (ptr len : ℕ) :
    Returns (suffixTlvPostRecv host ptr len) fun tlv =>
      tlv.2 ≤ len - sizeofTlv := by
  refine .bind (.trivial _) fun _ _ => ?_
  refine .bind (.trivial _) fun type _ => ?_
  refine .bind (.trivial _) fun length _ => ?_
  refine .ite (fun _ => .fail _) fun _ => ?_
  refine .ite (fun _ => .fail _) fun hfits => ?_
  exact .bind (.trivial _) fun _ _ => .pure (by simp only; omega)

theorem confined_tlvExtraAlloc :
    Confined whileParsing lo hi (tlvExtraAlloc host) := by
  refine .bind (.getRest fun _ _ heq => heq) fun state => ?_
  refine .ite (fun _ => .modifyRest (fun _ => List.prefix_rfl)
    (whileParsing_congr _)) fun _ => ?_
  refine .bind (.modifyRest (fun _ => List.prefix_rfl)
    (whileParsing_congr _)) fun _ => ?_
  exact .ite (fun _ => .pure ()) fun _ => .fail trivial

/-- With one round for each byte that is left, the loop never runs out of
rounds. -/
theorem confined_suffixLoop {rounds ptr len : ℕ} (hrounds : len < rounds)
    (hlo : lo ≤ ptr) (hhi : ptr + len ≤ hi) :
    Confined whileParsing lo hi (suffixLoop host rounds ptr len) := by
  induction rounds generalizing ptr len with
  | zero => omega
  | succ rounds ih =>
    refine .ite (fun _ => .pure ()) fun hmore => ?_
    simp only [sizeofTlv] at hmore
    refine .bind (confined_tlvExtraAlloc host) fun _ => ?_
    refine .bind_of_returns ?_ (show Returns _ fun tlv : TlvExtra × ℕ =>
      tlv.2 ≤ len - sizeofTlv from ?_) fun tlv hlength => ?_
    · exact (onBuffer_parsing (confined_suffixTlvPostRecv host hlo
        (by simpa [sizeofTlv] using hmore) hhi)).onFail
          (fun _ => List.prefix_rfl) (whileParsing_congr _)
    · intro store tlv final hrun
      exact suffixTlvPostRecv_returns host ptr len (onFail_eq_ok.mp hrun)
    · simp only [sizeofTlv] at hlength ⊢
      refine .bind (.modifyRest (fun _ => List.prefix_append _ _)
        (whileParsing_congr _)) fun _ => ?_
      exact ih (by omega) (by omega) (by omega)

/-- So all TLVs are parsed within the message. -/
theorem confined_suffixPostRecv {type : MsgType} {len : ℕ}
    (hlo : lo ≤ type.pduLength) (hhi : type.pduLength + len ≤ hi) :
    Confined whileParsing lo hi (suffixPostRecv host type len) := by
  unfold suffixPostRecv
  split
  · exact .pure ()
  · rename_i ptr hsuffix
    obtain rfl := MsgType.suffix_eq_pduLength hsuffix
    exact confined_suffixLoop host (by omega) hlo hhi

/-! ## Whole messages -/

theorem confined_timestampPostRecv {ts : ℕ} (hlo : lo ≤ ts)
    (hhi : ts + 10 ≤ hi) :
    Confined whileParsing lo hi (timestampPostRecv host ts) := by
  have hread : ∀ field, field.offset + field.width ≤ 10 →
      Confined whileParsing lo hi (readField host ts field) :=
    fun field hfield => onBuffer_parsing
      (confined_readField host (by omega) (by omega))
  refine .bind (hread _ (by decide)) fun lsb => ?_
  refine .bind (hread _ (by decide)) fun msb => ?_
  refine .bind (hread _ (by decide)) fun nanoseconds => ?_
  exact .modifyRest (fun _ => List.prefix_rfl) (whileParsing_congr _)

theorem confined_headerFields (stop : ℕ) {fields : List Field}
    (hfields : FieldsWithin 0 stop fields) (hlo : lo ≤ 0) (hhi : stop ≤ hi) :
    Confined whileParsing lo hi (swapFields host 0 fields) :=
  onBuffer_parsing
    (confined_swapFields host _ _ hfields (by omega) (by omega))

/-- The body lies before them. -/
theorem confined_bodyPostRecv (type : MsgType) (hlo : lo ≤ 0)
    (hhi : type.pduLength ≤ hi) :
    Confined whileParsing lo hi (bodyPostRecv host type) := by
  have htimestamp : 44 ≤ type.pduLength →
      Confined whileParsing lo hi
        (timestampPostRecv host WireTimestamp.offset) := fun hpdu =>
    confined_timestampPostRecv host (by simp only [WireTimestamp.offset]; omega)
      (by simp only [WireTimestamp.offset]; omega)
  have hfields : ∀ fields, FieldsWithin 0 type.pduLength fields →
      Confined whileParsing lo hi (swapFields host 0 fields) :=
    fun fields hfields => confined_headerFields host _ hfields hlo hhi
  cases type with
  | sync => exact htimestamp (by decide)
  | delayReq => exact .pure ()
  | pdelayReq => exact .pure ()
  | pdelayResp =>
    exact .bind (htimestamp (by decide)) fun _ => hfields _ (by decide)
  | followUp => exact htimestamp (by decide)
  | delayResp =>
    exact .bind (htimestamp (by decide)) fun _ => hfields _ (by decide)
  | pdelayRespFollowUp =>
    exact .bind (htimestamp (by decide)) fun _ => hfields _ (by decide)
  | announce =>
    refine .bind (.modifyRest (fun _ => List.prefix_rfl)
      (whileParsing_congr _)) fun _ => ?_
    exact .bind (htimestamp (by decide)) fun _ => hfields _ (by decide)
  | signaling => exact hfields _ (by decide)
  | management => exact hfields _ (by decide)

theorem confined_hdrPostRecv (hlo : lo ≤ 0) (hhi : Header.size ≤ hi) :
    Confined whileParsing lo hi (hdrPostRecv host) := by
  simp only [Header.size] at hhi
  refine .bind (.readByte ?_ ?_) fun ver => ?_
  · omega
  · simp only [Header.ver]
    omega
  refine .ite (fun _ => .fail trivial) fun _ => ?_
  exact confined_headerFields host 34 (by decide) hlo hhi

theorem confined_msgType (hlo : lo ≤ 0) (hhi : Header.size ≤ hi) :
    Confined whileParsing lo hi msgType := by
  simp only [Header.size] at hhi
  refine .bind (.readByte ?_ ?_) fun tsmt => .pure _
  · omega
  · simp only [Header.tsmt]
    omega

theorem confined_ptpMsgReceive (cnt : ℕ) :
    Confined whileParsing 0 cnt (ptpMsgReceive host cnt) := by
  refine .ite (fun _ => .fail trivial) fun hheader => ?_
  have hsize : Header.size ≤ cnt := by omega
  refine .bind (confined_hdrPostRecv host le_rfl hsize) fun _ => ?_
  refine .bind (confined_msgType le_rfl hsize) fun code => ?_
  split
  · exact .fail trivial
  refine .ite (fun _ => .fail trivial) fun hpdu => ?_
  refine .bind (confined_bodyPostRecv host _ le_rfl (by omega)) fun _ => ?_
  exact confined_suffixPostRecv host (by omega) (by omega)

end

end LinuxPtp.Wire
