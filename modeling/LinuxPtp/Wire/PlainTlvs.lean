import LinuxPtp.Wire.Append

/-!
# Messages with plain TLVs

Most TLVs are sent as they are, or with words at fixed places swapped.  A message
that was built with such TLVs is decoded to the message it was, as soon as the
parser has nothing to object to each single one of them.
-/

namespace LinuxPtp.Wire

open ByteOrder Access

namespace HostTlv

variable {endian : Endian} {mem target : Memory} {lo hi : ℕ} {tlv : HostTlv}
variable {extras : List TlvExtra} {tlvs : List HostTlv}

/-! ## Plain TLVs -/

/-- Conversion leaves a TLV of this type alone or swaps members at fixed places. -/
def Plain (tlv : HostTlv) : Prop :=
  match TlvType.ofCode tlv.type with
  | some .management | some .organizationExtension | some .ptpmonResp => False
  | _ => True

instance (tlv : HostTlv) : Decidable tlv.Plain := by
  unfold Plain
  split <;> infer_instance

def NegotiatesUnicast (tlv : HostTlv) (size : ℕ) : Prop :=
  size - sizeofTlv ≤ tlv.body.length ∧
    unicastMessageTypeValid (tlv.body.getD 0 0).toNat = true

instance (tlv : HostTlv) (size : ℕ) : Decidable (tlv.NegotiatesUnicast size) :=
  inferInstanceAs (Decidable (_ ∧ _))

/-- What the parser asks of a plain TLV. -/
def Conforms (tlv : HostTlv) : Prop :=
  match TlvType.ofCode tlv.type with
  | some .managementErrorStatus =>
      ManagementErrorStatus.size - sizeofTlv ≤ tlv.body.length
  | some .requestUnicastTransmission =>
      tlv.NegotiatesUnicast UnicastXmitTlv.requestSize
  | some .grantUnicastTransmission => tlv.NegotiatesUnicast UnicastXmitTlv.grantSize
  | some .cancelUnicastTransmission =>
      tlv.NegotiatesUnicast UnicastXmitTlv.cancelSize
  | some .acknowledgeCancelUnicastTransmission =>
      tlv.NegotiatesUnicast UnicastXmitTlv.cancelSize
  | some .pathTrace => tlv.body.length / sizeofClockIdentity ≤ pathTraceMax
  | _ => True

instance (tlv : HostTlv) : Decidable tlv.Conforms := by
  unfold Conforms
  split <;> infer_instance

theorem NegotiatesUnicast.formatted {size : ℕ} (hat : At endian mem lo tlv)
    (hsize : sizeofTlv < size) (hconforms : tlv.NegotiatesUnicast size) :
    UnicastFormatted lo tlv.body.length size mem := by
  refine ⟨hconforms.1, ?_⟩
  have hbyte := hat.byte (i := 0) (by have := hconforms.1; omega)
  rw [← hconforms.2, ← hbyte]
  rfl

theorem Conforms.formatted (hplain : tlv.Plain) (hconforms : tlv.Conforms)
    (hat : At endian mem lo tlv) :
    Formatted endian tlv.type tlv.body.length lo mem := by
  unfold Plain at hplain
  unfold Conforms at hconforms
  unfold Formatted
  cases hknown : TlvType.ofCode tlv.type with
  | none => trivial
  | some known =>
    simp only [hknown] at hplain hconforms ⊢
    cases known with
    | management | organizationExtension | ptpmonResp => exact hplain.elim
    | managementErrorStatus | pathTrace => exact hconforms
    | requestUnicastTransmission | grantUnicastTransmission
    | cancelUnicastTransmission | acknowledgeCancelUnicastTransmission =>
      exact hconforms.formatted hat (by decide)
    | _ => trivial

theorem Plain.located (hplain : tlv.Plain) (length : ℕ) :
    Wire.located endian tlv.type length lo mem = { tlv := lo } := by
  unfold Plain at hplain
  unfold Wire.located
  cases hknown : TlvType.ofCode tlv.type with
  | none => rfl
  | some known =>
    simp only [hknown] at hplain ⊢
    cases known with
    | management | ptpmonResp => exact hplain.elim
    | _ => rfl

theorem Plain.hostEcho (hplain : tlv.Plain) (length : ℕ) :
    Wire.hostEcho endian tlv.type length lo mem = mem := by
  unfold Plain at hplain
  unfold Wire.hostEcho hostPhaseChange
  cases hknown : TlvType.ofCode tlv.type with
  | none => rfl
  | some known =>
    simp only [hknown] at hplain ⊢
    cases known with
    | management | organizationExtension => exact hplain.elim
    | _ => rfl

/-! ## Lists of plain TLVs -/

variable {host : Host} {type : MsgType} {built store : Store ParseState}

theorem Placed.listConverts (hplain : ∀ tlv ∈ tlvs, tlv.Plain ∧ tlv.Conforms)
    (hplaced : Placed host.endian target hi lo extras tlvs)
    (hagree : AgreeOn lo hi mem target) :
    ListConverts host extras extras lo hi mem target := by
  induction extras generalizing lo tlvs mem with
  | nil =>
    cases tlvs with
    | nil =>
      obtain rfl : lo = hi := hplaced
      exact listConverts_nil.congr hagree
    | cons => exact hplaced.elim
  | cons extra extras ih =>
    cases tlvs with
    | nil => exact hplaced.elim
    | cons tlv tlvs =>
      obtain ⟨rfl, hat, hrest⟩ := hplaced
      obtain ⟨⟨hsimple, hconforms⟩, hothers⟩ := List.forall_mem_cons.mp hplain
      have hsize : lo + tlv.size = lo + sizeofTlv + tlv.body.length :=
        (Nat.add_assoc _ _ _).symm
      have hend := hrest.le
      have hat' : At host.endian mem lo tlv :=
        hat.congr (hagree.mono le_rfl (by omega))
      obtain ⟨wire, hfirst⟩ := @suffixConverts host { tlv := lo } mem tlv.type
        tlv.body.length hat'.type hat'.length tlv.even
        (hconforms.formatted hsimple hat')
        (by rw [hsimple.located]; exact .refl _)
      rw [hsimple.located, hsimple.hostEcho] at hfirst
      exact listConverts_cons hfirst rfl rfl (by omega)
        (hagree.mono le_rfl (by omega)) fun mem' hmem' =>
          ih hothers (hsize ▸ hrest) (hmem'.trans (hagree.mono (by omega) le_rfl))

/-! ## Whole messages -/

/-- The same message as `built`: header and body but for the time stamp, which is
decoded, and the same TLVs in the same places. -/
structure Reproduces (host : Host) (type : MsgType) (tlvs : List HostTlv)
    (built received : Store ParseState) : Prop where
  fixed : AgreeOn 0 type.pduLength received.mem
    (stampedPart host.endian type built.mem)
  placed : Placed host.endian received.mem (type.pduLength + total tlvs)
    type.pduLength received.rest.tlvList tlvs
  pdu : type.decoded → received.rest.pdu = timestampOf host.endian built.mem

/-- Reception of as many bytes as the header says reproduces the message. -/
def Receives (host : Host) (type : MsgType) (tlvs : List HostTlv)
    (built sent : Store ParseState) : Prop :=
  ∃ received, ptpMsgReceive host (hostWord host.endian built.mem 2 2) sent =
      (.ok (), received) ∧
    Reproduces host type tlvs built received

/-- Sending succeeds, and what is sent is received again: with the descriptors that
sending gives back, and by everybody else who has as many. -/
def RoundTrips (host : Host) (type : MsgType) (tlvs : List HostTlv)
    (built : Store ParseState) : Prop :=
  ∃ sent, msgPreSend host built = (.ok true, sent) ∧
    Receives host type tlvs built sent ∧
    ∀ other : Store ParseState,
      AgreeOn 0 (hostWord host.endian built.mem 2 2) other.mem sent.mem →
      other.rest.tlvList = [] → HasDescriptors host other.rest tlvs.length →
      Receives host type tlvs built other

theorem Placed.length (hplaced : Placed endian mem hi lo extras tlvs) :
    extras.length = tlvs.length := by
  induction extras generalizing lo tlvs with
  | nil =>
    cases tlvs with
    | nil => rfl
    | cons => exact hplaced.elim
  | cons extra extras ih =>
    cases tlvs with
    | nil => exact hplaced.elim
    | cons tlv tlvs => exact congrArg (· + 1) (ih hplaced.2.2)

/-- A message that was built with plain TLVs is decoded to what it was. -/
theorem Built.roundTrips {start : Memory}
    (hbuilt : Built host.endian type start tlvs built)
    (hversion : versionOf built.mem = version)
    (htype : Wire.typeOf built.mem = some type)
    (hzero : type.decoded → type.stamped = false →
      ∀ i, 34 ≤ i → i < 44 → built.mem i = 0)
    (hplain : ∀ tlv ∈ tlvs, tlv.Plain ∧ tlv.Conforms) :
    RoundTrips host type tlvs built := by
  have hplaced := hbuilt.placed
  obtain ⟨sent, hsend, hempty, hpool, hdecodes⟩ := @message_decodes host type
    (type.pduLength + total tlvs) built built.rest.tlvList built.mem hversion htype
    (Nat.le_add_right _ _) hzero
    (fun hnone => by
      obtain rfl := hbuilt.admitted hnone
      exact ⟨rfl, List.length_eq_zero_iff.mp hplaced.length⟩)
    (fun mem hagree => hplaced.listConverts hplain hagree)
  have hreceives : ∀ other : Store ParseState,
      AgreeOn 0 (type.pduLength + total tlvs) other.mem sent.mem →
      other.rest.tlvList = [] → HasDescriptors host other.rest tlvs.length →
      Receives host type tlvs built other := by
    intro other hagree hnone hsupply
    obtain ⟨received, hreceived, hlist, hfixed, hbehind, hpdu⟩ :=
      hdecodes other hagree hnone (by rwa [hplaced.length])
    refine ⟨received, by rw [hbuilt.messageLength]; exact hreceived, hfixed, ?_, hpdu⟩
    rw [hlist]
    exact hplaced.congr hbehind
  refine ⟨sent, hsend, hreceives sent (fun _ _ _ => rfl) hempty (Or.inl ?_), ?_⟩
  · rw [hpool, hplaced.length]
    exact Nat.le_add_left _ _
  · rw [hbuilt.messageLength]
    exact hreceives

/-- Building a message from a fixed part: the TLVs that find room lie one behind
the other, the message length counts them, and it stays within the buffer; one that
finds none leaves the message as it is; and a message with plain TLVs that the
parser accepts is decoded to what it was. -/
theorem appended_roundTrips (host : Host) {type : MsgType} {start : Store ParseState}
    (hversion : versionOf start.mem = version)
    (htype : typeOf start.mem = some type) (hempty : start.rest.tlvList = [])
    (hlength : hostWord host.endian start.mem 2 2 = type.pduLength)
    (hzero : type = .sync ∨ type = .announce →
      ∀ i, 34 ≤ i → i < 44 → start.mem i = 0) (tlvs : List HostTlv) :
    ∃ added built, appendAll host tlvs start = (.ok added, built) ∧
      added.Sublist tlvs ∧ Built host.endian type start.mem added built ∧
      (∀ tlv : HostTlv, ∃ done next, tlv.append host built = (.ok done, next) ∧
        (HasRoom host type (type.pduLength + total added) tlv.size built.rest →
          done = true) ∧
        (done = false → next.mem = built.mem ∧
          next.rest.tlvList = built.rest.tlvList)) ∧
      ((∀ tlv ∈ added, tlv.Plain ∧ tlv.Conforms) →
        RoundTrips host type added built) := by
  obtain ⟨added, built, hrun, hsub, hbuilt⟩ :=
    appendAll_run htype (built_start hempty hlength) tlvs
  have hsmall := pduLength_ge type
  refine ⟨added, built, hrun, hsub, hbuilt, fun tlv => ?_, fun hplain =>
    hbuilt.roundTrips ?_ (hbuilt.typeOf htype) ?_ hplain⟩
  · obtain ⟨done, next, happend, -, hkeeps, hroom⟩ := append_run tlv htype hbuilt
    exact ⟨done, next, happend, hroom, hkeeps⟩
  · rw [versionOf, hbuilt.fixed 1 (by omega) (by omega)]
    exact hversion
  · intro hdecoded hunstamped i hge hlt
    rw [hbuilt.fixed i (by omega) (by omega)]
    refine hzero ?_ i hge hlt
    cases type <;> simp_all [MsgType.decoded, MsgType.stamped]

def signaling : Store ParseState where
  mem i := ([12, 2, 44] : List UInt8).getD i 0
  spans := []
  rest := ⟨[], ⟨0, 0⟩, ⟨0, 0⟩, ⟨0, 0⟩⟩

def requestAnnounce : HostTlv where
  type := 4
  body := [0xb0, 1, 0, 0, 0, 60]
  type_lt := by decide
  even := by decide

def cancelAnnounce : HostTlv where
  type := 6
  body := [0xb0, 0]
  type_lt := by decide
  even := by decide

/-- Three TLVs arrive in the order in which they were appended. -/
theorem appended_roundTrips_requestAnnounce :
    ∃ built, appendAll smallHost [requestAnnounce, cancelAnnounce, requestAnnounce]
        signaling =
          (.ok [requestAnnounce, cancelAnnounce, requestAnnounce], built) ∧
      RoundTrips smallHost .signaling
        [requestAnnounce, cancelAnnounce, requestAnnounce] built := by
  obtain ⟨added, built, hrun, -, -, -, htrips⟩ :=
    @appended_roundTrips smallHost .signaling signaling (by decide) (by decide)
      (by decide) (by decide) (fun hno => absurd hno (by decide))
      [requestAnnounce, cancelAnnounce, requestAnnounce]
  have hadded : (appendAll smallHost
      [requestAnnounce, cancelAnnounce, requestAnnounce] signaling).1 =
        .ok [requestAnnounce, cancelAnnounce, requestAnnounce] := by decide +kernel
  rw [hrun] at hadded
  obtain rfl := Except.ok.inj hadded
  exact ⟨built, hrun, htrips (by decide)⟩

/-- A cancellation for signaling messages, which nobody can have requested. -/
def cancelSignaling : HostTlv where
  type := 6
  body := [0xc0, 0]
  type_lt := by decide
  even := by decide

/-- The parser refuses a cancellation for messages that are not negotiated. -/
theorem cancelSignaling_not_roundTrips :
    cancelSignaling.Plain ∧ ∃ built,
      appendAll smallHost [cancelSignaling] signaling =
        (.ok [cancelSignaling], built) ∧
      ¬RoundTrips smallHost .signaling [cancelSignaling] built := by
  refine ⟨by decide, (appendAll smallHost [cancelSignaling] signaling).2, ?_, ?_⟩
  · have hadded : (appendAll smallHost [cancelSignaling] signaling).1 =
        .ok [cancelSignaling] := by decide +kernel
    rw [← hadded]
  · rintro ⟨sent, hsend, ⟨received, hreceived, -⟩, -⟩
    have hrefused : (ptpMsgReceive smallHost
        (hostWord .little (appendAll smallHost [cancelSignaling] signaling).2.mem 2 2)
        (msgPreSend smallHost
          (appendAll smallHost [cancelSignaling] signaling).2).2).1 =
          .error .ebadmsg := by decide +kernel
    rw [hsend] at hrefused
    dsimp only at hrefused
    have hlittle : smallHost.endian = .little := rfl
    rw [hlittle] at hreceived
    rw [hreceived] at hrefused
    exact nomatch hrefused

end HostTlv

end LinuxPtp.Wire
