import LinuxPtp.Wire.HostList

/-!
# Messages in host order

A message that is built in host order is encoded by `msg_pre_send`, and
`ptpMsgReceive` decodes the bytes.  The time stamp of the body is decoded into
the descriptor of the message and otherwise left as it came.
-/

namespace LinuxPtp.Wire

open ByteOrder Access

variable (host : Host)

/-! ## Time stamps -/

def timestampFields : List Field :=
  [⟨36, 4⟩, ⟨34, 2⟩, ⟨40, 4⟩]

/-- Sending converts the time stamp. -/
def MsgType.stamped : MsgType → Bool
  | .pdelayResp | .followUp | .delayResp | .pdelayRespFollowUp => true
  | _ => false

/-- Reception decodes the time stamp. -/
def MsgType.decoded : MsgType → Bool
  | .sync | .announce => true
  | type => type.stamped

def timestampOf (endian : Endian) (mem : Memory) : LocalTimestamp :=
  .ofWire (hostWord endian mem 36 4) (hostWord endian mem 34 2)
    (hostWord endian mem 40 4)

def stampedPart (endian : Endian) (type : MsgType) (mem : Memory) : Memory :=
  if type.stamped then swapAll endian 0 timestampFields mem else mem

theorem stampedPart_outside (endian : Endian) (type : MsgType) (mem : Memory)
    {i : ℕ} (hi : i < 34 ∨ 44 ≤ i) : stampedPart endian type mem i = mem i := by
  rw [stampedPart]
  split
  · exact swapAll_outside 34 44 (by decide) (by omega) mem
  · rfl

theorem timestampPreSend_runs (mem : Memory) :
    Runs (timestampPreSend host WireTimestamp.offset) mem ()
      (swapAll host.endian 0 timestampFields mem) := by
  have hshift : swapAll host.endian 0 timestampFields mem =
      swapAll host.endian WireTimestamp.offset
        [WireTimestamp.secondsLsb, WireTimestamp.secondsMsb,
          WireTimestamp.nanoseconds] mem := rfl
  rw [hshift]
  exact swapFields_runs host _ _ mem

def wireTimestamp (mem : Memory) : LocalTimestamp :=
  .ofWire (netWord mem 36 4) (netWord mem 34 2) (netWord mem 40 4)

theorem timestampPostRecv_run (store : Store ParseState) :
    ∃ spans, timestampPostRecv host WireTimestamp.offset store =
      (.ok (), ⟨store.mem, spans,
        { store.rest with pdu := wireTimestamp store.mem }⟩) := by
  refine ⟨⟨40, 4⟩ :: ⟨34, 2⟩ :: ⟨36, 4⟩ :: store.spans, ?_⟩
  rw [timestampPostRecv, bind_run, readField_run]
  dsimp only
  rw [bind_run, readField_run]
  dsimp only
  rw [bind_run, readField_run]
  dsimp only
  rw [modifyRest_run]
  simp only [wireTimestamp, ntoh_hostWord, WireTimestamp.offset,
    WireTimestamp.secondsLsb, WireTimestamp.secondsMsb, WireTimestamp.nanoseconds]

/-- Zero is the same in both byte orders. -/
theorem swapAll_timestamp_zero {endian : Endian} {mem : Memory}
    (hzero : ∀ i, 34 ≤ i → i < 44 → mem i = 0) :
    swapAll endian 0 timestampFields mem = mem := by
  have hword : ∀ offset width, 34 ≤ offset → offset + width ≤ 44 →
      netSwap endian offset width mem = mem := by
    intro offset width hge hle
    funext i
    by_cases hi : offset ≤ i ∧ i < offset + width
    · cases endian with
      | big => rfl
      | little =>
        refine (if_pos hi).trans ?_
        rw [hzero i (by omega) (by omega)]
        exact hzero _ (by omega) (by omega)
    · exact netSwap_outside endian mem (by omega)
  rw [timestampFields, swapAll_cons, swapAll_cons, swapAll_cons, swapAll_nil,
    hword _ _ (by decide) (by decide), hword _ _ (by decide) (by decide),
    hword _ _ (by decide) (by decide)]

/-- The time stamp sent is the one decoded. -/
theorem wireTimestamp_stampedPart {type : MsgType} {mem : Memory}
    (hzero : type.stamped = false → ∀ i, 34 ≤ i → i < 44 → mem i = 0) :
    wireTimestamp (stampedPart host.endian type mem) =
      timestampOf host.endian mem := by
  have hswapped : stampedPart host.endian type mem =
      swapAll host.endian 0 timestampFields mem := by
    rw [stampedPart]
    split
    · rfl
    · rename_i hnot
      exact (swapAll_timestamp_zero (hzero (by simpa using hnot))).symm
  have hword : ∀ field ∈ timestampFields,
      netWord (swapAll host.endian 0 timestampFields mem) field.offset field.width =
        hostWord host.endian mem field.offset field.width := by
    intro field hfield
    have hback := @hostWord_swapAll host.endian 0 field timestampFields (by decide)
      hfield (swapAll host.endian 0 timestampFields mem)
    rw [swapAll_swapAll (by decide), Nat.zero_add] at hback
    exact hback.symm
  rw [hswapped, wireTimestamp, timestampOf,
    hword ⟨36, 4⟩ (by decide), hword ⟨34, 2⟩ (by decide),
    hword ⟨40, 4⟩ (by decide)]

theorem wireTimestamp_congr {left right : Memory}
    (hagree : ∀ i, 34 ≤ i → i < 44 → left i = right i) :
    wireTimestamp left = wireTimestamp right := by
  have hword : ∀ offset width, 34 ≤ offset → offset + width ≤ 44 →
      netWord left offset width = netWord right offset width :=
    fun offset width hge hle => netWord_congr fun i hi hlt =>
      hagree i (by omega) (by omega)
  rw [wireTimestamp, wireTimestamp, hword 36 4 (by decide) (by decide),
    hword 34 2 (by decide) (by decide), hword 40 4 (by decide) (by decide)]

/-! ## Bodies -/

/-- The converted members of a body lie behind its time stamp. -/
theorem bodyFields_behind {type : MsgType} (hdecoded : type.decoded) :
    FieldsWithin 44 type.pduLength (bodyFields type) := by
  cases type <;> first | decide | exact nomatch hdecoded

theorem pduLength_ge (type : MsgType) : 44 ≤ type.pduLength := by
  cases type <;> decide

/-- Encoding converts the body, and leaves descriptors alone. -/
theorem bodyPreSend_run (type : MsgType) (store : Store ParseState) :
    ∃ spans rest, bodyPreSend host type store =
        (.ok (), ⟨swapAll host.endian 0 (bodyFields type)
          (stampedPart host.endian type store.mem), spans, rest⟩) ∧
      rest.tlvList = store.rest.tlvList ∧ rest.pool = store.rest.pool := by
  have hruns : ∀ {program : WireM Unit} {mem}, Runs program store.mem () mem →
      ∃ spans rest, program store = (.ok (), ⟨mem, spans, rest⟩) ∧
        rest.tlvList = store.rest.tlvList ∧ rest.pool = store.rest.pool := by
    intro program mem hruns
    obtain ⟨spans, hrun⟩ := hruns store.spans store.rest
    exact ⟨spans, store.rest, hrun, rfl, rfl⟩
  cases type with
  | sync | pdelayReq => exact hruns (.pure () store.mem)
  | delayReq => exact ⟨_, _, rfl, rfl, rfl⟩
  | followUp => exact hruns (timestampPreSend_runs host store.mem)
  | pdelayResp | delayResp | pdelayRespFollowUp =>
    exact hruns ((timestampPreSend_runs host store.mem).bind
      (swapFields_runs host 0 _ _))
  | announce | signaling | management =>
    exact hruns (swapFields_runs host 0 _ store.mem)

/-- Decoding converts the body but for its time stamp. -/
theorem bodyPostRecv_run (type : MsgType) (store : Store ParseState) :
    ∃ spans rest, bodyPostRecv host type store =
        (.ok (), ⟨swapAll host.endian 0 (bodyFields type) store.mem, spans, rest⟩) ∧
      rest.tlvList = store.rest.tlvList ∧ rest.pool = store.rest.pool ∧
      (type.decoded → rest.pdu = wireTimestamp store.mem) := by
  have hresponse : ∀ fields (start : Store ParseState),
      start.mem = store.mem → start.rest.tlvList = store.rest.tlvList →
      start.rest.pool = store.rest.pool →
      ∃ spans rest, (do
          timestampPostRecv host WireTimestamp.offset
          swapFields host 0 fields : WireM Unit) start =
        (.ok (), ⟨swapAll host.endian 0 fields store.mem, spans, rest⟩) ∧
      rest.tlvList = store.rest.tlvList ∧ rest.pool = store.rest.pool ∧
      rest.pdu = wireTimestamp store.mem := by
    intro fields start hmem hlist hpool
    obtain ⟨spans, hrun⟩ := timestampPostRecv_run host start
    refine ⟨fieldSpans 0 fields ++ spans,
      { start.rest with pdu := wireTimestamp start.mem }, ?_, hlist, hpool,
      by rw [hmem]⟩
    rw [bind_run, hrun]
    dsimp only
    rw [swapFields_run, ← hmem]
  cases type with
  | sync | followUp =>
    obtain ⟨spans, hrun⟩ := timestampPostRecv_run host store
    exact ⟨spans, _, hrun, rfl, rfl, fun _ => rfl⟩
  | delayReq | pdelayReq =>
    exact ⟨store.spans, store.rest, rfl, rfl, rfl, fun hnot => nomatch hnot⟩
  | pdelayResp | delayResp | pdelayRespFollowUp =>
    obtain ⟨spans, rest, hrun, hlist, hpool, hpdu⟩ :=
      hresponse [RequestingPort.portNumber] store rfl rfl rfl
    exact ⟨spans, rest, hrun, hlist, hpool, fun _ => hpdu⟩
  | announce =>
    obtain ⟨spans, rest, hrun, hlist, hpool, hpdu⟩ :=
      hresponse (bodyFields .announce)
        { store with rest := { store.rest with hostTime := host.monotonic } }
        rfl rfl rfl
    exact ⟨spans, rest, hrun, hlist, hpool, fun _ => hpdu⟩
  | signaling | management =>
    exact ⟨_, store.rest, swapFields_run host 0 _ store, rfl, rfl,
      fun hnot => nomatch hnot⟩

/-! ## Whole messages -/

def sentPart (endian : Endian) (type : MsgType) (mem : Memory) : Memory :=
  swapAll endian 0 (bodyFields type)
    (stampedPart endian type (swapAll endian 0 headerFields mem))

theorem sentPart_outside (endian : Endian) (type : MsgType) (mem : Memory) {i : ℕ}
    (hi : i < 2 ∨ type.pduLength ≤ i) : sentPart endian type mem i = mem i := by
  have hpdu := pduLength_ge type
  rw [sentPart, swapAll_outside _ _ (bodyFields_within type) (by omega),
    stampedPart_outside endian type _ (by omega)]
  exact swapAll_outside 2 32 (by decide) (by omega) mem

/-- Decoding the fixed part that was sent. -/
theorem fixedPart_sentPart (endian : Endian) (type : MsgType) (mem : Memory) :
    fixedPart endian type (sentPart endian type mem) =
      stampedPart endian type mem := by
  let header := fieldsConversion endian 0 2 32 headerFields (by decide)
  let body := fieldsConversion endian 0 42 type.pduLength (bodyFields type)
    (bodyFields_within type)
  have hheader : ∀ mem, header.apply (header.apply mem) = mem :=
    swapAll_swapAll (by decide)
  have hbody : ∀ mem, body.apply (body.apply mem) = mem :=
    swapAll_swapAll (by cases type <;> decide)
  have hcomm : ∀ mem, header.apply (body.apply mem) =
      body.apply (header.apply mem) :=
    Conversion.apply_comm _ _ (Or.inl (show 0 + 32 ≤ 0 + 42 by decide))
  have hstamp : ∀ mem, header.apply (stampedPart endian type mem) =
      stampedPart endian type (header.apply mem) := by
    intro mem
    rw [stampedPart, stampedPart]
    split
    · exact Conversion.apply_comm header
        (fieldsConversion endian 0 34 44 timestampFields (by decide))
        (Or.inl (show 0 + 32 ≤ 0 + 34 by decide)) mem
    · rfl
  show body.apply (header.apply (body.apply
    (stampedPart endian type (header.apply mem)))) = stampedPart endian type mem
  rw [hcomm, hbody, hstamp, hheader]

variable {host} {type : MsgType} {cnt : ℕ} {store : Store ParseState}
variable {receiveds : List TlvExtra} {target : Memory}

/-- A receiver of the first `cnt` bytes with enough descriptors decodes `mem`: the
fixed part but for the time stamp, the TLVs as in `target`, their descriptors and
the time stamp. -/
def Decodes (host : Host) (type : MsgType) (cnt : ℕ) (sent mem target : Memory)
    (receiveds : List TlvExtra) : Prop :=
  ∀ other : Store ParseState, AgreeOn 0 cnt other.mem sent →
    other.rest.tlvList = [] → HasDescriptors host other.rest receiveds.length →
    ∃ received, ptpMsgReceive host cnt other = (.ok (), received) ∧
      received.rest.tlvList = receiveds ∧
      AgreeOn 0 type.pduLength received.mem (stampedPart host.endian type mem) ∧
      AgreeOn type.pduLength cnt received.mem target ∧
      (type.decoded → received.rest.pdu = timestampOf host.endian mem)

/-- Every message in host order whose TLVs can be converted is encoded, and the
encoded bytes are decoded to it. -/
theorem message_decodes (hversion : versionOf store.mem = version)
    (htype : typeOf store.mem = some type) (hpdu : type.pduLength ≤ cnt)
    (hzero : type.decoded → type.stamped = false →
      ∀ i, 34 ≤ i → i < 44 → store.mem i = 0)
    (hnone : type.suffix = none →
      cnt = type.pduLength ∧ receiveds = [])
    (hlist : ∀ mem, AgreeOn type.pduLength cnt mem store.mem →
      ListConverts host store.rest.tlvList receiveds type.pduLength cnt mem
        target) :
    ∃ sent, msgPreSend host store = (.ok true, sent) ∧
      sent.rest.tlvList = [] ∧
      sent.rest.pool.free =
        store.rest.pool.free + store.rest.tlvList.length ∧
      Decodes host type cnt sent.mem store.mem target receiveds := by
  have hsmall := pduLength_ge type
  obtain ⟨wire, hruns, hframe, hreceive⟩ := hlist
    (sentPart host.endian type store.mem) fun i hge _ =>
      sentPart_outside host.endian type store.mem (Or.inr hge)
  obtain ⟨spans₂, rest₂, hbody, hlist₂, hpool₂⟩ := bodyPreSend_run host type
    ⟨swapAll host.endian 0 headerFields store.mem,
      ⟨0, 1⟩ :: (fieldSpans 0 headerFields ++ store.spans), store.rest⟩
  obtain ⟨spans₃, hloop⟩ := hruns spans₂ rest₂
  have hheader : hdrPreSend host store = (.ok (),
      ⟨swapAll host.endian 0 headerFields store.mem,
        fieldSpans 0 headerFields ++ store.spans, store.rest⟩) :=
    swapFields_run host 0 _ store
  have hknown : MsgType.ofCode ((store.mem 0).toNat % 16) = some type := htype
  refine ⟨⟨wire, spans₃, rest₂.detach⟩, ?_, rfl, ?_,
    fun other hagree hempty hfree => ?_⟩
  · rw [msgPreSend, bind_run, hheader]
    dsimp only
    rw [bind_run, msgType_run]
    dsimp only
    rw [swapAll_outside 2 32 (by decide) (by omega), hknown]
    dsimp only
    rw [bind_run, hbody]
    dsimp only
    rw [suffixPreSend, bind_run, bind_run, getRest]
    dsimp only
    have hsuffix : suffixPreSendLoop host rest₂.tlvList
        ⟨swapAll host.endian 0 (bodyFields type) (stampedPart host.endian type
          (swapAll host.endian 0 headerFields store.mem)), spans₂, rest₂⟩ =
        (.ok (), ⟨wire, spans₃, rest₂⟩) := hlist₂ ▸ hloop
    rw [bind_run, hsuffix]
    rfl
  · show rest₂.pool.free + rest₂.tlvList.length = _
    rw [hlist₂, hpool₂]
  · have hfixed : AgreeOn 0 type.pduLength other.mem
        (sentPart host.endian type store.mem) := fun i hge hlt =>
      (hagree i hge (by omega)).trans (hframe i (Or.inl hlt))
    have hbyte : ∀ i < 2, other.mem i = store.mem i := fun i hi =>
      (hfixed i (Nat.zero_le _) (by omega)).trans
        (sentPart_outside host.endian type store.mem (Or.inl hi))
    have hversion' : versionOf other.mem = version := by
      rw [versionOf, hbyte 1 (by decide)]
      exact hversion
    have htype' : typeOf other.mem = some type := by
      rw [typeOf, hbyte 0 (by decide)]
      exact htype
    obtain ⟨spans₄, hreceived⟩ := ptpMsgReceive_run host hversion' htype' hpdu
    obtain ⟨spans₅, rest₅, hbody₅, hlist₅, hpool₅, hpdu₅⟩ := bodyPostRecv_run host
      type ⟨swapAll host.endian 0 headerFields other.mem, spans₄, other.rest⟩
    have hfinal : AgreeOn 0 type.pduLength (fixedPart host.endian type other.mem)
        (stampedPart host.endian type store.mem) := by
      rw [← fixedPart_sentPart]
      exact fixedPart_agreeOn host.endian type le_rfl hfixed
    have hstamp : type.decoded → rest₅.pdu = timestampOf host.endian store.mem := by
      intro hdecoded
      have hbytes : ∀ i, 34 ≤ i → i < 44 →
          swapAll host.endian 0 headerFields other.mem i =
            stampedPart host.endian type store.mem i := fun i hge hlt =>
        (swapAll_outside 44 type.pduLength (bodyFields_behind hdecoded)
          (Or.inl (by omega)) _).symm.trans
          (hfinal i (Nat.zero_le _) (hlt.trans_le (pduLength_ge type)))
      rw [hpdu₅ hdecoded, ← wireTimestamp_stampedPart host (hzero hdecoded)]
      exact wireTimestamp_congr hbytes
    rw [hreceived, bind_run, hbody₅]
    dsimp only
    cases hsuffix : type.suffix with
    | none =>
      obtain ⟨rfl, rfl⟩ := hnone hsuffix
      refine ⟨_, by rw [suffixPostRecv, hsuffix]; rfl, hlist₅.trans hempty, hfinal,
        fun i hge hlt => absurd hlt (by omega), hstamp⟩
    | some ptr =>
      obtain rfl := MsgType.suffix_eq_pduLength hsuffix
      obtain ⟨mem', spans₆, rest₆, hloop', hlist', hpdu', hagree', hframe'⟩ :=
        hreceive
        ⟨fixedPart host.endian type other.mem, spans₅, rest₅⟩
        (cnt - type.pduLength + 1) (Nat.lt_succ_self _)
        (fun i hge hlt => (fixedPart_outside host.endian type other.mem
          (Or.inr (Or.inr hge))).trans (hagree i (Nat.zero_le _) hlt))
        (by rw [HasDescriptors, hpool₅]; exact hfree)
      refine ⟨_, by rw [suffixPostRecv, hsuffix]; exact hloop', ?_,
        fun i hge hlt => (hframe' i (Or.inl hlt)).trans (hfinal i hge hlt),
        hagree', fun hdecoded => hpdu'.trans (hstamp hdecoded)⟩
      rw [hlist', hlist₅]
      exact (congrArg (· ++ receiveds) hempty).trans (List.nil_append _)

end LinuxPtp.Wire
