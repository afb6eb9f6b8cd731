import LinuxPtp.Ordinary.Handlers
import LinuxPtp.Tc.Model
import LinuxPtp.Wire.FirstTlv
import LinuxPtp.Wire.Invertible

/-!
# The monitoring client

The client sends a request and waits for a Sync, a Follow_Up and a Delay_Resp with the
same sequence number.  Its test for completeness does without the Follow_Up of a
one-step Sync and never looks at the TLVs of the Delay_Resp; the report that follows
reads both.
-/

namespace LinuxPtp.Nsm

open ByteOrder Access Stepping Wire
open Ordinary (correctionToTmv)
open Tc (fieldIsSet unicastFlag twoStepFlag)

/-! ## Messages -/

/-- `struct ptp_message`: the buffer with what the parser keeps of it, and `hwts.ts`. -/
structure PtpMessage where
  store : Store ParseState
  hwts : Int64

namespace PtpMessage

variable (endian : Endian) (m : PtpMessage)

def mem : Memory := m.store.mem

def type : Option MsgType := typeOf m.mem

def sequenceId : ℕ :=
  hostWord endian m.mem Header.sequenceId.offset Header.sequenceId.width

def correction : Int64 :=
  (UInt64.ofNat (hostWord endian m.mem Header.correction.offset
    Header.correction.width)).toInt64

def unicast : Bool := fieldIsSet m.mem unicastFlag

/-- `one_step`, for a client that does not assume two steps. -/
def oneStep : Bool := !fieldIsSet m.mem twoStepFlag

/-- `timestamp_to_tmv(m->ts.pdu)`. -/
def pduTs : Int64 :=
  (UInt64.ofNat (m.store.rest.pdu.sec * 1000000000 + m.store.rest.pdu.nsec)).toInt64

/-- `msg_sots_missing`. -/
def sotsMissing : Bool :=
  match m.type with
  | some .sync | some .delayReq | some .pdelayReq | some .pdelayResp => m.hwts == 0
  | _ => false

end PtpMessage

/-! ## The client -/

/-- `struct nsm`, as far as the exchange goes. -/
structure NsmState where
  delayReq : Option PtpMessage
  delayResp : Option PtpMessage
  sync : Option PtpMessage
  fup : Option PtpMessage

def nsmReset : NsmState := ⟨none, none, none, none⟩

def nsmComplete (nsm : NsmState) : Bool :=
  match nsm.sync with
  | none => false
  | some sync =>
      if sync.oneStep then nsm.delayResp.isSome
      else nsm.delayResp.isSome && nsm.fup.isSome

/-- The time stamps that `nsm_compute_offset` feeds to the processor, down and up. -/
structure Samples where
  t1c : Int64
  t2 : Int64
  t3 : Int64
  t4c : Int64
  deriving DecidableEq, Repr

section

variable (host : Host)

def nsmComputeOffset (syn fup req resp : PtpMessage) : Samples :=
  let c1 := correctionToTmv (syn.correction host.endian)
  let c2 := correctionToTmv (fup.correction host.endian)
  let c3 := correctionToTmv (resp.correction host.endian)
  { t1c := fup.pduTs + (c1 + c2)
    t2 := syn.hwts
    t3 := req.hwts
    t4c := resp.pduTs - c3 }

/-- What is printed: where the head and the foot are read, and the samples. -/
structure Report where
  head : ℕ
  foot : ℕ
  samples : Samples
  deriving DecidableEq, Repr

/-- The foot is looked for behind the address. -/
def footRead (resp : PtpMessage) : ℕ :=
  MsgType.delayResp.pduLength + NsmResp.headSize +
    hostWord host.endian resp.mem (MsgType.delayResp.pduLength + NsmResp.parentAddr + 2) 2

def awaited (nsm : NsmState) (msg : PtpMessage) : Bool :=
  match nsm.delayReq with
  | none => false
  | some req =>
      msg.sequenceId host.endian ==
          netWord req.mem Header.sequenceId.offset Header.sequenceId.width &&
        msg.unicast

def nsmKeep (nsm : NsmState) (msg : PtpMessage) : NsmState :=
  match msg.type with
  | some .sync => if nsm.sync.isNone then { nsm with sync := some msg } else nsm
  | some .followUp => if nsm.fup.isNone then { nsm with fup := some msg } else nsm
  | some .delayResp =>
      if nsm.delayResp.isNone then { nsm with delayResp := some msg } else nsm
  | _ => nsm

def expectedType : Option MsgType → Bool
  | some .sync | some .followUp | some .delayResp => true
  | _ => false

/-- The report, for which all four messages are read. -/
def nsmReport (nsm : NsmState) : Except Errno Report :=
  match nsm.delayResp, nsm.sync, nsm.fup, nsm.delayReq with
  | some resp, some sync, some fup, some req =>
      .ok { head := MsgType.delayResp.pduLength
            foot := footRead host resp
            samples := nsmComputeOffset host sync fup req resp }
  | _, _, _, _ => .error .nullPointer

def nsmHandleMsg (nsm : NsmState) (msg : PtpMessage) : Except Errno (NsmState × Option Report) :=
  if !awaited host nsm msg || !expectedType msg.type then .ok (nsm, none)
  else
    let nsm := nsmKeep nsm msg
    if !nsmComplete nsm then .ok (nsm, none)
    else
      match nsmReport host nsm with
      | .ok report => .ok (nsmReset, some report)
      | .error err => .error err

/-- A request has been sent, no reply has come in time, or a datagram has come. -/
inductive NsmEvent
  | request (sent : PtpMessage)
  | timeout
  | datagram (bytes : List UInt8) (buffer : Memory) (pool : TlvPool) (hwts : Int64)

def nsmRecv (bytes : List UInt8) (buffer : Memory) (pool : TlvPool) (hwts : Int64) :
    Option PtpMessage :=
  match ptpMsgReceive host bytes.length (receivedStore bytes buffer pool) with
  | (.ok _, store) =>
      let msg : PtpMessage := ⟨store, hwts⟩
      if msg.sotsMissing then none else some msg
  | (.error _, _) => none

/-- One round of the main loop; without a state the program has crashed. -/
def nsmStep : Option NsmState → NsmEvent → Option NsmState
  | none, _ => none
  | some _, .request sent => some { nsmReset with delayReq := some sent }
  | some _, .timeout => some nsmReset
  | some nsm, .datagram bytes buffer pool hwts =>
      match nsmRecv host bytes buffer pool hwts with
      | none => some nsm
      | some msg =>
          match nsmHandleMsg host nsm msg with
          | .ok (nsm, _) => some nsm
          | .error _ => none

end

/-! ## What a report needs -/

/-- The TLV that the client reads: a monitoring response right behind the body, whose
foot lies where it is looked for and which ends with its foot. -/
def CarriesResponse (host : Host) (resp : PtpMessage) : Prop :=
  ∃ extra rest, resp.store.rest.tlvList = extra :: rest ∧
    extra.tlv = MsgType.delayResp.pduLength ∧
    extra.foot = some (footRead host resp) ∧
    hostWord host.endian resp.mem extra.tlv 2 = TlvType.ptpmonResp.code ∧
    extra.tlv + sizeofTlv + hostWord host.endian resp.mem (extra.tlv + 2) 2 =
      footRead host resp + NsmResp.footSize

/-- All that `nsm_handle_msg` reads of a complete exchange is there. -/
structure Reportable (host : Host) (nsm : NsmState) : Prop where
  request : nsm.delayReq ≠ none
  sync : nsm.sync ≠ none
  followUp : nsm.fup ≠ none
  response : ∃ resp, nsm.delayResp = some resp ∧ CarriesResponse host resp

/-- An event does not make the client report an exchange that is not complete. -/
def ReportsComplete (host : Host) (nsm : NsmState) : NsmEvent → Prop
  | .datagram bytes buffer pool hwts =>
      ∀ msg, nsmRecv host bytes buffer pool hwts = some msg →
        awaited host nsm msg = true → nsmComplete (nsmKeep nsm msg) = true →
          Reportable host (nsmKeep nsm msg)
  | _ => True

def firstTlvType (host : Host) (msg : PtpMessage) : Option ℕ :=
  msg.store.rest.tlvList.head?.map fun extra =>
    hostWord host.endian msg.mem extra.tlv 2

/-- The replies are those that the client is made for: a one-step Sync and a Delay_Resp
do not both come before the Follow_Up, and the first TLV of a Delay_Resp is a monitoring
response. -/
def Serves (host : Host) (nsm : NsmState) (msg : PtpMessage) : Prop :=
  match msg.type with
  | some .sync =>
      nsm.sync = none → msg.oneStep = true → nsm.fup ≠ none ∨ nsm.delayResp = none
  | some .delayResp =>
      nsm.delayResp = none →
        firstTlvType host msg = some TlvType.ptpmonResp.code ∧
          ∀ sync, nsm.sync = some sync → sync.oneStep = true → nsm.fup ≠ none
  | _ => True

/-- The condition on an event of a run. -/
def ServedBy (host : Host) : Option NsmState → NsmEvent → Prop
  | some nsm, .datagram bytes buffer pool hwts =>
      ∀ msg, nsmRecv host bytes buffer pool hwts = some msg →
        awaited host nsm msg = true → Serves host nsm msg
  | _, _ => True

variable {host : Host} {nsm : NsmState} {msg : PtpMessage}

/-! ## The TLV of a Delay_Resp -/

theorem nsmRecv_eq_some {bytes : List UInt8} {buffer : Memory} {pool : TlvPool}
    {hwts : Int64} (hrecv : nsmRecv host bytes buffer pool hwts = some msg) :
    ptpMsgReceive host bytes.length (receivedStore bytes buffer pool) =
      (.ok (), msg.store) := by
  unfold nsmRecv at hrecv
  split at hrecv
  · rename_i store hrun
    dsimp only at hrecv
    split at hrecv
    · exact absurd hrecv (by simp)
    · obtain rfl := Option.some.inj hrecv
      exact hrun
  · exact absurd hrecv (by simp)

/-- Parsing keeps the byte that tells the type. -/
theorem ptpMsgReceive_typeOf {cnt : ℕ} {wire parsed : Store ParseState}
    (hrun : ptpMsgReceive host cnt wire = (.ok (), parsed)) :
    typeOf parsed.mem = typeOf wire.mem := by
  obtain ⟨-, type, -, hpdu, start, hmem, -, -, hsuffix⟩ := ptpMsgReceive_eq_ok host hrun
  have hfixed : start.mem 0 = wire.mem 0 := by
    rw [hmem]
    exact fixedPart_outside host.endian type wire.mem (Or.inl rfl)
  have hkept : parsed.mem 0 = start.mem 0 := by
    rw [suffixPostRecv] at hsuffix
    cases hptr : type.suffix with
    | none =>
      rw [hptr] at hsuffix
      exact congrArg (fun outcome => Store.mem outcome.2 0) hsuffix.symm
    | some ptr =>
      have hge : 44 ≤ type.pduLength := by cases type <;> decide
      rw [hptr] at hsuffix
      rw [MsgType.suffix_eq_pduLength hptr] at hsuffix
      exact suffixLoop_outside host hsuffix (Or.inl (by omega))
  rw [typeOf, typeOf, hkept, hfixed]

theorem carriesResponse_of_firstTlvType {cnt : ℕ} {wire : Store ParseState}
    (hrun : ptpMsgReceive host cnt wire = (.ok (), msg.store))
    (hempty : wire.rest.tlvList = []) (htype : msg.type = some .delayResp)
    (hfirst : firstTlvType host msg = some TlvType.ptpmonResp.code) :
    CarriesResponse host msg := by
  obtain ⟨-, type, hwire, hpdu, start, hmem, hlist, -, hsuffix⟩ :=
    ptpMsgReceive_eq_ok host hrun
  obtain rfl : type = .delayResp := Option.some.inj
    (hwire.symm.trans ((ptpMsgReceive_typeOf hrun).symm.trans htype))
  have hloop : suffixLoop host (cnt - 54 + 1) 54 (cnt - 54) start = (.ok (), msg.store) :=
    hsuffix
  by_cases hmore : cnt - 54 < sizeofTlv
  · rw [suffixLoop, if_pos hmore] at hloop
    have hsame : start = msg.store := (Prod.mk.inj hloop).2
    rw [firstTlvType, ← hsame, hlist, hempty] at hfirst
    exact absurd hfirst (by simp)
  obtain ⟨tlv, store₁, store₂, -, hround, -, -, store₃, hmem₃, hlist₃, hlater⟩ :=
    suffixLoop_eq_ok host hloop hmore
  obtain ⟨tlvs, hfinal, -⟩ := suffixLoop_tiles host hlater
  rw [hlist₃, hlist, hempty, List.nil_append, List.singleton_append] at hfinal
  obtain ⟨hlen, -, -, htlv, spans, hpost⟩ := suffixTlvPostRecv_eq_ok host hround
  have hkept : ∀ i, i < 54 + sizeofTlv + tlv.2 → msg.mem i = store₂.mem i :=
    fun i hi => (suffixLoop_outside host hlater (Or.inl hi)).trans (congrFun hmem₃ i)
  have hword : hostWord host.endian msg.mem 54 2 = netWord store₁.mem 54 2 := by
    have hheader : hostWord host.endian (swapAll host.endian 54 tlvHeader store₁.mem)
        54 2 = netWord store₁.mem 54 2 :=
      hostWord_swapAll 54 Tlv.type tlvHeader_disjoint (by decide) store₁.mem
    rw [← hheader]
    exact hostWord_congr _ fun i _ hlt =>
      (hkept i (by simp only [sizeofTlv]; omega)).trans
        (tlvPostRecv_outside host hpost (Or.inl hlt))
  have hresponse : netWord store₁.mem 54 2 = TlvType.ptpmonResp.code := by
    rw [firstTlvType, hfinal, List.head?_cons, Option.map_some, htlv] at hfirst
    exact hword.symm.trans (Option.some.inj hfirst)
  rw [hresponse] at hpost
  have hrecv : nsmRespPostRecv host 54 tlv.2 { tlv := 54 }
      ⟨swapAll host.endian 54 tlvHeader store₁.mem, spans, store₁.rest⟩ =
        (.ok tlv.1, store₂) := hpost
  obtain ⟨-, hexact, -, hfoot⟩ := nsmRespPostRecv_eq_ok host hrecv
  have hlength : hostWord host.endian msg.mem 56 2 = tlv.2 := by
    have hheader : hostWord host.endian (swapAll host.endian 54 tlvHeader store₁.mem)
        56 2 = netWord store₁.mem 56 2 :=
      hostWord_swapAll 54 Tlv.length tlvHeader_disjoint (by decide) store₁.mem
    rw [hlen, ← hheader]
    have hconfined : Confined onBuffer 58 (54 + sizeofTlv + tlv.2)
        (nsmRespPostRecv host 54 tlv.2 { tlv := 54 }) :=
      confined_nsmRespPostRecv host _ (by omega) le_rfl
    exact hostWord_congr _ fun i _ hlt =>
      (hkept i (by simp only [sizeofTlv]; omega)).trans
        (hconfined.mem_eq hrecv (Or.inl hlt))
  have haddress : hostWord host.endian msg.mem 62 2 =
      hostWord host.endian store₂.mem 62 2 :=
    hostWord_congr _ fun i _ hlt => hkept i (by
      simp only [NsmResp.headSize, NsmResp.footSize, sizeofTlv] at hexact ⊢
      omega)
  have hread : footRead host msg =
      54 + NsmResp.headSize + hostWord host.endian store₂.mem 62 2 := by
    rw [← haddress]
    rfl
  refine ⟨tlv.1, tlvs, hfinal, htlv, hfoot.trans (congrArg some hread.symm), ?_, ?_⟩
  · rw [htlv]
    exact hword.trans hresponse
  · rw [htlv, hread]
    change 54 + sizeofTlv + hostWord host.endian msg.mem 56 2 = _
    have hsize : tlv.2 = 74 + hostWord host.endian store₂.mem 62 2 - 4 := hexact
    rw [hlength]
    simp only [NsmResp.headSize, NsmResp.footSize, sizeofTlv]
    omega

/-! ## Runs -/

/-- What the client keeps between two events. -/
structure Orderly (host : Host) (nsm : NsmState) : Prop where
  response : ∀ resp, nsm.delayResp = some resp → CarriesResponse host resp
  followUp : ∀ sync, nsm.sync = some sync → sync.oneStep = true →
    nsm.delayResp ≠ none → nsm.fup ≠ none

theorem Orderly.reset (host : Host) (req : Option PtpMessage) :
    Orderly host { nsmReset with delayReq := req } :=
  ⟨fun _ hresp => absurd hresp (by simp [nsmReset]),
    fun _ hsync => absurd hsync (by simp [nsmReset])⟩

/-- A message that serves is kept in order. -/
theorem Orderly.keep (horderly : Orderly host nsm) (hserves : Serves host nsm msg)
    (hcarries : msg.type = some .delayResp →
      firstTlvType host msg = some TlvType.ptpmonResp.code → CarriesResponse host msg) :
    Orderly host (nsmKeep nsm msg) := by
  unfold nsmKeep
  unfold Serves at hserves
  split
  · rename_i htype
    simp only [htype] at hserves
    split
    · rename_i hfirst
      refine ⟨horderly.response, fun sync hsync hone hresp => ?_⟩
      obtain rfl := Option.some.inj hsync
      exact (hserves (Option.isNone_iff_eq_none.mp hfirst) hone).resolve_right hresp
    · exact horderly
  · split
    · exact ⟨horderly.response, fun _ _ _ _ => Option.some_ne_none msg⟩
    · exact horderly
  · rename_i htype
    simp only [htype] at hserves
    split
    · rename_i hfirst
      obtain ⟨hresponse, hfollowUp⟩ := hserves (Option.isNone_iff_eq_none.mp hfirst)
      refine ⟨fun resp hresp => ?_, fun sync hsync hone _ => hfollowUp sync hsync hone⟩
      obtain rfl := Option.some.inj hresp
      exact hcarries htype hresponse
    · exact horderly
  · exact horderly

theorem nsmKeep_delayReq (nsm : NsmState) (msg : PtpMessage) :
    (nsmKeep nsm msg).delayReq = nsm.delayReq := by
  unfold nsmKeep
  split <;> try split
  all_goals rfl

theorem Orderly.reportable (horderly : Orderly host nsm) (hreq : nsm.delayReq ≠ none)
    (hcomplete : nsmComplete nsm = true) : Reportable host nsm := by
  unfold nsmComplete at hcomplete
  cases hsync : nsm.sync with
  | none => simp [hsync] at hcomplete
  | some sync =>
    simp only [hsync] at hcomplete
    have hresp : nsm.delayResp ≠ none := by
      split at hcomplete <;> simp_all [Option.isSome_iff_ne_none]
    have hfup : nsm.fup ≠ none := by
      split at hcomplete
      · rename_i hone
        exact horderly.followUp sync hsync hone hresp
      · simp_all [Option.isSome_iff_ne_none]
    obtain ⟨resp, hsome⟩ := Option.ne_none_iff_exists'.mp hresp
    exact ⟨hreq, by simp [hsync], hfup, resp, hsome, horderly.response resp hsome⟩

theorem awaited_delayReq (hawaited : awaited host nsm msg = true) :
    nsm.delayReq ≠ none := by
  intro hnone
  simp [awaited, hnone] at hawaited

theorem nsmReport_of_reportable (hreportable : Reportable host nsm) :
    ∃ report, nsmReport host nsm = .ok report := by
  obtain ⟨hreq, hsync, hfup, resp, hresp, -⟩ := hreportable
  obtain ⟨req, hreq⟩ := Option.ne_none_iff_exists'.mp hreq
  obtain ⟨sync, hsync⟩ := Option.ne_none_iff_exists'.mp hsync
  obtain ⟨fup, hfup⟩ := Option.ne_none_iff_exists'.mp hfup
  simp [nsmReport, hreq, hsync, hfup, hresp]

/-- The program runs, and what it keeps is in order. -/
def Running (host : Host) (state : Option NsmState) : Prop :=
  ∃ nsm, state = some nsm ∧ Orderly host nsm

/-- A message that serves makes the client report a complete exchange only, and leaves
it running. -/
theorem nsmHandleMsg_orderly (horderly : Orderly host nsm)
    (hserves : awaited host nsm msg = true → Serves host nsm msg)
    (hcarries : msg.type = some .delayResp →
      firstTlvType host msg = some TlvType.ptpmonResp.code → CarriesResponse host msg) :
    (awaited host nsm msg = true → nsmComplete (nsmKeep nsm msg) = true →
      Reportable host (nsmKeep nsm msg)) ∧
      ∃ nsm' report, nsmHandleMsg host nsm msg = .ok (nsm', report) ∧
        Orderly host nsm' := by
  have hkept : awaited host nsm msg = true → Orderly host (nsmKeep nsm msg) :=
    fun hawaited => horderly.keep (hserves hawaited) hcarries
  have hreportable : awaited host nsm msg = true →
      nsmComplete (nsmKeep nsm msg) = true → Reportable host (nsmKeep nsm msg) :=
    fun hawaited hcomplete => (hkept hawaited).reportable
      (by rw [nsmKeep_delayReq]; exact awaited_delayReq hawaited) hcomplete
  refine ⟨hreportable, ?_⟩
  unfold nsmHandleMsg
  split
  · exact ⟨nsm, none, rfl, horderly⟩
  · rename_i hawaited
    have hawaited : awaited host nsm msg = true := by
      simp only [Bool.or_eq_true, Bool.not_eq_true', not_or, Bool.not_eq_false] at hawaited
      exact hawaited.1
    dsimp only
    split
    · exact ⟨_, none, rfl, hkept hawaited⟩
    · rename_i hcomplete
      obtain ⟨report, hreport⟩ := nsmReport_of_reportable
        (hreportable hawaited (by simpa using hcomplete))
      rw [hreport]
      exact ⟨nsmReset, some report, rfl, Orderly.reset host none⟩

theorem nsmRecv_carriesResponse {bytes : List UInt8} {buffer : Memory} {pool : TlvPool}
    {hwts : Int64} (hrecv : nsmRecv host bytes buffer pool hwts = some msg)
    (htype : msg.type = some .delayResp)
    (hfirst : firstTlvType host msg = some TlvType.ptpmonResp.code) :
    CarriesResponse host msg :=
  carriesResponse_of_firstTlvType (nsmRecv_eq_some hrecv) rfl htype hfirst

theorem nsmStep_running {state : Option NsmState} {event : NsmEvent}
    (hserved : ServedBy host state event) (hrunning : Running host state) :
    Running host (nsmStep host state event) := by
  obtain ⟨nsm, rfl, horderly⟩ := hrunning
  cases event with
  | request sent => exact ⟨_, rfl, Orderly.reset host (some sent)⟩
  | timeout => exact ⟨_, rfl, Orderly.reset host none⟩
  | datagram bytes buffer pool hwts =>
    cases hrecv : nsmRecv host bytes buffer pool hwts with
    | none => exact ⟨nsm, by simp only [nsmStep, hrecv], horderly⟩
    | some msg =>
      obtain ⟨-, nsm', report, hhandle, horderly'⟩ := nsmHandleMsg_orderly horderly
        (hserved msg hrecv) (nsmRecv_carriesResponse hrecv)
      exact ⟨nsm', by simp only [nsmStep, hrecv, hhandle], horderly'⟩

/-- In every run whose replies serve, the client never crashes, and whenever the exchange
is complete all that is reported of it is there. -/
theorem nsmRun_reportsComplete (host : Host) {events : List NsmEvent}
    (hserved : Meets (nsmStep host) (ServedBy host) events (some nsmReset))
    {before after : List NsmEvent} {event : NsmEvent}
    (hevents : events = before ++ event :: after) :
    ∃ nsm, run (nsmStep host) before (some nsmReset) = some nsm ∧
      ReportsComplete host nsm event ∧ nsmStep host (some nsm) event ≠ none := by
  subst hevents
  obtain ⟨hbefore, hevent, -⟩ := meets_append.mp hserved
  have hrunning : Running host (run (nsmStep host) before (some nsmReset)) :=
    hbefore.invariant (fun _ _ => nsmStep_running)
      ⟨nsmReset, rfl, Orderly.reset host none⟩
  obtain ⟨nsm, hrun, horderly⟩ := hrunning
  rw [hrun] at hevent
  refine ⟨nsm, hrun, ?_, ?_⟩
  · cases event with
    | request | timeout => exact trivial
    | datagram bytes buffer pool hwts =>
      exact fun msg hrecv => (nsmHandleMsg_orderly horderly (hevent msg hrecv)
        (nsmRecv_carriesResponse hrecv)).1
  · obtain ⟨nsm', hnext, -⟩ := nsmStep_running hevent ⟨nsm, rfl, horderly⟩
    rw [hnext]
    exact Option.some_ne_none nsm'

/-! ## Replies that do not serve -/

def replyHeader (type length flags control : UInt8) : List UInt8 :=
  [type, 0x02, 0, length, 0, 0, flags, 0, 0, 0, 0, 0, 0, 0, 0, 0, 0, 0, 0, 0,
    0, 0x1b, 0x19, 0xff, 0xfe, 0, 0, 1, 0, 1, 0, 7, control, 0x7f]

def sentRequest : NsmEvent :=
  .request ⟨receivedStore (replyHeader 1 48 0x04 1) (fun _ => 0) ⟨0, 0⟩, 500⟩

def reply (bytes : List UInt8) : NsmEvent :=
  .datagram bytes (fun _ => 0) ⟨0, 0⟩ 1000

def syncReply (flags : UInt8) : NsmEvent :=
  reply (replyHeader 0 44 flags 0 ++ List.replicate 10 0)

def followUpReply : NsmEvent :=
  reply (replyHeader 8 44 0x04 2 ++ List.replicate 10 0)

def bareDelayResp : NsmEvent :=
  reply (replyHeader 9 54 0x04 3 ++ List.replicate 20 0)

def delivered : NsmEvent → PtpMessage
  | .datagram bytes buffer pool hwts =>
      (nsmRecv smallHost bytes buffer pool hwts).getD ⟨receivedStore [] buffer pool, hwts⟩
  | .request sent => sent
  | .timeout => ⟨receivedStore [] (fun _ => 0) ⟨0, 0⟩, 0⟩

def Delivers : NsmEvent → Prop
  | .datagram bytes buffer pool hwts =>
      (nsmRecv smallHost bytes buffer pool hwts).isSome = true
  | _ => False

instance : DecidablePred Delivers
  | .datagram _ _ _ _ => inferInstanceAs (Decidable (_ = true))
  | .request _ => inferInstanceAs (Decidable False)
  | .timeout => inferInstanceAs (Decidable False)

def stateAfter (events : List NsmEvent) : NsmState :=
  (run (nsmStep smallHost) events (some nsmReset)).getD nsmReset

theorem eq_some_getD {α : Type} {value : Option α} (hsome : value.isSome = true)
    (default : α) : value = some (value.getD default) := by
  cases value with
  | none => exact absurd hsome (by simp)
  | some => rfl

/-- What is reported when the message that an event delivers completes the exchange. -/
theorem ReportsComplete.reportable {nsm : NsmState} {event : NsmEvent}
    (hreports : ReportsComplete smallHost nsm event) (hdelivers : Delivers event)
    (hawaited : awaited smallHost nsm (delivered event) = true)
    (hcomplete : nsmComplete (nsmKeep nsm (delivered event)) = true) :
    Reportable smallHost (nsmKeep nsm (delivered event)) := by
  cases event with
  | request | timeout => exact hdelivers.elim
  | datagram bytes buffer pool hwts =>
    exact hreports _ (eq_some_getD hdelivers _) hawaited hcomplete

/-- The Follow_Up is missing behind a one-step Sync, and the TLV in a Delay_Resp. -/
theorem nsmRun_not_reportsComplete :
    (run (nsmStep smallHost) [sentRequest, syncReply 0x04] (some nsmReset) =
        some (stateAfter [sentRequest, syncReply 0x04]) ∧
      ¬ReportsComplete smallHost (stateAfter [sentRequest, syncReply 0x04])
        bareDelayResp ∧
      nsmStep smallHost (some (stateAfter [sentRequest, syncReply 0x04]))
        bareDelayResp = none) ∧
      run (nsmStep smallHost) [sentRequest, syncReply 0x06, followUpReply]
        (some nsmReset) =
          some (stateAfter [sentRequest, syncReply 0x06, followUpReply]) ∧
      ¬ReportsComplete smallHost
        (stateAfter [sentRequest, syncReply 0x06, followUpReply]) bareDelayResp := by
  have hdelivers : Delivers bareDelayResp := by decide +kernel
  refine ⟨⟨eq_some_getD (by decide +kernel) _, ?_, ?_⟩,
    eq_some_getD (by decide +kernel) _, ?_⟩
  · intro hreports
    refine (hreports.reportable hdelivers (by decide +kernel)
      (by decide +kernel)).followUp ?_
    exact Option.isNone_iff_eq_none.mp (by decide +kernel)
  · exact Option.isNone_iff_eq_none.mp (by decide +kernel)
  · intro hreports
    obtain ⟨-, -, -, resp, hresp, extra, rest, hlist, -⟩ :=
      hreports.reportable hdelivers (by decide +kernel) (by decide +kernel)
    have hbare : ((nsmKeep (stateAfter [sentRequest, syncReply 0x06, followUpReply])
        (delivered bareDelayResp)).delayResp.map fun resp => resp.store.rest.tlvList) =
          some [] := by decide +kernel
    rw [hresp] at hbare
    exact absurd (hlist.symm.trans (Option.some.inj hbare)) (by simp)

/-- A Delay_Resp with a monitoring response of 78 octets, in which the parent has an
IPv4 address. -/
def monitoredDelayResp : NsmEvent :=
  reply (replyHeader 9 132 0x04 3 ++ List.replicate 20 0 ++
    [0x21, 0xff, 0, 74, 9, 0, 0, 1, 0, 4, 10, 0, 0, 1] ++ List.replicate 64 0)

def twoStepReplies : List NsmEvent :=
  [sentRequest, syncReply 0x06, followUpReply]

theorem servedBy_of_serves {event : NsmEvent} {state : Option NsmState}
    (hdelivers : Delivers event)
    (hserves : ∀ nsm, state = some nsm → Serves smallHost nsm (delivered event)) :
    ServedBy smallHost state event := by
  cases event with
  | request | timeout => exact hdelivers.elim
  | datagram bytes buffer pool hwts =>
    cases state with
    | none => exact trivial
    | some nsm =>
      intro msg hrecv _
      have hsame : delivered (.datagram bytes buffer pool hwts) = msg := by
        simp only [delivered, hrecv, Option.getD_some]
      exact hsame ▸ hserves nsm rfl

/-- A Sync of two steps, its Follow_Up and a monitored Delay_Resp serve: with the last
of them the exchange is complete, and all that is reported of it is there. -/
theorem nsmRun_reportsComplete_twoSteps :
    Reportable smallHost
        (nsmKeep (stateAfter twoStepReplies) (delivered monitoredDelayResp)) ∧
      nsmStep smallHost (some (stateAfter twoStepReplies)) monitoredDelayResp ≠ none := by
  have hsync : (delivered (syncReply 0x06)).type = some .sync ∧
      (delivered (syncReply 0x06)).oneStep = false := by decide +kernel
  have hfollowUp : (delivered followUpReply).type = some .followUp := by decide +kernel
  have hresponse : (delivered monitoredDelayResp).type = some .delayResp ∧
      firstTlvType smallHost (delivered monitoredDelayResp) =
        some TlvType.ptpmonResp.code := by decide +kernel
  have hstate : run (nsmStep smallHost) twoStepReplies (some nsmReset) =
      some (stateAfter twoStepReplies) := eq_some_getD (by decide +kernel) _
  have hheld : (stateAfter twoStepReplies).fup.isSome = true := by decide +kernel
  have hreplies : Meets (nsmStep smallHost) (ServedBy smallHost) twoStepReplies
      (some nsmReset) :=
    ⟨trivial, servedBy_of_serves (by decide +kernel) fun nsm _ => by
      simp only [Serves, hsync, Bool.false_eq_true, false_implies, implies_true],
      servedBy_of_serves (by decide +kernel) fun nsm _ => by
        simp only [Serves, hfollowUp], trivial⟩
  have hlast : ServedBy smallHost (run (nsmStep smallHost) twoStepReplies (some nsmReset))
      monitoredDelayResp := by
    refine servedBy_of_serves (by decide +kernel) fun nsm hnsm => ?_
    obtain rfl := Option.some.inj (hstate.symm.trans hnsm)
    simp only [Serves, hresponse]
    exact fun _ => ⟨trivial, fun _ _ _ => Option.isSome_iff_ne_none.mp hheld⟩
  have hmeets : Meets (nsmStep smallHost) (ServedBy smallHost)
      (twoStepReplies ++ [monitoredDelayResp]) (some nsmReset) :=
    meets_append.mpr ⟨hreplies, hlast, trivial⟩
  obtain ⟨nsm, hrun, hcomplete, hnext⟩ := nsmRun_reportsComplete smallHost hmeets rfl
  obtain rfl := Option.some.inj (hstate.symm.trans hrun)
  exact ⟨hcomplete.reportable (by decide +kernel) (by decide +kernel)
    (by decide +kernel), hnext⟩

end LinuxPtp.Nsm
