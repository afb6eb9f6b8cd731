import LinuxPtp.Clock.MgmtReplies
import LinuxPtp.Nsm.Response
import LinuxPtp.Wire.FirstTlv
import LinuxPtp.Wire.HostOrder

/-!
# What a monitor reads in a response

A response is understood when the address in it has the length that its protocol calls
for.  The port that answers does not look at this: it reports the address of its
interface as it is, even when there is none, and takes the address of the parent from an
Announce that may be gone.
-/

namespace LinuxPtp.Nsm

open ByteOrder Access Wire Port Bmc Clock

/-! ## The contract -/

/-- A response without TLVs. -/
structure Fresh (start : Store ParseState) : Prop where
  type : typeOf start.mem = some .delayResp
  empty : start.rest.tlvList = []

/-- There is a descriptor for one more TLV. -/
def Supplied (host : Host) (state : ParseState) : Prop :=
  0 < state.pool.free ∨ host.calloc state.pool.callocs = true

instance (host : Host) (state : ParseState) : Decidable (Supplied host state) :=
  inferInstanceAs (Decidable (_ ∨ _))

/-- The TLV is sent, accepted by the parser and read as it was meant. -/
def Understood (host : Host) (c : ReportedClock) (p : MonitoredPort)
    (paddr : PortAddress) (built : Store ParseState) : Prop :=
  ∃ extra wire result foot received, built.rest.tlvList = [extra] ∧
    hostWord host.endian built.mem extra.tlv 2 = TlvType.ptpmonResp.code ∧
    Runs (tlvPreSend host TlvType.ptpmonResp.code
      (hostWord host.endian built.mem (extra.tlv + 2) 2) extra) built.mem () wire ∧
    Runs (nsmRespPostRecv host extra.tlv
      (hostWord host.endian built.mem (extra.tlv + 2) 2) { tlv := extra.tlv }) wire
      result received ∧
    result.foot = some foot ∧
    (∀ member ∈ headMembers p paddr,
      member.ReadsAs host.endian received extra.tlv) ∧
    ∀ member ∈ footMembers c, member.ReadsAs host.endian received foot

/-- No missing Announce is asked for its address, and a response that has been appended
is understood. -/
def RightlyAnswered (host : Host) (c : ReportedClock) (bestPort : Option MonitoredPort)
    (p : MonitoredPort) (start : Store ParseState) : Prop :=
  ∃ paddr, parentAddress c bestPort p = .ok paddr ∧
    ∀ built, netSyncRespAppend host c bestPort p start = (.ok true, built) →
      Understood host c p paddr built

/-! ## The address -/

/-- The port whose address is reported, with its foreign master if it has one. -/
def addressed (c : ReportedClock) (bestPort : Option MonitoredPort)
    (p : MonitoredPort) : Transport × Option (List MessageAddress) :=
  match bestPort with
  | some best =>
      if c.dds.clockIdentity ≠ c.pds.parentPortIdentity.clockIdentity then
        (best.trp, best.best)
      else (p.trp, none)
  | none => (p.trp, none)

/-- Where an address is taken from an Announce, there is one. -/
def AnnounceKept (source : Transport × Option (List MessageAddress)) : Prop :=
  source.1.type ≠ .uds → source.2 ≠ some []

/-- The address has the length that its protocol calls for: the port is not a local
socket, and the address of its interface is known unless an Announce provides it. -/
def AddressKnown (source : Transport × Option (List MessageAddress)) : Prop :=
  source.1.type ≠ .uds ∧ (source.2 = none → source.1.protocolAddr ≠ [])

instance (source : Transport × Option (List MessageAddress)) :
    Decidable (AddressKnown source) :=
  inferInstanceAs (Decidable (_ ∧ (_ → _)))

variable {host : Host} {c : ReportedClock} {bestPort : Option MonitoredPort}
variable {p : MonitoredPort} {paddr : PortAddress} {start : Store ParseState}

/-- The address that goes with a transport and the Announces of a foreign master. -/
def sourceAddress : Transport × Option (List MessageAddress) → Except Errno PortAddress
  | (trp, some messages) => extractAddress messages.head? ⟨trp.type, trp.protocolAddr⟩
  | (trp, none) => .ok ⟨trp.type, trp.protocolAddr⟩

theorem parentAddress_eq (c : ReportedClock) (bestPort : Option MonitoredPort)
    (p : MonitoredPort) :
    parentAddress c bestPort p = sourceAddress (addressed c bestPort p) := by
  unfold parentAddress addressed
  cases bestPort with
  | none => rfl
  | some best =>
    dsimp only
    split
    · obtain ⟨trp, state, best⟩ := best
      cases best <;> rfl
    · rfl

theorem sourceAddress_ok_iff {source : Transport × Option (List MessageAddress)} :
    (∃ paddr, sourceAddress source = .ok paddr) ↔ AnnounceKept source := by
  obtain ⟨trp, messages⟩ := source
  rcases messages with - | - | ⟨message, messages⟩ <;> cases trp <;>
    simp [sourceAddress, AnnounceKept, extractAddress, Transport.type]

theorem expectedAddressLength_iff {source : Transport × Option (List MessageAddress)}
    (haddress : sourceAddress source = .ok paddr) :
    expectedAddressLength paddr.networkProtocol.code = some paddr.address.length ↔
      AddressKnown source := by
  obtain ⟨trp, messages⟩ := source
  rcases messages with - | - | ⟨message, messages⟩ <;>
    rcases trp with - | ⟨- | ip⟩ | ⟨- | ip⟩ | srcAddr <;>
    simp only [sourceAddress, extractAddress, Transport.type, Transport.protocolAddr,
      List.head?_nil, List.head?_cons, Except.ok.injEq, reduceCtorEq] at haddress <;>
    subst haddress <;>
    simp [AddressKnown, expectedAddressLength, TransportType.code, Transport.type,
      Transport.protocolAddr, ← List.length_eq_zero_iff]

theorem address_short {source : Transport × Option (List MessageAddress)}
    (haddress : sourceAddress source = .ok paddr) : paddr.address.length ≤ 16 := by
  obtain ⟨trp, messages⟩ := source
  rcases messages with - | - | ⟨message, messages⟩ <;>
    rcases trp with - | ⟨- | ip⟩ | ⟨- | ip⟩ | srcAddr <;>
    simp only [sourceAddress, extractAddress, Transport.type, Transport.protocolAddr,
      List.head?_nil, List.head?_cons, Except.ok.injEq, reduceCtorEq] at haddress <;>
    subst haddress <;>
    simp

/-! ## The layout -/

def footOffset (paddr : PortAddress) : ℕ := NsmResp.headSize + paddr.address.length

def responseMembers (c : ReportedClock) (p : MonitoredPort) (paddr : PortAddress) :
    List Member :=
  [.unsigned 0 2 TlvType.ptpmonResp.code,
    .unsigned 2 2 (responseLength paddr - sizeofTlv : ℕ)] ++ headMembers p paddr ++
    (footMembers c).map (Member.shift (footOffset paddr))

theorem responseMembers_disjoint (c : ReportedClock) (p : MonitoredPort)
    (paddr : PortAddress) : (responseMembers c p paddr).Pairwise Member.Disjoint := by
  refine Member.disjoint_of_isChain ?_
  simp [responseMembers, headMembers, footMembers, footOffset, ParentDs.members,
    CurrentDs.members, TimePropertiesDs.members, WireTime.members, ClockQuality.members,
    PortIdentity.members, uint8, uint16, uint32, int16, int32, int64, Member.shift,
    Member.Before, Member.offset, Member.width, ClockIdentity.bytes, NsmResp.headSize,
    NsmResp.portState, NsmResp.parentAddr, NsmResp.footParent, NsmResp.footCurrent,
    NsmResp.footTimeprop, NsmResp.footLastsync, WireTimestamp.secondsMsb,
    WireTimestamp.secondsLsb, WireTimestamp.nanoseconds]

theorem TransportType.code_lt (type : TransportType) : type.code < 2 ^ 16 := by
  cases type <;> decide

theorem reportedState_code_lt (state : PortState) :
    portStateCode (reportedState state) < 2 ^ 8 := by
  cases state <;> decide

theorem responseMembers_fit (c : ReportedClock) (p : MonitoredPort)
    (hshort : paddr.address.length ≤ 16) :
    ∀ member ∈ responseMembers c p paddr, member.Fits := by
  have hstate := reportedState_code_lt p.state
  have hprotocol := TransportType.code_lt paddr.networkProtocol
  have hlength : responseLength paddr - sizeofTlv < 2 ^ 16 := by
    simp only [responseLength, NsmResp.headSize, NsmResp.footSize, sizeofTlv]
    omega
  have hfoot : ∀ member ∈ (footMembers c).map (Member.shift (footOffset paddr)),
      member.Fits := by
    simp [footMembers, ParentDs.members, CurrentDs.members, TimePropertiesDs.members,
      WireTime.members, ClockQuality.members, PortIdentity.members]
  refine List.forall_mem_append.mpr ⟨?_, hfoot⟩
  simp only [headMembers, List.forall_mem_append, List.forall_mem_cons,
    List.not_mem_nil, false_implies, implies_true, and_true, Member.Fits, TlvType.code]
  omega

def responseWritten (host : Host) (c : ReportedClock) (p : MonitoredPort)
    (paddr : PortAddress) (base : ℕ) (mem : Memory) : Memory :=
  Member.storeAll host.endian base (responseMembers c p paddr) mem

theorem responseWritten_readsAs (hshort : paddr.address.length ≤ 16) {base : ℕ}
    {mem : Memory} {member : Member} (hmember : member ∈ responseMembers c p paddr) :
    member.ReadsAs host.endian (responseWritten host c p paddr base mem) base :=
  (Member.readsAs_iff_fits (Member.bytesAt_storeAll
    (responseMembers_disjoint c p paddr) hmember)).mpr
      (responseMembers_fit c p hshort member hmember)

/-! ## Appending the response -/

theorem succeeds_tlvExtraAlloc_run (host : Host) (store : Store ParseState) :
    ∃ rest, Access.succeeds (tlvExtraAlloc host) store =
        (.ok (decide (Supplied host store.rest)), { store with rest := rest }) ∧
      rest.tlvList = store.rest.tlvList := by
  by_cases hfree : 0 < store.rest.pool.free
  · exact ⟨{ store.rest with
      pool := { store.rest.pool with free := store.rest.pool.free - 1 } }, by
      simp [Access.succeeds, tlvExtraAlloc, bind_run, getRest, hfree, modifyRest_run,
        Supplied], rfl⟩
  · refine ⟨{ store.rest with
      pool := { store.rest.pool with callocs := store.rest.pool.callocs + 1 } }, ?_, rfl⟩
    cases hcalloc : host.calloc store.rest.pool.callocs <;>
      simp [Access.succeeds, tlvExtraAlloc, bind_run, getRest, hfree, modifyRest_run,
        hcalloc, Supplied]

/-- The response goes right behind the message. -/
theorem msgTlvAppend_fresh {length : ℕ} (hfresh : Fresh start) (hsmall : length ≤ 1446) :
    ∃ found appended, msgTlvAppend host length start = (.ok found, appended) ∧
      (Supplied host start.rest → found = some { tlv := 54 } ∧
        appended.rest.tlvList = [{ tlv := 54 }]) ∧
      (¬Supplied host start.rest → found = none) := by
  have hsuffix := HostTlv.msgSuffix_run hfresh.type
  obtain ⟨rest, halloc, hlist⟩ := succeeds_tlvExtraAlloc_run host
    { start with spans := ⟨0, 1⟩ :: start.spans }
  have hprepare : msgTlvPrepare host length start =
      (.ok (if decide (Supplied host start.rest) then some { tlv := 54 } else none),
        ⟨start.mem, ⟨0, 1⟩ :: start.spans, rest⟩) := by
    rw [msgTlvPrepare, bind_run, hsuffix]
    simp only [MsgType.suffix, bind_run, getRest, hfresh.empty, List.getLast?_nil,
      msgTlvEnd, pure_run]
    rw [if_neg (by
      simp only [messageDataSize]
      omega), bind_run, halloc]
    rfl
  by_cases hsupplied : Supplied host start.rest
  · rw [if_pos (decide_eq_true hsupplied)] at hprepare
    let counted := host.endian.encode 2 (hostWord host.endian start.mem 2 2 + length)
    let appended : Store ParseState := ⟨storeBytes start.mem 2 counted,
      ⟨2, counted.length⟩ :: ⟨2, 2⟩ :: ⟨0, 1⟩ :: start.spans,
      { rest with tlvList := rest.tlvList ++ [{ tlv := 54 }] }⟩
    have hlisted : appended.rest.tlvList = [{ tlv := 54 }] := by
      simp only [appended, hlist, hfresh.empty]
      rfl
    refine ⟨some { tlv := 54 }, appended, ?_, fun _ => ⟨rfl, hlisted⟩, absurd hsupplied⟩
    rw [msgTlvAppend, bind_run, hprepare]
    rfl
  · rw [if_neg (by simpa using hsupplied)] at hprepare
    refine ⟨none, ⟨start.mem, ⟨0, 1⟩ :: start.spans, rest⟩, ?_,
      fun hyes => absurd hyes hsupplied, fun _ => rfl⟩
    rw [msgTlvAppend, bind_run, hprepare]
    rfl

/-- The writes of the response leave its members in memory. -/
theorem responseWritten_eq (hshort : paddr.address.length ≤ 16) (base : ℕ)
    (mem : Memory) :
    Member.storeAll host.endian (base + NsmResp.headSize + paddr.address.length)
      (footMembers c)
      (Member.storeAll host.endian base (headMembers p paddr)
        (storeBytes (storeBytes mem base (host.endian.encode 2 TlvType.ptpmonResp.code))
          (base + 2) (host.endian.encode 2 (responseLength paddr - sizeofTlv)))) =
      responseWritten host c p paddr base mem := by
  have hlength : twosComplement 2 (responseLength paddr - sizeofTlv : ℕ) =
      responseLength paddr - sizeofTlv := by
    have hsmall : ((responseLength paddr - sizeofTlv : ℕ) : ℤ) < (256 ^ 2 : ℕ) := by
      simp only [responseLength, NsmResp.headSize, NsmResp.footSize, sizeofTlv]
      omega
    rw [twosComplement, Int.emod_eq_of_lt (Int.natCast_nonneg _) hsmall, Int.toNat_natCast]
  rw [responseWritten, responseMembers, Member.storeAll_append, Member.storeAll_append,
    Member.storeAll_map_shift, Nat.add_assoc]
  simp only [Member.storeAll, List.foldl_cons, List.foldl_nil, Member.offset,
    Member.stored, hlength]
  rfl

theorem netSyncRespAppend_run (hfresh : Fresh start)
    (hpaddr : parentAddress c bestPort p = .ok paddr)
    (hshort : paddr.address.length ≤ 16) :
    ∃ done built, netSyncRespAppend host c bestPort p start = (.ok done, built) ∧
      (done = true ↔ Supplied host start.rest) ∧
      (done = true → (∃ mem, built.mem = responseWritten host c p paddr 54 mem) ∧
        built.rest.tlvList = [
          { tlv := 54, foot := some (54 + NsmResp.headSize + paddr.address.length) }]) := by
  let foot := 54 + NsmResp.headSize + paddr.address.length
  obtain ⟨found, appended, happend, hyes, hno⟩ := @msgTlvAppend_fresh host start
    (responseLength paddr) hfresh (by
      simp only [responseLength, NsmResp.headSize, NsmResp.footSize]
      omega)
  by_cases hsupplied : Supplied host start.rest
  · obtain ⟨rfl, hlist⟩ := hyes hsupplied
    let typed := storeBytes appended.mem 54
      (host.endian.encode 2 TlvType.ptpmonResp.code)
    let lengthed := storeBytes typed 56
      (host.endian.encode 2 (responseLength paddr - sizeofTlv))
    let headed := Member.storeAll host.endian 54 (headMembers p paddr) lengthed
    let accessed : List Span :=
      ⟨56, (host.endian.encode 2 (responseLength paddr - sizeofTlv)).length⟩ ::
        ⟨54, (host.endian.encode 2 TlvType.ptpmonResp.code).length⟩ :: appended.spans
    let located : ParseState := { appended.rest with
      tlvList := appended.rest.tlvList.dropLast ++ [{ tlv := 54, foot := some foot }] }
    have hlocated : located.tlvList = [{ tlv := 54, foot := some foot }] := by
      simp only [located, hlist]
      rfl
    obtain ⟨spans, hhead⟩ := (Runs.writeMembers host.endian 54 (headMembers p paddr)
      lengthed : Runs (writeMembers _ _ _ : WireM Unit) _ _ _) accessed appended.rest
    obtain ⟨spans', hfoot⟩ := (Runs.writeMembers host.endian foot
      (footMembers c) headed : Runs (writeMembers _ _ _ : WireM Unit) _ _ _)
        spans located
    refine ⟨true, ⟨Member.storeAll host.endian foot (footMembers c) headed, spans',
      located⟩, ?_, by simp [hsupplied], fun _ =>
        ⟨⟨appended.mem, responseWritten_eq hshort 54 appended.mem⟩, hlocated⟩⟩
    unfold netSyncRespAppend
    rw [hpaddr]
    exact (bind_of_run happend _).trans ((bind_of_run (writeWord_run ..) _).trans
      ((bind_of_run (writeWord_run ..) _).trans ((bind_of_run hhead _).trans
        ((bind_of_run (modifyRest_run ..) _).trans (bind_of_run hfoot _)))))
  · obtain rfl := hno hsupplied
    refine ⟨false, appended, ?_, by simp [hsupplied], by simp⟩
    unfold netSyncRespAppend
    rw [hpaddr]
    simp only [bind_run, happend]
    rfl

/-! ## Reading the response -/

theorem headMembers_subset (c : ReportedClock) (p : MonitoredPort)
    (paddr : PortAddress) : headMembers p paddr ⊆ responseMembers c p paddr :=
  fun _ hmember => by simp [responseMembers, hmember]

/-- The response is understood exactly when its address has the length that its protocol
calls for. -/
theorem understood_iff {built : Store ParseState} {mem : Memory}
    (hshort : paddr.address.length ≤ 16)
    (hwritten : built.mem = responseWritten host c p paddr 54 mem)
    (hlist : built.rest.tlvList = [
      { tlv := 54, foot := some (54 + NsmResp.headSize + paddr.address.length) }]) :
    Understood host c p paddr built ↔
      expectedAddressLength paddr.networkProtocol.code = some paddr.address.length := by
  have hreads : ∀ member ∈ responseMembers c p paddr,
      member.ReadsAs host.endian built.mem 54 := fun member hmember => by
    rw [hwritten]
    exact responseWritten_readsAs hshort hmember
  have hprotocol : Member.unsigned NsmResp.parentAddr 2 paddr.networkProtocol.code ∈
      headMembers p paddr := by simp [headMembers]
  have hlength : Member.unsigned (NsmResp.parentAddr + 2) 2 paddr.address.length ∈
      headMembers p paddr := by simp [headMembers]
  constructor
  · rintro ⟨extra, wire, result, foot, received, hextra, -, -, hruns, -, hhead, -⟩
    obtain rfl : _ = extra := List.singleton_inj.mp (hlist.symm.trans hextra)
    obtain ⟨spans, hrun⟩ := hruns [] built.rest
    obtain ⟨hchecked, -⟩ := nsmRespPostRecv_eq_ok host hrun
    have hcode := hhead _ hprotocol
    have hcount := hhead _ hlength
    simp only [Member.ReadsAs, Nat.cast_inj] at hcode hcount
    rwa [show hostWord host.endian received (54 + 6) 2 = _ from hcode,
      show hostWord host.endian received (54 + 8) 2 = _ from hcount] at hchecked
  · intro hexpected
    let foot := 54 + NsmResp.headSize + paddr.address.length
    have htype := hreads (.unsigned 0 2 TlvType.ptpmonResp.code)
      (by simp [responseMembers])
    have htotal := hreads (.unsigned 2 2 (responseLength paddr - sizeofTlv : ℕ))
      (by simp [responseMembers])
    have hcode := hreads _ (headMembers_subset c p paddr hprotocol)
    have hcount := hreads _ (headMembers_subset c p paddr hlength)
    simp only [Member.ReadsAs, Nat.cast_inj] at htype htotal hcode hcount
    have hname : TlvType.ofCode TlvType.ptpmonResp.code = some .ptpmonResp := by decide
    have hformat : Formatted host.endian TlvType.ptpmonResp.code
        (responseLength paddr - sizeofTlv) 54 built.mem := by
      simp only [Formatted, hname]
      refine ⟨(congrArg expectedAddressLength hcode).trans
        (hexpected.trans (congrArg some hcount.symm)), ?_⟩
      rw [show hostWord host.endian built.mem (54 + 8) 2 = _ from hcount, responseLength]
    have hpoints : PointsInto
        { tlv := 54, foot := some (54 + NsmResp.headSize + paddr.address.length) }
        (located host.endian TlvType.ptpmonResp.code (responseLength paddr - sizeofTlv)
          54 built.mem) := by
      simp only [located, hname]
      rw [show hostWord host.endian built.mem (54 + 8) 2 = _ from hcount]
      exact ⟨rfl, fun hno => absurd rfl hno, fun hno => absurd rfl hno,
        fun hno => absurd rfl hno, fun _ => rfl⟩
    obtain ⟨wire, hconverts⟩ := tlvConverts_ptpmonResp hname hformat hpoints
    have hreceived := hconverts.received
    simp only [tlvPostRecv, located, hostEcho, hostPhaseChange, hname] at hreceived
    rw [show hostWord host.endian built.mem (54 + 8) 2 = _ from hcount] at hreceived
    refine ⟨_, wire, { tlv := 54, foot := some foot }, foot, built.mem, hlist, htype,
      ?_, ?_, rfl, ?_, ?_⟩
    · rw [show hostWord host.endian built.mem (54 + 2) 2 = _ from htotal]
      exact hconverts.sent
    · rw [show hostWord host.endian built.mem (54 + 2) 2 = _ from htotal]
      exact hreceived
    · exact fun member hmember => hreads member (headMembers_subset c p paddr hmember)
    · intro member hmember
      have hshifted := hreads (member.shift (footOffset paddr))
        (List.mem_append_right _ (List.mem_map_of_mem hmember))
      rw [Member.readsAs_shift, footOffset, ← Nat.add_assoc] at hshifted
      exact hshifted

/-! ## When a response is right -/

/-- A request is answered rightly exactly when the Announce that is asked for the address
is still there and, if there is a descriptor for the response, the address has the length
that its protocol calls for. -/
theorem netSyncRespAppend_rightlyAnswered_iff (host : Host) (c : ReportedClock)
    (bestPort : Option MonitoredPort) (p : MonitoredPort) {start : Store ParseState}
    (hfresh : Fresh start) :
    RightlyAnswered host c bestPort p start ↔
      AnnounceKept (addressed c bestPort p) ∧
        (Supplied host start.rest → AddressKnown (addressed c bestPort p)) := by
  have hiff : ∀ {paddr}, parentAddress c bestPort p = .ok paddr →
      ((∀ built, netSyncRespAppend host c bestPort p start = (.ok true, built) →
        Understood host c p paddr built) ↔
          (Supplied host start.rest → AddressKnown (addressed c bestPort p))) := by
    intro paddr hpaddr
    have hsource := (parentAddress_eq c bestPort p).symm.trans hpaddr
    have hshort := address_short hsource
    obtain ⟨done, built, hrun, hdone, hbuilt⟩ :=
      @netSyncRespAppend_run host c bestPort p paddr start hfresh hpaddr hshort
    rw [← hdone, ← expectedAddressLength_iff hsource]
    constructor
    · rintro hall rfl
      obtain ⟨⟨mem, hwritten⟩, hlist⟩ := hbuilt rfl
      exact (understood_iff hshort hwritten hlist).mp (hall built hrun)
    · intro hexpected built' hrun'
      obtain ⟨hyes, rfl⟩ := Prod.mk.inj (hrun.symm.trans hrun')
      obtain rfl := Except.ok.inj hyes
      obtain ⟨⟨mem, hwritten⟩, hlist⟩ := hbuilt rfl
      exact (understood_iff hshort hwritten hlist).mpr (hexpected rfl)
  constructor
  · rintro ⟨paddr, hpaddr, hall⟩
    have hsource := (parentAddress_eq c bestPort p).symm.trans hpaddr
    exact ⟨sourceAddress_ok_iff.mp ⟨paddr, hsource⟩, (hiff hpaddr).mp hall⟩
  · rintro ⟨hkept, hknown⟩
    obtain ⟨paddr, hsource⟩ := sourceAddress_ok_iff.mpr hkept
    have hpaddr := (parentAddress_eq c bestPort p).trans hsource
    exact ⟨paddr, hpaddr, (hiff hpaddr).mpr hknown⟩

def blankResponse : Store ParseState where
  mem i := ([9, 2, 0, 54] : List UInt8).getD i 0
  spans := []
  rest := ⟨[], ⟨0, 0⟩, ⟨0, 0⟩, ⟨0, 0⟩⟩

theorem blankResponse_fresh : Fresh blankResponse :=
  ⟨by decide, rfl⟩

/-- The clock follows a master whose Announces have been dropped because none came in
time; no decision has been taken since. -/
def orphanedClock : ReportedClock :=
  { reportedClock with
    pds := { reportedClock.pds with
      parentPortIdentity := ⟨⟨#v[8, 7, 6, 5, 4, 3, 2, 1]⟩, 1⟩ } }

def orphanedPort : MonitoredPort where
  trp := .udp (some #v[10, 0, 0, 1])
  state := .slave
  best := some []

def unaddressedPort : MonitoredPort where
  trp := .udp none
  state := .master
  best := none

/-- Both the missing Announce and the missing address are met. -/
theorem netSyncRespAppend_not_rightlyAnswered :
    ¬RightlyAnswered smallHost orphanedClock (some orphanedPort) orphanedPort
        blankResponse ∧
      ¬RightlyAnswered smallHost orphanedClock none unaddressedPort blankResponse := by
  constructor
  · rintro ⟨paddr, hpaddr, -⟩
    have hmissing : parentAddress orphanedClock (some orphanedPort) orphanedPort =
        .error .nullPointer := rfl
    exact absurd (hmissing.symm.trans hpaddr) (by simp)
  · rintro ⟨paddr, hpaddr, hall⟩
    obtain rfl : PortAddress.mk .udpIpv4 [] = paddr := Except.ok.inj hpaddr
    obtain ⟨done, built, hrun, hdone, hbuilt⟩ := @netSyncRespAppend_run smallHost
      orphanedClock none unaddressedPort _ blankResponse blankResponse_fresh hpaddr
        (by decide)
    obtain rfl := hdone.mpr (by decide)
    obtain ⟨⟨mem, hwritten⟩, hlist⟩ := hbuilt rfl
    exact absurd ((understood_iff (by decide) hwritten hlist).mp (hall built hrun))
      (by decide)

/-- The same port while it still has an Announce of its master. -/
def followingPort : MonitoredPort :=
  { orphanedPort with
    best := some [⟨#v[10, 0, 0, 2], Vector.replicate 16 0, Vector.replicate 6 0⟩] }

/-- The response names the address of the master, and is understood. -/
theorem netSyncRespAppend_rightlyAnswered_iff_following :
    RightlyAnswered smallHost orphanedClock (some followingPort) followingPort
      blankResponse :=
  (netSyncRespAppend_rightlyAnswered_iff smallHost orphanedClock (some followingPort)
    followingPort blankResponse_fresh).mpr
      ⟨fun _ => by simp [addressed, followingPort, orphanedClock, reportedClock],
        fun _ => by decide⟩

end LinuxPtp.Nsm
