import LinuxPtp.Clock.ClockDescription
import LinuxPtp.Clock.MgmtAnswers
import LinuxPtp.Wire.OtherLength

/-!
# Management messages through forwarding and dispatch

A clock that passes a management message on parses it again with the length in its
header, and only then counts the TLVs.  This module proves when a message with one
management TLV for this clock gets exactly the answers it should get.
-/

namespace LinuxPtp.Clock

open ByteOrder Access Wire Port Bmc

/-- A message has been answered as it should be, and from afar it has changed
nothing. -/
structure RightlyHandled (c : ManagedClock) (ingress : MgmtPort) (d : Dispatched)
    (handled : Handling) : Prop where
  answered : RightlyAnswered c ingress d handled.answers
  unchanged : ingress.number ≠ c.udsPort.number → handled.clock = c

/-- The message is not passed on, or what is parsed with the length in its header is one
TLV again. -/
def StaysWhole (host : Host) (c : ManagedClock) (ingress : MgmtPort)
    (received : Store ParseState) : Prop :=
  ¬Gate c.forwarding ingress received.mem ∨
    recipients c.forwarding ingress received.mem = [] ∨
    (ptpMsgReceive host (netWord received.mem 2 2) received).2.rest.tlvList.length = 1

section

variable {host : Host} {cnt : ℕ} {received parsed : Store ParseState}

/-! ## The message that is dispatched -/

/-- Two buffers are the same up to the data of the TLV, the hop count apart. -/
def SameRequest (left right : Memory) : Prop :=
  ∀ i < 54, i ≠ 45 → left i = right i

theorem SameRequest.dispatched {left right : Memory} (hsame : SameRequest left right) :
    dispatched host left = dispatched host right := by
  have hword : ∀ offset, offset + 2 ≤ 45 ∨ 46 ≤ offset → offset + 2 ≤ 54 →
      hostWord host.endian left offset 2 = hostWord host.endian right offset 2 :=
    fun offset hpart hend => hostWord_congr _ fun i hge hlt =>
      hsame i (by omega) (by omega)
  have hflags : managementAction left = managementAction right := by
    rw [managementAction, managementAction, hsame Management.flags.offset (by decide)
      (by decide)]
  rw [Clock.dispatched, Clock.dispatched, hflags, managementLength, managementLength,
    managementId, managementId]
  rw [show hostWord host.endian left (mgmtTlv + Tlv.length.offset) Tlv.length.width =
      hostWord host.endian right (mgmtTlv + Tlv.length.offset) Tlv.length.width from
    hword _ (by decide) (by decide),
    show hostWord host.endian left (mgmtTlv + ManagementTlv.id.offset)
        ManagementTlv.id.width =
      hostWord host.endian right (mgmtTlv + ManagementTlv.id.offset)
        ManagementTlv.id.width from hword _ (by decide) (by decide),
    hword _ (by decide) (by decide)]

theorem SameRequest.isTarget {left right : Memory} (hsame : SameRequest left right)
    (c : ManagedClock) : isTarget left c = isTarget right c := by
  have hbytes : bytesAt left TargetPort.clockIdentity.offset 8 =
      bytesAt right TargetPort.clockIdentity.offset 8 :=
    bytesAt_congr fun i hge hlt => by
      simp only [TargetPort.clockIdentity] at hge hlt
      exact hsame i (by omega) (by omega)
  rw [Clock.isTarget, Clock.isTarget, hbytes]

theorem sameRequest_setBoundaryHops (message : Store ParseState) (hops : UInt8) :
    SameRequest (setBoundaryHops message hops).mem message.mem :=
  fun _ _ hi => storeHops_of_ne message.mem hops hi

namespace Accepted

/-- Encoding leaves the bytes behind the message alone. -/
theorem msgPreSend_behind (haccepted : Accepted host cnt received parsed)
    (hops : UInt8) {i : ℕ} (hi : cnt ≤ i) :
    (msgPreSend host (setBoundaryHops parsed hops)).2.mem i = received.mem i := by
  obtain ⟨hpdu, spans, hloop⟩ :=
    ptpMsgReceive_management host haccepted.run haccepted.management
  obtain ⟨-, -, -, hrestores⟩ := ptpMsgReceive_resent host haccepted.run
    haccepted.management haccepted.fresh
  have hkept : ∀ mem, fixedPart host.endian .management mem i = mem i := fun mem =>
    fixedPart_outside host.endian .management mem (Or.inr (Or.inr (hpdu.trans hi)))
  have hparsed : parsed.mem i = received.mem i :=
    (suffixLoop_outside host hloop (Or.inr (by omega))).trans (hkept received.mem)
  have hhops : ∀ j, j ≠ 45 → (setBoundaryHops parsed hops).mem j = parsed.mem j :=
    fun j hj => storeHops_of_ne parsed.mem hops hj
  have htype : typeOf (setBoundaryHops parsed hops).mem = some .management := by
    rw [typeOf, hhops 0 (by decide), haccepted.unconverted (Or.inl rfl)]
    exact haccepted.management
  have hagain : Restores (suffixPreSendLoop host (setBoundaryHops parsed hops).rest.tlvList)
      48 cnt (setBoundaryHops parsed hops).mem
        (listEcho host.endian parsed.rest.tlvList received.mem) :=
    hrestores.congr _ _ (fun j hge _ => hhops j (by omega)) fun _ _ _ => rfl
  rw [msgPreSend_management_behind host htype hagain hpdu hi, hhops i (by omega), hparsed]

/-- The type of the one TLV on the wire. -/
theorem tlvType (haccepted : Accepted host cnt received parsed)
    (hone : parsed.rest.tlvList.length = 1) :
    managementType host parsed.mem = netWord received.mem 48 2 := by
  obtain ⟨tlv, start, first, -, hstart, hround, hfirst⟩ := ptpMsgReceive_firstRound host
    haccepted.run haccepted.management haccepted.fresh fun hnone => by
      rw [hnone] at hone
      exact absurd hone (by decide)
  obtain ⟨-, -, -, hplace, spans, hpost⟩ := suffixTlvPostRecv_eq_ok host hround
  have hheader : ∀ i, 48 ≤ i → i < 50 → parsed.mem i =
      swapAll host.endian 48 tlvHeader start.mem i := fun i _ hi => by
    rw [hfirst i (by omega)]
    exact tlvPostRecv_outside host hpost (Or.inl hi)
  have hword : hostWord host.endian parsed.mem 48 2 =
      hostWord host.endian (swapAll host.endian 48 tlvHeader start.mem) 48 2 :=
    hostWord_congr _ fun i hge hlt => hheader i hge (by omega)
  have hswapped : hostWord host.endian (swapAll host.endian 48 tlvHeader start.mem) 48 2 =
      netWord start.mem 48 2 :=
    hostWord_swapAll 48 Tlv.type tlvHeader_disjoint (by decide) start.mem
  refine (hword.trans hswapped).trans ?_
  rw [hstart]
  exact netWord_congr fun i hge _ =>
    fixedPart_outside host.endian .management received.mem (Or.inr (Or.inr hge))

/-- What a message that is passed on looks like when it is parsed again. -/
theorem reparsed (haccepted : Accepted host cnt received parsed)
    (hcalloc : ∀ calls, host.calloc calls = true)
    (hone : parsed.rest.tlvList.length = 1)
    (htype : managementType host parsed.mem = TlvType.management.code)
    (hops : UInt8) (cnt' : ℕ) :
    (ptpMsgReceive host cnt' (msgPreSend host
        (setBoundaryHops parsed hops)).2).2.rest.tlvList.length =
      (ptpMsgReceive host cnt' received).2.rest.tlvList.length ∧
    ((ptpMsgReceive host cnt' (msgPreSend host
        (setBoundaryHops parsed hops)).2).2.rest.tlvList ≠ [] →
      SameRequest (ptpMsgReceive host cnt' (msgPreSend host
        (setBoundaryHops parsed hops)).2).2.mem parsed.mem) := by
  have hsize := haccepted.size_le
  obtain ⟨mem, spans, hsend, hagree⟩ := haccepted.msgPreSend_eq hops
  have hbehind : ∀ i, cnt ≤ i → mem i = received.mem i := fun i hi => by
    rw [← haccepted.msgPreSend_behind hops hi, hsend]
  obtain ⟨-, htiles, -⟩ := ptpMsgReceive_resent host haccepted.run
    haccepted.management haccepted.fresh
  obtain ⟨extra, hlist⟩ := List.length_eq_one_iff.mp hone
  rw [hlist] at htiles hagree
  obtain ⟨hplace, -, hend⟩ := htiles
  have hwire : wireEnd received.mem extra = 52 + netWord received.mem 50 2 := by
    rw [wireEnd, wireLength, hplace]
    rfl
  have hend := hend.le
  rw [hwire] at hend
  rw [hsend]
  simp only
  rw [haccepted.tlvType hone] at htype
  have hhead : ∀ i < 48, mem i =
      storeBytes received.mem Management.boundaryHops.offset [hops] i := fun i hi => by
    rw [hagree i (Nat.zero_le _) (by omega), resentDatagram, if_pos hi]
  have hecho : AgreeOn 48 (52 + netWord received.mem 50 2)
      (wireEcho host.endian 48 received.mem) mem := fun i hge hlt => by
    rw [hagree i (Nat.zero_le _) (by omega), resentDatagram, if_neg (by omega), listEcho,
      hwire, if_pos hlt, hplace]
  have hrest : ∀ i, 52 + netWord received.mem 50 2 ≤ i → mem i = received.mem i :=
    fun i hge => by
      by_cases hi : cnt ≤ i
      · exact hbehind i hi
      · rw [hagree i (Nat.zero_le _) (by omega), resentDatagram, if_neg (by omega),
          listEcho, hwire, if_neg (by omega), listEcho]
  obtain ⟨hcount, hsame⟩ := @ptpMsgReceive_echo host hcalloc cnt received parsed
    ⟨mem, spans, parsed.rest.detach⟩ haccepted.run haccepted.management haccepted.fresh
    hone htype rfl ((hhead 0 (by decide)).trans (storeHops_of_ne _ _ (by decide)))
    ((hhead 1 (by decide)).trans (storeHops_of_ne _ _ (by decide))) hecho hrest cnt'
  refine ⟨hcount, fun hsome i hi hbyte => ?_⟩
  obtain ⟨hbody, hfixed⟩ := hsame hsome
  by_cases hpart : i < 48
  · have hagain : AgreeOn 0 48 (fixedPart host.endian .management mem)
        (fixedPart host.endian .management
          (storeBytes received.mem Management.boundaryHops.offset [hops])) :=
      fixedPart_agreeOn host.endian .management le_rfl fun j _ hj => hhead j hj
    rw [hfixed i hpart, hagain i (Nat.zero_le _) hpart,
      fixedPart_storeBytes host.endian [hops] (by decide), storeHops_of_ne _ _ hbyte,
      haccepted.fixed hpart]
  · exact (hbody i (by omega) hi).symm

/-- The message that is dispatched when the TLVs are counted. -/
theorem forwarded (haccepted : Accepted host cnt received parsed)
    (hcalloc : ∀ calls, host.calloc calls = true)
    (hone : parsed.rest.tlvList.length = 1)
    (htype : managementType host parsed.mem = TlvType.management.code)
    (c : ManagedClock) (ingress : MgmtPort) :
    let message := (clockForwardMgmtMsg host c.forwarding ingress parsed).message
    (message.rest.tlvList.length = 1 ↔ StaysWhole host c ingress received) ∧
      (message.rest.tlvList.length = 1 → SameRequest message.mem parsed.mem) := by
  intro message
  have heq := haccepted.clockForwardMgmtMsg_eq c.forwarding ingress
  by_cases hgate : Gate c.forwarding ingress received.mem
  swap
  · rw [if_neg hgate] at heq
    have hmessage : message = parsed := congrArg Forwarding.message heq
    rw [hmessage]
    exact ⟨iff_of_true hone (Or.inl hgate), fun _ _ _ _ => rfl⟩
  rw [if_pos hgate] at heq
  simp only at heq
  by_cases hnone : recipients c.forwarding ingress received.mem = []
  · rw [if_pos hnone, served, if_pos hnone] at heq
    have hmessage : message = setBoundaryHops parsed (boundaryHops received.mem - 1) :=
      congrArg Forwarding.message heq
    rw [hmessage]
    exact ⟨iff_of_true hone (Or.inr (Or.inl hnone)),
      fun _ => sameRequest_setBoundaryHops _ _⟩
  rw [if_neg hnone, served, if_neg hnone] at heq
  obtain ⟨hcount, hsame⟩ := haccepted.reparsed hcalloc hone htype
    (boundaryHops received.mem - 1) (netWord received.mem 2 2)
  have hmessage := congrArg Forwarding.message heq
  simp only at hmessage
  rw [show message = _ from hmessage, StaysWhole, or_iff_right (not_not.mpr hgate),
    or_iff_right hnone, ← hcount]
  refine ⟨Iff.rfl, fun hlisted i hi hbyte => ?_⟩
  have hsome := hsame fun hempty => by
    have hlength := congrArg List.length hempty
    exact absurd (hlisted.symm.trans hlength) (by decide)
  rw [← hsome i hi hbyte]
  exact sameRequest_setBoundaryHops _ _ i hi hbyte

end Accepted

/-! ## Requests and their answers -/

theorem RightlyAnswered.ne_nil {c : ManagedClock} {ingress : MgmtPort} {d : Dispatched}
    {answers : List Answer} (hright : RightlyAnswered c ingress d answers)
    (hrequest : isRequest d.action) : answers ≠ [] := by
  rintro rfl
  by_cases hlevel : d.ClockLevel c ingress
  · exact absurd (hright.clock hrequest hlevel) (by decide)
  by_cases hports : d.id ∈ portLevelIds ∧ d.matching c ≠ []
  · have hmap := hright.ports hrequest hlevel hports.1 hports.2
    exact hports.2 (List.map_eq_nil_iff.mp hmap.symm)
  · obtain ⟨port, error, hone⟩ := hright.unknown hrequest hlevel (by tauto)
    exact List.cons_ne_nil _ _ hone.symm

theorem RightlyAnswered.nil {c : ManagedClock} {ingress : MgmtPort} {d : Dispatched}
    (hrequest : isRequest d.action = false) : RightlyAnswered c ingress d [] := by
  refine ⟨fun hyes => ?_, fun hyes => ?_, fun hyes => ?_, fun _ => rfl⟩
  all_goals
    rw [hrequest] at hyes
    exact absurd hyes (by decide)

variable {allocate : ℕ → Bool}

theorem clockDispatch_one {c : ManagedClock} {ingress : MgmtPort}
    {message : Store ParseState} (htarget : isTarget message.mem c = true)
    (hone : message.rest.tlvList.length = 1) :
    Handle.after (clockDispatch host allocate ingress message) { clock := c } =
      Handle.after (manageAction host allocate message.mem ingress) { clock := c } := by
  unfold clockDispatch
  rw [after_bind, after_get]
  simp only [htarget, hone, ne_eq, not_true_eq_false, Bool.true_eq_false, if_false]

theorem clockDispatch_other {c : ManagedClock} {ingress : MgmtPort}
    {message : Store ParseState} (hother : message.rest.tlvList.length ≠ 1) :
    (Handle.after (clockDispatch host allocate ingress message) { clock := c }).2 =
      { clock := c } := by
  unfold clockDispatch
  rw [after_bind, after_get]
  simp only [hother, ne_eq, not_false_eq_true, if_true, ite_self]
  rfl

/-- A message that is dispatched as it came. -/
theorem manageAction_rightlyHandled_iff (hallocate : ∀ n, allocate n = true)
    (c : ManagedClock) (ingress : MgmtPort) (mem : Memory) :
    RightlyHandled c ingress (dispatched host mem)
        (Handle.after (manageAction host allocate mem ingress) { clock := c }).2 ↔
      isRequest (dispatched host mem).action = false ∨
        ¬(dispatched host mem).CutShort c ingress := by
  have hclock : ingress.number ≠ c.udsPort.number →
      (Handle.after (manageAction host allocate mem ingress) { clock := c }).2.clock = c :=
    fun hfar => manageAction_clock hfar
  cases hrequest : isRequest (dispatched host mem).action with
  | false =>
    refine iff_of_true ⟨?_, hclock⟩ (Or.inl rfl)
    rw [manageAction_idle hrequest]
    exact .nil hrequest
  | true =>
    obtain ⟨given, hsettled, hgiven⟩ :=
      @manageAction_gives host allocate mem hallocate c ingress hrequest { clock := c } rfl
    rw [List.nil_append] at hgiven
    rw [or_iff_right (by decide), ← hsettled.rightlyAnswered_iff hrequest, ← hgiven]
    exact ⟨fun hhandled => hhandled.answered, fun hright => ⟨hright, hclock⟩⟩

end

/-- A message with one management TLV for this clock is rightly handled exactly when it is
no request, or when the TLV is still there after forwarding and the ports are not cut
short. -/
theorem clockManage_rightlyHandled_iff (host : Host)
    (hcalloc : ∀ calls, host.calloc calls = true) (allocate : ℕ → Bool)
    (hallocate : ∀ n, allocate n = true) (c : ManagedClock) (ingress : MgmtPort)
    {cnt : ℕ} {received parsed : Store ParseState}
    (haccepted : Accepted host cnt received parsed)
    (hone : parsed.rest.tlvList.length = 1)
    (htype : managementType host parsed.mem = TlvType.management.code)
    (htarget : isTarget parsed.mem c = true) :
    RightlyHandled c ingress (dispatched host parsed.mem)
        (clockManage host allocate c ingress parsed).2 ↔
      isRequest (dispatched host parsed.mem).action = false ∨
        StaysWhole host c ingress received ∧
          ¬(dispatched host parsed.mem).CutShort c ingress := by
  obtain ⟨hwhole, hsame⟩ := haccepted.forwarded hcalloc hone htype c ingress
  unfold clockManage
  dsimp only
  generalize (clockForwardMgmtMsg host c.forwarding ingress parsed).message = message
    at hwhole hsame ⊢
  change RightlyHandled c ingress (dispatched host parsed.mem)
    (Handle.after (clockDispatch host allocate ingress message) { clock := c }).2 ↔ _
  rw [← hwhole]
  by_cases hlisted : message.rest.tlvList.length = 1
  · have hsame := hsame hlisted
    rw [clockDispatch_one (by rw [hsame.isTarget]; exact htarget) hlisted,
      ← hsame.dispatched, manageAction_rightlyHandled_iff hallocate]
    simp only [hlisted, true_and]
  · rw [clockDispatch_other hlisted]
    simp only [hlisted, false_and, or_false]
    constructor
    · intro hhandled
      by_contra hrequest
      exact hhandled.answered.ne_nil (by simpa using hrequest) rfl
    · exact fun hrequest => ⟨.nil hrequest, fun _ => rfl⟩

/-! ## A request with a short length in its header -/

/-- A request for every clock and port with an empty body and one hop left. -/
def emptyRequest (messageLength action : UInt8) (id : List UInt8) : List UInt8 :=
  [0x0d, 0x02, 0, messageLength, 0, 0, 0, 0, 0, 0, 0, 0, 0, 0, 0, 0, 0, 0, 0, 0,
    0, 0x1b, 0x19, 0xff, 0xfe, 0, 0, 1, 0, 1, 0, 7, 4, 0x7f,
    0xff, 0xff, 0xff, 0xff, 0xff, 0xff, 0xff, 0xff, 0xff, 0xff, 1, 1, action, 0,
    0, 1, 0, 2] ++ id

/-- A clock between a master and its own slaves. -/
def boundaryClock : ManagedClock where
  reported := reportedClock
  subscribers := []
  clkPorts := [describedPort, { describedPort with
    portIdentity := ⟨describedPort.portIdentity.clockIdentity, 2⟩
    state := .master }]
  udsPort := ⟨0, .listening⟩

def emptyReceived (messageLength action : UInt8) (id : List UInt8) : Store ParseState :=
  receivedStore (emptyRequest messageLength action id) (fun _ => 0) ⟨0, 0⟩

def emptyParsed (messageLength action : UInt8) (id : List UInt8) : Store ParseState :=
  (ptpMsgReceive lonelyHost 54 (emptyReceived messageLength action id)).2

/-- A GET of `PRIORITY1`, 54 bytes long, whose header says 48: it is passed on and then
parsed without its TLV.  A COMMAND for the properties of all ports, from a local client:
the first port refuses it and the second is not asked. -/
theorem emptyRequest_not_rightlyHandled :
    (Accepted lonelyHost 54 (emptyReceived 48 0 [0x20, 0x05])
        (emptyParsed 48 0 [0x20, 0x05]) ∧
      (emptyParsed 48 0 [0x20, 0x05]).rest.tlvList.length = 1 ∧
      isTarget (emptyParsed 48 0 [0x20, 0x05]).mem boundaryClock = true ∧
      ¬RightlyHandled boundaryClock ⟨1, .slave⟩
        (dispatched lonelyHost (emptyParsed 48 0 [0x20, 0x05]).mem)
        (clockManage lonelyHost (fun _ => true) boundaryClock ⟨1, .slave⟩
          (emptyParsed 48 0 [0x20, 0x05])).2) ∧
    ¬RightlyHandled boundaryClock ⟨0, .listening⟩
      (dispatched lonelyHost (emptyParsed 54 3 [0xc0, 0x04]).mem)
      (clockManage lonelyHost (fun _ => true) boundaryClock ⟨0, .listening⟩
        (emptyParsed 54 3 [0xc0, 0x04])).2 := by
  refine ⟨⟨accepted_of_ok (by decide +kernel) (by decide) rfl, by decide +kernel,
    by decide +kernel, fun hhandled => ?_⟩, fun hhandled => ?_⟩
  · refine hhandled.answered.ne_nil (by decide +kernel) ?_
    exact List.length_eq_zero_iff.mp (by decide +kernel)
  · have hports := hhandled.answered.ports (by decide +kernel) (by decide +kernel)
      (by decide +kernel) (List.ne_nil_of_length_pos (by decide +kernel))
    exact absurd (congrArg List.length hports) (by decide +kernel)

theorem clockManage_rightlyHandled_iff_emptyRequest :
    RightlyHandled boundaryClock ⟨1, .slave⟩
      (dispatched lonelyHost (emptyParsed 54 0 [0x20, 0x05]).mem)
      (clockManage lonelyHost (fun _ => true) boundaryClock ⟨1, .slave⟩
        (emptyParsed 54 0 [0x20, 0x05])).2 := by
  have haccepted : Accepted lonelyHost 54 (emptyReceived 54 0 [0x20, 0x05])
      (emptyParsed 54 0 [0x20, 0x05]) :=
    accepted_of_ok (by decide +kernel) (by decide) rfl
  have hwhole : StaysWhole lonelyHost boundaryClock ⟨1, .slave⟩
      (emptyReceived 54 0 [0x20, 0x05]) := Or.inr (Or.inr (by decide +kernel))
  exact (clockManage_rightlyHandled_iff lonelyHost (fun _ => rfl) (fun _ => true)
    (fun _ => rfl) boundaryClock ⟨1, .slave⟩ haccepted (by decide +kernel)
    (by decide +kernel) (by decide +kernel)).mpr (Or.inr ⟨hwhole, by decide +kernel⟩)

end LinuxPtp.Clock
