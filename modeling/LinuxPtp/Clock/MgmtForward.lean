import LinuxPtp.Port.StateMachine
import LinuxPtp.Wire.Resend

/-!
# Forwarding management messages

A boundary clock hands a management message on to its other ports before it
looks at the message itself.  The message is encoded in place for the first
copy that leaves and parsed again afterwards.
-/

namespace LinuxPtp.Clock

open ByteOrder Access Wire Port

/-! ## The code -/

/-- What forwarding asks of a port.  A port stands for its number. -/
structure MgmtPort where
  number : ℕ
  state : PortState
  deriving DecidableEq, Repr

/-- The ports of a clock, the one for local clients apart. -/
structure MgmtClock where
  clkPorts : List MgmtPort
  udsPort : MgmtPort

structure Copy where
  out : ℕ
  bytes : List UInt8
  deriving DecidableEq, Repr

/-- The message while it is forwarded: whether it is encoded, what has been
sent, and the length with which it was parsed again. -/
structure Forwarding where
  message : Store ParseState
  msgReady : Bool := false
  copies : List Copy := []
  reparsed : Option ℕ := none

section

variable (host : Host)

def isForwarding (c : MgmtClock) (p : MgmtPort) : Bool :=
  match p.state with
  | .master | .grandMaster | .slave | .uncalibrated | .preMaster => true
  | state => p.number == c.udsPort.number && state != .faulty

def managementAction (mem : Memory) : Option ManagementAction :=
  ManagementAction.ofCode ((mem Management.flags.offset).toNat % 16)

def isRequest : Option ManagementAction → Bool
  | some .get | some .set | some .command => true
  | _ => false

/-- The length that the transport is given, `ntohs(messageLength)`. -/
def transportLength (mem : Memory) : ℕ :=
  host.endian.ntoh 2 (hostWord host.endian mem Header.messageLength.offset 2)

def portForward (out : MgmtPort) (forwarding : Forwarding) : Forwarding :=
  let mem := forwarding.message.mem
  { forwarding with copies := forwarding.copies ++
      [⟨out.number, bytesAt mem 0 (transportLength host mem)⟩] }

def clockDoForwardMgmt (c : MgmtClock) (p out : MgmtPort)
    (forwarding : Forwarding) : Forwarding :=
  if p.number = out.number ∨ isForwarding c out = false then forwarding
  else if out.number = c.udsPort.number ∧
      isRequest (managementAction forwarding.message.mem) then forwarding
  else if forwarding.msgReady then portForward host out forwarding
  else portForward host out { forwarding with
    message := (msgPreSend host forwarding.message).2
    msgReady := true }

def boundaryHops (mem : Memory) : UInt8 :=
  mem Management.boundaryHops.offset

def setBoundaryHops (message : Store ParseState) (hops : UInt8) :
    Store ParseState :=
  { message with
    mem := storeBytes message.mem Management.boundaryHops.offset [hops] }

theorem storeHops_of_ne (mem : Memory) (hops : UInt8) {i : ℕ} (hi : i ≠ 45) :
    storeBytes mem Management.boundaryHops.offset [hops] i = mem i := by
  refine storeBytes_outside mem [hops] ?_
  simp only [Management.boundaryHops, List.length_singleton]
  omega

theorem storeHops_hops (mem : Memory) (hops : UInt8) :
    boundaryHops (storeBytes mem Management.boundaryHops.offset [hops]) =
      hops := by
  simp [boundaryHops, storeBytes]

/-- `_clockForwardMgmtMsg`; `p` is the port the message came in on. -/
def clockForwardMgmtMsg (c : MgmtClock) (p : MgmtPort)
    (message : Store ParseState) : Forwarding :=
  if isForwarding c p = true ∧ boundaryHops message.mem ≠ 0 then
    let pdulen := hostWord host.endian message.mem Header.messageLength.offset 2
    let decremented := setBoundaryHops message (boundaryHops message.mem - 1)
    let sent := (c.clkPorts ++ [c.udsPort]).foldl
      (fun forwarding out => clockDoForwardMgmt host c p out forwarding)
      { message := decremented }
    if sent.msgReady then
      let parsed := (ptpMsgReceive host pdulen sent.message).2
      { sent with
        message := setBoundaryHops parsed (boundaryHops parsed.mem + 1)
        reparsed := some pdulen }
    else sent
  else { message := message }

end

/-! ## Which ports get a copy -/

/-- The message is passed on at all. -/
def Gate (c : MgmtClock) (p : MgmtPort) (mem : Memory) : Prop :=
  isForwarding c p = true ∧ boundaryHops mem ≠ 0

instance (c : MgmtClock) (p : MgmtPort) (mem : Memory) :
    Decidable (Gate c p mem) :=
  inferInstanceAs (Decidable (_ ∧ _))

def eligible (c : MgmtClock) (p : MgmtPort) (mem : Memory)
    (out : MgmtPort) : Bool :=
  p.number != out.number && isForwarding c out &&
    !(out.number == c.udsPort.number && isRequest (managementAction mem))

/-- The ports that get a copy, in the order in which they are served. -/
def recipients (c : MgmtClock) (p : MgmtPort) (mem : Memory) :
    List MgmtPort :=
  (c.clkPorts ++ [c.udsPort]).filter (eligible c p mem)

/-- The state of forwarding when the given ports have got their copies. -/
def served (host : Host) (message : Store ParseState)
    (outs : List MgmtPort) : Forwarding :=
  if outs = [] then { message := message }
  else
    let sent := (msgPreSend host message).2
    { message := sent
      msgReady := true
      copies := outs.map fun out =>
        ⟨out.number, bytesAt sent.mem 0 (transportLength host sent.mem)⟩ }

section

variable {host : Host}

/-- One port is served or passed over; encoding must not change the flags. -/
theorem clockDoForwardMgmt_served (c : MgmtClock) (p out : MgmtPort)
    {message : Store ParseState} (outs : List MgmtPort)
    (hflags : (msgPreSend host message).2.mem Management.flags.offset =
      message.mem Management.flags.offset) :
    clockDoForwardMgmt host c p out (served host message outs) =
      served host message
        (if eligible c p message.mem out then outs ++ [out] else outs) := by
  have haction : managementAction (served host message outs).message.mem =
      managementAction message.mem := by
    unfold served managementAction
    split
    · rfl
    · rw [hflags]
  unfold clockDoForwardMgmt
  rw [haction]
  by_cases hskip : p.number = out.number ∨ isForwarding c out = false
  · have hnot : eligible c p message.mem out = false := by
      rcases hskip with hsame | hstate
      · simp [eligible, hsame]
      · simp [eligible, hstate]
    rw [if_pos hskip, hnot, if_neg Bool.false_ne_true]
  rw [if_neg hskip]
  push Not at hskip
  by_cases hlocal : out.number = c.udsPort.number ∧
      isRequest (managementAction message.mem)
  · have hnot : eligible c p message.mem out = false := by
      simp [eligible, hlocal.1, hlocal.2]
    rw [if_pos hlocal, hnot, if_neg Bool.false_ne_true]
  · have hyes : eligible c p message.mem out = true := by
      simp only [eligible, Bool.and_eq_true, bne_iff_ne, ne_eq,
        Bool.not_eq_true', Bool.and_eq_false_iff, beq_eq_false_iff_ne]
      refine ⟨⟨hskip.1, by simpa using hskip.2⟩, ?_⟩
      by_cases huds : out.number = c.udsPort.number
      · exact Or.inr (by simpa [huds] using hlocal)
      · exact Or.inl huds
    rw [if_neg hlocal, hyes, if_pos rfl]
    by_cases hnone : outs = []
    · subst hnone
      simp [served, portForward]
    · simp [served, portForward, hnone]

/-- Serving the ports one after the other. -/
theorem foldl_clockDoForwardMgmt (c : MgmtClock) (p : MgmtPort)
    {message : Store ParseState} (outs ports : List MgmtPort)
    (hflags : (msgPreSend host message).2.mem Management.flags.offset =
      message.mem Management.flags.offset) :
    ports.foldl (fun forwarding out => clockDoForwardMgmt host c p out forwarding)
        (served host message outs) =
      served host message (outs ++ ports.filter (eligible c p message.mem)) := by
  induction ports generalizing outs with
  | nil => simp
  | cons out ports ih =>
    rw [List.foldl_cons, clockDoForwardMgmt_served c p out outs hflags, ih,
      List.filter_cons]
    split <;> simp

/-! ## Accepted messages -/

/-- The bytes that leave instead of those of the wire. -/
def resentDatagram (endian : Endian) (wire : Memory) (tlvs : List TlvExtra)
    (hops : UInt8) : Memory := fun i =>
  if i < 48 then storeBytes wire Management.boundaryHops.offset [hops] i
  else listEcho endian tlvs wire i

/-- A management message as the parser has accepted it. -/
structure Accepted (host : Host) (cnt : ℕ) (received parsed : Store ParseState) :
    Prop where
  run : ptpMsgReceive host cnt received = (.ok (), parsed)
  management : typeOf received.mem = some .management
  fresh : received.rest.tlvList = []

namespace Accepted

variable {cnt : ℕ} {received parsed : Store ParseState}

theorem size_le (haccepted : Accepted host cnt received parsed) : 48 ≤ cnt :=
  (ptpMsgReceive_management host haccepted.run haccepted.management).1

theorem fixed (haccepted : Accepted host cnt received parsed) {i : ℕ}
    (hi : i < 48) :
    parsed.mem i = fixedPart host.endian .management received.mem i :=
  (ptpMsgReceive_resent host haccepted.run haccepted.management
    haccepted.fresh).1 i hi

/-- A byte of the fixed part that is not converted. -/
theorem unconverted (haccepted : Accepted host cnt received parsed) {i : ℕ}
    (hi : i = 0 ∨ 44 ≤ i ∧ i < 48) : parsed.mem i = received.mem i := by
  rw [haccepted.fixed (by omega), fixedPart,
    swapAll_outside 42 44 (by decide) (by omega)]
  exact swapAll_outside 2 32 (by decide) (by omega) _

theorem messageLength (haccepted : Accepted host cnt received parsed) :
    hostWord host.endian parsed.mem Header.messageLength.offset 2 =
      netWord received.mem 2 2 := by
  have hfixed : hostWord host.endian parsed.mem Header.messageLength.offset 2 =
      hostWord host.endian (swapAll host.endian 0 headerFields received.mem) 2
        2 := by
    refine hostWord_congr _ fun i hge hlt => ?_
    simp only [Header.messageLength] at hge hlt
    rw [haccepted.fixed (by omega), fixedPart,
      swapAll_outside 42 44 (by decide) (by omega)]
  rw [hfixed]
  exact hostWord_swapAll 0 Header.messageLength (by decide)
    (by decide) received.mem

/-- Encoding an accepted message, whatever its hop count has become. -/
theorem msgPreSend_eq (haccepted : Accepted host cnt received parsed)
    (hops : UInt8) :
    ∃ mem spans, msgPreSend host (setBoundaryHops parsed hops) =
        (.ok true, ⟨mem, spans, parsed.rest.detach⟩) ∧
      AgreeOn 0 cnt mem
        (resentDatagram host.endian received.mem parsed.rest.tlvList hops) := by
  obtain ⟨-, -, -, hrestores⟩ := ptpMsgReceive_resent host haccepted.run
    haccepted.management haccepted.fresh
  have hbehind : ∀ i, 48 ≤ i →
      (setBoundaryHops parsed hops).mem i = parsed.mem i := fun i hi =>
    storeHops_of_ne parsed.mem hops (by omega)
  have htype : typeOf (setBoundaryHops parsed hops).mem = some .management := by
    have hbyte : (setBoundaryHops parsed hops).mem 0 = received.mem 0 := by
      rw [← haccepted.unconverted (Or.inl rfl)]
      exact storeHops_of_ne (i := 0) parsed.mem hops (by decide)
    rw [typeOf, hbyte]
    exact haccepted.management
  obtain ⟨mem, spans, hsend, hfixed, hagree⟩ := msgPreSend_management host
    htype
    (hrestores.congr _ _ (fun i hge _ => hbehind i hge) fun _ _ _ => rfl)
  refine ⟨mem, spans, hsend, fun i _ hi => ?_⟩
  unfold resentDatagram
  split
  · rename_i hhead
    have hsame : AgreeOn 0 48 (setBoundaryHops parsed hops).mem
        (fixedPart host.endian .management
          (storeBytes received.mem Management.boundaryHops.offset [hops])) := by
      intro j _ hj
      rw [fixedPart_storeBytes host.endian [hops] (by decide)]
      exact storeBytes_congr _ (haccepted.fixed hj)
    rw [hfixed i hhead, fixedPart_agreeOn host.endian .management
      le_rfl hsame i (Nat.zero_le _) hhead, fixedPart_fixedPart]
  · exact hagree i (by omega) hi

/-- The list is sent as it came exactly when every TLV is transparent. -/
theorem listEcho_iff (haccepted : Accepted host cnt received parsed) :
    AgreeOn 48 cnt (listEcho host.endian parsed.rest.tlvList received.mem)
        received.mem ↔
      ∀ extra ∈ parsed.rest.tlvList,
        Transparent host.endian received.mem extra.tlv := by
  obtain ⟨-, htiles, hroomy, -⟩ := ptpMsgReceive_resent host haccepted.run
    haccepted.management haccepted.fresh
  rw [listEcho_agreeOn_iff htiles]
  refine forall₂_congr fun extra hextra => ?_
  exact wireEcho_agreeOn_iff le_rfl (by
    unfold wireEnd sizeofTlv
    omega) (hroomy extra hextra)

/-- Forwarding an accepted message, case by case. -/
theorem clockForwardMgmtMsg_eq (haccepted : Accepted host cnt received parsed)
    (c : MgmtClock) (p : MgmtPort) :
    clockForwardMgmtMsg host c p parsed =
      if Gate c p received.mem then
        let hops := boundaryHops received.mem
        let sent := served host (setBoundaryHops parsed (hops - 1))
          (recipients c p received.mem)
        if recipients c p received.mem = [] then sent
        else
          let again := (ptpMsgReceive host (netWord received.mem 2 2)
            sent.message).2
          { sent with
            message := setBoundaryHops again (boundaryHops again.mem + 1)
            reparsed := some (netWord received.mem 2 2) }
      else { message := parsed } := by
  have hhops : boundaryHops parsed.mem = boundaryHops received.mem :=
    haccepted.unconverted (Or.inr ⟨by decide, by decide⟩)
  unfold clockForwardMgmtMsg
  rw [hhops]
  by_cases hgate : Gate c p received.mem
  · have hgate' : isForwarding c p = true ∧ boundaryHops received.mem ≠ 0 :=
      hgate
    rw [if_pos hgate, if_pos hgate']
    obtain ⟨mem, spans, hsend, hagree⟩ :=
      haccepted.msgPreSend_eq (boundaryHops received.mem - 1)
    have hsize := haccepted.size_le
    have hflagsSame : (setBoundaryHops parsed (boundaryHops received.mem - 1)).mem
        Management.flags.offset = received.mem Management.flags.offset := by
      rw [← haccepted.unconverted (i := Management.flags.offset)
        (Or.inr ⟨by decide, by decide⟩)]
      exact storeHops_of_ne (i := Management.flags.offset) parsed.mem
        (boundaryHops received.mem - 1) (by decide)
    have hflags : (msgPreSend host (setBoundaryHops parsed
        (boundaryHops received.mem - 1))).2.mem Management.flags.offset =
          (setBoundaryHops parsed (boundaryHops received.mem - 1)).mem
            Management.flags.offset := by
      rw [hsend, hflagsSame]
      refine (hagree _ (Nat.zero_le _) (Nat.lt_of_lt_of_le (by decide) hsize)).trans ?_
      rw [resentDatagram, if_pos (by decide)]
      exact storeHops_of_ne _ _ (by decide)
    have haction : eligible c p (setBoundaryHops parsed
        (boundaryHops received.mem - 1)).mem = eligible c p received.mem := by
      funext out
      simp only [eligible, managementAction, hflagsSame]
    have hserve := foldl_clockDoForwardMgmt c p []
      (c.clkPorts ++ [c.udsPort]) hflags
    rw [haction, List.nil_append] at hserve
    have hstart : served host (setBoundaryHops parsed
        (boundaryHops received.mem - 1)) [] =
          { message := setBoundaryHops parsed (boundaryHops received.mem - 1) } :=
      rfl
    rw [hstart] at hserve
    simp only [haccepted.messageLength]
    rw [hserve, ← recipients]
    by_cases hnone : recipients c p received.mem = []
    · simp [hnone, served]
    · simp [hnone, served]
  · rw [if_neg hgate]
    exact if_neg hgate

/-- What the transports and the second parse are given as length. -/
theorem transportLength_sent (haccepted : Accepted host cnt received parsed)
    (hops : UInt8) :
    transportLength host (msgPreSend host (setBoundaryHops parsed hops)).2.mem =
      netWord received.mem 2 2 := by
  obtain ⟨mem, spans, hsend, hagree⟩ := haccepted.msgPreSend_eq hops
  have hsize := haccepted.size_le
  rw [hsend, transportLength, ntoh_hostWord]
  refine netWord_congr fun i hge hlt => ?_
  simp only [Header.messageLength] at hge hlt
  refine (hagree i (Nat.zero_le _) (by omega)).trans ?_
  rw [resentDatagram, if_pos (by omega)]
  exact storeHops_of_ne received.mem hops (by omega)

end Accepted

/-! ## Invisible and faithful forwarding -/

/-- Two stores hold the same message of `cnt` bytes. -/
structure SameMessage (cnt : ℕ) (left right : Store ParseState) : Prop where
  bytes : AgreeOn 0 cnt left.mem right.mem
  tlvList : left.rest.tlvList = right.rest.tlvList
  pdu : left.rest.pdu = right.rest.pdu
  hostTime : left.rest.hostTime = right.rest.hostTime

def oneHopLess (datagram : List UInt8) : List UInt8 :=
  datagram.modify Management.boundaryHops.offset (· - 1)

/-- After forwarding, the message is as parsed, and the copies are the
received bytes with one hop less. -/
structure Faithful (datagram : List UInt8) (parsed : Store ParseState)
    (result : Forwarding) : Prop where
  message : SameMessage datagram.length result.message parsed
  copies : ∀ copy ∈ result.copies, copy.bytes = oneHopLess datagram

theorem bytesAt_oneHopLess (datagram : List UInt8) (buffer : Memory) :
    bytesAt (storeBytes (storeBytes buffer 0 datagram)
        Management.boundaryHops.offset
        [boundaryHops (storeBytes buffer 0 datagram) - 1]) 0 datagram.length =
      oneHopLess datagram := by
  apply List.ext_getElem
  · simp [oneHopLess]
  · intro i hleft hright
    have hi : i < datagram.length := by simpa using hleft
    by_cases hhops : i = 45
    · subst hhops
      simp [bytesAt, oneHopLess, storeBytes, boundaryHops,
        Management.boundaryHops, hi]
    · have hbyte : storeBytes (storeBytes buffer 0 datagram)
          Management.boundaryHops.offset
          [boundaryHops (storeBytes buffer 0 datagram) - 1] i = datagram[i] := by
        rw [storeHops_of_ne _ _ hhops]
        simp [storeBytes, hi]
      have hother : Management.boundaryHops.offset ≠ i := fun h => hhops h.symm
      simp only [bytesAt, List.getElem_map, List.getElem_range, Nat.zero_add,
        hbyte, oneHopLess, List.getElem_modify_ne _ _ hother]

theorem bytesAt_eq_iff {left right : Memory} {cnt : ℕ} :
    bytesAt left 0 cnt = bytesAt right 0 cnt ↔ AgreeOn 0 cnt left right := by
  constructor
  · intro hbytes i _ hi
    have hbyte := congrArg (fun bytes => bytes[i]?) hbytes
    simpa [bytesAt, hi] using hbyte
  · exact fun hagree => bytesAt_congr fun i hge hlt => hagree i hge (by omega)

section

variable {cnt : ℕ} {received parsed : Store ParseState}

/-- The encoded message is the received one with another hop count exactly
when every TLV is transparent. -/
theorem resentDatagram_iff (haccepted : Accepted host cnt received parsed)
    (hops : UInt8) :
    AgreeOn 0 cnt
        (resentDatagram host.endian received.mem parsed.rest.tlvList hops)
        (storeBytes received.mem Management.boundaryHops.offset [hops]) ↔
      ∀ extra ∈ parsed.rest.tlvList,
        Transparent host.endian received.mem extra.tlv := by
  rw [← haccepted.listEcho_iff]
  constructor
  · intro hagree i hge hi
    have hbyte := hagree i (Nat.zero_le _) hi
    rwa [resentDatagram, if_neg (by omega),
      storeHops_of_ne _ _ (by omega)] at hbyte
  · intro hagree i _ hi
    rw [resentDatagram]
    split
    · rfl
    · rw [storeHops_of_ne _ _ (by omega)]
      exact hagree i (by omega) hi

/-- When every TLV is transparent, the second parse gives the message back. -/
theorem reparsed_sameMessage (haccepted : Accepted host cnt received parsed)
    (htransparent : ∀ extra ∈ parsed.rest.tlvList,
      Transparent host.endian received.mem extra.tlv) :
    let hops := boundaryHops received.mem
    let sent := (msgPreSend host (setBoundaryHops parsed (hops - 1))).2
    let again := (ptpMsgReceive host cnt sent).2
    SameMessage cnt (setBoundaryHops again (boundaryHops again.mem + 1))
      parsed := by
  intro hops sent again
  have hsize := haccepted.size_le
  obtain ⟨mem, spans, hsend, hagree⟩ := haccepted.msgPreSend_eq (hops - 1)
  have hwire := (resentDatagram_iff haccepted (hops - 1)).mpr htransparent
  obtain ⟨mem', spans', hreplay, hagain⟩ := ptpMsgReceive_replay host
    Management.boundaryHops.offset (hops - 1)
    ⟨mem, spans, parsed.rest.detach⟩ haccepted.run
    haccepted.management haccepted.fresh (by decide) (by decide)
    (hagree.trans hwire).symm (Nat.le_add_left _ _)
  have hresult : again = ⟨mem', spans',
      parsed.rest.detach.attach parsed.rest.tlvList⟩ := by
    simp only [again, sent, hsend, hreplay]
  have hless : boundaryHops mem' = hops - 1 :=
    (hagain 45 (Nat.zero_le _) (by omega)).trans (storeHops_hops _ _)
  rw [hresult]
  refine ⟨fun i hge hi => ?_, List.nil_append _, rfl, rfl⟩
  simp only [setBoundaryHops, hless, sub_add_cancel]
  by_cases hbyte : i = 45
  · subst hbyte
    refine (storeHops_hops _ _).trans ?_
    exact (haccepted.unconverted (Or.inr ⟨by decide, by decide⟩)).symm
  · rw [storeHops_of_ne _ _ hbyte, hagain i hge hi, storeHops_of_ne _ _ hbyte]

end

section

variable {datagram : List UInt8} {buffer : Memory} {pool : TlvPool}
  {parsed : Store ParseState}

/-- The copies are faithful exactly when every TLV is transparent. -/
theorem copies_faithful_iff
    (haccepted : Accepted host datagram.length
      (receivedStore datagram buffer pool) parsed)
    (hlength : netWord (receivedStore datagram buffer pool).mem 2 2 =
      datagram.length) {outs : List MgmtPort} (houts : outs ≠ []) :
    let wire := (receivedStore datagram buffer pool).mem
    (∀ copy ∈ (served host (setBoundaryHops parsed (boundaryHops wire - 1))
        outs).copies, copy.bytes = oneHopLess datagram) ↔
      ∀ extra ∈ parsed.rest.tlvList,
        Transparent host.endian wire extra.tlv := by
  intro wire
  obtain ⟨mem, spans, hsend, hagree⟩ :=
    haccepted.msgPreSend_eq (boundaryHops wire - 1)
  have hbytes : ∀ copy ∈ (served host (setBoundaryHops parsed
      (boundaryHops wire - 1)) outs).copies,
        copy.bytes = bytesAt mem 0 datagram.length := by
    intro copy hcopy
    rw [served, if_neg houts] at hcopy
    obtain ⟨out, -, rfl⟩ := List.mem_map.mp hcopy
    rw [haccepted.transportLength_sent, hlength, hsend]
  have hexists : ∃ copy, copy ∈ (served host (setBoundaryHops parsed
      (boundaryHops wire - 1)) outs).copies := by
    rw [served, if_neg houts]
    obtain ⟨out, rest, rfl⟩ := List.exists_cons_of_ne_nil houts
    exact ⟨_, List.mem_cons_self ..⟩
  rw [← resentDatagram_iff haccepted (boundaryHops wire - 1),
    ← bytesAt_oneHopLess datagram buffer]
  constructor
  · intro hcopies
    obtain ⟨copy, hcopy⟩ := hexists
    have hsame := bytesAt_eq_iff.mp
      ((hbytes copy hcopy).symm.trans (hcopies copy hcopy))
    exact hagree.symm.trans hsame
  · intro hsame copy hcopy
    rw [hbytes copy hcopy]
    exact bytesAt_eq_iff.mpr (hagree.trans hsame)

end

/-- Forwarding leaves the message as it was parsed and copies it faithfully
exactly when it does not pass the gate, or when some port gets a copy and
every TLV survives being sent again. -/
theorem clockForwardMgmtMsg_faithful_iff (host : Host) (datagram : List UInt8)
    (buffer : Memory) (pool : TlvPool) (parsed : Store ParseState)
    (hrun : ptpMsgReceive host datagram.length
      (receivedStore datagram buffer pool) = (.ok (), parsed))
    (htype : typeOf (receivedStore datagram buffer pool).mem = some .management)
    (hlength : netWord (receivedStore datagram buffer pool).mem 2 2 =
      datagram.length) (c : MgmtClock) (p : MgmtPort) :
    Faithful datagram parsed (clockForwardMgmtMsg host c p parsed) ↔
      ¬Gate c p (receivedStore datagram buffer pool).mem ∨
        recipients c p (receivedStore datagram buffer pool).mem ≠ [] ∧
          ∀ extra ∈ parsed.rest.tlvList, Transparent host.endian
            (receivedStore datagram buffer pool).mem extra.tlv := by
  have haccepted : Accepted host datagram.length
    (receivedStore datagram buffer pool) parsed := ⟨hrun, htype, rfl⟩
  have hsize := haccepted.size_le
  have hhops : boundaryHops parsed.mem =
      boundaryHops (receivedStore datagram buffer pool).mem :=
    haccepted.unconverted (Or.inr ⟨by decide, by decide⟩)
  rw [haccepted.clockForwardMgmtMsg_eq c p]
  by_cases hgate : Gate c p (receivedStore datagram buffer pool).mem
  · rw [if_pos hgate]
    simp only [hgate, not_true_eq_false, false_or, hlength]
    by_cases hnone : recipients c p (receivedStore datagram buffer pool).mem = []
    · rw [if_pos hnone, hnone]
      simp only [ne_eq, not_true_eq_false, false_and, iff_false]
      intro hfaithful
      -- nothing has left, and the hop count stays one less
      have hbyte := hfaithful.message.bytes 45 (Nat.zero_le _) (by omega)
      have hless : boundaryHops (receivedStore datagram buffer pool).mem - 1 =
          boundaryHops (receivedStore datagram buffer pool).mem :=
        ((storeHops_hops parsed.mem _).symm.trans hbyte).trans hhops
      simp at hless
    · rw [if_neg hnone]
      have hiff := copies_faithful_iff haccepted hlength hnone
      constructor
      · exact fun hfaithful => ⟨hnone, hiff.mp hfaithful.copies⟩
      · rintro ⟨-, htransparent⟩
        refine ⟨?_, hiff.mpr htransparent⟩
        have hsame := reparsed_sameMessage haccepted htransparent
        simpa only [served, if_neg hnone] using hsame
  · rw [if_neg hgate]
    simp only [hgate, not_false_eq_true, true_or, iff_true]
    exact ⟨⟨fun _ _ _ => rfl, rfl, rfl, rfl⟩, by simp⟩

/-- A request for a clock that has one port only, with three hops left. -/
def lonelyRequest : List UInt8 :=
  [0x0d, 0x02, 0, 48, 0, 0, 0, 0, 0, 0, 0, 0, 0, 0, 0, 0, 0, 0, 0, 0,
    0, 0x1b, 0x19, 0xff, 0xfe, 0, 0, 1, 0, 1, 0, 7, 4, 0x7f,
    0xff, 0xff, 0xff, 0xff, 0xff, 0xff, 0xff, 0xff, 0xff, 0xff, 3, 3, 0, 0]

def lonelyHost : Host where
  endian := .little
  calloc _ := true
  monotonic := ⟨0, 0⟩

def lonelyClock : MgmtClock where
  clkPorts := [⟨1, .slave⟩]
  udsPort := ⟨0, .listening⟩

def lonelyReceived : Store ParseState :=
  receivedStore lonelyRequest (fun _ => 0) ⟨0, 0⟩

def lonelyParsed : Store ParseState :=
  (ptpMsgReceive lonelyHost lonelyRequest.length lonelyReceived).2

theorem lonelyRequest_not_faithful :
    ptpMsgReceive lonelyHost lonelyRequest.length lonelyReceived =
        (.ok (), lonelyParsed) ∧
      typeOf lonelyReceived.mem = some .management ∧
      netWord lonelyReceived.mem 2 2 = lonelyRequest.length ∧
      ¬Faithful lonelyRequest lonelyParsed
        (clockForwardMgmtMsg lonelyHost lonelyClock ⟨1, .slave⟩ lonelyParsed) := by
  refine ⟨Prod.ext rfl rfl, by decide, by decide, fun hfaithful => ?_⟩
  have hbyte := hfaithful.message.bytes 45 (by decide) (by decide)
  revert hbyte
  decide

/-- A request for the first priority of every clock, with three hops left. -/
def priorityRequest : List UInt8 :=
  [0x0d, 0x02, 0, 54, 0, 0, 0, 0, 0, 0, 0, 0, 0, 0, 0, 0, 0, 0, 0, 0,
    0, 0x1b, 0x19, 0xff, 0xfe, 0, 0, 1, 0, 1, 0, 7, 4, 0x7f,
    0xff, 0xff, 0xff, 0xff, 0xff, 0xff, 0xff, 0xff, 0xff, 0xff, 3, 3, 0, 0,
    0, 1, 0, 2, 0x20, 0x05]

def forwardingClock : MgmtClock where
  clkPorts := [⟨1, .slave⟩, ⟨2, .master⟩]
  udsPort := ⟨0, .listening⟩

def priorityParsed : Store ParseState :=
  (ptpMsgReceive lonelyHost priorityRequest.length
    (receivedStore priorityRequest (fun _ => 0) ⟨0, 0⟩)).2

/-- The second port passes the request on, with its TLV and one hop less. -/
theorem clockForwardMgmtMsg_faithful_iff_priorityRequest :
    Faithful priorityRequest priorityParsed
        (clockForwardMgmtMsg lonelyHost forwardingClock ⟨1, .slave⟩ priorityParsed) ∧
      recipients forwardingClock ⟨1, .slave⟩
        (receivedStore priorityRequest (fun _ => 0) ⟨0, 0⟩).mem = [⟨2, .master⟩] ∧
      priorityParsed.rest.tlvList.length = 1 := by
  have hok : (ptpMsgReceive lonelyHost priorityRequest.length
      (receivedStore priorityRequest (fun _ => 0) ⟨0, 0⟩)).1 = .ok () := by
    decide +kernel
  have hrun : ptpMsgReceive lonelyHost priorityRequest.length
      (receivedStore priorityRequest (fun _ => 0) ⟨0, 0⟩) =
        (.ok (), priorityParsed) := by
    rw [priorityParsed, ← hok]
  have hiff := clockForwardMgmtMsg_faithful_iff lonelyHost priorityRequest (fun _ => 0)
    ⟨0, 0⟩ priorityParsed hrun (by decide) (by decide) forwardingClock ⟨1, .slave⟩
  have hrecipients : recipients forwardingClock ⟨1, .slave⟩
      (receivedStore priorityRequest (fun _ => 0) ⟨0, 0⟩).mem = [⟨2, .master⟩] := by
    decide +kernel
  refine ⟨hiff.mpr (Or.inr ⟨?_, ?_⟩), hrecipients, by decide +kernel⟩
  · rw [hrecipients]
    exact List.cons_ne_nil _ _
  · decide +kernel

end

end LinuxPtp.Clock
