import LinuxPtp.Tc.Lengths

/-!
# Forwarding and the size of the datagram

A forwarded message is sent with the length in its header.  That stays within
the received datagram exactly when the header does not claim more, or when the
message is of a kind that is never passed on.
-/

namespace LinuxPtp.Tc

open ByteOrder Access Wire Port

/-- The kinds of datagrams that are passed on: unicast messages only when they
are for management and have a hop left. -/
def Carried (datagram : List UInt8) : Prop :=
  Forwards (messageType (datagramMem datagram)) ∧
    (fieldIsSet (datagramMem datagram) unicastFlag = false ∨
      messageType (datagramMem datagram) = some .management ∧
        Clock.boundaryHops (datagramMem datagram) ≠ 0)

instance (datagram : List UInt8) : Decidable (Carried datagram) :=
  inferInstanceAs (Decidable (_ ∧ _))

/-- No length that forwarding derives from the message exceeds the received
datagram, on any clock and in any run of a transparent clock. -/
structure WithinReceived (host : Host) (datagram : List UInt8) : Prop where
  clock : ∀ pool parsed, ptpMsgReceive host datagram.length
      (receivedStore datagram (fun _ => 0) pool) = (.ok (), parsed) →
    typeOf (datagramMem datagram) = some .management → ∀ c p,
      let result := Clock.clockForwardMgmtMsg host c p parsed
      (∀ copy ∈ result.copies, copy.bytes.length ≤ datagram.length) ∧
        ∀ length ∈ result.reparsed, length ≤ datagram.length
  tc : ∀ (env : Env) (ports : ℕ → TcPort) (failed : ℕ → Bool)
      (actions : List Action), env.host = host →
    ∀ entry ∈ (Stepping.run (step env) actions
      (TcState.initial ports failed)).handed,
      entry.origin = .received datagram → entry.length ≤ datagram.length

section

variable {host : Host} {pool : TlvPool} {datagram : List UInt8}
  {parsed : Store ParseState}

/-! ## Management messages on a clock -/

theorem accepted_management
    (hrun : ptpMsgReceive host datagram.length
      (receivedStore datagram (fun _ => 0) pool) = (.ok (), parsed))
    (htype : typeOf (datagramMem datagram) = some .management) :
    Clock.Accepted host datagram.length
      (receivedStore datagram (fun _ => 0) pool) parsed :=
  ⟨hrun, htype, rfl⟩

/-- All lengths are the one in the header, and there are some only if a hop is
left. -/
theorem clockForwardMgmtMsg_lengths
    (hrun : ptpMsgReceive host datagram.length
      (receivedStore datagram (fun _ => 0) pool) = (.ok (), parsed))
    (htype : typeOf (datagramMem datagram) = some .management)
    (hcarried : Carried datagram → datagramLength datagram ≤ datagram.length)
    (c : Clock.MgmtClock) (p : Clock.MgmtPort) :
    let result := Clock.clockForwardMgmtMsg host c p parsed
    (∀ copy ∈ result.copies, copy.bytes.length ≤ datagram.length) ∧
      ∀ length ∈ result.reparsed, length ≤ datagram.length := by
  intro result
  have haccepted := accepted_management hrun htype
  have hresult : result = _ := haccepted.clockForwardMgmtMsg_eq c p
  by_cases hgate : Clock.Gate c p (receivedStore datagram (fun _ => 0) pool).mem
  · have htyped : messageType (datagramMem datagram) = some .management := htype
    have hforwards : Forwards (messageType (datagramMem datagram)) := by
      rw [htyped]
      trivial
    have hlength : datagramLength datagram ≤ datagram.length :=
      hcarried ⟨hforwards, Or.inr ⟨htyped, hgate.2⟩⟩
    rw [if_pos hgate] at hresult
    have hcopies : ∀ copy ∈ (Clock.served host (Clock.setBoundaryHops parsed
        (Clock.boundaryHops (receivedStore datagram (fun _ => 0) pool).mem - 1))
        (Clock.recipients c p
          (receivedStore datagram (fun _ => 0) pool).mem)).copies,
        copy.bytes.length ≤ datagram.length := by
      intro copy hcopy
      unfold Clock.served at hcopy
      split at hcopy
      · exact absurd hcopy List.not_mem_nil
      · obtain ⟨out, -, rfl⟩ := List.mem_map.mp hcopy
        rw [length_bytesAt, haccepted.transportLength_sent]
        exact hlength
    have hnone : (Clock.served host (Clock.setBoundaryHops parsed
        (Clock.boundaryHops (receivedStore datagram (fun _ => 0) pool).mem - 1))
        (Clock.recipients c p
          (receivedStore datagram (fun _ => 0) pool).mem)).reparsed = none := by
      unfold Clock.served
      split <;> rfl
    dsimp only at hresult
    split at hresult
    · rw [hresult]
      exact ⟨hcopies, fun length hmem => absurd (hnone ▸ hmem) (by simp)⟩
    · rw [hresult]
      refine ⟨hcopies, fun length hmem => ?_⟩
      exact (Option.some.inj hmem) ▸ hlength
  · rw [if_neg hgate] at hresult
    rw [hresult]
    exact ⟨fun copy hcopy => absurd hcopy List.not_mem_nil,
      fun length hmem => absurd hmem (by simp)⟩

/-- A clock with two ports that are in a forwarding state. -/
def relayClock : Clock.MgmtClock where
  clkPorts := [⟨1, .slave⟩, ⟨2, .master⟩]
  udsPort := ⟨0, .listening⟩

/-- A management message with a hop left is parsed again with the length in
its header. -/
theorem reparsed_relayClock
    (hrun : ptpMsgReceive host datagram.length
      (receivedStore datagram (fun _ => 0) pool) = (.ok (), parsed))
    (htype : typeOf (datagramMem datagram) = some .management)
    (hhops : Clock.boundaryHops (datagramMem datagram) ≠ 0) :
    (Clock.clockForwardMgmtMsg host relayClock ⟨1, .slave⟩ parsed).reparsed =
      some (datagramLength datagram) := by
  have haccepted := accepted_management hrun htype
  have hgate : Clock.Gate relayClock ⟨1, .slave⟩
      (receivedStore datagram (fun _ => 0) pool).mem := ⟨rfl, hhops⟩
  have hsome : Clock.recipients relayClock ⟨1, .slave⟩
      (receivedStore datagram (fun _ => 0) pool).mem ≠ [] := by
    refine List.ne_nil_of_mem (a := ⟨2, .master⟩) (List.mem_filter.mpr ?_)
    exact ⟨by decide, rfl⟩
  rw [haccepted.clockForwardMgmtMsg_eq relayClock ⟨1, .slave⟩, if_pos hgate]
  dsimp only
  rw [if_neg hsome]
  rfl

/-! ## Messages on a transparent clock -/

/-- Two end-to-end ports on which nothing fails, and two-step operation. -/
def quietEnv (host : Host) (pool : TlvPool) : Env where
  host := host
  clkPorts := [1, 2]
  domainNumber := 0
  assumeTwoStep := true
  malloc _ := true
  tlvPool _ := pool
  monotonic _ := ⟨0, 0⟩
  send _ := 1
  txts _ := some 1
  rateRatio _ residence := residence
  clearFaultAsap _ := false
  portInitialize _ := true

def quietStart : TcState :=
  TcState.initial twoPorts fun _ => false

structure Taken (host : Host) (pool : TlvPool) (datagram : List UInt8) :
    Prop where
  accepted : ∃ parsed, ptpMsgReceive host datagram.length
    (receivedStore datagram (fun _ => 0) pool) = (.ok (), parsed)
  notUnicast : fieldIsSet (datagramMem datagram) unicastFlag = false

def takenState (m : ℕ) (datagram : List UInt8) (s : TcState) : TcState :=
  { s with
    msgs := Function.update s.msgs m
      ⟨datagramMem datagram, 1, ⟨0, 0⟩, 1, .received datagram⟩
    msgCount := m + 1
    calls := s.calls + 2 }

theorem tcAccept_quiet (htaken : Taken host pool datagram) {s : TcState}
    (hpool : s.msgPool = []) :
    tcAccept (quietEnv host pool) datagram 1 s =
      (some s.msgCount, takenState s.msgCount datagram s) := by
  obtain ⟨parsed, hrun⟩ := htaken.accepted
  have halloc : msgAllocate (quietEnv host pool) s = (some s.msgCount,
      { s.called with msgCount := s.msgCount + 1 }.modifyMsg s.msgCount
        fun _ => .fresh) := by
    unfold msgAllocate
    rw [hpool]
    rfl
  have hduplicates : ∀ s', duplicates (quietEnv host pool)
      (datagramMem datagram) datagram.length 1 s' = true := by
    intro s'
    have hparsed : ptpMsgReceive (quietEnv host pool).host datagram.length
        ⟨datagramMem datagram, [], ⟨[], ⟨0, 0⟩, ⟨0, 0⟩,
          (quietEnv host pool).tlvPool s'.calls⟩⟩ = (.ok (), parsed) := hrun
    unfold duplicates
    simp only [hparsed]
    split <;> rfl
  have hfilled : (receiveInto s.msgCount datagram 1
      ({ s.called with msgCount := s.msgCount + 1 }.modifyMsg s.msgCount
        fun _ => .fresh)).msgs s.msgCount =
      ⟨datagramMem datagram, 1, ⟨0, 0⟩, 1, .blank⟩ := by
    simp [receiveInto, TcState.modifyMsg, PtpMessage.fresh, datagramMem]
  unfold tcAccept
  rw [halloc]
  simp only [hfilled, htaken.notUnicast, hduplicates]
  simp [quietEnv, markReceived, receiveInto, TcState.modifyMsg,
    TcState.called, takenState, PtpMessage.fresh, datagramMem]

theorem step_quiet (htaken : Taken host pool datagram) {s : TcState}
    (hpool : s.msgPool = []) (q : ℕ) :
    step (quietEnv host pool) s (.receive q datagram 1) =
      msgPut s.msgCount (tcSwitch (quietEnv host pool) q s.msgCount
        (takenState s.msgCount datagram s)) := by
  simp only [step, tcReceive, tcAccept_quiet htaken hpool]

/-- The two ports are `q`, where a message came in, and `p`. -/
def Across (q p : ℕ) : Prop :=
  q = 1 ∧ p = 2 ∨ q = 2 ∧ p = 1

/-- A loop over the two ports serves the other one. -/
theorem forEachPort_quiet {q p m : ℕ} {body : ℕ → TcState → TcState}
    {s : TcState} (hports : Across q p)
    (htree : (s.ports q).tcSpanningTree = false) :
    forEachPort (quietEnv host pool) q m body s = body p s := by
  rcases hports with ⟨rfl, rfl⟩ | ⟨rfl, rfl⟩ <;>
    simp [forEachPort, quietEnv, Stepping.run, tcBlocked, htree]

/-- Something from the datagram has been handed over, with the length that its
header shows. -/
def Sent (datagram : List UInt8) (s : TcState) : Prop :=
  ∃ entry ∈ s.handed, entry.origin = .received datagram ∧
    entry.length = datagramLength datagram

/-- What has been handed over stays on record. -/
theorem sent_preserved (env : Env) (datagram : List UInt8) :
    Preserved env (Sent datagram) where
  same hsame hsent := by
    obtain ⟨entry, hentry, hsent⟩ := hsent
    exact ⟨entry, hsame.handed ▸ hentry, hsent⟩
  store m _ bytes _ hsent := hsent
  hand p m bytes _ _ hsent := by
    obtain ⟨entry, hentry, hsent⟩ := hsent
    exact ⟨entry, List.mem_append_left _ hentry, hsent⟩
  fresh m hsent := hsent
  fill m datagram hwts _ hsent := hsent
  mark m datagram _ _ hsent := hsent
  standIn m fup hsent := hsent

theorem sent_sendOrFault {p m : ℕ} {s : TcState}
    (horigin : (s.msgs m).origin = .received datagram)
    (hlength : netWord (s.msgs m).mem 2 2 = datagramLength datagram) :
    Sent datagram (sendOrFault (quietEnv host pool) p m s) := by
  refine ⟨_, List.mem_append_right _ (List.mem_singleton_self _), horigin, ?_⟩
  simp only [transportLength, ntoh_hostWord]
  exact hlength

/-- A message that goes out as it is. -/
theorem sent_tcSendAll {q p m : ℕ} {s : TcState} (hports : Across q p)
    (htree : (s.ports q).tcSpanningTree = false)
    (horigin : (s.msgs m).origin = .received datagram)
    (hlength : netWord (s.msgs m).mem 2 2 = datagramLength datagram) :
    Sent datagram (tcSendAll (quietEnv host pool) q m s) := by
  unfold tcSendAll
  rw [forEachPort_quiet hports htree]
  exact sent_sendOrFault horigin hlength

/-- A message that goes out with another correction. -/
theorem sent_sendCorrected {p m : ℕ} {s : TcState} (extra : ℤ)
    (horigin : (s.msgs m).origin = .received datagram)
    (hlength : netWord (s.msgs m).mem 2 2 = datagramLength datagram) :
    Sent datagram (sendCorrected (quietEnv host pool) p m extra s) := by
  have hsent := @sent_sendOrFault host pool datagram p m
    (setCorrection (quietEnv host pool) m
      (correction (quietEnv host pool) (s.msgs m).mem + extra) s)
    (by simpa [setCorrection, TcState.modifyMsg] using horigin)
    (by
      rw [← hlength]
      refine netWord_congr fun i _ hi => ?_
      simp only [setCorrection, TcState.modifyMsg, Function.update_self]
      exact storeBytes_outside _ _ (Or.inl (by
        simp only [Header.correction]
        omega)))
  exact hsent

/-! ## Messages that wait for their counterparts -/

/-- The first message, in a state in which it is about to be completed on port
`p`. -/
structure Gathered (p : ℕ) (datagram : List UInt8) (s : TcState) : Prop where
  mem : (s.msgs 0).mem = datagramMem datagram
  refcnt : (s.msgs 0).refcnt = 1
  list : (s.ports p).tcTransmitted = []
  tcPool : s.tcPool = []
  txdCount : s.txdCount = 0
  msgPool : s.msgPool = []
  msgCount : s.msgCount = 1
  ports : ∀ p', (s.ports p').tcSpanningTree = false ∧ (s.ports p').e2e = true

/-- The first message waits on port `p` for its counterpart. -/
structure Stashed (q p : ℕ) (datagram : List UInt8) (s : TcState) : Prop where
  list : (s.ports p).tcTransmitted = [0]
  ingressPort : (s.txds 0).ingressPort = q
  msg : (s.txds 0).msg = 0
  mem : (s.msgs 0).mem = datagramMem datagram
  msgPool : s.msgPool = []
  msgCount : s.msgCount = 1
  ports : ∀ p', (s.ports p').tcSpanningTree = false ∧ (s.ports p').e2e = true

/-- The types of the messages that wait for another one. -/
def Waits (type : Option MsgType) : Prop :=
  type = some .sync ∨ type = some .delayReq

theorem Gathered.stashed {q p : ℕ} {s : TcState}
    (hgathered : Gathered p datagram s)
    (htype : Waits (messageType (datagramMem datagram))) (ingress : ℤ) :
    Stashed q p datagram
      (msgPut 0 (tcGather (quietEnv host pool) q 0 ingress p s)) := by
  have hinsert : ∃ residence s', tcGather (quietEnv host pool) q 0 ingress p s =
      tcInsert p 0 0 residence q s' ∧ (s'.msgs 0).mem = (s.msgs 0).mem ∧
        (s'.msgs 0).refcnt = 1 ∧ s'.ports = s.ports ∧
        s'.msgPool = s.msgPool ∧ s'.msgCount = s.msgCount := by
    rcases htype with htype | htype <;>
    · simp [tcGather, transportTxts, quietEnv, stampEgress, tcComplete,
        tcCompleteSyfup, tcCompleteRequest, syfupMatch, hgathered.list, tcStash,
        tcAllocate, hgathered.tcPool, hgathered.txdCount, TcState.modifyMsg,
        TcState.called, hgathered.mem, htype, TcState.modifyTxd]
      exact ⟨_, _, rfl, by simp, by simp [hgathered.refcnt], rfl, rfl, rfl⟩
  obtain ⟨residence, s', hgather, hmem, hrefcnt, hports, hpool, hcount⟩ := hinsert
  rw [hgather]
  constructor <;>
    simp [msgPut, tcInsert, msgGet, TcState.modifyMsg, TcState.modifyTxd,
      TcState.modifyPort, hmem, hrefcnt, hports, hpool, hcount, hgathered.list,
      hgathered.mem, hgathered.msgPool, hgathered.msgCount]
  intro p'
  by_cases hp : p' = p
  · subst hp
    simpa using hgathered.ports p'
  · simpa [hp] using hgathered.ports p'

/-- A Sync or Delay_Req that comes in first waits on the other port. -/
theorem stashed_quiet (htaken : Taken host pool datagram) {q p : ℕ}
    (hports : Across q p)
    (htype : Waits (messageType (datagramMem datagram))) :
    Stashed q p datagram
      (step (quietEnv host pool) quietStart (.receive q datagram 1)) := by
  have hmem : ((takenState 0 datagram quietStart).msgs 0).mem =
      datagramMem datagram := by
    simp [takenState]
  have hevent : step (quietEnv host pool) quietStart (.receive q datagram 1) =
      msgPut 0 (tcFwdEvent (quietEnv host pool) q 0
        (takenState 0 datagram quietStart)) := by
    rw [step_quiet htaken rfl]
    show msgPut 0 (tcSwitch (quietEnv host pool) q 0
      (takenState 0 datagram quietStart)) = _
    rcases htype with htype | htype
    · simp [tcSwitch, hmem, htype, tcFwdSync, oneStep, quietEnv]
    · have he2e : ((takenState 0 datagram quietStart).ports q).e2e = true := rfl
      simp [tcSwitch, hmem, htype, tcFwdRequest, he2e]
  rw [hevent]
  unfold tcFwdEvent tcSendAll
  have hsent : forEachPort (quietEnv host pool) q 0
      (fun p s => sendOrFault (quietEnv host pool) p 0 s)
      (stampHostTime (quietEnv host pool) 0 (takenState 0 datagram quietStart)) =
        sendOrFault (quietEnv host pool) p 0 (stampHostTime
          (quietEnv host pool) 0 (takenState 0 datagram quietStart)) :=
    forEachPort_quiet hports rfl
  rw [hsent, forEachPort_quiet hports rfl]
  refine Gathered.stashed ?_ htype _
  constructor <;>
    simp [sendOrFault, transportSend, quietEnv, TcState.called, stampHostTime,
      TcState.modifyMsg, takenState, quietStart, TcState.initial, twoPorts]

/-- The counterpart has come in, into the second message. -/
structure Resumed (q p : ℕ) (held datagram : List UInt8) (s : TcState) :
    Prop where
  list : (s.ports p).tcTransmitted = [0]
  ingressPort : (s.txds 0).ingressPort = q
  msg : (s.txds 0).msg = 0
  held : (s.msgs 0).mem = datagramMem held
  mem : (s.msgs 1).mem = datagramMem datagram
  origin : (s.msgs 1).origin = .received datagram
  ports : ∀ p', (s.ports p').tcSpanningTree = false ∧ (s.ports p').e2e = true

theorem Stashed.resumed (env : Env) {q p : ℕ} {held : List UInt8} {s : TcState}
    (hstashed : Stashed q p held s) (datagram : List UInt8) :
    Resumed q p held datagram
      (stampHostTime env 1 (takenState 1 datagram s)) := by
  constructor <;>
    simp [stampHostTime, takenState, TcState.called, TcState.modifyMsg,
      hstashed.list, hstashed.ingressPort, hstashed.msg, hstashed.mem]
  exact hstashed.ports

/-- What completes a match is sent. -/
theorem Resumed.sent {q p p' : ℕ} {held : List UInt8} {s : TcState}
    (hresumed : Resumed q p held datagram s) (extra : ℤ) :
    Sent datagram (sendCorrected (quietEnv host pool) p' 1 extra s) :=
  sent_sendCorrected extra hresumed.origin
    (by rw [hresumed.mem, datagramLength])

/-- A waiting Sync is completed by its Follow_Up. -/
theorem sent_followUp (htaken : Taken host pool datagram)
    {sync : List UInt8} {s : TcState} (hstashed : Stashed 1 2 sync s)
    (hsync : messageType (datagramMem sync) = some .sync)
    (htype : messageType (datagramMem datagram) = some .followUp)
    (hsequence : sequenceId (datagramMem datagram) =
      sequenceId (datagramMem sync))
    (hsource : sourcePortIdentity (datagramMem datagram) =
      sourcePortIdentity (datagramMem sync)) :
    Sent datagram (step (quietEnv host pool) s (.receive 1 datagram 1)) := by
  have hpreserved := sent_preserved (quietEnv host pool) datagram
  have htaken' : ((takenState 1 datagram s).msgs 1).mem = datagramMem datagram := by
    simp [takenState]
  rw [step_quiet htaken hstashed.msgPool, hstashed.msgCount]
  refine hpreserved.put 1 ?_
  have hresumed := hstashed.resumed (quietEnv host pool) datagram
  simp only [tcSwitch, htaken', htype, tcFwdFolup]
  generalize stampHostTime (quietEnv host pool) 1 (takenState 1 datagram s) =
    resumed at hresumed ⊢
  rw [forEachPort_quiet (Or.inl ⟨rfl, rfl⟩) (hresumed.ports 1).1]
  have hkind : syfupKind 1 1 0 resumed = .syncFup := by
    simp [syfupKind, tcMatchSyfup, hresumed.ingressPort, hresumed.msg,
      hresumed.mem, hresumed.held, hsequence, hsource, hsync, htype]
  have hmatch : syfupMatch 1 2 1 resumed = some 0 := by
    simp [syfupMatch, hresumed.list, hkind]
  unfold tcComplete
  simp only [hresumed.mem, htype, tcCompleteSyfup, hmatch, hkind]
  exact hpreserved.same (sameTraffic_tcDiscard 2 0 _) (hresumed.sent _)

/-- A waiting Delay_Req is completed by its response. -/
theorem sent_delayResp (htaken : Taken host pool datagram)
    {request : List UInt8} {s : TcState} (hstashed : Stashed 2 1 request s)
    (hrequest : messageType (datagramMem request) = some .delayReq)
    (htype : messageType (datagramMem datagram) = some .delayResp)
    (hsequence : sequenceId (datagramMem request) =
      sequenceId (datagramMem datagram))
    (hsource : sourcePortIdentity (datagramMem request) =
      requestingPortIdentity (datagramMem datagram)) :
    Sent datagram (step (quietEnv host pool) s (.receive 1 datagram 1)) := by
  have hpreserved := sent_preserved (quietEnv host pool) datagram
  have htaken' : ((takenState 1 datagram s).msgs 1).mem = datagramMem datagram := by
    simp [takenState]
  have he2e : ((takenState 1 datagram s).ports 1).e2e = true :=
    (hstashed.ports 1).2
  rw [step_quiet htaken hstashed.msgPool, hstashed.msgCount]
  refine hpreserved.put 1 ?_
  have hresumed := hstashed.resumed (quietEnv host pool) datagram
  simp only [tcSwitch, htaken', htype, he2e, if_true, tcFwdResponse, tcFwdFolup]
  generalize stampHostTime (quietEnv host pool) 1 (takenState 1 datagram s) =
    resumed at hresumed ⊢
  rw [forEachPort_quiet (Or.inl ⟨rfl, rfl⟩) (hresumed.ports 1).1]
  have hmatch : delayMatch 1 2 1 resumed = some 0 := by
    simp [delayMatch, tcMatchDelay, hresumed.list, hresumed.ingressPort,
      hresumed.msg, hresumed.mem, hresumed.held, hsequence, hsource, hrequest,
      htype]
  unfold tcComplete
  simp only [hresumed.mem, htype, tcCompleteResponse, hmatch]
  exact hpreserved.same (sameTraffic_tcDiscard 1 0 _) (hresumed.sent _)

/-! ## Counterparts -/

theorem datagramMem_bytesAt {mem : Memory} {width i : ℕ} (hi : i < width) :
    datagramMem (bytesAt mem 0 width) i = mem i := by
  simp [datagramMem, storeBytes, bytesAt, hi]

def syncFor (datagram : List UInt8) : List UInt8 :=
  bytesAt (fun i => if i = 0 then 0 else datagramMem datagram i) 0 44

def delayReqFor (datagram : List UInt8) : List UInt8 :=
  bytesAt (fun i =>
    if i = 0 then 1
    else if 20 ≤ i ∧ i < 30 then datagramMem datagram (i + 24)
    else datagramMem datagram i) 0 44

/-- A message of the fixed size of its type, in the version of another one,
is accepted. -/
theorem taken_of_fixed {counterpart : List UInt8} {type : MsgType}
    (hlength : counterpart.length = 44)
    (htype : messageType (datagramMem counterpart) = some type)
    (hfixed : type = .sync ∨ type = .delayReq)
    (hversion : versionOf (datagramMem counterpart) = version)
    (hunicast : fieldIsSet (datagramMem counterpart) unicastFlag = false) :
    Taken host pool counterpart := by
  refine ⟨?_, hunicast⟩
  have hpdu : type.pduLength = counterpart.length := by
    rcases hfixed with rfl | rfl <;> exact hlength.symm
  have hversion' : versionOf (receivedStore counterpart (fun _ => 0) pool).mem =
      version := hversion
  obtain ⟨spans, hrun⟩ := ptpMsgReceive_run host hversion' htype hpdu.le
  rw [hrun, hlength]
  rcases hfixed with rfl | rfl
  · exact ⟨_, rfl⟩
  · exact ⟨_, rfl⟩

theorem fieldIsSet_congr {left right : Memory} (bit : ℕ)
    (hsame : left Header.flagField0.offset = right Header.flagField0.offset) :
    fieldIsSet left bit = fieldIsSet right bit := by
  rw [fieldIsSet, fieldIsSet, hsame]

/-! ## Every kind of message is sent in some run -/

/-- Events and messages that need no counterpart. -/
theorem sent_alone (htaken : Taken host pool datagram)
    (htype : Waits (messageType (datagramMem datagram)) ∨
      messageType (datagramMem datagram) = some .announce ∨
      messageType (datagramMem datagram) = some .signaling ∨
      messageType (datagramMem datagram) = some .management) :
    Sent datagram
      (step (quietEnv host pool) quietStart (.receive 1 datagram 1)) := by
  have hpreserved := sent_preserved (quietEnv host pool) datagram
  have hmem : ((takenState 0 datagram quietStart).msgs 0).mem =
      datagramMem datagram := by
    simp [takenState]
  have horigin : ((takenState 0 datagram quietStart).msgs 0).origin =
      .received datagram := by
    simp [takenState]
  have hstamped : Sent datagram (tcSendAll (quietEnv host pool) 1 0
      (stampHostTime (quietEnv host pool) 0
        (takenState 0 datagram quietStart))) := by
    refine sent_tcSendAll (Or.inl ⟨rfl, rfl⟩) rfl ?_ ?_
    · simpa [stampHostTime, TcState.called, TcState.modifyMsg] using horigin
    · simp [stampHostTime, TcState.called, TcState.modifyMsg, hmem,
        datagramLength]
  have hevent : Forwards (messageType (datagramMem datagram)) →
      Sent datagram (tcFwdEvent (quietEnv host pool) 1 0
        (takenState 0 datagram quietStart)) := by
    intro hforwards
    refine hpreserved.overPorts ?_ (fun hclosed p _ htype hinv =>
      hclosed.gather 1 _ p htype hinv) hstamped
    have hkept : ((tcSendAll (quietEnv host pool) 1 0 (stampHostTime
        (quietEnv host pool) 0 (takenState 0 datagram quietStart))).msgs 0).mem =
          datagramMem datagram := by
      unfold tcSendAll
      rw [forEachPort_quiet (Or.inl ⟨rfl, rfl⟩) rfl]
      simp [sendOrFault, transportSend, quietEnv, TcState.called, stampHostTime,
        TcState.modifyMsg, hmem]
    rw [hkept]
    exact hforwards
  have hforward : Sent datagram (tcForward (quietEnv host pool) 1 0
      (takenState 0 datagram quietStart)) := by
    have htree : ((takenState 0 datagram quietStart).ports 1).tcSpanningTree =
        false := rfl
    unfold tcForward
    simp only [htree, Bool.false_eq_true, false_and, if_false]
    exact sent_tcSendAll (Or.inl ⟨rfl, rfl⟩) rfl horigin
      (by rw [hmem, datagramLength])
  rw [step_quiet htaken rfl]
  refine hpreserved.put 0 ?_
  show Sent datagram (tcSwitch (quietEnv host pool) 1 0
    (takenState 0 datagram quietStart))
  rcases htype with (htype | htype) | htype | htype | htype
  · have htwoStep : oneStep (quietEnv host pool) (datagramMem datagram) = false :=
      rfl
    simp only [tcSwitch, hmem, htype, tcFwdSync, htwoStep, Bool.false_eq_true,
      if_false]
    exact hevent (by rw [htype]; trivial)
  · have he2e : ((takenState 0 datagram quietStart).ports 1).e2e = true := rfl
    simp only [tcSwitch, hmem, htype, he2e, if_true, tcFwdRequest]
    exact hevent (by rw [htype]; trivial)
  all_goals
    simp only [tcSwitch, hmem, htype]
    exact hforward

theorem sent_afterSync (htaken : Taken host pool datagram)
    (hversion : versionOf (datagramMem datagram) = version)
    (htype : messageType (datagramMem datagram) = some .followUp) :
    Sent datagram (Stepping.run (step (quietEnv host pool))
      [.receive 1 (syncFor datagram) 1, .receive 1 datagram 1] quietStart) := by
  have hbyte : ∀ i, i ≠ 0 → i < 44 →
      datagramMem (syncFor datagram) i = datagramMem datagram i := by
    intro i hne hi
    rw [syncFor, datagramMem_bytesAt hi, if_neg hne]
  have hsync : messageType (datagramMem (syncFor datagram)) = some .sync := by
    rw [messageType, syncFor, datagramMem_bytesAt (by decide)]
    rfl
  have hversion' : versionOf (datagramMem (syncFor datagram)) = version := by
    rw [versionOf, hbyte 1 (by decide) (by decide)]
    exact hversion
  have hunicast := (fieldIsSet_congr unicastFlag
    (hbyte 6 (by decide) (by decide))).trans htaken.notUnicast
  have hsyncTaken : Taken host pool (syncFor datagram) :=
    taken_of_fixed (length_bytesAt _ 0 44) hsync (Or.inl rfl) hversion' hunicast
  have hstashed := stashed_quiet hsyncTaken (Or.inl ⟨rfl, rfl⟩) (Or.inl hsync)
  refine sent_followUp htaken hstashed hsync htype ?_ ?_
  · exact bytesAt_congr fun i hge hlt => (hbyte i
      (by simp only [Header.sequenceId] at hge; omega)
      (by simp only [Header.sequenceId] at hlt; omega)).symm
  · exact bytesAt_congr fun i hge hlt => (hbyte i
      (by simp only [Header.clockIdentity] at hge; omega)
      (by simp only [Header.clockIdentity] at hlt; omega)).symm

theorem sent_afterDelayReq (htaken : Taken host pool datagram)
    (hversion : versionOf (datagramMem datagram) = version)
    (htype : messageType (datagramMem datagram) = some .delayResp) :
    Sent datagram (Stepping.run (step (quietEnv host pool))
      [.receive 2 (delayReqFor datagram) 1, .receive 1 datagram 1]
      quietStart) := by
  have hbyte : ∀ i, i ≠ 0 → i < 44 → ¬(20 ≤ i ∧ i < 30) →
      datagramMem (delayReqFor datagram) i = datagramMem datagram i := by
    intro i hne hi hsource
    rw [delayReqFor, datagramMem_bytesAt hi, if_neg hne, if_neg hsource]
  have hrequest : messageType (datagramMem (delayReqFor datagram)) =
      some .delayReq := by
    rw [messageType, delayReqFor, datagramMem_bytesAt (by decide)]
    rfl
  have hversion' : versionOf (datagramMem (delayReqFor datagram)) = version := by
    rw [versionOf, hbyte 1 (by decide) (by decide) (by decide)]
    exact hversion
  have hunicast := (fieldIsSet_congr unicastFlag
    (hbyte 6 (by decide) (by decide) (by decide))).trans htaken.notUnicast
  have hrequestTaken : Taken host pool (delayReqFor datagram) :=
    taken_of_fixed (length_bytesAt _ 0 44) hrequest (Or.inr rfl) hversion'
      hunicast
  have hstashed := stashed_quiet hrequestTaken (Or.inr ⟨rfl, rfl⟩)
    (Or.inr hrequest)
  refine sent_delayResp htaken hstashed hrequest htype ?_ ?_
  · exact bytesAt_congr fun i hge hlt => by
      simp only [Header.sequenceId] at hge hlt
      exact hbyte i (by omega) (by omega) (by omega)
  · unfold sourcePortIdentity requestingPortIdentity bytesAt
    refine List.map_congr_left fun i hi => ?_
    have hi := List.mem_range.mp hi
    simp only [Header.clockIdentity, RequestingPort.clockIdentity]
    rw [delayReqFor, datagramMem_bytesAt (by omega), if_neg (by omega),
      if_pos (by omega)]
    congr 1
    omega

/-- A message of a kind that is passed on is sent in some run. -/
theorem exists_sent (htaken : Taken host pool datagram)
    (hversion : versionOf (datagramMem datagram) = version)
    (hforwards : Forwards (messageType (datagramMem datagram))) :
    ∃ actions, Sent datagram
      (Stepping.run (step (quietEnv host pool)) actions quietStart) := by
  unfold Forwards at hforwards
  split at hforwards <;> rename_i htype
  · exact ⟨[.receive 1 datagram 1], sent_alone htaken (.inl (.inl htype))⟩
  · exact ⟨_, sent_afterSync htaken hversion htype⟩
  · exact ⟨[.receive 1 datagram 1], sent_alone htaken (.inl (.inr htype))⟩
  · exact ⟨_, sent_afterDelayReq htaken hversion htype⟩
  · exact ⟨[.receive 1 datagram 1], sent_alone htaken (.inr (.inl htype))⟩
  · exact ⟨[.receive 1 datagram 1], sent_alone htaken (.inr (.inr (.inl htype)))⟩
  · exact ⟨[.receive 1 datagram 1], sent_alone htaken (.inr (.inr (.inr htype)))⟩
  all_goals exact hforwards.elim

end

/-! ## The lengths stay within the datagram -/

/-- Forwarding an accepted datagram never uses more bytes than were received
exactly when its header claims no more than that, or it is of a kind that is
not passed on. -/
theorem withinReceived_iff (host : Host) (datagram : List UInt8)
    (pool : TlvPool) (parsed : Store ParseState)
    (hrun : ptpMsgReceive host datagram.length
      (receivedStore datagram (fun _ => 0) pool) = (.ok (), parsed)) :
    WithinReceived host datagram ↔
      ¬Carried datagram ∨ datagramLength datagram ≤ datagram.length := by
  rw [← imp_iff_not_or]
  constructor
  · rintro hwithin ⟨hforwards, hpassed⟩
    by_cases hunicast : fieldIsSet (datagramMem datagram) unicastFlag = false
    · have htaken : Taken host pool datagram := ⟨⟨parsed, hrun⟩, hunicast⟩
      obtain ⟨hversion, -⟩ := ptpMsgReceive_eq_ok host hrun
      obtain ⟨actions, entry, hentry, horigin, hlength⟩ :=
        exists_sent htaken hversion hforwards
      exact hlength ▸ hwithin.tc (quietEnv host pool) twoPorts (fun _ => false)
        actions rfl entry hentry horigin
    · obtain ⟨htype, hhops⟩ := hpassed.resolve_left hunicast
      have hreparsed := reparsed_relayClock hrun htype hhops
      exact (hwithin.clock pool parsed hrun htype relayClock ⟨1, .slave⟩).2 _
        hreparsed
  · intro hcarried
    refine ⟨fun pool' parsed' hrun' htype c p =>
      clockForwardMgmtMsg_lengths hrun' htype hcarried c p, ?_⟩
    intro env ports failed actions _ entry hentry horigin
    have hfits := (lengthsShown_run env ports failed actions).handed entry hentry
    rw [Fits, horigin] at hfits
    exact hfits.1.le.trans (hcarried ⟨hfits.2.1, Or.inl hfits.2.2⟩)

def boastfulRequest : List UInt8 :=
  [0x0d, 0x02, 0x05, 0xdc, 0, 0, 0, 0, 0, 0, 0, 0, 0, 0, 0, 0, 0, 0, 0, 0,
    0, 0x1b, 0x19, 0xff, 0xfe, 0, 0, 1, 0, 1, 0, 7, 4, 0x7f,
    0xff, 0xff, 0xff, 0xff, 0xff, 0xff, 0xff, 0xff, 0xff, 0xff, 3, 3, 0, 0]

def boastfulHost : Host where
  endian := .little
  calloc _ := true
  monotonic := ⟨0, 0⟩

theorem boastfulRequest_not_withinReceived :
    (ptpMsgReceive boastfulHost boastfulRequest.length
        (receivedStore boastfulRequest (fun _ => 0) ⟨0, 0⟩)).1 = .ok () ∧
      ¬WithinReceived boastfulHost boastfulRequest := by
  refine ⟨by decide, fun hwithin => ?_⟩
  have hlong := hwithin.tc (quietEnv boastfulHost ⟨0, 0⟩) twoPorts
    (fun _ => false) [.receive 1 boastfulRequest 1] rfl
    ((Stepping.run (step (quietEnv boastfulHost ⟨0, 0⟩))
      [.receive 1 boastfulRequest 1] quietStart).handed.getLast (by decide))
    (List.getLast_mem _) rfl
  revert hlong
  decide

theorem withinReceived_iff_boastfulRequest :
    WithinReceived boastfulHost boastfulRequest ↔
      ¬Carried boastfulRequest ∨
        datagramLength boastfulRequest ≤ boastfulRequest.length :=
  withinReceived_iff boastfulHost boastfulRequest ⟨0, 0⟩ _
    (Prod.ext rfl rfl)

end LinuxPtp.Tc
