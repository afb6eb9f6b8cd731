import LinuxPtp.Tc.Forward

/-!
# What forwarding does to messages

All that the forwarding code does to messages comes down to a few effects: it
overwrites bytes behind the length word, it hands messages of certain types to
transports, and it fills fresh messages.  A property of states that these
effects keep is kept by every step of a transparent clock.
-/

namespace LinuxPtp.Tc

open ByteOrder Access Wire Port

/-! ## Calls that leave messages alone -/

/-- Messages have the same bytes, and nothing has been handed to a transport. -/
structure SameTraffic (s s' : TcState) : Prop where
  mem : ∀ m, (s'.msgs m).mem = (s.msgs m).mem
  origin : ∀ m, (s'.msgs m).origin = (s.msgs m).origin
  handed : s'.handed = s.handed

namespace SameTraffic

theorem refl (s : TcState) : SameTraffic s s :=
  ⟨fun _ => rfl, fun _ => rfl, rfl⟩

theorem trans {first second third : TcState}
    (hfirst : SameTraffic first second) (hsecond : SameTraffic second third) :
    SameTraffic first third where
  mem m := (hsecond.mem m).trans (hfirst.mem m)
  origin m := (hsecond.origin m).trans (hfirst.origin m)
  handed := hsecond.handed.trans hfirst.handed

/-- Changes besides the bytes of a message. -/
theorem modifyMsg (s : TcState) (m : ℕ) {f : PtpMessage → PtpMessage}
    (hmem : (f (s.msgs m)).mem = (s.msgs m).mem)
    (horigin : (f (s.msgs m)).origin = (s.msgs m).origin) :
    SameTraffic s (s.modifyMsg m f) where
  mem m' := by
    by_cases hm : m' = m
    · subst hm
      simpa [TcState.modifyMsg] using hmem
    · simp [TcState.modifyMsg, hm]
  origin m' := by
    by_cases hm : m' = m
    · subst hm
      simpa [TcState.modifyMsg] using horigin
    · simp [TcState.modifyMsg, hm]
  handed := rfl

end SameTraffic

theorem sameTraffic_called (s : TcState) : SameTraffic s s.called :=
  ⟨fun _ => rfl, fun _ => rfl, rfl⟩

theorem sameTraffic_msgPut (m : ℕ) (s : TcState) : SameTraffic s (msgPut m s) := by
  have hput : SameTraffic s (s.modifyMsg m fun msg =>
      { msg with refcnt := msg.refcnt - 1 }) := .modifyMsg s m rfl rfl
  unfold msgPut
  dsimp only
  split
  · exact hput
  · exact ⟨hput.mem, hput.origin, hput.handed⟩

theorem sameTraffic_tcDiscard (p txd : ℕ) (s : TcState) :
    SameTraffic s (tcDiscard p txd s) := by
  have hput := sameTraffic_msgPut ((tcRemove p txd s).txds txd).msg
    (tcRemove p txd s)
  exact ⟨hput.mem, hput.origin, hput.handed⟩

theorem sameTraffic_tcFlush (p : ℕ) (s : TcState) : SameTraffic s (tcFlush p s) :=
  Stepping.run_related SameTraffic.refl SameTraffic.trans
    (fun s txd => sameTraffic_tcDiscard p txd s) (s.ports p).tcTransmitted s

theorem sameTraffic_tcPruneLoop (p : ℕ) (now : Timespec) (txds : List ℕ)
    (s : TcState) : SameTraffic s (tcPruneLoop p now txds s) := by
  induction txds generalizing s with
  | nil => exact .refl s
  | cons txd rest ih =>
    unfold tcPruneLoop
    split
    · exact .refl s
    · exact (sameTraffic_tcDiscard p txd s).trans (ih _)

theorem sameTraffic_portDispatch (env : Env) (p : ℕ) (event : PortEvent)
    (mdiff : Bool) (s : TcState) :
    SameTraffic s (portDispatch env p event mdiff s) := by
  have hclear : ∀ port next s, SameTraffic s (clearFault env port next s).2 := by
    intro port next s
    unfold clearFault
    split
    · split <;> exact ⟨fun _ => rfl, fun _ => rfl, rfl⟩
    · exact .refl s
  have hinit : ∀ port next s,
      SameTraffic s (initializePort env p port next s).2 := by
    intro port next s
    unfold initializePort
    split
    · have hdisable : SameTraffic s (if portIsEnabled port.state then
          portOpDisable p s else s) := by
        split
        · exact sameTraffic_tcFlush p s
        · exact .refl s
      dsimp only
      generalize (if portIsEnabled port.state then
        portOpDisable p s else s) = disabled at hdisable ⊢
      split <;> exact ⟨hdisable.mem, hdisable.origin, hdisable.handed⟩
    · exact .refl s
  have hupdate : SameTraffic s (portStateUpdate env p event mdiff s).2 := by
    have hcleared := hclear (s.ports p) (stateMachine (s.ports p)
      (s.ports p).state event mdiff) s
    have hboth := hcleared.trans (hinit (s.ports p) (clearFault env (s.ports p)
      (stateMachine (s.ports p) (s.ports p).state event mdiff) s).1 _)
    unfold portStateUpdate
    dsimp only
    split
    · exact ⟨hboth.mem, hboth.origin, hboth.handed⟩
    · exact hboth
  unfold portDispatch
  dsimp only
  split
  · exact hupdate
  · split
    · exact hupdate.trans (sameTraffic_tcFlush p _)
    · exact hupdate.trans (sameTraffic_tcFlush p _)
    · exact hupdate

theorem sameTraffic_portPeerDelay (p : ℕ) (delay : ℤ) (s : TcState) :
    SameTraffic s (portPeerDelay p delay s) :=
  ⟨fun _ => rfl, fun _ => rfl, rfl⟩

theorem sameTraffic_tcAllocate (env : Env) (s : TcState) :
    SameTraffic s (tcAllocate env s).2 := by
  unfold tcAllocate
  split
  · exact ⟨fun _ => rfl, fun _ => rfl, rfl⟩
  · split <;> exact ⟨fun _ => rfl, fun _ => rfl, rfl⟩

theorem sameTraffic_tcStash (env : Env) (q p m : ℕ) (residence : ℤ)
    (s : TcState) : SameTraffic s (tcStash env q p m residence s) := by
  have hsame := sameTraffic_tcAllocate env s
  unfold tcStash
  rcases halloc : tcAllocate env s with ⟨_ | txd, s'⟩
  · rw [halloc] at hsame
    exact hsame.trans (sameTraffic_portDispatch env p _ _ s')
  · rw [halloc] at hsame
    have hget : SameTraffic s' (msgGet m s') := .modifyMsg s' m rfl rfl
    have hboth := hsame.trans hget
    exact ⟨hboth.mem, hboth.origin, hboth.handed⟩

/-! ## Closed properties -/

def Forwards (type : Option MsgType) : Prop :=
  match type with
  | some .sync | some .followUp | some .delayReq | some .delayResp
  | some .announce | some .signaling | some .management => True
  | some .pdelayReq | some .pdelayResp | some .pdelayRespFollowUp
  | none => False

instance (type : Option MsgType) : Decidable (Forwards type) := by
  unfold Forwards
  split <;> infer_instance

/-- What sending a message or fetching its time stamp adds to the state. -/
def handOver (env : Env) (p m : ℕ) (bytes : List UInt8) (txts : Option ℕ)
    (s : TcState) : TcState :=
  { s.called with handed := s.handed ++
    [⟨p, transportLength env (s.msgs m).mem, bytes, (s.msgs m).origin, txts⟩] }

/-- A property that messages may be passed on under. -/
structure Closed (env : Env) (inv : TcState → Prop) : Prop where
  same : ∀ {s s'}, SameTraffic s s' → inv s → inv s'
  store : ∀ {s} m {offset} (bytes : List UInt8), 4 ≤ offset → inv s →
    inv (s.modifyMsg m fun msg =>
      { msg with mem := storeBytes msg.mem offset bytes })
  hand : ∀ {s} p m bytes txts, Forwards (messageType (s.msgs m).mem) → inv s →
    inv (handOver env p m bytes txts s)

/-- Bytes may be stored behind the type and the length. -/
theorem Closed.storeAt {env : Env} {inv : TcState → Prop}
    (hclosed : Closed env inv) {s : TcState} (m offset : ℕ)
    (bytes : List UInt8) (hoffset : 4 ≤ offset) (hinv : inv s) :
    inv (s.modifyMsg m fun msg =>
      { msg with mem := storeBytes msg.mem offset bytes }) :=
  hclosed.store m bytes hoffset hinv

/-- Such bytes do not hide the type. -/
theorem storeBytes_first (mem : Memory) {offset : ℕ} (bytes : List UInt8)
    (hoffset : 4 ≤ offset) : storeBytes mem offset bytes 0 = mem 0 :=
  storeBytes_outside mem bytes (Or.inl (by omega))

/-- What a Sync or Follow_Up completes is sent as a Follow_Up. -/
theorem messageType_syfupMatch {q p msg txd : ℕ} {s : TcState}
    (hmatch : syfupMatch q p msg s = some txd) :
    messageType (s.msgs (if syfupKind q msg txd s = .syncFup then msg
      else (s.txds txd).msg)).mem = some .followUp := by
  have hkind := List.find?_some hmatch
  unfold syfupKind tcMatchSyfup at hkind ⊢
  grind

section

variable {env : Env} {inv : TcState → Prop}

/-- What the body keeps, the loop over the other ports keeps. -/
theorem forEachPort_invariant {q m : ℕ} {body : ℕ → TcState → TcState}
    {s : TcState} (hbody : ∀ p s, inv s → inv (body p s)) (hinv : inv s) :
    inv (forEachPort env q m body s) := by
  refine Stepping.run_invariant (fun s p hinv => ?_) env.clkPorts hinv
  split
  · exact hinv
  · exact hbody p s hinv

namespace Closed

/-- The type of a message may be part of the property. -/
theorem keeping (hclosed : Closed env inv) (m : ℕ) (first : UInt8) :
    Closed env fun s => inv s ∧ (s.msgs m).mem 0 = first where
  same hsame hinv := ⟨hclosed.same hsame hinv.1, by rw [hsame.mem, hinv.2]⟩
  store m' _ bytes hoffset hinv := by
    refine ⟨hclosed.store m' bytes hoffset hinv.1, ?_⟩
    by_cases hm : m = m'
    · subst hm
      simpa [TcState.modifyMsg, storeBytes_first _ bytes hoffset] using hinv.2
    · simpa [TcState.modifyMsg, hm] using hinv.2
  hand p m' bytes txts htype hinv := ⟨hclosed.hand p m' bytes txts htype hinv.1, hinv.2⟩

variable {s : TcState}

/-- A dispatch hands nothing over. -/
theorem dispatch (hclosed : Closed env inv) (p : ℕ) (event : PortEvent)
    (mdiff : Bool) (hinv : inv s) : inv (portDispatch env p event mdiff s) :=
  hclosed.same (sameTraffic_portDispatch env p event mdiff s) hinv

/-- A message of a type that is forwarded may be sent. -/
theorem send (hclosed : Closed env inv) (p : ℕ) {m : ℕ}
    (htype : Forwards (messageType (s.msgs m).mem)) (hinv : inv s) :
    inv (sendOrFault env p m s) := by
  have hhand := hclosed.hand p m
    (bytesAt (s.msgs m).mem 0 (transportLength env (s.msgs m).mem)) none htype hinv
  unfold sendOrFault
  dsimp only
  split
  · exact hclosed.dispatch p _ _ hhand
  · exact hhand

/-- And its transmission time may be asked for. -/
theorem txts (hclosed : Closed env inv) (p : ℕ) {m : ℕ}
    (htype : Forwards (messageType (s.msgs m).mem)) (hinv : inv s) :
    inv (transportTxts env p m s).2 := by
  have hhand := hclosed.hand p m [] (some s.calls) htype hinv
  unfold transportTxts
  dsimp only
  split
  · rename_i stamp _
    split
    · exact hhand
    · exact hclosed.same (.modifyMsg _ m rfl rfl : SameTraffic
        (handOver env p m [] (some s.calls) s)
        ((handOver env p m [] (some s.calls) s).modifyMsg m
          fun msg => { msg with hwts := stamp })) hhand
  · exact hhand

/-- A correction may be added to it first. -/
theorem sendCorrected (hclosed : Closed env inv) (p : ℕ) {m : ℕ} (extra : ℤ)
    (htype : Forwards (messageType (s.msgs m).mem)) (hinv : inv s) :
    inv (sendCorrected env p m extra s) := by
  have hset := (hclosed.keeping m ((s.msgs m).mem 0)).storeAt m
    Header.correction.offset
    (env.host.endian.encode 8 (env.host.endian.ntoh 8
      (((correction env (s.msgs m).mem : ℤ) + extra) % 2 ^ 64).toNat))
    (by decide) ⟨hinv, rfl⟩
  have hsent := hclosed.send p (m := m) (by
    rw [messageType]
    exact hset.2 ▸ htype) hset.1
  exact hclosed.store m _ (by decide) hsent

/-- Two messages that belong together are of such types. -/
theorem complete (hclosed : Closed env inv) (q p m : ℕ) (residence : ℤ)
    (hinv : inv s) : inv (tcComplete env q p m residence s) := by
  have hstash := hclosed.same (sameTraffic_tcStash env q p m residence s) hinv
  have hsyfup : inv (tcCompleteSyfup env q p m residence s) := by
    unfold tcCompleteSyfup
    split
    · exact hstash
    · rename_i txd hmatch
      refine hclosed.same (sameTraffic_tcDiscard p _ _)
        (hclosed.sendCorrected p _ ?_ hinv)
      simp only [decide_eq_true_eq]
      rw [messageType_syfupMatch hmatch]
      trivial
  unfold tcComplete
  split
  · exact hsyfup
  · exact hsyfup
  · exact hstash
  · rename_i htype
    unfold tcCompleteResponse
    split
    · exact hinv
    · refine hclosed.same (sameTraffic_tcDiscard q _ _)
        (hclosed.sendCorrected p _ ?_ hinv)
      rw [htype]
      trivial
  · exact hinv

theorem gather (hclosed : Closed env inv) (q : ℕ) {m : ℕ} (ingress : ℤ)
    (p : ℕ) (htype : Forwards (messageType (s.msgs m).mem)) (hinv : inv s) :
    inv (tcGather env q m ingress p s) := by
  have htxts := hclosed.txts p htype hinv
  unfold tcGather
  rcases hrun : transportTxts env p m s with ⟨_ | stamp, s'⟩
  · rw [hrun] at htxts
    exact hclosed.dispatch p _ _ htxts
  · rw [hrun] at htxts
    have hstamp := hclosed.same (.modifyMsg s' m rfl rfl :
      SameTraffic s' (stampEgress p m stamp s')) htxts
    exact hclosed.complete q p m _ hstamp

theorem stamp (hclosed : Closed env inv) (m : ℕ) (hinv : inv s) :
    inv (stampHostTime env m s) :=
  hclosed.same (s := s.modifyMsg m fun msg =>
      { msg with hostTime := env.monotonic s.calls })
    ⟨fun _ => rfl, fun _ => rfl, rfl⟩
    (hclosed.same (.modifyMsg s m rfl rfl) hinv)

/-- A loop that may rely on the type of the message. -/
theorem overPorts (hclosed : Closed env inv) {q m : ℕ}
    {body : ℕ → TcState → TcState} (htype : Forwards (messageType (s.msgs m).mem))
    (hbody : ∀ {inv : TcState → Prop}, Closed env inv → ∀ p s,
      Forwards (messageType (s.msgs m).mem) → inv s → inv (body p s))
    (hinv : inv s) : inv (Tc.forEachPort env q m body s) := by
  have hkeeping := hclosed.keeping m ((s.msgs m).mem 0)
  have hloop := @forEachPort_invariant env
    (fun s' => inv s' ∧ (s'.msgs m).mem 0 = (s.msgs m).mem 0) q m body s
    (fun p s' hkept => hbody hkeeping p s' (by
      rw [messageType]
      exact hkept.2 ▸ htype) hkept) ⟨hinv, rfl⟩
  exact hloop.1

/-- A message may go to every port. -/
theorem sendAll (hclosed : Closed env inv) (q : ℕ) {m : ℕ}
    (htype : Forwards (messageType (s.msgs m).mem)) (hinv : inv s) :
    inv (tcSendAll env q m s) :=
  hclosed.overPorts htype (fun hclosed p _ htype hinv =>
    hclosed.send p htype hinv) hinv

/-- An event message is sent and remembered. -/
theorem fwdEvent (hclosed : Closed env inv) (q : ℕ) {m : ℕ}
    (htype : Forwards (messageType (s.msgs m).mem)) (hinv : inv s) :
    inv (tcFwdEvent env q m s) := by
  have hkeeping := hclosed.keeping m ((s.msgs m).mem 0)
  have hstamp := hkeeping.stamp m (s := s) ⟨hinv, rfl⟩
  have hstampType : Forwards (messageType
      ((stampHostTime env m s).msgs m).mem) := by
    rw [messageType]
    exact hstamp.2 ▸ htype
  have hsent := hkeeping.sendAll q hstampType hstamp
  refine hclosed.overPorts ?_ (fun hclosed p _ htype hinv =>
    hclosed.gather q _ p htype hinv) hsent.1
  rw [messageType]
  exact hsent.2 ▸ htype

theorem fwdFolup (hclosed : Closed env inv) (q m : ℕ) (hinv : inv s) :
    inv (tcFwdFolup env q m s) :=
  forEachPort_invariant (fun p _ hinv => hclosed.complete q p m 0 hinv)
    (hclosed.stamp m hinv)

theorem forward (hclosed : Closed env inv) (q : ℕ) {m : ℕ}
    (htype : Forwards (messageType (s.msgs m).mem)) (hinv : inv s) :
    inv (tcForward env q m s) := by
  unfold tcForward
  dsimp only
  split
  · have hcount := (hclosed.keeping m ((s.msgs m).mem 0)).storeAt m
      Announce.stepsRemoved.offset
      (env.host.endian.encode 2 (env.host.endian.ntoh 2
        ((1 + env.host.endian.ntoh 2 (hostWord env.host.endian (s.msgs m).mem
          Announce.stepsRemoved.offset 2)) % 2 ^ 16)))
      (by decide) ⟨hinv, rfl⟩
    refine hclosed.sendAll q ?_ hcount.1
    rw [messageType]
    exact hcount.2 ▸ htype
  · exact hclosed.sendAll q htype hinv

end Closed

/-! ## Preserved properties -/

def datagramMem (datagram : List UInt8) : Memory :=
  storeBytes (fun _ => 0) 0 datagram

/-- A property that messages may also be received under. -/
structure Preserved (env : Env) (inv : TcState → Prop) : Prop
    extends Closed env inv where
  fresh : ∀ {s} m, inv s → inv (s.modifyMsg m fun _ => .fresh)
  fill : ∀ {s} m datagram hwts, s.msgs m = .fresh → inv s →
    inv (receiveInto m datagram hwts s)
  mark : ∀ {s} m datagram, (s.msgs m).mem = datagramMem datagram →
    fieldIsSet (datagramMem datagram) unicastFlag = false → inv s →
    inv (markReceived m datagram s)
  standIn : ∀ {s} m fup, inv s → inv (s.modifyMsg fup fun msg => { msg with
    mem := synthesizedFollowUp env (s.msgs m).mem msg.mem
    origin := .standsIn (s.msgs m).mem })

theorem msgAllocate_fresh {s s' : TcState} {m : ℕ}
    (hrun : msgAllocate env s = (some m, s')) :
    ∃ s₀, SameTraffic s s₀ ∧ s' = s₀.modifyMsg m fun _ => .fresh := by
  unfold msgAllocate at hrun
  split at hrun
  · rename_i rest _
    obtain ⟨hm, rfl⟩ := Prod.mk.inj hrun
    obtain rfl := Option.some.inj hm
    exact ⟨{ s with msgPool := rest }, ⟨fun _ => rfl, fun _ => rfl, rfl⟩, rfl⟩
  · split at hrun
    · obtain ⟨hm, rfl⟩ := Prod.mk.inj hrun
      obtain rfl := Option.some.inj hm
      exact ⟨{ s.called with msgCount := s.msgCount + 1 },
        ⟨fun _ => rfl, fun _ => rfl, rfl⟩, rfl⟩
    · exact absurd (congrArg Prod.fst hrun) (by simp)

theorem msgAllocate_none {s s' : TcState}
    (hrun : msgAllocate env s = (none, s')) : SameTraffic s s' := by
  unfold msgAllocate at hrun
  split at hrun
  · exact absurd (congrArg Prod.fst hrun) (by simp)
  · split at hrun
    · exact absurd (congrArg Prod.fst hrun) (by simp)
    · obtain ⟨-, rfl⟩ := Prod.mk.inj hrun
      exact ⟨fun _ => rfl, fun _ => rfl, rfl⟩

theorem messageType_synthesizedFollowUp (sync blank : Memory) :
    messageType (synthesizedFollowUp env sync blank) = some .followUp := by
  have hfirst : synthesizedFollowUp env sync blank 0 =
      UInt8.ofNat MsgType.followUp.code ||| (sync 0 &&& 0xf0) := by
    unfold synthesizedFollowUp
    cases env.host.endian <;> rfl
  have hnibble : ∀ byte : UInt8, (UInt8.ofNat MsgType.followUp.code |||
      (byte &&& 0xf0)).toNat % 16 = MsgType.followUp.code := by
    decide +kernel
  have hcode : (synthesizedFollowUp env sync blank Header.tsmt.offset).toNat %
      16 = MsgType.followUp.code := by
    simp only [Header.tsmt, hfirst, hnibble]
  rw [messageType, hcode]
  rfl

namespace Preserved

variable {s : TcState}

theorem put (hpreserved : Preserved env inv) (m : ℕ) (hinv : inv s) :
    inv (msgPut m s) :=
  hpreserved.same (sameTraffic_msgPut m s) hinv

/-- The Sync may have become the Follow_Up only if they share a buffer. -/
theorem beginFollowUp (hpreserved : Preserved env inv) {m : ℕ} (fup : ℕ)
    (htype : messageType (s.msgs m).mem = some .sync) (hinv : inv s) :
    inv (beginFollowUp env m fup s) ∧
      Forwards (messageType ((beginFollowUp env m fup s).msgs m).mem) := by
  have hfilled := hpreserved.standIn m fup hinv
  refine ⟨hpreserved.store m _ (by decide) hfilled, ?_⟩
  have hfirst : ((Tc.beginFollowUp env m fup s).msgs m).mem 0 =
      ((s.modifyMsg fup fun msg => { msg with
        mem := synthesizedFollowUp env (s.msgs m).mem msg.mem
        origin := .standsIn (s.msgs m).mem }).msgs m).mem 0 := by
    simp [Tc.beginFollowUp, TcState.modifyMsg, storeBytes_first,
      Header.flagField0]
  rw [messageType, show Header.tsmt.offset = 0 from rfl, hfirst]
  by_cases hm : m = fup
  · subst hm
    have hfup := @messageType_synthesizedFollowUp env (s.msgs m).mem
      (s.msgs m).mem
    rw [messageType] at hfup
    simp only [TcState.modifyMsg, Function.update_self]
    rw [show Header.tsmt.offset = 0 from rfl] at hfup
    rw [hfup]
    trivial
  · rw [messageType] at htype
    simp only [TcState.modifyMsg, Function.update_of_ne hm]
    rw [show Header.tsmt.offset = 0 from rfl] at htype
    rw [htype]
    trivial

/-- A one-step Sync gets a Follow_Up, which is of such a type, too. -/
theorem fwdSync (hpreserved : Preserved env inv) (q : ℕ) {m : ℕ}
    (htype : messageType (s.msgs m).mem = some .sync) (hinv : inv s) :
    inv (tcFwdSync env q m s).2 := by
  unfold tcFwdSync
  split
  · split
    · rename_i s' hnone
      exact hpreserved.same (msgAllocate_none hnone) hinv
    · rename_i fup s' hsome
      obtain ⟨s₀, hsame, rfl⟩ := msgAllocate_fresh hsome
      have hfresh := hpreserved.fresh fup (hpreserved.same hsame hinv)
      have hsync : messageType ((s₀.modifyMsg fup fun _ => .fresh).msgs m).mem =
          some .sync := by
        by_cases hm : m = fup
        · subst hm
          simp only [TcState.modifyMsg, Function.update_self]
          rfl
        · simpa [TcState.modifyMsg, hm, hsame.mem] using htype
      obtain ⟨hbegun, hforwards⟩ := hpreserved.beginFollowUp fup hsync
        hfresh
      exact hpreserved.put fup (hpreserved.fwdFolup q fup
        (hpreserved.fwdEvent q hforwards hbegun))
  · exact hpreserved.fwdEvent q (by rw [htype]; trivial) hinv

theorem switch (hpreserved : Preserved env inv) (q m : ℕ) (hinv : inv s) :
    inv (tcSwitch env q m s) := by
  unfold tcSwitch
  split <;> rename_i htype
  · exact hpreserved.fwdSync q htype hinv
  · exact hpreserved.fwdFolup q m hinv
  · split
    · exact hpreserved.fwdEvent q (by rw [htype]; trivial) hinv
    · exact hinv
  · split
    · exact hpreserved.fwdFolup q m hinv
    · exact hinv
  all_goals first
    | exact hpreserved.forward q (by rw [htype]; trivial) hinv
    | exact hinv

theorem accept (hpreserved : Preserved env inv) (datagram : List UInt8)
    (hwts : ℤ) (hinv : inv s) : inv (tcAccept env datagram hwts s).2 := by
  unfold tcAccept
  split
  · rename_i s' hnone
    exact hpreserved.same (msgAllocate_none hnone) hinv
  · rename_i m s' hsome
    obtain ⟨s₀, hsame, rfl⟩ := msgAllocate_fresh hsome
    have hfresh := hpreserved.fresh m (hpreserved.same hsame hinv)
    have hempty : (s₀.modifyMsg m fun _ => .fresh).msgs m = .fresh := by
      simp [TcState.modifyMsg]
    have hfilled := hpreserved.fill m datagram hwts hempty hfresh
    have hmem : ((receiveInto m datagram hwts
        (s₀.modifyMsg m fun _ => .fresh)).msgs m).mem = datagramMem datagram := by
      simp [receiveInto, TcState.modifyMsg, PtpMessage.fresh, datagramMem]
    generalize receiveInto m datagram hwts (s₀.modifyMsg m fun _ => .fresh) =
      filled at hfilled hmem ⊢
    have hcalled : inv filled.called :=
      hpreserved.same (s := filled) ⟨fun _ => rfl, fun _ => rfl, rfl⟩ hfilled
    dsimp only
    split
    · exact hpreserved.put m hfilled
    · rename_i hunicast
      split
      · exact hpreserved.put m hcalled
      · exact hpreserved.mark m datagram hmem
          (by simpa [hmem] using hunicast) hcalled

/-- All that comes of a datagram keeps the invariant. -/
theorem receive (hpreserved : Preserved env inv) (q : ℕ)
    (datagram : List UInt8) (hwts : ℤ) (hinv : inv s) :
    inv (tcReceive env q datagram hwts s) := by
  have haccept := hpreserved.accept datagram hwts hinv
  unfold tcReceive
  split
  · rename_i heq
    rw [heq] at haccept
    exact haccept
  · rename_i m s' heq
    rw [heq] at haccept
    exact hpreserved.put m (hpreserved.switch q m haccept)

theorem prune (hpreserved : Preserved env inv) (p : ℕ) (hinv : inv s) :
    inv (tcPrune env p s) :=
  hpreserved.same ((sameTraffic_called s).trans
    (sameTraffic_tcPruneLoop p _ _ _)) hinv

theorem step (hpreserved : Preserved env inv) (action : Action)
    (hinv : inv s) : inv (step env s action) := by
  cases action with
  | receive q datagram hwts => exact hpreserved.receive q datagram hwts hinv
  | dispatch p event mdiff => exact hpreserved.dispatch p event mdiff hinv
  | delayTimer p => exact hpreserved.prune p hinv
  | peerDelay p delay => exact hpreserved.same (sameTraffic_portPeerDelay p delay s) hinv

/-- A preserved property holds in every state of a run. -/
theorem run (hpreserved : Preserved env inv) (actions : List Action)
    (hinv : inv s) : inv (Stepping.run (Tc.step env) actions s) :=
  Stepping.run_invariant (fun _ action hinv => hpreserved.step action hinv)
    actions hinv

end Preserved

end

end LinuxPtp.Tc
