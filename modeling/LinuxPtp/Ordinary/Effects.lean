import LinuxPtp.Ordinary.Frame

/-!
# What an event does

Every event of a port is a sequence of small effects.  An invariant that each
effect keeps is kept by every event.
-/

namespace LinuxPtp.Ordinary

open Bmc Cells Port Wire
open Relation (ReflTransGen)

variable {env : Env} {p q : ℕ} {s s' s'' : PtpClock}
variable {linkFault manages : Prop} {ok : Message → PtpClock → Prop}

/-! ## Effects -/

/-- Only the counters of a port, its last fault and its view of the link change. -/
structure Notes (f : PtpPort → PtpPort) : Prop where
  rest : ∀ port, f port =
    { port with
      multiplePdrDetected := (f port).multiplePdrDetected
      multipleSeqPdrCount := (f port).multipleSeqPdrCount
      seqnumDelayreq := (f port).seqnumDelayreq
      lastFaultType := (f port).lastFaultType
      linkUp := (f port).linkUp
      linkChanged := (f port).linkChanged
      tsLabelChanged := (f port).tsLabelChanged }

/-- The effects of which the events consist, but for those of Announce, Sync and
Follow_Up messages.  A fault arises in a handler only where a link message tells
of one, and settings change only by a message that asks for a decision. -/
inductive Effect (env : Env) (p : ℕ) (linkFault manages : Prop) :
    PtpClock → PtpClock → Prop
  | called (s : PtpClock) : Effect env p linkFault manages s (called s)
  | allocate (s : PtpClock) :
      Effect env p linkFault manages s (msgAllocate env s).2
  | putHeld {s : PtpClock} {cell : ℕ} {rest : List ℕ}
      (hheld : s.held = cell :: rest) : Effect env p linkFault manages s
        (msgPutHeld cell s)
  | announceTmo (s : PtpClock) :
      Effect env p linkFault manages s (portSetAnnounceTmo env p s)
  | delayTmo (s : PtpClock) :
      Effect env p linkFault manages s (portSetDelayTmo env p s)
  | mannoTmo (s : PtpClock) :
      Effect env p linkFault manages s (setMannoTmo env p s)
  | syncTxTmo (s : PtpClock) :
      Effect env p linkFault manages s (setSyncTxTmo env p s)
  | note {f : PtpPort → PtpPort} (hnotes : Notes f) (s : PtpClock) :
      Effect env p linkFault manages s (modifyPort p f s)
  | putPeerDelayReq (s : PtpClock) :
      Effect env p linkFault manages s (putPeerDelayReq p s)
  | putPeerDelayResp (s : PtpClock) :
      Effect env p linkFault manages s (putPeerDelayResp p s)
  | putPeerDelayFup (s : PtpClock) :
      Effect env p linkFault manages s (putPeerDelayFup p s)
  | delayReqPrune (s : PtpClock) :
      Effect env p linkFault manages s (delayReqPrune env p s)
  | keepPeerDelayReq {s : PtpClock} {request : DelayReq} {rest : List ℕ}
      (hheld : s.held = request.cell :: rest) (hsent : request.sent = s.calls) :
      Effect env p linkFault manages s
        (keepPeerDelayReq p request (putPeerDelayReq p (called s)))
  | keepDelayReq {s : PtpClock} {request : DelayReq} {rest : List ℕ}
      (hheld : s.held = request.cell :: rest) (hsent : request.sent = s.calls)
      (htime : request.hostTime = env.bmc.monotonic s.calls) :
      Effect env p linkFault manages s (keepDelayReq p request (called s))
  | dropDelayReq {s : PtpClock} {request : DelayReq} {m : Message}
      (hrequest : request ∈ (s.ports p).delayReq)
      (hsequence : request.sequenceId = m.sequenceId)
      (hport : m.requestingPortIdentity = (s.ports p).portIdentity)
      (hparent : s.parentPortIdentity = m.sourcePortIdentity) :
      Effect env p linkFault manages s
        (dropDelayReq p request (ptpClockPathDelay p request m s))
  | usePeerDelayReq {s : PtpClock} (hcomplete : peerDelayComplete (s.ports p)) :
      Effect env p linkFault manages s
        (putPeerDelayReq p (recordPeerDelay p s))
  | logMinDelayReq {log : ℤ} (hlow : -10 ≤ log) (hhigh : log ≤ 22)
      (s : PtpClock) : Effect env p linkFault manages s
        (setLogMinDelayReqInterval p log s)
  | switchToP2p (s : PtpClock) :
      Effect env p linkFault manages s (switchToP2p env p s)
  | storePeerDelayResp {s : PtpClock} {m : Message} (hcell : m.cell ∈ s.held) :
      Effect env p linkFault manages s (storePeerDelayResp p m s)
  | storePeerDelayFup {s : PtpClock} {m : Message} (hcell : m.cell ∈ s.held) :
      Effect env p linkFault manages s (storePeerDelayFup p m s)
  | clearBest (s : PtpClock) : Effect env p linkFault manages s (clearBest p s)
  | renewTransport (s : PtpClock) :
      Effect env p linkFault manages s (renewTransport env p s).2
  | manage (huds : p = env.udsPort) (hmanages : manages)
      (setting : ManagementSet) (s : PtpClock) :
      Effect env p linkFault manages s (applySet setting s).2
  | askDecision (s : PtpClock) :
      Effect env p linkFault manages s (askDecision s)
  | fault {s : PtpClock} (hfault : linkFault)
      (htype : (s.ports p).lastFaultType = .switchPhc) :
      Effect env p linkFault manages s (bcDispatch env p .faultDetected false s)

/-- An effect, or the handling of an Announce, a Sync or a Follow_Up that the
handler holds and of which `ok` is known. -/
inductive Handled (env : Env) (p : ℕ) (linkFault manages : Prop)
    (ok : Message → PtpClock → Prop) :
    PtpClock → PtpClock → Prop
  | effect {s s' : PtpClock} (heffect : Effect env p linkFault manages s s') :
      Handled env p linkFault manages ok s s'
  | announce {s : PtpClock} {m : Message} (htype : m.type = .announce)
      (hcell : m.cell ∈ s.held) (hok : ok m s) :
      Handled env p linkFault manages ok s
        (noteAnnounce p (portMsgProAnnounce env p m s)).2
  | sync {s : PtpClock} {m : Message} (htype : m.type = .sync)
      (hcell : m.cell ∈ s.held) (hok : ok m s) :
      Handled env p linkFault manages ok s (portMsgProSync env p m s)
  | followUp {s : PtpClock} {m : Message} (htype : m.type = .followUp)
      (hcell : m.cell ∈ s.held) (hok : ok m s) :
      Handled env p linkFault manages ok s (portMsgProFollowUp env p m s)

/-- A sequence of effects after which the handler holds what it held before. -/
structure Does (env : Env) (p : ℕ) (linkFault manages : Prop)
    (ok : Message → PtpClock → Prop)
    (s s' : PtpClock) : Prop where
  effects : ReflTransGen (Handled env p linkFault manages ok) s s'
  held : s'.held = s.held

namespace Does

theorem refl (s : PtpClock) : Does env p linkFault manages ok s s :=
    ⟨.refl, rfl⟩

/-- An event may be taken apart. -/
theorem trans (hfirst : Does env p linkFault manages ok s s')
    (hsecond : Does env p linkFault manages ok s' s'') :
    Does env p linkFault manages ok s s'' :=
  ⟨hfirst.effects.trans hsecond.effects, hsecond.held.trans hfirst.held⟩

/-- One more effect, with the same buffers in hand. -/
theorem effect (hdoes : Does env p linkFault manages ok s s')
    (heffect : Effect env p linkFault manages s' s'')
    (hheld : s''.held = s'.held) : Does env p linkFault manages ok s s'' :=
  ⟨hdoes.effects.tail (.effect heffect), hheld.trans hdoes.held⟩

/-- What every effect keeps, the whole keeps. -/
theorem keeps {inv : PtpClock → Prop}
    (hhandled : ∀ s s', Handled env p linkFault manages ok s s' → inv s → inv s')
    (hdoes : Does env p linkFault manages ok s s') (hinv : inv s) : inv s' := by
  obtain ⟨heffects, -⟩ := hdoes
  induction heffects with
  | refl => exact hinv
  | tail _ hlast ih => exact hhandled _ _ hlast ih

theorem called (hdoes : Does env p linkFault manages ok s s') :
    Does env p linkFault manages ok s (called s') :=
  hdoes.effect (.called s') rfl

theorem announceTmo (hdoes : Does env p linkFault manages ok s s') :
    Does env p linkFault manages ok s (portSetAnnounceTmo env p s') :=
  hdoes.effect (.announceTmo s') rfl

theorem delayTmo (hdoes : Does env p linkFault manages ok s s') :
    Does env p linkFault manages ok s (portSetDelayTmo env p s') :=
  hdoes.effect (.delayTmo s') (Kept.refl p s').portSetDelayTmo.held

/-- Notes about the port are an effect. -/
theorem note {f : PtpPort → PtpPort} (hnotes : Notes f)
    (hdoes : Does env p linkFault manages ok s s') :
      Does env p linkFault manages ok s (modifyPort p f s') :=
  hdoes.effect (.note hnotes s') rfl

theorem putPeerDelayReq (hdoes : Does env p linkFault manages ok s s') :
    Does env p linkFault manages ok s (putPeerDelayReq p s') :=
  hdoes.effect (.putPeerDelayReq s') (Kept.refl p s').putPeerDelayReq.held

theorem putPeerDelayResp (hdoes : Does env p linkFault manages ok s s') :
    Does env p linkFault manages ok s (putPeerDelayResp p s') :=
  hdoes.effect (.putPeerDelayResp s') (Kept.refl p s').putPeerDelayResp.held

theorem putPeerDelayFup (hdoes : Does env p linkFault manages ok s s') :
    Does env p linkFault manages ok s (putPeerDelayFup p s') :=
  hdoes.effect (.putPeerDelayFup s') (Kept.refl p s').putPeerDelayFup.held

/-- A fault that the link reports is dispatched within the event. -/
theorem fault (hfault : linkFault)
    (htype : (s'.ports p).lastFaultType = .switchPhc)
    (hdoes : Does env p linkFault manages ok s s') :
    Does env p linkFault manages ok s
      (bcDispatch env p .faultDetected false s') :=
  hdoes.effect (.fault hfault htype) (Kept.refl p s').bcDispatch.held

/-! ## Sending -/

/-- What is allocated is put again, whatever is done with it. -/
theorem withMessage {body : ℕ → PtpClock → Bool × PtpClock}
    (hbody : ∀ cell s, Does env p linkFault manages ok s (body cell s).2)
    (hdoes : Does env p linkFault manages ok s s') :
    Does env p linkFault manages ok s (withMessage env body s').2 := by
  have hallocate : ReflTransGen (Handled env p linkFault manages ok) s
      (msgAllocate env s').2 :=
    hdoes.effects.tail (.effect (.allocate s'))
  have hheld : (msgAllocate env s').2.held =
      (msgAllocate env s').1.toList ++ s.held := by
    rw [← hdoes.held]
    rfl
  rw [Ordinary.withMessage]
  generalize msgAllocate env s' = allocated at hallocate hheld ⊢
  obtain ⟨_ | cell, s₁⟩ := allocated
  · exact ⟨hallocate, hheld⟩
  · have hdone := hbody cell s₁
    have htop : (body cell s₁).2.held = cell :: s.held := hdone.held.trans hheld
    refine ⟨(hallocate.trans hdone.effects).tail (.effect (.putHeld htop)), ?_⟩
    simp [msgPutHeld, htop]

theorem prepareAndSend (hdoes : Does env p linkFault manages ok s s') :
    Does env p linkFault manages ok s (prepareAndSend env s').2 :=
  hdoes.called

/-- A message and its follow-up are sent, and their buffers put. -/
theorem sendTwoStep {oneStep : Bool}
    {followUp : ℕ → PtpClock → Bool × PtpClock}
    (hfollowUp : ∀ cell s, Does env p linkFault manages ok s (followUp cell s).2)
    (hdoes : Does env p linkFault manages ok s s') :
    Does env p linkFault manages ok s (sendTwoStep env oneStep followUp s').2 :=
      by
  refine hdoes.withMessage fun _ s => (refl s).withMessage fun fup s => ?_
  split
  · exact (refl s).prepareAndSend
  · dsimp only
    split
    · exact (refl s).called.trans (hfollowUp fup _)
    · exact (refl s).called

theorem portTxAnnounce {unicast : Bool}
    (hdoes : Does env p linkFault manages ok s s') :
    Does env p linkFault manages ok s (portTxAnnounce env q unicast s').2 := by
  rw [Ordinary.portTxAnnounce]
  split_ifs
  · exact hdoes
  · exact hdoes.called
  · exact hdoes.called.withMessage fun _ s => (refl s).prepareAndSend

theorem portTxSync {unicast : Bool}
    (hdoes : Does env p linkFault manages ok s s') :
    Does env p linkFault manages ok s (portTxSync env q unicast s').2 := by
  rw [Ordinary.portTxSync]
  split_ifs
  · exact hdoes
  · exact hdoes.called
  · exact hdoes.called
  · refine hdoes.called.sendTwoStep fun _ s => ?_
    split_ifs
    · exact (refl s).called
    · exact (refl s).called.prepareAndSend

/-- Any number of messages may be sent. -/
theorem sendAll (count : ℕ) (hdoes : Does env p linkFault manages ok s s') :
    Does env p linkFault manages ok s (sendAll env count s') := by
  induction count generalizing s' with
  | zero => exact hdoes
  | succ count ih =>
    exact ih (hdoes.withMessage fun _ s => (refl s).prepareAndSend)

/-! ## Requests -/

theorem notes_setLastFault (type : FaultType) :
    Notes fun port => { port with lastFaultType := type } :=
  ⟨fun _ => rfl⟩

theorem notes_nextSeqnum : Notes nextSeqnum := ⟨fun _ => rfl⟩

theorem notes_resetPeerCount : Notes resetPeerCount := ⟨fun _ => rfl⟩

/-- The request is put, or passes to the port. -/
theorem sendRequest {keep : DelayReq → PtpClock → PtpClock}
    (hkeep : ∀ request rest s, s.held = request.cell :: rest →
      request.sent = s.calls → request.hostTime = env.bmc.monotonic s.calls →
      Handled env p linkFault manages ok s (keep request (Ordinary.called s)) ∧
        (keep request (Ordinary.called s)).held = rest)
    (hdoes : Does env p linkFault manages ok s s') :
    Does env p linkFault manages ok s (sendRequest env p keep s').2 := by
  have hallocate : ReflTransGen (Handled env p linkFault manages ok) s
      (msgAllocate env s').2 :=
    hdoes.effects.tail (.effect (.allocate s'))
  have hheld : (msgAllocate env s').2.held =
      (msgAllocate env s').1.toList ++ s.held := by
    rw [← hdoes.held]
    rfl
  rw [Ordinary.sendRequest]
  generalize msgAllocate env s' = allocated at hallocate hheld ⊢
  obtain ⟨_ | cell, s₁⟩ := allocated
  · exact ⟨hallocate, hheld⟩
  · have hnumbered := hallocate.trans ((refl s₁).note notes_nextSeqnum).effects
    have htop : (modifyPort p nextSeqnum s₁).held = cell :: s.held := hheld
    dsimp only
    split
    · obtain ⟨hkept, hrest⟩ := hkeep
        ⟨cell, (s₁.ports p).seqnumDelayreq, env.bmc.monotonic s₁.calls, s₁.calls,
          env.transmitTime s₁.calls⟩
        s.held _ htop rfl rfl
      exact ⟨hnumbered.tail hkept, hrest⟩
    · have hsent := hnumbered.tail (.effect (.called (modifyPort p nextSeqnum s₁)))
      have hlast : (sendEvent env (modifyPort p nextSeqnum s₁)).2.held =
          cell :: s.held := hheld
      refine ⟨hsent.tail (.effect (.putHeld htop)), ?_⟩
      simp [msgPutHeld, hlast]

theorem portPdelayRequest (hdoes : Does env p linkFault manages ok s s') :
    Does env p linkFault manages ok s (portPdelayRequest env p s').2 := by
  refine (hdoes.note notes_resetPeerCount).sendRequest
    fun request rest s hheld hsent htime => ?_
  have hput := (Kept.refl p (Ordinary.called s)).putPeerDelayReq.held
  refine ⟨.effect (.keepPeerDelayReq hheld hsent), ?_⟩
  rw [keepPeerDelayReq, modifyPort]
  dsimp only
  rw [hput, Ordinary.called, hheld, List.erase_cons_head]

theorem portDelayRequest (hdoes : Does env p linkFault manages ok s s') :
    Does env p linkFault manages ok s (portDelayRequest env p s').2 := by
  rw [Ordinary.portDelayRequest]
  split_ifs
  · exact hdoes.putPeerDelayResp.putPeerDelayFup.portPdelayRequest
  · refine hdoes.putPeerDelayResp.putPeerDelayFup.sendRequest
      fun request rest s hheld hsent htime =>
        ⟨.effect (.keepDelayReq hheld hsent htime), ?_⟩
    simp [keepDelayReq, modifyPort, Ordinary.called, hheld]

/-! ## Messages -/

theorem portMsgProDelayReq {m : Message}
    (hdoes : Does env p linkFault manages ok s s') :
    Does env p linkFault manages ok s (portMsgProDelayReq env p m s').2 := by
  rw [Ordinary.portMsgProDelayReq]
  split_ifs
  · exact hdoes
  · exact hdoes
  · refine hdoes.withMessage fun _ s => ?_
    split_ifs
    · exact (refl s).called
    · dsimp only
      split_ifs
      · exact (refl s).called.prepareAndSend.portTxSync
      · exact (refl s).called.prepareAndSend

/-- A Delay_Resp takes a pending request, or does nothing. -/
theorem portMsgProDelayResp {m : Message}
    (hdoes : Does env p linkFault manages ok s s') :
    Does env p linkFault manages ok s (portMsgProDelayResp env p m s') := by
  rw [Ordinary.portMsgProDelayResp]
  split
  · exact hdoes
  split
  · exact hdoes
  split
  · exact hdoes
  split
  · exact hdoes
  · rename_i hport hparent _ request hfound
    have hdropped : Does env p linkFault manages ok s
        (dropDelayReq p request (ptpClockPathDelay p request m s')) :=
      hdoes.effect (.dropDelayReq (List.mem_of_find?_eq_some hfound)
        (by simpa using List.find?_some hfound) (not_not.mp hport)
        (not_not.mp hparent)) rfl
    dsimp only
    split_ifs with _ _ hrange
    · exact hdropped
    · exact hdropped
    · exact hdropped
    · push Not at hrange
      have hlog := hdropped.effect (.logMinDelayReq hrange.1 hrange.2 _) rfl
      exact hlog.delayTmo

theorem portMsgProPDelayReq {m : Message}
    (hdoes : Does env p linkFault manages ok s s') :
    Does env p linkFault manages ok s (portMsgProPDelayReq env p m s').2 := by
  rw [Ordinary.portMsgProPDelayReq]
  dsimp only
  split_ifs
  · exact hdoes
  · refine Does.sendTwoStep (fun _ s => (refl s).prepareAndSend)
      (hdoes.effect (.switchToP2p s') ?_)
    exact (Kept.refl p s').modifyPort.portSetDelayTmo.held
  · exact hdoes.sendTwoStep fun _ s => (refl s).prepareAndSend

/-- The peer delay is measured once the three messages are there. -/
theorem portPeerDelay (hdoes : Does env p linkFault manages ok s s') :
    Does env p linkFault manages ok s (portPeerDelay env p s') := by
  rw [Ordinary.portPeerDelay]
  split_ifs with hcomplete
  · exact hdoes
  · exact hdoes.called
  · refine hdoes.called.effect (.usePeerDelayReq (by simpa using hcomplete)) ?_
    exact (Kept.refl p (recordPeerDelay p (Ordinary.called s'))).putPeerDelayReq.held

theorem notes_countPeerResponse (m : Message) : Notes (countPeerResponse m) :=
    by
  refine ⟨fun port => ?_⟩
  rw [countPeerResponse]
  split
  · rfl
  · split_ifs <;> rfl

/-- A Pdelay_Resp is counted and kept. -/
theorem portMsgProPDelayResp {m : Message} (hcell : m.cell ∈ s'.held)
    (hdoes : Does env p linkFault manages ok s s') :
    Does env p linkFault manages ok s (portMsgProPDelayResp env p m s').2 := by
  have hcounted := hdoes.note (notes_countPeerResponse m)
  rw [Ordinary.portMsgProPDelayResp]
  split_ifs
  · exact hcounted.note (notes_setLastFault .badPeerNetwork)
  · exact hcounted
  · refine portPeerDelay (hcounted.effect (.storePeerDelayResp hcell) ?_)
    exact (Kept.refl p _).putPeerDelayResp.msgGet.modifyPort.held

theorem portMsgProPDelayRespFollowUp {m : Message} (hcell : m.cell ∈ s'.held)
    (hdoes : Does env p linkFault manages ok s s') :
    Does env p linkFault manages ok s
      (portMsgProPDelayRespFollowUp env p m s') := by
  rw [Ordinary.portMsgProPDelayRespFollowUp]
  split_ifs
  · exact hdoes
  · refine portPeerDelay (hdoes.effect (.storePeerDelayFup hcell) ?_)
    exact (Kept.refl p _).putPeerDelayFup.msgGet.modifyPort.held

theorem portMsgProSignaling (hdoes : Does env p linkFault manages ok s s') :
    Does env p linkFault manages ok s (portMsgProSignaling env p s').2 := by
  rw [Ordinary.portMsgProSignaling]
  split_ifs
  · exact hdoes
  · exact hdoes.called.sendAll 1

/-- A management message may change settings, and asks for a decision then. -/
theorem clockManage {m : Message}
    (hmanages : (clockManage env p m s').1 → manages)
    (hdoes : Does env p linkFault manages ok s s') :
    Does env p linkFault manages ok s (clockManage env p m s').2 := by
  rw [Ordinary.clockManage] at hmanages ⊢
  cases hset : m.management.set with
  | none => split_ifs <;> first | exact hdoes | exact hdoes.sendAll 1
  | some setting =>
    simp only [hset] at hmanages
    split_ifs at hmanages ⊢ with _ _ huds
    · exact hdoes
    · exact hdoes
    · cases setting with
      | other => exact hdoes.sendAll 1
      | priority1 | priority2 | grandmasterSettings =>
        exact sendAll 1 (hdoes.effect (.manage huds (hmanages rfl) _ s') rfl)
    · exact hdoes.sendAll 1

end Does

/-! ## What the handlers of Announce, Sync and Follow_Up hold -/

theorem insertAnnounce_kept (fc : ForeignClock) (m : Message) :
    Kept p s (insertAnnounce env p fc m s) := by
  rw [insertAnnounce]
  exact (Kept.refl p s).called.msgPutAll.msgGet.modifyPort

theorem addForeignMaster_kept (m : Message) :
    Kept p s (addForeignMaster env p m s).2 := by
  rw [addForeignMaster]
  split
  · dsimp only
    split_ifs
    · exact (Kept.refl p s).called.modifyPort
    · exact (Kept.refl p s).called
  · exact insertAnnounce_kept _ m

theorem updateCurrentMaster_held (m : Message) :
    (updateCurrentMaster env p m s).2.held = s.held := by
  rw [updateCurrentMaster]
  split
  · rfl
  split
  · exact (addForeignMaster_kept m).held
  · dsimp only
    rw [(insertAnnounce_kept _ m).held, (Kept.refl p _).portSetAnnounceTmo.held]
    split_ifs <;> rfl

theorem portMsgProAnnounce_held (m : Message) :
    (portMsgProAnnounce env p m s).2.held = s.held := by
  rw [portMsgProAnnounce]
  split_ifs
  · rfl
  · cases (s.ports p).state with
    | initializing | faulty | disabled => rfl
    | listening | preMaster | master | grandMaster =>
      exact (addForeignMaster_kept m).held
    | passive | uncalibrated | slave => exact updateCurrentMaster_held m

/-- Synchronizing holds no buffer. -/
theorem portSynchronize_held (sync : Message) (followUp : Option Message) :
    (portSynchronize env p sync followUp s).held = s.held := by
  rw [portSynchronize]
  cases env.servo _ with
  | unlocked | locked => exact (Kept.refl p _).called.bcDispatch.held
  | jump =>
    exact (Kept.refl p _).called.bcDispatch.flushDelayReq.putPeerDelayReq.held

theorem storeSyncfup_kept (syfu : SyfuState) (m : Message) :
    Kept p s (storeSyncfup p syfu m s) := by
  rw [storeSyncfup]
  split
  · exact (Kept.refl p s).msgGet.modifyPort
  · exact (Kept.refl p s).msgPutAll.msgGet.modifyPort

theorem useSyncfup_held (sync followUp : Message) :
    (useSyncfup env p sync followUp s).held = s.held := by
  rw [useSyncfup, putSyncfup, (Kept.refl p _).msgPutAll.modifyPort.held,
    portSynchronize_held]

theorem portSyfufsm_held (event : SyfuEvent) (m : Message) :
    (portSyfufsm env p event m s).held = s.held := by
  unfold portSyfufsm
  split
  · exact (storeSyncfup_kept .haveSync m).held
  · exact (storeSyncfup_kept .haveFup m).held
  · exact useSyncfup_held ..
  · exact useSyncfup_held ..
  · rfl

theorem portMsgProSync_held (m : Message) :
    (portMsgProSync env p m s).held = s.held := by
  rw [portMsgProSync]
  split_ifs
  · rfl
  · rfl
  · rw [(Kept.refl p _).flushLastSync.held, portSynchronize_held]
  · exact portSyfufsm_held ..

theorem portMsgProFollowUp_held (m : Message) :
    (portMsgProFollowUp env p m s).held = s.held := by
  rw [portMsgProFollowUp]
  split_ifs
  · rfl
  · rfl
  · rfl
  · exact portSyfufsm_held ..

/-! ## Events -/

/-- The link is up on another clock, to which the switch has failed. -/
def LinkReport.failsSwitch (report : LinkReport) : Bool :=
  report.linkUp && !report.modesMissing && report.switchFailed

/-- The event reads a link message that tells of a failed switch. -/
def LinkFails (env : Env) (fd : Fd) (s : PtpClock) : Prop :=
  fd = .rtnl ∧ ∃ report ∈ env.linkReports s.calls, report.failsSwitch

def Fd.isSocket : Fd → Bool
  | .event | .general => true
  | _ => false

namespace Does

/-- Handling a message does only what the list of effects has. -/
theorem handleMessage {m : Message} (hcell : m.cell ∈ s'.held) (hok : ok m s')
    (hmanages : (handleMessage env p m s').1 = .stateDecisionEvent → manages)
    (hdoes : Does env p linkFault manages ok s s') :
    Does env p linkFault manages ok s (handleMessage env p m s').2 := by
  rw [Ordinary.handleMessage] at hmanages ⊢
  cases htype : m.type with
  | sync =>
    exact hdoes.trans ⟨.single (.sync htype hcell hok), portMsgProSync_held m⟩
  | followUp =>
    exact hdoes.trans
      ⟨.single (.followUp htype hcell hok), portMsgProFollowUp_held m⟩
  | announce =>
    exact hdoes.trans
      ⟨.single (.announce htype hcell hok), portMsgProAnnounce_held m⟩
  | delayReq => exact hdoes.portMsgProDelayReq
  | pdelayReq => exact hdoes.portMsgProPDelayReq
  | pdelayResp => exact hdoes.portMsgProPDelayResp hcell
  | delayResp => exact hdoes.portMsgProDelayResp
  | pdelayRespFollowUp => exact hdoes.portMsgProPDelayRespFollowUp hcell
  | signaling => exact hdoes.portMsgProSignaling
  | management =>
    rw [htype] at hmanages
    exact hdoes.clockManage fun hchanged => hmanages
      (by simp [orDecision, hchanged])

/-- The message is put when it has been handled. -/
theorem receiveMessage
    (hok : ∀ m s', readMessage env p s = (.accepted m, s') → ok m s')
    (hmanages : (receiveMessage env p s).1 = .stateDecisionEvent → manages) :
    Does env p linkFault manages ok s (receiveMessage env p s).2 := by
  have hallocate : ReflTransGen (Handled env p linkFault manages ok) s
      (msgAllocate env s).2 :=
    .single (.effect (.allocate s))
  have hheld : (msgAllocate env s).2.held =
      (msgAllocate env s).1.toList ++ s.held := rfl
  rw [Ordinary.receiveMessage] at hmanages ⊢
  rw [readMessage] at hok hmanages ⊢
  generalize msgAllocate env s = allocated at hallocate hheld hok hmanages ⊢
  obtain ⟨_ | cell, s₁⟩ := allocated
  · exact ⟨hallocate, hheld⟩
  replace hheld : s₁.held = cell :: s.held := hheld
  have hcalled := hallocate.tail (.effect (.called s₁))
  have hput : Does env p linkFault manages ok s
      (msgPutHeld cell (Ordinary.called s₁)) :=
    ⟨hcalled.tail (.effect (.putHeld hheld)), by
      simp [msgPutHeld, Ordinary.called, hheld]⟩
  cases hreceive : env.receive s₁.calls with
  | failed => simpa only [hreceive] using hput
  | rejected => simpa only [hreceive] using hput
  | received m =>
    simp only [hreceive] at hok hmanages ⊢
    split_ifs at hok hmanages ⊢ with hignored
    · exact hput
    · have hdone := @handleMessage env p _ _ linkFault manages ok _
        (by simp [Ordinary.called, hheld]) (hok _ _ rfl) hmanages
        (refl (Ordinary.called s₁))
      have htop := hdone.held.trans hheld
      refine ⟨(hcalled.trans hdone.effects).tail (.effect (.putHeld htop)), ?_⟩
      simp [msgPutHeld, htop]

theorem renewTransport (hdoes : Does env p linkFault manages ok s s') :
    Does env p linkFault manages ok s (renewTransport env p s').2 := by
  refine hdoes.effect (.renewTransport s') ?_
  rw [Ordinary.renewTransport]
  split <;> rfl

theorem delayReqPrune (hdoes : Does env p linkFault manages ok s s') :
    Does env p linkFault manages ok s (delayReqPrune env p s') := by
  refine hdoes.effect (.delayReqPrune s') ?_
  rw [Ordinary.delayReqPrune]
  exact (Kept.refl p s').called.msgPutAll.modifyPort.held

theorem clearBest (hdoes : Does env p linkFault manages ok s s') :
    Does env p linkFault manages ok s (clearBest p s') := by
  refine hdoes.effect (.clearBest s') ?_
  rw [Ordinary.clearBest]
  split
  · rfl
  · rw [fcClear]
    split
    · rfl
    · exact (Kept.refl p s').msgPutAll.modifyPort.held

/-- When no Announce comes in time, the best record is cleared. -/
theorem receiptTimeout (hdoes : Does env p linkFault manages ok s s') :
    Does env p linkFault manages ok s (receiptTimeout env p s').2 := by
  rw [Ordinary.receiptTimeout]
  split_ifs
  · exact hdoes.clearBest.announceTmo.delayReqPrune.renewTransport
  · exact hdoes.clearBest.announceTmo.delayReqPrune

theorem askDecision (hdoes : Does env p linkFault manages ok s s') :
    Does env p linkFault manages ok s (askDecision s') :=
  hdoes.effect (.askDecision s') rfl

/-- What one report about the link does. -/
theorem portLinkStatus {report : LinkReport}
    (hfault : report.failsSwitch → linkFault)
    (hdoes : Does env p linkFault manages ok s s') :
    Does env p linkFault manages ok s (portLinkStatus env p report s') := by
  have hlink : Does env p linkFault manages ok s (setLink p report.linkUp
      (decide ((s'.ports p).linkUp ≠ report.linkUp)) report.labelChanged s') :=
    hdoes.note ⟨fun _ => rfl⟩
  rw [Ordinary.portLinkStatus]
  split_ifs with hup hmissing hfailed
  · exact askDecision (hlink.note ⟨fun _ => rfl⟩)
  · refine fault (hfault ?_) (by simp [setLastFault])
      (hlink.note (notes_setLastFault .switchPhc))
    simp [LinkReport.failsSwitch, hup.1, hmissing, hfailed]
  · exact hlink
  · exact hlink
  · exact hlink.askDecision

/-- What several of them do. -/
theorem linkEvent
    (hfault : ∀ report ∈ env.linkReports s'.calls, report.failsSwitch → linkFault)
    (hdoes : Does env p linkFault manages ok s s') :
    Does env p linkFault manages ok s (linkEvent env p s').2 := by
  rw [Ordinary.linkEvent]
  have hcalled := hdoes.called
  generalize env.linkReports s'.calls = reports at hfault ⊢
  generalize Ordinary.called s' = s₁ at hcalled ⊢
  induction reports generalizing s₁ with
  | nil => exact hcalled
  | cons report reports ih =>
    exact ih
      (fun other hother => hfault other (List.mem_cons_of_mem _ hother)) _
      (hcalled.portLinkStatus (hfault report List.mem_cons_self))

/-- An event of a port. -/
theorem bcEvent (fd : Fd)
    (hok : ∀ m s', fd.isSocket → readMessage env p s = (.accepted m, s') →
      ok m s')
    (hfault : LinkFails env fd s → linkFault)
    (hmanages : (bcEvent env p fd s).1 = .stateDecisionEvent → manages) :
    Does env p linkFault manages ok s (bcEvent env p fd s).2 := by
  cases fd with
  | announceTimer | syncRxTimer => exact (refl s).receiptTimeout
  | delayTimer => exact (refl s).delayTmo.delayReqPrune.portDelayRequest
  | qualificationTimer => exact refl s
  | mannoTimer =>
    exact ((refl s).effect (.mannoTmo s) rfl).portTxAnnounce
  | syncTxTimer =>
    exact ((refl s).effect (.syncTxTmo s) rfl).portTxSync
  | unicastSrvTimer | unicastReqTimer => exact (refl s).called.sendAll 1
  | rtnl =>
    exact (refl s).linkEvent fun report hreport hfails =>
      hfault ⟨rfl, report, hreport, hfails⟩
  | event | general =>
    exact receiveMessage (fun m s' hread => hok m s' rfl hread) hmanages

end Does

end LinuxPtp.Ordinary
