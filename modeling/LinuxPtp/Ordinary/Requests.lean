import LinuxPtp.Ordinary.Events

/-!
# Requests that wait for a response

A port remembers its Delay_Req and Pdelay_Req messages until it has used them,
and gives them up with everything else when it is reset.
-/

namespace LinuxPtp.Ordinary

open Bmc Cells Port Wire
open Relation (ReflTransGen)

variable {env : Env} {p q : ℕ} {s s' s'' : PtpClock} {inv : PtpClock → Prop}
variable {linkFault manages : Prop} {ok : Message → PtpClock → Prop}
variable {event : PortEvent} {mdiff : Bool}

/-! ## Invariants of every effect -/

/-- What there is to show of an invariant that is finer than the roles. -/
structure Upholds (env : Env) (inv : PtpClock → Prop) : Prop where
  handled : ∀ p linkFault s s',
    Handled env p linkFault True (fun _ _ => True) s s' → inv s → inv s'
  dispatch : ∀ p event mdiff s, inv s → inv (bcDispatch env p event mdiff s)
  expire : ∀ p fd s, inv s → inv (Ordinary.expire p fd s)
  faultArmed : ∀ p armed s, inv s →
    inv (modifyPort p (fun port => { port with faultArmed := armed }) s)
  agenda : ∀ s todo sde, inv s → inv { s with todo := todo, sde := sde }
  examined : ∀ p s, inv s → inv (portComputeBest env p s).2
  elected : ∀ s best bestId, inv s → inv { s with best := best, bestId := bestId }
  updated : ∀ state s, inv s → inv (recommendedUpdate env state s)

namespace Upholds

/-- An invariant that effects uphold outlasts an event. -/
theorem bcEvent (hinv : Upholds env inv) (fd : Fd) (hs : inv s) :
    inv (bcEvent env p fd (Ordinary.expire p fd s)).2 := by
  have hexpired := hinv.expire p fd s hs
  have hdoes : Does env p (LinkFails env fd (Ordinary.expire p fd s)) True
      (fun _ _ => True) (Ordinary.expire p fd s)
      (Ordinary.bcEvent env p fd (Ordinary.expire p fd s)).2 :=
    .bcEvent fd (fun _ _ _ _ => trivial) id fun _ => trivial
  generalize Ordinary.expire p fd s = s₁ at hexpired hdoes ⊢
  exact Does.keeps (hinv.handled p _) hdoes hexpired

theorem askDecision (hinv : Upholds env inv) (hs : inv s) :
    inv (askDecision s) :=
  hinv.agenda s s.todo true hs

/-- It outlasts the decision for a port. -/
theorem decidePort (hinv : Upholds env inv) (fresh : Bool) (hs : inv s) :
    inv (Ordinary.decidePort env fresh p s) := by
  rw [decidePort_eq]
  exact hinv.dispatch _ _ _ _ (hinv.updated _ _ hs)

theorem decision (hinv : Upholds env inv) (hs : inv s) :
    inv (handleStateDecisionEvent env s) := by
  rw [handleStateDecisionEvent_eq]
  have hstart : inv (decisionStart env s) :=
    hinv.elected _ _ _ (@computeBest_keeps env s inv hinv.examined
      (List.range env.nports) none hs)
  exact @decidePorts_keeps env _ inv _ _ List.nodup_range
    (fun _ _ _ _ _ _ => hinv.decidePort _) hstart

theorem portEvent (hinv : Upholds env inv) (fd : Fd) (hs : inv s) :
    inv (portEvent env p fd s) := by
  obtain ⟨s', hs', -, hevent⟩ := @portEvent_eq env p s fd
  have hhandled : inv (Ordinary.bcEvent env p fd (Ordinary.expire p fd s)).2 :=
    hinv.bcEvent fd hs
  rw [hevent]
  refine hinv.dispatch p _ _ _ ?_
  rcases hs' with rfl | rfl
  · exact hhandled
  · exact hinv.askDecision hhandled

theorem preserves_step (hinv : Upholds env inv) (action : Step) (hs : inv s) :
    inv (step env s action) := by
  have htask : ∀ task s, inv s → inv (runTask env task s) := by
    intro task s hs
    cases task with
    | fd p fd touched =>
      have hevent : inv (Ordinary.portEvent env p fd s) := hinv.portEvent fd hs
      rw [runTask]
      split
      · obtain ⟨armed, harmed⟩ :=
          @clockFaultTimeout_eq env p (Ordinary.portEvent env p fd s) true
        rw [harmed]
        exact hinv.agenda _ _ (Ordinary.portEvent env p fd s).sde
          (hinv.faultArmed p armed _ hevent)
      · exact hevent
    | fault p =>
      obtain ⟨armed, harmed⟩ := @clockFaultTimeout_eq env p s false
      rw [runTask, harmed]
      split
      · exact hinv.dispatch p _ _ _ (hinv.faultArmed p armed s hs)
      · exact hinv.faultArmed p armed s hs
    | uds fd touched =>
      have hevent := @bcEvent env env.udsPort s inv hinv fd hs
      rw [runTask]
      dsimp only
      split
      · exact hinv.askDecision hevent
      · exact hevent
    | finish =>
      rw [runTask]
      split
      · exact hinv.agenda _ (handleStateDecisionEvent env s).todo false
          (hinv.decision hs)
      · exact hs
  cases action with
  | poll ready =>
    rw [step]
    split
    · exact hinv.agenda s _ s.sde hs
    · exact hs
  | next =>
    rw [step]
    split
    · exact hs
    · exact htask _ _ (hinv.agenda s _ s.sde hs)

/-- An invariant of the new clock holds in every state of every run. -/
theorem runClock (hinv : Upholds env inv) (hnew : inv (newClock env))
    (steps : List Step) : inv (runClock env steps) := by
  refine Stepping.run_invariant (fun _ action => hinv.preserves_step action) steps ?_
  rw [clockCreate]
  generalize List.range (env.nports + 1) = ports
  generalize newClock env = s at hnew
  induction ports generalizing s with
  | nil => exact hnew
  | cons p ports ih => exact ih _ (hinv.dispatch p _ false s hnew)

end Upholds

/-! ## What a port waits for -/

/-- The identity of a port and its pending requests. -/
structure Requests where
  identity : PortIdentity
  delayReq : List DelayReq
  peerDelayReq : Option DelayReq

def PtpPort.requests (port : PtpPort) : Requests :=
  ⟨port.portIdentity, port.delayReq, port.peerDelayReq⟩

structure Requests.Sheds (before after : Requests) : Prop where
  identity : after.identity = before.identity
  delayReq : after.delayReq.Sublist before.delayReq
  peerDelayReq : ∀ request ∈ after.peerDelayReq, request ∈ before.peerDelayReq

namespace Requests.Sheds

theorem refl (requests : Requests) : requests.Sheds requests :=
  ⟨rfl, List.Sublist.refl _, fun _ => id⟩

theorem trans {first second third : Requests} (hfirst : first.Sheds second)
    (hsecond : second.Sheds third) : first.Sheds third :=
  ⟨hsecond.identity.trans hfirst.identity,
    hsecond.delayReq.trans hfirst.delayReq,
    fun request hrequest =>
      hfirst.peerDelayReq request (hsecond.peerDelayReq request hrequest)⟩

end Requests.Sheds

theorem Requests.Sheds.of_eq {before after : Requests} (hsame : after = before) :
    before.Sheds after := by
  rw [hsame]
  exact .refl before

/-! ## Changes of state -/

@[simp]
theorem setFda_requests (fd : Fd) (f : Descriptor → Descriptor) :
    ((setFda p fd f s).ports p).requests = (s.ports p).requests := by
  simp [PtpPort.requests]

@[simp]
theorem portSetAnnounceTmo_requests :
    ((portSetAnnounceTmo env p s).ports p).requests = (s.ports p).requests := by
  simp [PtpPort.requests, portSetAnnounceTmo]

@[simp]
theorem portSetDelayTmo_requests :
    ((portSetDelayTmo env p s).ports p).requests = (s.ports p).requests := by
  rw [portSetDelayTmo]
  split <;> simp [PtpPort.requests, setTmoLog]

theorem clearTmos_requests (fds : List Fd) :
    ((clearTmos p fds s).ports p).requests = (s.ports p).requests := by
  induction fds generalizing s with
  | nil => rfl
  | cons fd fds ih =>
    rw [clearTmos, List.foldl_cons, ← clearTmos, ih]
    exact setFda_requests fd _

theorem disabledPort_sheds (port : PtpPort) :
    port.requests.Sheds (disabledPort port).requests :=
  ⟨rfl, List.nil_sublist _, fun _ hnone => nomatch hnone⟩

/-- A port that enters a state may lose requests, but gets none. -/
theorem e2eEnter_sheds (next : PortState) :
    (s.ports p).requests.Sheds ((e2eEnter env p next s).ports p).requests := by
  cases next with
  | initializing => exact .refl _
  | faulty | disabled =>
    rw [e2eEnter, portOpDisable_same]
    exact disabledPort_sheds _
  | listening | passive => exact .of_eq portSetAnnounceTmo_requests
  | preMaster => exact .of_eq (setFda_requests ..)
  | master | grandMaster =>
    exact .of_eq ((setFda_requests ..).trans (setFda_requests ..))
  | uncalibrated =>
    rw [e2eEnter, portSetDelayTmo_requests, portSetAnnounceTmo_requests,
      flushDelayReq_same, flushLastSync_same]
    exact ⟨rfl, List.nil_sublist _, fun _ => id⟩
  | slave =>
    exact .of_eq (portSetDelayTmo_requests.trans portSetAnnounceTmo_requests)

theorem p2pEnter_sheds (next : PortState) :
    (s.ports p).requests.Sheds ((p2pEnter env p next s).ports p).requests := by
  cases next with
  | initializing => exact .refl _
  | faulty | disabled =>
    rw [p2pEnter, portOpDisable_same]
    exact disabledPort_sheds _
  | listening =>
    exact .of_eq (portSetDelayTmo_requests.trans portSetAnnounceTmo_requests)
  | passive | slave => exact .of_eq portSetAnnounceTmo_requests
  | preMaster => exact .of_eq (setFda_requests ..)
  | master | grandMaster =>
    exact .of_eq ((setFda_requests ..).trans (setFda_requests ..))
  | uncalibrated =>
    rw [p2pEnter, portSetAnnounceTmo_requests, flushPeerDelay_same,
      flushLastSync_same]
    exact ⟨rfl, List.Sublist.refl _,
      fun _ hnone => absurd hnone (Option.some_ne_none _).symm⟩

theorem transition_sheds :
    (s.ports p).requests.Sheds ((transition env p s).ports p).requests := by
  rw [transition]
  split
  · rw [p2pTransition_eq]
    exact (Requests.Sheds.of_eq (clearTmos_requests _)).trans (p2pEnter_sheds _)
  · rw [e2eTransition_eq]
    exact (Requests.Sheds.of_eq (clearTmos_requests _)).trans (e2eEnter_sheds _)

theorem portInitialize_requests :
    ((portInitialize env p s).2.ports p).requests = (s.ports p).requests := by
  have hreset : ((modifyPort p (portResetFields env p) (called s)).ports
      p).requests = (s.ports p).requests := by
    simp [PtpPort.requests, portResetFields]
  rw [portInitialize]
  cases env.initOutcome s.calls with
  | noTimers => exact hreset
  | noTransport => exact hreset
  | noUnicastTimer =>
    simp [PtpPort.requests, portSetAnnounceTmo, portResetFields]
  | ready =>
    dsimp only
    rw [openRtnl]
    split
    · simp [PtpPort.requests, portSetAnnounceTmo, portResetFields]
    · simp [PtpPort.requests, portSetAnnounceTmo, portResetFields]

theorem restart_sheds :
    (s.ports p).requests.Sheds ((restart env p s).2.ports p).requests := by
  rw [restart]
  dsimp only
  rw [portInitialize_requests]
  split
  · rw [portOpDisable_same]
    exact disabledPort_sheds _
  · exact .refl _

theorem enterState_sheds (event : PortEvent) (mdiff : Bool) :
    (s.ports p).requests.Sheds
      ((enterState env p event mdiff s).2.ports p).requests := by
  by_cases hnext : nextState env p event mdiff (s.ports p) = .initializing
  · rw [enterState_started hnext]
    have hstarted := @restart_sheds env p s
    split
    · exact hstarted
    · refine hstarted.trans ?_
      have hset : ((setState p (restart env p s).1
          (restart env p s).2).ports p).requests =
          ((restart env p s).2.ports p).requests := by
        rw [setState, modifyPort_same]
        rfl
      exact (Requests.Sheds.of_eq hset).trans transition_sheds
  · by_cases hsame : env.stateMachine (s.ports p).state event mdiff =
        (s.ports p).state
    · rw [enterState_same hnext hsame]
      exact .refl _
    · rw [enterState_changed hnext hsame]
      refine Requests.Sheds.trans (.of_eq ?_) transition_sheds
      rw [setState, modifyPort_same]
      rfl

/-- So a dispatch makes no request. -/
theorem bcDispatch_sheds (event : PortEvent) (mdiff : Bool) :
    (s.ports p).requests.Sheds
      ((bcDispatch env p event mdiff s).ports p).requests := by
  have hentered := @enterState_sheds env p s event mdiff
  rw [bcDispatch]
  generalize enterState env p event mdiff s = entered at hentered ⊢
  obtain ⟨changed, s'⟩ := entered
  dsimp only at hentered ⊢
  split_ifs
  · have hfault : ((setLastFault p .switchPhc (called s')).ports p).requests =
        (s'.ports p).requests := by
      rw [setLastFault, modifyPort_same]
      rfl
    exact hentered.trans ((Requests.Sheds.of_eq hfault).trans
      (enterState_sheds .faultDetected false))
  · exact hentered
  · exact hentered

/-! ## Effects -/

/-- Requests are given up, and no sample is taken. -/
structure Sheds (s s' : PtpClock) : Prop where
  ports : ∀ q, (s.ports q).requests.Sheds (s'.ports q).requests
  calls : s.calls ≤ s'.calls
  delaySamples : s'.delaySamples = s.delaySamples
  peerSamples : s'.peerSamples = s.peerSamples

namespace Sheds

theorem refl (s : PtpClock) : Sheds s s :=
  ⟨fun _ => .refl _, le_rfl, rfl, rfl⟩

theorem trans (hfirst : Sheds s s') (hsecond : Sheds s' s'') : Sheds s s'' where
  ports q := (hfirst.ports q).trans (hsecond.ports q)
  calls := hfirst.calls.trans hsecond.calls
  delaySamples := hsecond.delaySamples.trans hfirst.delaySamples
  peerSamples := hsecond.peerSamples.trans hfirst.peerSamples

/-- Work on one port sheds what that port loses. -/
theorem of_within (hwithin : Within p s s')
    (hport : (s.ports p).requests.Sheds (s'.ports p).requests) : Sheds s s' where
  ports q := by
    by_cases hsame : q = p
    · exact hsame ▸ hport
    · rw [hwithin.ports q hsame]
      exact .refl _
  calls := hwithin.calls
  delaySamples := hwithin.delaySamples
  peerSamples := hwithin.peerSamples

theorem of_same (hwithin : Within p s s')
    (hport : (s'.ports p).requests = (s.ports p).requests) : Sheds s s' :=
  of_within hwithin (.of_eq hport)

theorem dispatch (event : PortEvent) (mdiff : Bool) :
    Sheds s (bcDispatch env p event mdiff s) :=
  of_within (Kept.refl p s).bcDispatch.toWithin (bcDispatch_sheds event mdiff)

theorem announceTmo : Sheds s (portSetAnnounceTmo env p s) :=
  of_same (Kept.refl p s).portSetAnnounceTmo.toWithin portSetAnnounceTmo_requests

theorem delayTmo : Sheds s (portSetDelayTmo env p s) :=
  of_same (Kept.refl p s).portSetDelayTmo.toWithin portSetDelayTmo_requests

theorem setFda (fd : Fd) (f : Descriptor → Descriptor) : Sheds s (setFda p fd f s) :=
  of_same (Kept.refl p s).setFda.toWithin (setFda_requests fd f)

theorem modifyPort {f : PtpPort → PtpPort}
    (hf : ∀ port : PtpPort, port.requests.Sheds (f port).requests) :
    Sheds s (modifyPort p f s) := by
  refine of_within (Within.refl p s).modifyPort ?_
  rw [modifyPort_same]
  exact hf _

theorem called : Sheds s (called s) :=
  ⟨fun _ => .refl _, Nat.le_succ _, rfl, rfl⟩

theorem flushLastSync : Sheds s (flushLastSync p s) :=
  of_same (Kept.refl p s).flushLastSync.toWithin (by simp [PtpPort.requests])

theorem flushDelayReq : Sheds s (flushDelayReq p s) := by
  refine of_within (Kept.refl p s).flushDelayReq.toWithin ?_
  rw [flushDelayReq_same]
  exact ⟨rfl, List.nil_sublist _, fun _ => id⟩

theorem putPeerDelayReq : Sheds s (putPeerDelayReq p s) := by
  refine of_within (Kept.refl p s).putPeerDelayReq.toWithin ?_
  rw [putPeerDelayReq_same]
  exact ⟨rfl, List.Sublist.refl _, fun _ hnone => nomatch hnone⟩

theorem delayReqPrune : Sheds s (delayReqPrune env p s) := by
  refine of_within delayReqPrune_kept.toWithin ?_
  rw [Ordinary.delayReqPrune, modifyPort_same, msgPutAll_ports]
  exact ⟨rfl, (List.rdropWhile_prefix ..).sublist, fun _ => id⟩

/-! ## Sync and Follow_Up -/

theorem portSynchronize (sync : Message) (followUp : Option Message) :
    Sheds s (portSynchronize env p sync followUp s) := by
  have hrecorded : Sheds s (Ordinary.called (recordSynchronized sync followUp
      (portSetSyncRxTmo env p s))) :=
    (setFda (p := p) _ _).trans ⟨fun _ => .refl _, Nat.le_succ _, rfl, rfl⟩
  rw [Ordinary.portSynchronize]
  cases env.servo _ with
  | unlocked => exact hrecorded.trans (dispatch ..)
  | locked => exact hrecorded.trans (dispatch ..)
  | jump =>
    exact ((hrecorded.trans (dispatch ..)).trans flushDelayReq).trans
      putPeerDelayReq

theorem storeSyncfup (syfu : SyfuState) (m : Message) :
    Sheds s (storeSyncfup p syfu m s) := by
  refine of_same (storeSyncfup_kept syfu m).toWithin ?_
  rw [Ordinary.storeSyncfup]
  split <;> simp [msgGet, PtpPort.requests]

theorem putSyncfup : Sheds s (putSyncfup p s) :=
  of_same (Kept.refl p s).msgPutAll.modifyPort.toWithin
    (by simp [Ordinary.putSyncfup, PtpPort.requests])

theorem portSyfufsm (event : SyfuEvent) (m : Message) :
    Sheds s (portSyfufsm env p event m s) := by
  unfold Ordinary.portSyfufsm
  split
  · exact storeSyncfup .haveSync m
  · exact storeSyncfup .haveFup m
  · exact (portSynchronize ..).trans putSyncfup
  · exact (portSynchronize ..).trans putSyncfup
  · exact .refl s

theorem portMsgProSync (m : Message) : Sheds s (portMsgProSync env p m s) := by
  rw [Ordinary.portMsgProSync]
  split_ifs
  · exact .refl s
  · exact .refl s
  · exact (portSynchronize m none).trans flushLastSync
  · exact portSyfufsm ..

theorem portMsgProFollowUp (m : Message) :
    Sheds s (portMsgProFollowUp env p m s) := by
  rw [Ordinary.portMsgProFollowUp]
  split_ifs
  · exact .refl s
  · exact .refl s
  · exact .refl s
  · exact portSyfufsm ..

/-! ## Announce -/

theorem insertAnnounce (fc : ForeignClock) (m : Message) :
    Sheds s (insertAnnounce env p fc m s) :=
  of_same (insertAnnounce_kept fc m).toWithin
    (by simp [Ordinary.insertAnnounce, msgGet, PtpPort.requests])

theorem addForeignMaster (m : Message) :
    Sheds s (addForeignMaster env p m s).2 := by
  rw [Ordinary.addForeignMaster]
  split
  · dsimp only
    split
    · exact of_same (Within.refl p s).called.modifyPort
        (by simp [addRecord, PtpPort.requests])
    · exact called
  · exact insertAnnounce _ m

theorem portMsgProAnnounce (m : Message) :
    Sheds s (noteAnnounce p (portMsgProAnnounce env p m s)).2 := by
  have hnote : Sheds (Ordinary.portMsgProAnnounce env p m s).2
      (noteAnnounce p (Ordinary.portMsgProAnnounce env p m s)).2 := by
    rw [noteAnnounce]
    dsimp only
    exact modifyPort fun _ => .of_eq rfl
  refine Sheds.trans ?_ hnote
  rw [Ordinary.portMsgProAnnounce]
  split
  · exact .refl s
  · cases (s.ports p).state with
    | initializing | faulty | disabled => exact .refl s
    | listening | preMaster | master | grandMaster => exact addForeignMaster m
    | passive | uncalibrated | slave =>
      dsimp only
      rw [updateCurrentMaster]
      split
      · exact .refl s
      · split
        · exact addForeignMaster m
        · refine Sheds.trans (Sheds.trans ?_ announceTmo) (insertAnnounce ..)
          split
          · exact ⟨fun _ => .refl _, le_rfl, rfl, rfl⟩
          · exact .refl s

end Sheds

/-- What an effect does to the requests and the samples. -/
inductive Exchange (env : Env) (p : ℕ) : PtpClock → PtpClock → Prop
  | sheds {s s' : PtpClock} (hsheds : Sheds s s') : Exchange env p s s'
  | keepDelayReq {s : PtpClock} {request : DelayReq}
      (hsent : request.sent = s.calls)
      (htime : request.hostTime = env.bmc.monotonic s.calls) :
      Exchange env p s (keepDelayReq p request (called s))
  | keepPeerDelayReq {s : PtpClock} {request : DelayReq}
      (hsent : request.sent = s.calls) :
      Exchange env p s
        (keepPeerDelayReq p request (putPeerDelayReq p (called s)))
  | useDelayReq {s : PtpClock} {request : DelayReq} {m : Message}
      (hrequest : request ∈ (s.ports p).delayReq)
      (hsequence : request.sequenceId = m.sequenceId)
      (hport : m.requestingPortIdentity = (s.ports p).portIdentity)
      (hparent : s.parentPortIdentity = m.sourcePortIdentity) :
      Exchange env p s
        (dropDelayReq p request (ptpClockPathDelay p request m s))
  | usePeerDelayReq {s : PtpClock} (hcomplete : peerDelayComplete (s.ports p)) :
      Exchange env p s (putPeerDelayReq p (recordPeerDelay p s))

theorem exchange_of_handled (hhandled : Handled env p linkFault manages ok s s') :
    Exchange env p s s' := by
  cases hhandled with
  | announce => exact .sheds (.portMsgProAnnounce _)
  | sync => exact .sheds (.portMsgProSync _)
  | followUp => exact .sheds (.portMsgProFollowUp _)
  | effect heffect =>
    cases heffect with
    | called => exact .sheds .called
    | allocate => exact .sheds (.of_same (Within.refl p s).msgAllocate rfl)
    | putHeld => exact .sheds (.of_same (Within.refl p s).msgPutHeld rfl)
    | announceTmo => exact .sheds .announceTmo
    | delayTmo => exact .sheds .delayTmo
    | mannoTmo => exact .sheds (.setFda ..)
    | syncTxTmo => exact .sheds (.setFda ..)
    | note hnotes =>
      refine .sheds (.modifyPort fun port => .of_eq ?_)
      rw [hnotes.rest]
      rfl
    | putPeerDelayReq => exact .sheds .putPeerDelayReq
    | putPeerDelayResp =>
      exact .sheds (.of_same (Kept.refl p s).putPeerDelayResp.toWithin
        (by simp [PtpPort.requests]))
    | putPeerDelayFup =>
      exact .sheds (.of_same (Kept.refl p s).putPeerDelayFup.toWithin
        (by simp [PtpPort.requests]))
    | delayReqPrune => exact .sheds .delayReqPrune
    | keepPeerDelayReq _ hsent => exact .keepPeerDelayReq hsent
    | keepDelayReq _ hsent htime => exact .keepDelayReq hsent htime
    | dropDelayReq hrequest hsequence hport hparent =>
      exact .useDelayReq hrequest hsequence hport hparent
    | usePeerDelayReq hcomplete => exact .usePeerDelayReq hcomplete
    | logMinDelayReq => exact .sheds (.modifyPort fun _ => .refl _)
    | switchToP2p =>
      have hmechanism : Sheds s (modifyPort p
          (fun port => { port with delayMechanism := .p2p }) s) :=
        .modifyPort fun _ => .of_eq rfl
      exact .sheds (hmechanism.trans .delayTmo)
    | storePeerDelayResp =>
      exact .sheds (.of_same
        (Kept.refl p s).putPeerDelayResp.msgGet.modifyPort.toWithin
        (by simp [storePeerDelayResp, msgGet, PtpPort.requests]))
    | storePeerDelayFup =>
      exact .sheds (.of_same
        (Kept.refl p s).putPeerDelayFup.msgGet.modifyPort.toWithin
        (by simp [storePeerDelayFup, msgGet, PtpPort.requests]))
    | clearBest =>
      refine .sheds (.of_same clearBest_within ?_)
      rw [clearBest]
      split
      · rfl
      · rw [fcClear]
        split
        · rfl
        · simp [PtpPort.requests]
    | renewTransport =>
      rw [renewTransport]
      split
      · exact .sheds (.refl s)
      · dsimp only
        exact .sheds ((Sheds.called.trans (.setFda ..)).trans (.setFda ..))
    | manage _ _ setting =>
      cases setting <;> exact .sheds ⟨fun _ => .refl _, le_rfl, rfl, rfl⟩
    | askDecision => exact .sheds ⟨fun _ => .refl _, le_rfl, rfl, rfl⟩
    | fault => exact .sheds (.dispatch ..)

/-- Requests and samples change only by the effects of events. -/
theorem upholds_of_exchanges (hsheds : ∀ s s', Sheds s s' → inv s → inv s')
    (hexchange : ∀ p s s', Exchange env p s s' → inv s → inv s') :
    Upholds env inv where
  handled p _ _ _ hhandled := hexchange p _ _ (exchange_of_handled hhandled)
  dispatch _ event mdiff _ := hsheds _ _ (.dispatch event mdiff)
  expire p fd s := by
    rw [expire]
    split
    · exact hsheds _ _ (.setFda ..)
    · exact id
  faultArmed _ _ _ := hsheds _ _ (.modifyPort fun _ => .refl _)
  agenda _ _ _ := hsheds _ _ ⟨fun _ => .refl _, le_rfl, rfl, rfl⟩
  examined p s := by
    refine hsheds _ _ (.of_same portComputeBest_within ?_)
    rw [portComputeBest_same]
    rfl
  elected _ _ _ := hsheds _ _ ⟨fun _ => .refl _, le_rfl, rfl, rfl⟩
  updated state s := by
    have hdecides := @recommendedUpdate_decides env 0 s state
    refine hsheds _ _ ⟨fun q => .of_eq ?_, hdecides.calls,
      hdecides.delaySamples, hdecides.peerSamples⟩
    rw [recommendedUpdate_ports]

end LinuxPtp.Ordinary
