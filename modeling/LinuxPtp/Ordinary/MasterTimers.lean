import LinuxPtp.Ordinary.Timers

/-!
# What only a master does

A port sends Announce and Sync messages by timers that run in the states of a master, and
becomes a master by a timer of PRE_MASTER.  The handlers leave these timers alone; the
changes of state clear them and set those of the new state.
-/

namespace LinuxPtp.Ordinary

open Bmc Cells Port Wire

variable {env : Env} {p : ℕ} {s s' : PtpClock} {event : PortEvent} {mdiff : Bool}

def Fd.isMaster : Fd → Bool
  | .qualificationTimer | .mannoTimer | .syncTxTimer => true
  | _ => false

def ofMaster : PortState → Bool
  | .preMaster | .master | .grandMaster => true
  | _ => false

/-- The timer runs, or has expired and not been set since. -/
def Descriptor.pending (d : Descriptor) : Bool := d.armed || d.expired

/-- On these timers the delay mechanism has no say. -/
theorem livesOn_master {mechanism mechanism' : DelayMechanism} {state : PortState} {fd : Fd}
    (hfd : fd.isMaster) : livesOn mechanism state fd = livesOn mechanism' state fd := by
  cases fd <;> first | rfl | exact absurd hfd (by decide)

/-- The timers of a master live in the states of a master. -/
theorem ofMaster_of_livesOn {mechanism : DelayMechanism} {state : PortState} {fd : Fd}
    (hfd : fd.isMaster) (hlives : livesOn mechanism state fd) : ofMaster state := by
  cases fd <;> cases state <;> simp_all [Fd.isMaster, livesOn, ofMaster]

/-! ## Handlers -/

/-- A port is in the same state, and its timers of a master are as they were. -/
structure SameMasters (port port' : PtpPort) : Prop where
  state : port'.state = port.state
  fda : ∀ fd, fd.isMaster → port'.fda fd = port.fda fd

namespace SameMasters

variable {port port' port'' : PtpPort}

theorem refl (port : PtpPort) : SameMasters port port := ⟨rfl, fun _ _ => rfl⟩

theorem trans (hfirst : SameMasters port port') (hsecond : SameMasters port' port'') :
    SameMasters port port'' where
  state := hsecond.state.trans hfirst.state
  fda fd hfd := (hsecond.fda fd hfd).trans (hfirst.fda fd hfd)

theorem of_timing (htiming : port'.timing = port.timing) : SameMasters port port' where
  state := congrArg Timing.state htiming
  fda fd _ := congrArg (fun timing => timing.fda fd) htiming

theorem of_ports (hports : s'.ports = s.ports) :
    SameMasters (s.ports p) (s'.ports p) := by
  rw [hports]
  exact .refl _

/-- Another descriptor is changed. -/
theorem setFda {fd : Fd} (hfd : fd.isMaster = false) (f : Descriptor → Descriptor)
    (s : PtpClock) : SameMasters (s.ports p) ((setFda p fd f s).ports p) := by
  rw [setFda_same]
  refine ⟨rfl, fun fd' hfd' => ?_⟩
  have hother : fd' ≠ fd := by
    rintro rfl
    exact absurd (hfd.symm.trans hfd') Bool.false_ne_true
  simp [hother]

theorem portSetAnnounceTmo (s : PtpClock) :
    SameMasters (s.ports p) ((portSetAnnounceTmo env p s).ports p) :=
  @setFda p .announceTimer rfl _ (called s)

theorem portSetSyncRxTmo (s : PtpClock) :
    SameMasters (s.ports p) ((portSetSyncRxTmo env p s).ports p) :=
  setFda rfl _ s

theorem portSetDelayTmo (s : PtpClock) :
    SameMasters (s.ports p) ((portSetDelayTmo env p s).ports p) := by
  rw [Ordinary.portSetDelayTmo]
  split
  · exact setFda rfl _ s
  · exact @setFda p .delayTimer rfl _ (called s)

theorem renewTransport (s : PtpClock) :
    SameMasters (s.ports p) ((renewTransport env p s).2.ports p) := by
  rw [Ordinary.renewTransport]
  split
  · exact .refl _
  · dsimp only
    exact (@setFda p .general rfl _ (called s)).trans (setFda rfl _ _)

theorem receiptTimeout (s : PtpClock) :
    SameMasters (s.ports p) ((receiptTimeout env p s).2.ports p) := by
  have hpruned : SameMasters (s.ports p) ((delayReqPrune env p (Ordinary.portSetAnnounceTmo
      env p (clearBest p s))).ports p) :=
    ((of_timing clearBest_timing).trans (portSetAnnounceTmo _)).trans
      (of_timing delayReqPrune_timing)
  rw [Ordinary.receiptTimeout]
  split_ifs
  · exact hpruned.trans (renewTransport _)
  · exact hpruned

end SameMasters

/-! ## Sending -/

/-- Sending changes no port. -/
theorem withMessage_ports {body : ℕ → PtpClock → Bool × PtpClock}
    (hbody : ∀ cell s, (body cell s).2.ports = s.ports) :
    (withMessage env body s).2.ports = s.ports := by
  rw [withMessage]
  have hallocate : (msgAllocate env s).2.ports = s.ports := rfl
  generalize msgAllocate env s = allocated at hallocate ⊢
  obtain ⟨_ | cell, s'⟩ := allocated
  · exact hallocate
  · exact (hbody cell s').trans hallocate

theorem sendAll_ports (count : ℕ) : (sendAll env count s).ports = s.ports := by
  induction count generalizing s with
  | zero => rfl
  | succ count ih => exact ih.trans (withMessage_ports fun _ _ => rfl)

theorem sendTwoStep_ports {oneStep : Bool} {followUp : ℕ → PtpClock → Bool × PtpClock}
    (hfollowUp : ∀ cell s, (followUp cell s).2.ports = s.ports) :
    (sendTwoStep env oneStep followUp s).2.ports = s.ports := by
  refine withMessage_ports fun _ s => withMessage_ports fun fup s => ?_
  split
  · rfl
  · dsimp only
    split
    · exact hfollowUp fup _
    · rfl

theorem portTxAnnounce_ports {unicast : Bool} :
    (portTxAnnounce env p unicast s).2.ports = s.ports := by
  rw [portTxAnnounce]
  split_ifs
  · rfl
  · rfl
  · exact withMessage_ports fun _ _ => rfl

theorem portTxSync_ports {unicast : Bool} :
    (portTxSync env p unicast s).2.ports = s.ports := by
  rw [portTxSync]
  split_ifs
  · rfl
  · rfl
  · rfl
  · refine sendTwoStep_ports fun _ s => ?_
    split_ifs <;> rfl

theorem portMsgProDelayReq_ports (m : Message) :
    (portMsgProDelayReq env p m s).2.ports = s.ports := by
  rw [portMsgProDelayReq]
  split_ifs
  · rfl
  · rfl
  · refine withMessage_ports fun _ s => ?_
    split_ifs
    · rfl
    · dsimp only
      split_ifs
      · exact portTxSync_ports
      · rfl

theorem portMsgProSignaling_ports : (portMsgProSignaling env p s).2.ports = s.ports := by
  rw [portMsgProSignaling]
  split_ifs
  · rfl
  · exact sendAll_ports 1

theorem clockManage_ports (m : Message) : (clockManage env p m s).2.ports = s.ports := by
  rw [clockManage]
  cases m.management.set with
  | none => split_ifs <;> first | rfl | exact sendAll_ports 1
  | some setting =>
    dsimp only
    split_ifs
    · rfl
    · rfl
    · refine (sendAll_ports 1).trans ?_
      cases setting <;> rfl
    · exact sendAll_ports 1

/-! ## Requests and responses -/

/-- A request that is sent changes no timer. -/
theorem sendRequest_timing {keep : DelayReq → PtpClock → PtpClock}
    (hkeep : ∀ request s, ((keep request s).ports p).timing = (s.ports p).timing) :
    ((sendRequest env p keep s).2.ports p).timing = (s.ports p).timing := by
  rw [sendRequest]
  have hallocate : (msgAllocate env s).2.ports = s.ports := rfl
  generalize msgAllocate env s = allocated at hallocate ⊢
  obtain ⟨_ | cell, s'⟩ := allocated
  · exact congrArg (fun ports => (ports p).timing) hallocate
  · have hnumbered : ((modifyPort p nextSeqnum s').ports p).timing = (s.ports p).timing := by
      rw [modifyPort_same]
      exact congrArg (fun ports => (ports p).timing) hallocate
    dsimp only
    split
    · exact (hkeep _ _).trans hnumbered
    · exact hnumbered

theorem portPdelayRequest_timing :
    ((portPdelayRequest env p s).2.ports p).timing = (s.ports p).timing := by
  refine (sendRequest_timing fun request s => ?_).trans ?_
  · simp [keepPeerDelayReq, PtpPort.timing]
  · exact modifyPort_timing Does.notes_resetPeerCount.timing

theorem portDelayRequest_timing :
    ((portDelayRequest env p s).2.ports p).timing = (s.ports p).timing := by
  have hput : ((putPeerDelayFup p (putPeerDelayResp p s)).ports p).timing =
      (s.ports p).timing := by
    simp [PtpPort.timing]
  rw [portDelayRequest]
  split_ifs
  · exact portPdelayRequest_timing.trans hput
  · refine (sendRequest_timing fun request s => ?_).trans hput
    simp [keepDelayReq, PtpPort.timing]

theorem portPeerDelay_timing :
    ((portPeerDelay env p s).ports p).timing = (s.ports p).timing := by
  rw [portPeerDelay]
  split_ifs
  · rfl
  · rfl
  · rw [putPeerDelayReq_same]
    rfl

theorem portMsgProPDelayResp_timing (m : Message) :
    ((portMsgProPDelayResp env p m s).2.ports p).timing = (s.ports p).timing := by
  have hcounted : ((modifyPort p (countPeerResponse m) s).ports p).timing =
      (s.ports p).timing := modifyPort_timing (Does.notes_countPeerResponse m).timing
  rw [portMsgProPDelayResp]
  split_ifs
  · exact (modifyPort_timing (Does.notes_setLastFault _).timing).trans hcounted
  · exact hcounted
  · refine (portPeerDelay_timing.trans ?_).trans hcounted
    simp [storePeerDelayResp, msgGet, PtpPort.timing]

theorem portMsgProPDelayRespFollowUp_timing (m : Message) :
    ((portMsgProPDelayRespFollowUp env p m s).ports p).timing = (s.ports p).timing := by
  rw [portMsgProPDelayRespFollowUp]
  split_ifs
  · rfl
  · refine portPeerDelay_timing.trans ?_
    simp [storePeerDelayFup, msgGet, PtpPort.timing]

namespace SameMasters

theorem portMsgProDelayResp (m : Message) (s : PtpClock) :
    SameMasters (s.ports p) ((portMsgProDelayResp env p m s).ports p) := by
  rw [Ordinary.portMsgProDelayResp]
  split
  · exact .refl _
  split
  · exact .refl _
  split
  · exact .refl _
  split
  · exact .refl _
  · rename_i request _
    have hdropped : SameMasters (s.ports p)
        ((dropDelayReq p request (ptpClockPathDelay p request m s)).ports p) := by
      rw [dropDelayReq, modifyPort_same]
      exact ⟨rfl, fun _ _ => rfl⟩
    dsimp only
    split_ifs
    · exact hdropped
    · exact hdropped
    · exact hdropped
    · refine (hdropped.trans ?_).trans (portSetDelayTmo _)
      rw [setLogMinDelayReqInterval, modifyPort_same]
      exact ⟨rfl, fun _ _ => rfl⟩

theorem portMsgProPDelayReq (m : Message) (s : PtpClock) :
    SameMasters (s.ports p) ((portMsgProPDelayReq env p m s).2.ports p) := by
  have hsend : ∀ s' : PtpClock, SameMasters (s.ports p) (s'.ports p) →
      SameMasters (s.ports p) ((sendTwoStep env (env.config p).p2pOneStep
        (fun _ s => prepareAndSend env s) s').2.ports p) := fun s' hsame =>
    hsame.trans (of_ports (sendTwoStep_ports fun _ _ => rfl))
  rw [Ordinary.portMsgProPDelayReq]
  dsimp only
  split_ifs
  · exact .refl _
  · refine hsend _ (.trans ?_ (portSetDelayTmo _))
    rw [modifyPort_same]
    exact ⟨rfl, fun _ _ => rfl⟩
  · exact hsend _ (.refl _)

theorem updateCurrentMaster (m : Message) (s : PtpClock) :
    SameMasters (s.ports p) ((updateCurrentMaster env p m s).2.ports p) := by
  rw [Ordinary.updateCurrentMaster]
  split
  · exact .refl _
  split
  · exact of_timing (addForeignMaster_timing m)
  · dsimp only
    have hports : (if (s.ports p).state ≠ .passive then setTimeProperties m s
        else s).ports = s.ports := by
      split_ifs <;> rfl
    refine ((of_ports hports).trans (@portSetAnnounceTmo env p _)).trans (of_timing ?_)
    simp [insertAnnounce, msgGet, PtpPort.timing]

theorem noteAnnounce (m : Message) (s : PtpClock) :
    SameMasters (s.ports p)
      ((noteAnnounce p (portMsgProAnnounce env p m s)).2.ports p) := by
  have hannounce : SameMasters (s.ports p) ((portMsgProAnnounce env p m s).2.ports p) := by
    rw [portMsgProAnnounce]
    split_ifs
    · exact .refl _
    · cases (s.ports p).state with
      | initializing | faulty | disabled => exact .refl _
      | listening | preMaster | master | grandMaster =>
        exact of_timing (addForeignMaster_timing m)
      | passive | uncalibrated | slave => exact updateCurrentMaster m s
  refine hannounce.trans (of_timing ?_)
  rw [Ordinary.noteAnnounce, modifyPort_same]
  rfl

/-- Only a slave changes its state with a message, with a Sync or a Follow_Up. -/
theorem handleMessage (m : Message) {s : PtpClock}
    (hother : isSlave (s.ports p).state = false ∨ m.type ≠ .sync ∧ m.type ≠ .followUp) :
    SameMasters (s.ports p) ((handleMessage env p m s).2.ports p) := by
  rw [Ordinary.handleMessage]
  cases htype : m.type with
  | sync =>
    have hslave := hother.resolve_right fun hnot => hnot.1 htype
    dsimp only
    rw [portMsgProSync, hslave, Bool.not_false, if_pos rfl]
    exact .refl _
  | followUp =>
    have hslave := hother.resolve_right fun hnot => hnot.2 htype
    dsimp only
    rw [portMsgProFollowUp, hslave, Bool.not_false, if_pos rfl]
    exact .refl _
  | announce => exact noteAnnounce m s
  | delayReq => exact of_ports (portMsgProDelayReq_ports m)
  | pdelayReq => exact portMsgProPDelayReq m s
  | pdelayResp => exact of_timing (portMsgProPDelayResp_timing m)
  | delayResp => exact portMsgProDelayResp m s
  | pdelayRespFollowUp => exact of_timing (portMsgProPDelayRespFollowUp_timing m)
  | signaling => exact of_ports portMsgProSignaling_ports
  | management => exact of_ports (clockManage_ports m)

end SameMasters

/-! ## Changes of state -/

/-- The timers of a master are pending only in the states that live on them, and can be
set while the port is enabled. -/
structure Mastered (port : PtpPort) : Prop where
  lives : ∀ fd, fd.isMaster → (port.fda fd).pending → port.livesOn fd
  isOpen : portIsEnabled port.state → ∀ fd, fd.isMaster → (port.fda fd).isOpen

def NonePending (port : PtpPort) : Prop :=
  ∀ fd, fd.isMaster → (port.fda fd).pending = false

/-- The timers of a master are not pending, and can be set. -/
structure Cleared (port : PtpPort) : Prop where
  idle : NonePending port
  isOpen : portIsEnabled port.state → ∀ fd, fd.isMaster → (port.fda fd).isOpen

namespace Mastered

variable {port port' : PtpPort}

theorem of_sameMasters (hmastered : Mastered port) (hsame : SameMasters port port') :
    Mastered port' where
  lives fd hfd hpending := by
    rw [hsame.fda fd hfd] at hpending
    rw [PtpPort.livesOn, hsame.state, @livesOn_master _ port.delayMechanism _ _ hfd]
    exact hmastered.lives fd hfd hpending
  isOpen henabled fd hfd := by
    rw [hsame.fda fd hfd]
    exact hmastered.isOpen (hsame.state ▸ henabled) fd hfd

end Mastered

namespace Cleared

variable {port port' : PtpPort}

theorem mastered (hcleared : Cleared port) : Mastered port where
  lives fd hfd hpending := absurd ((hcleared.idle fd hfd).symm.trans hpending)
    Bool.false_ne_true
  isOpen := hcleared.isOpen

theorem of_sameMasters (hcleared : Cleared port) (hsame : SameMasters port port') :
    Cleared port' where
  idle fd hfd := by
    rw [hsame.fda fd hfd]
    exact hcleared.idle fd hfd
  isOpen henabled fd hfd := by
    rw [hsame.fda fd hfd]
    exact hcleared.isOpen (hsame.state ▸ henabled) fd hfd

end Cleared

/-- A timer that its state lives on is set. -/
theorem Mastered.setFda {fd : Fd} {f : Descriptor → Descriptor}
    (hmastered : Mastered (s.ports p))
    (hopen : ∀ d : Descriptor, d.isOpen → (f d).isOpen)
    (hlives : fd.isMaster → (f ((s.ports p).fda fd)).pending → (s.ports p).livesOn fd) :
    Mastered ((setFda p fd f s).ports p) := by
  rw [setFda_same]
  refine ⟨fun fd' hfd' hpending => ?_, fun henabled fd' hfd' => ?_⟩
  · by_cases hsame : fd' = fd
    · subst hsame
      exact hlives hfd' (by simpa using hpending)
    · exact hmastered.lives fd' hfd' (by simpa [hsame] using hpending)
  · have hwas := hmastered.isOpen henabled fd' hfd'
    by_cases hsame : fd' = fd
    · subst hsame
      simpa using hopen _ hwas
    · simpa [hsame] using hwas

theorem isOpen_settime {value : ℕ} {d : Descriptor} (hopen : d.isOpen) :
    (d.settime value).isOpen := by
  rw [Descriptor.settime, if_pos hopen]
  exact hopen

/-- A timer may be set in a state it lives in. -/
theorem Mastered.settime {fd : Fd} {value : ℕ} (hmastered : Mastered (s.ports p))
    (hlives : fd.isMaster → (s.ports p).livesOn fd) :
    Mastered ((Ordinary.setFda p fd (.settime value) s).ports p) :=
  hmastered.setFda (fun _ => isOpen_settime) fun hfd _ => hlives hfd

/-- Timers that are cleared, or were idle, are idle. -/
theorem clearTmos_idle (fds : List Fd)
    (hopen : ∀ fd, fd.isMaster → ((s.ports p).fda fd).isOpen) :
    ∀ fd, fd.isMaster → (((clearTmos p fds s).ports p).fda fd).isOpen ∧
      (fd ∈ fds ∨ ((s.ports p).fda fd).pending = false →
        (((clearTmos p fds s).ports p).fda fd).pending = false) := by
  induction fds generalizing s with
  | nil =>
    refine fun fd hfd => ⟨hopen fd hfd, fun hidle => ?_⟩
    rcases hidle with hmem | hidle
    · exact absurd hmem (by simp)
    · exact hidle
  | cons first fds ih =>
    have hclr : ∀ fd, fd.isMaster → (((portClrTmo p first s).ports p).fda fd).isOpen ∧
        (fd = first ∨ ((s.ports p).fda fd).pending = false →
          (((portClrTmo p first s).ports p).fda fd).pending = false) := by
      intro fd hfd
      rw [portClrTmo, setFda_same]
      by_cases hsame : fd = first
      · subst hsame
        simp [Descriptor.settime, hopen fd hfd, Descriptor.pending]
      · simpa [hsame] using hopen fd hfd
    have hrest := ih fun fd hfd => (hclr fd hfd).1
    refine fun fd hfd => ⟨(hrest fd hfd).1, fun hidle => (hrest fd hfd).2 ?_⟩
    rcases hidle with hmem | hidle
    · rcases List.mem_cons.mp hmem with hfirst | hmem
      · exact Or.inr ((hclr fd hfd).2 (Or.inl hfirst))
      · exact Or.inl hmem
    · exact Or.inr ((hclr fd hfd).2 (Or.inr hidle))

/-- Where all of them are cleared, none of a master is pending. -/
theorem clearTmos_cleared {fds : List Fd} (hfds : ∀ fd, fd.isMaster → fd ∈ fds)
    (hopen : ∀ fd, fd.isMaster → ((s.ports p).fda fd).isOpen) :
    Cleared ((clearTmos p fds s).ports p) where
  idle fd hfd := (clearTmos_idle fds hopen fd hfd).2 (Or.inl (hfds fd hfd))
  isOpen _ fd hfd := (clearTmos_idle fds hopen fd hfd).1

/-- A port that is disabled has no timer left. -/
theorem portOpDisable_cleared (hdisabled : ¬portIsEnabled (s.ports p).state) :
    Cleared ((portOpDisable p s).ports p) := by
  rw [portOpDisable_same]
  refine ⟨fun fd hfd => ?_, fun henabled => absurd henabled hdisabled⟩
  cases fd <;> first | rfl | exact absurd hfd (by decide)

/-- PRE_MASTER sets its qualification timer. -/
theorem portSetQualificationTmo_mastered (hstate : (s.ports p).state = .preMaster)
    (hmastered : Mastered (s.ports p)) :
    Mastered ((portSetQualificationTmo env p s).ports p) :=
  hmastered.settime fun _ => by
    rw [PtpPort.livesOn, hstate]
    rfl

/-- MASTER and GRAND_MASTER set the two timers they send by. -/
theorem setMasterTmos_mastered {manno sync : ℕ}
    (hstate : (s.ports p).state = .master ∨ (s.ports p).state = .grandMaster)
    (hmastered : Mastered (s.ports p)) :
    Mastered ((setFda p .syncTxTimer (.settime sync)
      (setFda p .mannoTimer (.settime manno) s)).ports p) := by
  have hlives : ∀ fd, fd = .mannoTimer ∨ fd = .syncTxTimer → (s.ports p).livesOn fd := by
    rintro fd (rfl | rfl) <;> rw [PtpPort.livesOn] <;>
      rcases hstate with hstate | hstate <;> rw [hstate] <;> rfl
  refine Mastered.settime (hmastered.settime fun _ => hlives _ (Or.inl rfl)) fun _ => ?_
  rw [PtpPort.livesOn, setFda_same]
  exact hlives .syncTxTimer (Or.inr rfl)

/-- On entering a state, an E2E port gets the timers of that state. -/
theorem e2eEnter_mastered {next : PortState} (hstate : (s.ports p).state = next)
    (hstarted : next ≠ .initializing)
    (hcleared : portIsEnabled next → Cleared (s.ports p)) :
    Mastered ((e2eEnter env p next s).ports p) := by
  cases next with
  | initializing => exact absurd rfl hstarted
  | faulty | disabled =>
    exact (portOpDisable_cleared (by simp [hstate, portIsEnabled])).mastered
  | listening | passive =>
    exact ((hcleared rfl).of_sameMasters (.portSetAnnounceTmo s)).mastered
  | preMaster => exact portSetQualificationTmo_mastered hstate (hcleared rfl).mastered
  | master => exact setMasterTmos_mastered (Or.inl hstate) (hcleared rfl).mastered
  | grandMaster => exact setMasterTmos_mastered (Or.inr hstate) (hcleared rfl).mastered
  | uncalibrated =>
    refine ((hcleared rfl).of_sameMasters ?_).mastered
    exact (((SameMasters.of_timing flushLastSync_timing).trans
      (.of_timing flushDelayReq_timing)).trans (.portSetAnnounceTmo _)).trans
      (.portSetDelayTmo _)
  | slave =>
    exact ((hcleared rfl).of_sameMasters
      ((SameMasters.portSetAnnounceTmo s).trans (.portSetDelayTmo _))).mastered

/-- So does a P2P port. -/
theorem p2pEnter_mastered {next : PortState} (hstate : (s.ports p).state = next)
    (hstarted : next ≠ .initializing)
    (hcleared : portIsEnabled next → Cleared (s.ports p)) :
    Mastered ((p2pEnter env p next s).ports p) := by
  cases next with
  | initializing => exact absurd rfl hstarted
  | faulty | disabled =>
    exact (portOpDisable_cleared (by simp [hstate, portIsEnabled])).mastered
  | listening =>
    exact ((hcleared rfl).of_sameMasters
      ((SameMasters.portSetAnnounceTmo s).trans (.portSetDelayTmo _))).mastered
  | preMaster => exact portSetQualificationTmo_mastered hstate (hcleared rfl).mastered
  | master => exact setMasterTmos_mastered (Or.inl hstate) (hcleared rfl).mastered
  | grandMaster => exact setMasterTmos_mastered (Or.inr hstate) (hcleared rfl).mastered
  | passive | slave =>
    exact ((hcleared rfl).of_sameMasters (.portSetAnnounceTmo s)).mastered
  | uncalibrated =>
    refine ((hcleared rfl).of_sameMasters ?_).mastered
    exact ((SameMasters.of_timing flushLastSync_timing).trans
      (.of_timing flushPeerDelay_timing)).trans (.portSetAnnounceTmo _)

/-- A state that has been entered has the timers of a master that it lives on. -/
theorem transition_mastered (hstarted : (s.ports p).state ≠ .initializing)
    (hopen : portIsEnabled (s.ports p).state →
      ∀ fd, fd.isMaster → ((s.ports p).fda fd).isOpen) :
    Mastered ((transition env p s).ports p) := by
  have hfds : ∀ fds : List Fd, (∀ fd ∈ stateTimers, fd ∈ fds) →
      ∀ fd, fd.isMaster → fd ∈ fds := by
    intro fds hsub fd hfd
    refine hsub fd ?_
    cases fd <;> first | decide | exact absurd hfd (by decide)
  rw [transition]
  split
  · rw [p2pTransition_eq]
    exact p2pEnter_mastered (Forgets.clearTmos stateTimers).state hstarted fun henabled =>
      clearTmos_cleared (hfds _ fun _ => id) (hopen henabled)
  · rw [e2eTransition_eq]
    exact e2eEnter_mastered (Forgets.clearTmos _).state hstarted fun henabled =>
      clearTmos_cleared (hfds _ (by decide)) (hopen henabled)

/-- Out of service no timer of a master is pending. -/
theorem idle_of_disabled (hmastered : Mastered (s.ports p))
    (hdisabled : ¬portIsEnabled (s.ports p).state) : NonePending (s.ports p) := by
  intro fd hfd
  cases hpending : ((s.ports p).fda fd).pending with
  | false => rfl
  | true => exact absurd (livesOn_enabled (hmastered.lives fd hfd hpending)).1 hdisabled

theorem openRtnl_sameMasters (s : PtpClock) :
    SameMasters (s.ports p) ((openRtnl env p s).ports p) := by
  rw [openRtnl]
  split
  · exact .refl _
  · exact .setFda rfl _ s

/-- What is opened is not pending. -/
theorem portInitialize_idle (hidle : NonePending (s.ports p)) :
    NonePending ((portInitialize env p s).2.ports p) ∧
      (env.initOutcome s.calls = .ready → ∀ fd, fd.isMaster →
        (((portInitialize env p s).2.ports p).fda fd).isOpen) := by
  have hreset : NonePending ((modifyPort p (portResetFields env p) (called s)).ports p) := by
    rw [modifyPort_same]
    exact hidle
  have hopened : ∀ fd, fd.isMaster →
      ((portSetAnnounceTmo env p (modifyPort p
        (fun port => { port with fda := openDescriptors port.fda })
        (modifyPort p (portResetFields env p) (called s)))).ports p).fda fd =
      ((s.ports p).fda fd).reopened := by
    intro fd hfd
    refine ((SameMasters.portSetAnnounceTmo _).fda fd hfd).trans ?_
    rw [modifyPort_same, modifyPort_same]
    cases fd <;> first | rfl | exact absurd hfd (by decide)
  rw [portInitialize]
  cases env.initOutcome s.calls with
  | noTimers | noTransport => exact ⟨hreset, fun hready => absurd hready (by decide)⟩
  | noUnicastTimer =>
    refine ⟨fun fd hfd => ?_, fun hready => absurd hready (by decide)⟩
    dsimp only
    rw [modifyPort_same]
    cases fd <;> first | rfl | exact absurd hfd (by decide)
  | ready =>
    refine ⟨fun fd hfd => ?_, fun _ fd hfd => ?_⟩
    · dsimp only
      rw [(openRtnl_sameMasters _).fda fd hfd, hopened fd hfd]
      rfl
    · dsimp only
      rw [(openRtnl_sameMasters _).fda fd hfd, hopened fd hfd]
      rfl

/-- A port that is started anew begins with idle timers. -/
theorem restart_idle (hmastered : Mastered (s.ports p)) :
    NonePending ((restart env p s).2.ports p) ∧
      (env.initOutcome s.calls = .ready → ∀ fd, fd.isMaster →
        (((restart env p s).2.ports p).fda fd).isOpen) := by
  have hbefore : NonePending ((if portIsEnabled (s.ports p).state then portOpDisable p s
      else s).ports p) ∧ (if portIsEnabled (s.ports p).state then portOpDisable p s
      else s).calls = s.calls := by
    split
    · refine ⟨fun fd hfd => ?_, portOpDisable_calls⟩
      rw [portOpDisable_same]
      cases fd <;> first | rfl | exact absurd hfd (by decide)
    · rename_i hdisabled
      exact ⟨idle_of_disabled hmastered hdisabled, rfl⟩
  have hdone := @portInitialize_idle env p _ hbefore.1
  rw [hbefore.2] at hdone
  rw [restart]
  exact hdone

/-- No change of state leaves a timer of a master pending that is not for the new state. -/
theorem enterState_mastered (hstarted : (s.ports p).state ≠ .initializing ∨
      event = .initializePort)
    (hmastered : Mastered (s.ports p)) :
    Mastered ((enterState env p event mdiff s).2.ports p) := by
  by_cases hnext : nextState env p event mdiff (s.ports p) = .initializing
  · have hready := @restart_ready env p s
    obtain ⟨hidle, hopen⟩ := @restart_idle env p s hmastered
    rw [enterState_started hnext]
    generalize restart env p s = started at hready hidle hopen ⊢
    obtain ⟨next, s'⟩ := started
    dsimp only at hready hidle hopen ⊢
    have hserves : portIsEnabled next → ∀ fd, fd.isMaster → ((s'.ports p).fda fd).isOpen := by
      intro henabled
      refine hopen ?_
      by_contra hnot
      rw [hready, if_neg hnot] at henabled
      exact Bool.false_ne_true henabled
    split_ifs with hsame
    · exact Cleared.mastered ⟨hidle, hsame ▸ hserves⟩
    · refine transition_mastered ?_ ?_
      · rw [setState_forgets, hready]
        split <;> simp
      · rw [setState_forgets]
        exact hserves
  · by_cases hsame : env.stateMachine (s.ports p).state event mdiff = (s.ports p).state
    · rw [enterState_same hnext hsame]
      exact hmastered
    · rw [enterState_changed hnext hsame]
      refine transition_mastered ?_ ?_
      · rw [setState_forgets]
        exact nextState_eq hnext ▸ hnext
      · rw [setState_forgets]
        refine fun henabled => hmastered.isOpen ?_
        by_contra hdisabled
        rcases hstarted with hstarted | rfl
        · exact stateMachine_disabled hstarted hdisabled henabled
        · refine hnext ?_
          rw [nextState, stateMachine_initializePort, if_neg (by simp)]

/-- The state in which a port ends up. -/
theorem enterState_state :
    ((enterState env p event mdiff s).2.ports p).state =
      if nextState env p event mdiff (s.ports p) = .initializing then (restart env p s).1
      else env.stateMachine (s.ports p).state event mdiff := by
  split_ifs with hnext
  · rw [enterState_started hnext]
    split_ifs with hsame
    · exact hsame.symm
    · refine Forgets.transition.state.trans ?_
      rw [setState_forgets]
  · by_cases hsame : env.stateMachine (s.ports p).state event mdiff = (s.ports p).state
    · rw [enterState_same hnext hsame]
      exact hsame.symm
    · rw [enterState_changed hnext hsame]
      refine Forgets.transition.state.trans ?_
      rw [setState_forgets]

/-! ## Dispatch -/

def ofSlaveOnly : PortState → Bool
  | .preMaster | .master | .grandMaster | .passive => false
  | _ => true

/-- The machine of a slave-only clock stays within its states. -/
theorem ofSlaveOnly_stateMachine {state : PortState} (hslave : env.slaveOnly)
    (hstate : ofSlaveOnly state) : ofSlaveOnly (env.stateMachine state event mdiff) := by
  rw [Env.stateMachine, if_pos hslave]
  cases state <;> cases event <;> cases mdiff <;> first | rfl | exact absurd hstate (by decide)

/-- A port that has been started, with its timers of a master. -/
structure Governed (env : Env) (port : PtpPort) : Prop extends Mastered port where
  started : port.state ≠ .initializing
  slave : env.slaveOnly → ofSlaveOnly port.state

theorem Governed.of_sameMasters {port port' : PtpPort} (hgoverned : Governed env port)
    (hsame : SameMasters port port') : Governed env port' where
  toMastered := hgoverned.toMastered.of_sameMasters hsame
  started := hsame.state ▸ hgoverned.started
  slave := hsame.state ▸ hgoverned.slave

/-- Being governed is a matter of the timers and the state. -/
theorem Governed.of_timing {port port' : PtpPort} (hgoverned : Governed env port)
    (htiming : port'.timing = port.timing) : Governed env port' :=
  hgoverned.of_sameMasters (.of_timing htiming)

/-- Entering a state governs a port, from its start on. -/
theorem enterState_governed (hstarted : (s.ports p).state ≠ .initializing ∨
      event = .initializePort)
    (hmastered : Mastered (s.ports p))
    (hslave : env.slaveOnly → ofSlaveOnly (s.ports p).state) :
    Governed env ((enterState env p event mdiff s).2.ports p) where
  toMastered := enterState_mastered hstarted hmastered
  started := by
    rw [enterState_state]
    split_ifs with hnext
    · rcases @restart_state env p s with hstate | hstate <;> rw [hstate] <;> decide
    · exact nextState_eq hnext ▸ hnext
  slave honly := by
    rw [enterState_state]
    split_ifs with hnext
    · rcases @restart_state env p s with hstate | hstate <;> rw [hstate] <;> rfl
    · exact ofSlaveOnly_stateMachine honly (hslave honly)

theorem dispatch_governed {clock : PtpClock}
    (hentered : Governed env ((enterState env p event mdiff clock).2.ports p)) :
    Governed env ((bcDispatch env p event mdiff clock).ports p) := by
  rw [bcDispatch]
  generalize enterState env p event mdiff clock = entered at hentered ⊢
  obtain ⟨changed, s'⟩ := entered
  dsimp only at hentered ⊢
  split_ifs
  · have hfault : Governed env ((setLastFault p .switchPhc (called s')).ports p) := by
      rw [setLastFault, modifyPort_same]
      exact hentered.of_timing rfl
    exact enterState_governed (Or.inl hfault.started) hfault.toMastered hfault.slave
  · exact hentered
  · exact hentered

/-- A dispatch keeps it governed. -/
theorem bcDispatch_governed (hgoverned : Governed env (s.ports p)) :
    Governed env ((bcDispatch env p event mdiff s).ports p) :=
  dispatch_governed
    (enterState_governed (Or.inl hgoverned.started) hgoverned.toMastered hgoverned.slave)

/-! ## Events -/

theorem portSynchronize_governed (sync : Message) (followUp : Option Message)
    (hgoverned : Governed env (s.ports p)) :
    Governed env ((portSynchronize env p sync followUp s).ports p) := by
  have hreceipt : Governed env ((portSetSyncRxTmo env p s).ports p) :=
    hgoverned.of_sameMasters (.portSetSyncRxTmo s)
  have hdispatch : ∀ event, Governed env
      ((bcDispatch env p event false (called (recordSynchronized sync followUp
        (portSetSyncRxTmo env p s)))).ports p) := fun event => bcDispatch_governed hreceipt
  rw [portSynchronize]
  cases env.servo _ with
  | unlocked => exact hdispatch _
  | locked => exact hdispatch _
  | jump =>
    refine (hdispatch .synchronizationFault).of_timing ?_
    dsimp only
    rw [putPeerDelayReq_same, flushDelayReq_same]
    rfl

theorem portSyfufsm_governed (event : SyfuEvent) (m : Message)
    (hgoverned : Governed env (s.ports p)) :
    Governed env ((portSyfufsm env p event m s).ports p) := by
  have hstore : ∀ syfu, Governed env ((storeSyncfup p syfu m s).ports p) := by
    intro syfu
    refine hgoverned.of_timing ?_
    rw [storeSyncfup, modifyPort_same, msgGet]
    dsimp only
    split_ifs
    · rfl
    · rw [msgPutAll_ports]
      rfl
  have huse : ∀ sync followUp,
      Governed env ((useSyncfup env p sync followUp s).ports p) := by
    intro sync followUp
    refine (portSynchronize_governed sync (some followUp) hgoverned).of_timing ?_
    rw [useSyncfup, putSyncfup, modifyPort_same, msgPutAll_ports]
    rfl
  unfold portSyfufsm
  split
  · exact hstore .haveSync
  · exact hstore .haveFup
  · exact huse ..
  · exact huse ..
  · exact hgoverned

/-- No message makes a port run the timers of another state. -/
theorem handleMessage_governed (m : Message) (hgoverned : Governed env (s.ports p)) :
    Governed env ((handleMessage env p m s).2.ports p) := by
  by_cases hother : m.type ≠ .sync ∧ m.type ≠ .followUp
  · exact hgoverned.of_sameMasters (.handleMessage m (Or.inr hother))
  rw [handleMessage]
  cases htype : m.type with
  | sync =>
    dsimp only
    rw [portMsgProSync]
    split_ifs
    · exact hgoverned
    · exact hgoverned
    · exact (portSynchronize_governed m none hgoverned).of_timing flushLastSync_timing
    · exact portSyfufsm_governed _ m hgoverned
  | followUp =>
    dsimp only
    rw [portMsgProFollowUp]
    split_ifs
    · exact hgoverned
    · exact hgoverned
    · exact hgoverned
    · exact portSyfufsm_governed _ m hgoverned
  | _ => exact absurd ⟨by simp [htype], by simp [htype]⟩ hother

/-- The message is handled with the port as it is. -/
theorem receiveMessage_cases :
    (receiveMessage env p s).2.ports = s.ports ∨
      ∃ m s', s'.ports = s.ports ∧
        (receiveMessage env p s).2.ports = (handleMessage env p m s').2.ports := by
  have hports := @readMessage_ports env p s
  rw [receiveMessage]
  generalize readMessage env p s = read at hports ⊢
  obtain ⟨_ | _ | m, s'⟩ := read
  · exact Or.inl hports
  · exact Or.inl hports
  · exact Or.inr ⟨m, s', hports, rfl⟩

theorem portLinkStatus_governed (report : LinkReport) (hgoverned : Governed env (s.ports p)) :
    Governed env ((portLinkStatus env p report s).ports p) := by
  have hset : ∀ {clock : PtpClock} (up changed label : Bool), Governed env (clock.ports p) →
      Governed env ((setLink p up changed label clock).ports p) := by
    intro clock up changed label hclock
    rw [setLink, modifyPort_same]
    exact hclock.of_timing rfl
  have hlink := hset report.linkUp (decide ((s.ports p).linkUp ≠ report.linkUp))
    report.labelChanged hgoverned
  rw [portLinkStatus]
  split_ifs
  · exact hset _ _ _ hlink
  · refine bcDispatch_governed ?_
    rw [setLastFault, modifyPort_same]
    exact hlink.of_timing rfl
  · exact hlink
  · exact hlink
  · exact hlink

/-- Nor does a change of the link. -/
theorem linkEvent_governed (hgoverned : Governed env (s.ports p)) :
    Governed env ((linkEvent env p s).2.ports p) := by
  rw [linkEvent]
  generalize env.linkReports s.calls = reports
  have hcalled : Governed env ((called s).ports p) := hgoverned
  generalize called s = s₁ at hcalled ⊢
  induction reports generalizing s₁ with
  | nil => exact hcalled
  | cons report reports ih => exact ih _ (portLinkStatus_governed report hcalled)

theorem expire_governed {fd : Fd} (hlives : fd.isMaster → (s.ports p).livesOn fd)
    (hgoverned : Governed env (s.ports p)) : Governed env ((expire p fd s).ports p) := by
  rw [expire]
  split
  · have hmastered := @Mastered.setFda p s fd
      (fun d => { d with armed := false, expired := true }) hgoverned.toMastered
      (fun _ hopen => hopen) fun hfd _ => hlives hfd
    rw [setFda_same] at hmastered ⊢
    exact ⟨hmastered, hgoverned.started, hgoverned.slave⟩
  · exact hgoverned

theorem settime_governed {fd : Fd} {value : ℕ}
    (hlives : fd.isMaster → (s.ports p).livesOn fd) (hgoverned : Governed env (s.ports p)) :
    Governed env ((setFda p fd (.settime value) s).ports p) := by
  have hmastered := @Mastered.settime p s fd value hgoverned.toMastered hlives
  rw [setFda_same] at hmastered ⊢
  exact ⟨hmastered, hgoverned.started, hgoverned.slave⟩

/-- Without a change of the state, an event leaves the timers of a master to their state. -/
theorem SameMasters.bcEvent {fd : Fd} (hfd : fd.isMaster = false) (hlink : fd ≠ .rtnl)
    (hslave : isSlave (s.ports p).state = false) :
    SameMasters (s.ports p) ((bcEvent env p fd s).2.ports p) := by
  have hreceive : SameMasters (s.ports p) ((receiveMessage env p s).2.ports p) := by
    rcases @receiveMessage_cases env p s with hports | ⟨m, s', hports, hhandled⟩
    · exact .of_ports hports
    · rw [hhandled, ← hports]
      exact .handleMessage m (Or.inl (hports ▸ hslave))
  cases fd with
  | announceTimer | syncRxTimer => exact .receiptTimeout s
  | delayTimer =>
    exact ((SameMasters.portSetDelayTmo s).trans (.of_timing delayReqPrune_timing)).trans
      (.of_timing portDelayRequest_timing)
  | qualificationTimer | mannoTimer | syncTxTimer => exact absurd hfd (by decide)
  | unicastSrvTimer | unicastReqTimer => exact .of_ports (sendAll_ports 1)
  | rtnl => exact absurd rfl hlink
  | event | general => exact hreceive

/-- Nor any other event, a timer that lives in the state included. -/
theorem bcEvent_governed {fd : Fd} (hlives : fd.isMaster → (s.ports p).livesOn fd)
    (hgoverned : Governed env (s.ports p)) :
    Governed env ((bcEvent env p fd s).2.ports p) := by
  have hreceive : Governed env ((receiveMessage env p s).2.ports p) := by
    rcases @receiveMessage_cases env p s with hports | ⟨m, s', hports, hhandled⟩
    · exact hgoverned.of_sameMasters (.of_ports hports)
    · rw [hhandled]
      exact handleMessage_governed m (hports ▸ hgoverned)
  cases fd with
  | announceTimer | syncRxTimer => exact hgoverned.of_sameMasters (.receiptTimeout s)
  | delayTimer =>
    exact hgoverned.of_sameMasters (((SameMasters.portSetDelayTmo s).trans
      (.of_timing delayReqPrune_timing)).trans (.of_timing portDelayRequest_timing))
  | qualificationTimer => exact hgoverned
  | mannoTimer =>
    exact (settime_governed hlives hgoverned).of_sameMasters (.of_ports portTxAnnounce_ports)
  | syncTxTimer =>
    exact (settime_governed hlives hgoverned).of_sameMasters (.of_ports portTxSync_ports)
  | unicastSrvTimer | unicastReqTimer =>
    exact hgoverned.of_sameMasters (.of_ports (sendAll_ports 1))
  | rtnl => exact linkEvent_governed hgoverned
  | event | general => exact hreceive

end LinuxPtp.Ordinary
