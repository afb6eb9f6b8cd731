import LinuxPtp.Ordinary.Effects

/-!
# What an event does to the roles

For the state decision most effects do nothing.  The others clear or extend the
records of their port, or dispatch an event that does not come from a decision.
-/

namespace LinuxPtp.Ordinary

open Bmc Cells Port Wire
open Relation (ReflTransGen)

variable {env : Env} {p q : ℕ} {s s' s'' : PtpClock}
variable {linkFault manages : Prop} {ok : Message → PtpClock → Prop}

/-- The ports, what the last decision has set, and the work that remains are as
before; a decision that has been asked for still is. -/
structure Aside (s s' : PtpClock) : Prop where
  clock : { s' with
    priority1 := s.priority1, priority2 := s.priority2
    clockQuality := s.clockQuality, utcOffset := s.utcOffset
    timeFlags := s.timeFlags, timeSource := s.timeSource, tds := s.tds
    sde := s.sde, synchronized := s.synchronized
    delaySamples := s.delaySamples, peerSamples := s.peerSamples } = s
  sde : s.sde → s'.sde

namespace Aside

section

variable (haside : Aside s s')

include haside

theorem ports : s'.ports = s.ports := (congrArg PtpClock.ports haside.clock :)

theorem best : s'.best = s.best := (congrArg PtpClock.best haside.clock :)

theorem parentPortIdentity : s'.parentPortIdentity = s.parentPortIdentity :=
  (congrArg PtpClock.parentPortIdentity haside.clock :)

theorem stepsRemoved : s'.stepsRemoved = s.stepsRemoved :=
  (congrArg PtpClock.stepsRemoved haside.clock :)

theorem calls : s'.calls = s.calls := (congrArg PtpClock.calls haside.clock :)

theorem todo : s'.todo = s.todo := (congrArg PtpClock.todo haside.clock :)

end

end Aside

def ofServo : PortEvent → Bool
  | .synchronizationFault | .masterClockSelected => true
  | _ => false

/-- What an effect does to the roles of the ports. -/
inductive Turn (env : Env) (p : ℕ) (linkFault : Prop) :
    PtpClock → PtpClock → Prop
  | quiet {s s' : PtpClock} (hwithin : Within p s s')
      (hrole : (s'.ports p).role = (s.ports p).role) : Turn env p linkFault s s'
  | link {s s' : PtpClock} (hwithin : Within p s s')
      (hrole : (s'.ports p).role =
        { (s.ports p).role with linkUp := (s'.ports p).linkUp }) :
      Turn env p linkFault s s'
  | aside {s s' : PtpClock} (haside : Aside s s') : Turn env p linkFault s s'
  | clearBest (s : PtpClock) : Turn env p linkFault s (clearBest p s)
  | settle {event : PortEvent} (hevent : ofServo event) (s : PtpClock) :
      Turn env p linkFault s (bcDispatch env p event false s)
  | fault {s : PtpClock} (hfault : linkFault)
      (htype : (s.ports p).lastFaultType = .switchPhc) :
      Turn env p linkFault s (bcDispatch env p .faultDetected false s)
  | insertAnnounce {s : PtpClock} {fc : ForeignClock} {m : Message}
      (hfc : fc ∈ (s.ports p).foreignMasters) (hsource : msgSourceEqual m fc)
      (hsteps : m.announce.stepsRemoved.toNat < 255) :
      Turn env p linkFault s (insertAnnounce env p fc m s)
  | addRecord {s : PtpClock} {m : Message}
      (henabled : portIsEnabled (s.ports p).state)
      (hnew : ∀ fc ∈ (s.ports p).foreignMasters, ¬msgSourceEqual m fc) :
      Turn env p linkFault s (addRecord p m s)
  | reported (reported : Bool) (s : PtpClock) :
      Turn env p linkFault s (modifyPort p (fun port =>
        { port with reported := port.reported || reported }) s)

/-- A turn that no Announce is the cause of. -/
inductive SmallTurn (env : Env) (p : ℕ) (linkFault manages : Prop) :
    PtpClock → PtpClock → Prop
  | quiet {s s' : PtpClock} (hwithin : Within p s s')
      (hrole : (s'.ports p).role = (s.ports p).role) :
      SmallTurn env p linkFault manages s s'
  | link {s s' : PtpClock} (hwithin : Within p s s')
      (hrole : (s'.ports p).role =
        { (s.ports p).role with linkUp := (s'.ports p).linkUp }) :
      SmallTurn env p linkFault manages s s'
  | aside {s s' : PtpClock} (haside : Aside s s') (htds : s'.tds = s.tds)
      (hutc : manages ∨ s'.utcOffset = s.utcOffset) :
      SmallTurn env p linkFault manages s s'
  | clearBest (s : PtpClock) :
      SmallTurn env p linkFault manages s (clearBest p s)
  | settle {event : PortEvent} (hevent : ofServo event) (s : PtpClock) :
      SmallTurn env p linkFault manages s (bcDispatch env p event false s)
  | fault {s : PtpClock} (hfault : linkFault)
      (htype : (s.ports p).lastFaultType = .switchPhc) :
      SmallTurn env p linkFault manages s
        (bcDispatch env p .faultDetected false s)

theorem SmallTurn.turn (hsmall : SmallTurn env p linkFault manages s s') :
    Turn env p linkFault s s' := by
  cases hsmall with
  | quiet hwithin hrole => exact .quiet hwithin hrole
  | link hwithin hrole => exact .link hwithin hrole
  | aside haside => exact .aside haside
  | clearBest => exact .clearBest s
  | settle hevent => exact .settle hevent s
  | fault hfault htype => exact .fault hfault htype

/-- Small turns are turns. -/
theorem turns_of_smallTurns
    (hsmall : ReflTransGen (SmallTurn env p linkFault manages) s s') :
    ReflTransGen (Turn env p linkFault) s s' :=
  hsmall.lift id fun _ _ hturn => hturn.turn

theorem delayReqPrune_kept : Kept p s (delayReqPrune env p s) := by
  rw [delayReqPrune]
  exact (Kept.refl p s).called.msgPutAll.modifyPort

theorem smallTurn_putPeerDelayReq :
    SmallTurn env p linkFault manages s (putPeerDelayReq p s) :=
  .quiet (Kept.refl p s).putPeerDelayReq.toWithin (by simp [PtpPort.role])

theorem keepPeerDelayReq_within {request : DelayReq} :
    Within p s (keepPeerDelayReq p request s) :=
  ⟨fun _ hother => modifyPort_other _ hother, le_rfl, rfl⟩

theorem keepDelayReq_within {request : DelayReq} :
    Within p s (keepDelayReq p request s) :=
  ⟨fun _ hother => modifyPort_other _ hother, le_rfl, rfl⟩

/-- What an effect does to the roles. -/
theorem smallTurns_of_effect (heffect : Effect env p linkFault manages s s') :
    ReflTransGen (SmallTurn env p linkFault manages) s s' := by
  cases heffect with
  | called => exact .single (.quiet (Within.refl p s).called rfl)
  | allocate => exact .single (.quiet (Within.refl p s).msgAllocate rfl)
  | putHeld => exact .single (.quiet (Within.refl p s).msgPutHeld rfl)
  | announceTmo =>
    exact .single (.quiet (Kept.refl p s).portSetAnnounceTmo.toWithin
      portSetAnnounceTmo_role)
  | delayTmo =>
    exact .single (.quiet (Kept.refl p s).portSetDelayTmo.toWithin
      portSetDelayTmo_role)
  | mannoTmo =>
    exact .single (.quiet (Kept.refl p s).setFda.toWithin
      (by simp [setMannoTmo, setTmoLog, PtpPort.role]))
  | syncTxTmo =>
    exact .single (.quiet (Kept.refl p s).setFda.toWithin
      (by simp [setSyncTxTmo, setTmoLog, PtpPort.role]))
  | note hnotes =>
    refine .single (.link (Within.refl p s).modifyPort ?_)
    rw [modifyPort_same, hnotes.rest]
    rfl
  | putPeerDelayReq => exact .single smallTurn_putPeerDelayReq
  | putPeerDelayResp =>
    exact .single (.quiet (Kept.refl p s).putPeerDelayResp.toWithin
      (by simp [PtpPort.role]))
  | putPeerDelayFup =>
    exact .single (.quiet (Kept.refl p s).putPeerDelayFup.toWithin
      (by simp [PtpPort.role]))
  | delayReqPrune =>
    exact .single (.quiet delayReqPrune_kept.toWithin
      (by simp [delayReqPrune, PtpPort.role]))
  | keepPeerDelayReq =>
    have hput := (Kept.refl p s).called.putPeerDelayReq.toWithin
    exact .single (.quiet (hput.trans keepPeerDelayReq_within)
      (by simp [keepPeerDelayReq, PtpPort.role]))
  | keepDelayReq =>
    exact .single (.quiet ((Within.refl p s).called.trans keepDelayReq_within)
      (by simp [keepDelayReq, PtpPort.role]))
  | @dropDelayReq _ request m =>
    have hrecord : SmallTurn env p linkFault manages s
        (ptpClockPathDelay p request m s) := .aside ⟨rfl, id⟩ rfl (Or.inr rfl)
    refine .tail (.single hrecord) (.quiet ?_ ?_)
    · exact (Kept.refl p _).msgPut.modifyPort.toWithin
    · simp [dropDelayReq, msgPut, PtpPort.role]
  | usePeerDelayReq =>
    have hrecord : SmallTurn env p linkFault manages s (recordPeerDelay p s) :=
      .aside ⟨rfl, id⟩ rfl (Or.inr rfl)
    exact .tail (.single hrecord) smallTurn_putPeerDelayReq
  | logMinDelayReq =>
    exact .single (.quiet (Kept.refl p s).modifyPort.toWithin
      (by simp [setLogMinDelayReqInterval, PtpPort.role]))
  | switchToP2p =>
    refine .single (.quiet (Kept.refl p s).modifyPort.portSetDelayTmo.toWithin ?_)
    rw [switchToP2p, portSetDelayTmo_role, modifyPort_same]
    rfl
  | storePeerDelayResp =>
    exact .single (.quiet
      (Kept.refl p s).putPeerDelayResp.msgGet.modifyPort.toWithin
      (by simp [storePeerDelayResp, msgGet, PtpPort.role]))
  | storePeerDelayFup =>
    exact .single (.quiet
      (Kept.refl p s).putPeerDelayFup.msgGet.modifyPort.toWithin
      (by simp [storePeerDelayFup, msgGet, PtpPort.role]))
  | clearBest => exact .single (.clearBest s)
  | renewTransport =>
    rw [renewTransport]
    split
    · exact .refl
    · dsimp only
      exact .single (.quiet (Kept.refl p s).called.setFda.setFda.toWithin
        (by simp [PtpPort.role]))
  | manage _ hmanages setting =>
    cases setting <;>
      exact .single (.aside ⟨rfl, id⟩ rfl (Or.inl hmanages))
  | askDecision => exact .single (.aside ⟨rfl, fun _ => rfl⟩ rfl (Or.inr rfl))
  | fault hfault htype => exact .single (.fault hfault htype)

/-! ## Announce -/

theorem addForeignMaster_turns {m : Message}
    (henabled : portIsEnabled (s.ports p).state)
    (hsteps : m.announce.stepsRemoved.toNat < 255) :
    ReflTransGen (Turn env p linkFault) s (addForeignMaster env p m s).2 := by
  rw [addForeignMaster]
  split
  · rename_i hnone
    dsimp only
    split_ifs
    · exact .single (.addRecord henabled (List.find?_eq_none.mp hnone))
    · exact .single (.quiet (Within.refl p s).called rfl)
  · rename_i fc hfound
    exact .single (.insertAnnounce (List.mem_of_find?_eq_some hfound)
      (List.find?_some hfound) hsteps)

/-- The best record of a port is one of its records. -/
theorem mem_of_bestRecord {port : PtpPort} {fc : ForeignClock}
    (hbest : bestRecord port = some fc) :
    fc ∈ port.foreignMasters ∧ port.best = some fc.address := by
  rw [bestRecord] at hbest
  obtain ⟨address, haddress, hfound⟩ := Option.bind_eq_some_iff.mp hbest
  have hsame := List.find?_some hfound
  exact ⟨List.mem_of_find?_eq_some hfound,
    haddress.trans (congrArg some (of_decide_eq_true hsame).symm)⟩

/-- An Announce goes into the best record, or into another one. -/
theorem updateCurrentMaster_turns {m : Message}
    (henabled : portIsEnabled (s.ports p).state)
    (hsteps : m.announce.stepsRemoved.toNat < 255) :
    ReflTransGen (Turn env p linkFault) s (updateCurrentMaster env p m s).2 :=
      by
  rw [updateCurrentMaster]
  cases hbest : bestRecord (s.ports p) with
  | none => exact .refl
  | some fc =>
    obtain ⟨hfc, -⟩ := mem_of_bestRecord hbest
    dsimp only
    split
    · exact addForeignMaster_turns henabled hsteps
    · rename_i hsource
      have htime : Turn env p linkFault s (if (s.ports p).state ≠ .passive then
          setTimeProperties m s else s) := by
        split_ifs
        · exact .aside ⟨rfl, id⟩
        · exact .quiet (Within.refl p s) rfl
      have hports : (if (s.ports p).state ≠ .passive then
          setTimeProperties m s else s).ports = s.ports := by
        split_ifs <;> rfl
      generalize (if (s.ports p).state ≠ .passive then
          setTimeProperties m s else s) = s₁ at htime hports ⊢
      have htimer : Turn env p linkFault s₁ (portSetAnnounceTmo env p s₁) :=
        .quiet (Kept.refl p s₁).portSetAnnounceTmo.toWithin
          portSetAnnounceTmo_role
      have hstays : fc ∈
          ((portSetAnnounceTmo env p s₁).ports p).foreignMasters := by
        have hrole := @portSetAnnounceTmo_role env p s₁
        rw [hports] at hrole
        have hbmc := congrArg (fun role => role.bmc.foreignMasters) hrole
        exact hbmc ▸ hfc
      refine .tail (.tail (.single htime) htimer)
        (.insertAnnounce hstays ?_ hsteps)
      simpa using hsource

/-- What an Announce does to the roles. -/
theorem portMsgProAnnounce_turns (m : Message) :
    ReflTransGen (Turn env p linkFault) s (portMsgProAnnounce env p m s).2 := by
  rw [portMsgProAnnounce]
  split_ifs with hsteps
  · exact .refl
  · replace hsteps := not_le.mp hsteps
    cases hstate : (s.ports p).state with
    | initializing | faulty | disabled => exact .refl
    | listening | preMaster | master | grandMaster =>
      exact addForeignMaster_turns (congrArg portIsEnabled hstate) hsteps
    | passive | uncalibrated | slave =>
      exact updateCurrentMaster_turns (congrArg portIsEnabled hstate) hsteps

/-! ## Sync and Follow_Up -/

theorem smallTurn_flushDelayReq : SmallTurn env p linkFault manages s
    (flushDelayReq p s) :=
  .quiet (Kept.refl p s).flushDelayReq.toWithin (by simp [PtpPort.role])

theorem smallTurn_flushLastSync : SmallTurn env p linkFault manages s
    (flushLastSync p s) :=
  .quiet (Kept.refl p s).flushLastSync.toWithin (by simp [PtpPort.role])

theorem smallTurn_called : SmallTurn env p linkFault manages s (called s) :=
  .quiet (Within.refl p s).called rfl

/-- The servo may select the master or report a fault. -/
theorem portSynchronize_smallTurns (sync : Message)
    (followUp : Option Message) :
    ReflTransGen (SmallTurn env p linkFault manages) s
      (portSynchronize env p sync followUp s) := by
  have htimer : SmallTurn env p linkFault manages s
      (portSetSyncRxTmo env p s) :=
    .quiet (Kept.refl p s).setFda.toWithin
      (by simp [portSetSyncRxTmo, setTmoLog, PtpPort.role])
  have hrecord : SmallTurn env p linkFault manages (portSetSyncRxTmo env p s)
      (recordSynchronized sync followUp (portSetSyncRxTmo env p s)) :=
    .aside ⟨rfl, id⟩ rfl (Or.inr rfl)
  have hrecorded : ReflTransGen (SmallTurn env p linkFault manages) s (called
      (recordSynchronized sync followUp (portSetSyncRxTmo env p s))) :=
    .tail (.tail (.single htimer) hrecord) smallTurn_called
  rw [portSynchronize]
  cases env.servo _ with
  | unlocked => exact hrecorded.tail (.settle rfl _)
  | locked => exact hrecorded.tail (.settle rfl _)
  | jump =>
    exact ((hrecorded.tail (.settle rfl _)).tail smallTurn_flushDelayReq).tail
      smallTurn_putPeerDelayReq

theorem smallTurn_storeSyncfup (syfu : SyfuState) (m : Message) :
    SmallTurn env p linkFault manages s (storeSyncfup p syfu m s) := by
  refine .quiet (storeSyncfup_kept syfu m).toWithin ?_
  rw [storeSyncfup]
  split <;> simp [msgGet, PtpPort.role]

theorem smallTurn_putSyncfup : SmallTurn env p linkFault manages s
    (putSyncfup p s) :=
  .quiet (Kept.refl p s).msgPutAll.modifyPort.toWithin
    (by simp [putSyncfup, PtpPort.role])

/-- Waiting for a Sync or a Follow_Up is none of the business of the role. -/
theorem portSyfufsm_smallTurns (event : SyfuEvent) (m : Message) :
    ReflTransGen (SmallTurn env p linkFault manages) s
      (portSyfufsm env p event m s) := by
  unfold portSyfufsm
  split
  · exact .single (smallTurn_storeSyncfup .haveSync m)
  · exact .single (smallTurn_storeSyncfup .haveFup m)
  · exact (portSynchronize_smallTurns ..).tail smallTurn_putSyncfup
  · exact (portSynchronize_smallTurns ..).tail smallTurn_putSyncfup
  · exact .refl

theorem portMsgProSync_smallTurns (m : Message) :
    ReflTransGen (SmallTurn env p linkFault manages) s
      (portMsgProSync env p m s) := by
  rw [portMsgProSync]
  split_ifs
  · exact .refl
  · exact .refl
  · exact (portSynchronize_smallTurns m none).tail smallTurn_flushLastSync
  · exact portSyfufsm_smallTurns ..

theorem portMsgProFollowUp_smallTurns (m : Message) :
    ReflTransGen (SmallTurn env p linkFault manages) s
      (portMsgProFollowUp env p m s) := by
  rw [portMsgProFollowUp]
  split_ifs
  · exact .refl
  · exact .refl
  · exact .refl
  · exact portSyfufsm_smallTurns ..

/-! ## Events -/

/-- What is handled, an Announce included, is a series of turns. -/
theorem turns_of_handled (hhandled : Handled env p linkFault manages ok s s') :
    ReflTransGen (Turn env p linkFault) s s' := by
  cases hhandled with
  | effect heffect => exact turns_of_smallTurns (smallTurns_of_effect heffect)
  | announce =>
    exact (portMsgProAnnounce_turns _).tail (.reported _ _)
  | @sync m _ _ _ =>
    exact turns_of_smallTurns (@portMsgProSync_smallTurns env p s _ True m)
  | @followUp m _ _ _ =>
    exact turns_of_smallTurns (@portMsgProFollowUp_smallTurns env p s _ True m)

/-- So an event is one. -/
theorem turns_of_does (hdoes : Does env p linkFault manages ok s s') :
    ReflTransGen (Turn env p linkFault) s s' := by
  obtain ⟨heffects, -⟩ := hdoes
  induction heffects with
  | refl => exact .refl
  | tail _ hlast ih => exact ih.trans (turns_of_handled hlast)

/-- An event of a port is a sequence of turns. -/
theorem bcEvent_turns (fd : Fd) (hfault : LinkFails env fd s → linkFault) :
    ReflTransGen (Turn env p linkFault) s (bcEvent env p fd s).2 :=
  turns_of_does (.bcEvent fd (fun _ _ _ _ => trivial) hfault (fun _ => trivial) :
    Does env p linkFault True (fun _ _ => True) s (bcEvent env p fd s).2)

theorem clearBest_within : Within p s (clearBest p s) := by
  rw [clearBest]
  split
  · exact .refl p s
  · rw [fcClear]
    split
    · exact .refl p s
    · exact (Kept.refl p s).msgPutAll.modifyPort.toWithin

theorem turn_calls (hturn : Turn env p linkFault s s') : s.calls ≤ s'.calls :=
    by
  cases hturn with
  | quiet hwithin => exact hwithin.calls
  | link hwithin => exact hwithin.calls
  | aside haside => exact haside.calls.ge
  | clearBest => exact clearBest_within.calls
  | settle => exact (Kept.refl p s).bcDispatch.calls
  | fault => exact (Kept.refl p s).bcDispatch.calls
  | insertAnnounce => exact (insertAnnounce_kept ..).calls
  | addRecord => exact Nat.le_succ _
  | reported => exact le_rfl

theorem turns_calls (hturns : ReflTransGen (Turn env p linkFault) s s') :
    s.calls ≤ s'.calls := by
  induction hturns with
  | refl => exact le_rfl
  | tail _ hlast ih => exact ih.trans (turn_calls hlast)

/-- What every turn keeps, a sequence of them keeps. -/
theorem turns_keep {inv : PtpClock → Prop}
    (hturns : ReflTransGen (Turn env p linkFault) s s')
    (hturn : ∀ before after, s.calls ≤ before.calls → after.calls ≤ s'.calls →
      Turn env p linkFault before after → inv before → inv after)
    (hinv : inv s) : inv s' := by
  induction hturns using ReflTransGen.head_induction_on with
  | refl => exact hinv
  | head hfirst hrest ih =>
    refine ih (fun before after hbefore => hturn before after ?_) ?_
    · exact (turn_calls hfirst).trans hbefore
    · exact hturn _ _ le_rfl (turns_calls hrest) hfirst hinv

end LinuxPtp.Ordinary
