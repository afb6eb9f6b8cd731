import LinuxPtp.Ordinary.Faults

/-!
# Syncs and their Follow_Ups

A port keeps a two-step Sync or a Follow_Up until the other arrives.  Whatever the
order of the messages, and whatever happens to the ports in between, no message is
used twice.
-/

namespace LinuxPtp.Ordinary

open Bmc Cells Port Wire
open Relation (ReflTransGen)

variable {env : Env} {p q : ℕ} {s s' s'' : PtpClock} {linkFault manages : Prop}
variable {event : PortEvent} {mdiff : Bool}

/-! ## What every dispatch respects -/

/-- A relation between a port before and after some work, which respects all the
work that a dispatch may consist of. -/
structure Respects (env : Env) (p : ℕ) (rel : PtpPort → PtpPort → Prop) : Prop where
  refl : ∀ port, rel port port
  trans : ∀ {port port' port''}, rel port port' → rel port' port'' → rel port port''
  fda : ∀ port fda, rel port { port with fda := fda }
  noSync : ∀ port, rel port { port with syfu := .empty }
  noDelayReq : ∀ port, rel port { port with delayReq := [] }
  noPeerDelay : ∀ port, rel port
    { port with peerDelayReq := none, peerDelayResp := none, peerDelayFup := none }
  disable : ∀ port, rel port (disabledPort port)
  reset : ∀ port, rel port (portResetFields env p port)
  state : ∀ port next, rel port { port with state := next }
  fault : ∀ port type, rel port { port with lastFaultType := type }

namespace Respects

variable {rel : PtpPort → PtpPort → Prop} (hrel : Respects env p rel)

include hrel

theorem setFda (fd : Fd) (f : Descriptor → Descriptor) :
    rel (s.ports p) ((setFda p fd f s).ports p) := by
  rw [setFda_same]
  exact hrel.fda ..

theorem portSetAnnounceTmo :
    rel (s.ports p) ((portSetAnnounceTmo env p s).ports p) := by
  rw [Ordinary.portSetAnnounceTmo, setTmoRandom_same]
  exact hrel.fda ..

theorem portSetDelayTmo :
    rel (s.ports p) ((portSetDelayTmo env p s).ports p) := by
  rw [Ordinary.portSetDelayTmo]
  split
  · exact hrel.setFda ..
  · rw [setTmoRandom_same]
    exact hrel.fda ..

theorem portOpDisable : rel (s.ports p) ((portOpDisable p s).ports p) := by
  rw [portOpDisable_same]
  exact hrel.disable _

theorem flushLastSync :
    rel (s.ports p) ((Ordinary.flushLastSync p s).ports p) := by
  rw [flushLastSync_same]
  exact hrel.noSync _

theorem flushDelayReq :
    rel (s.ports p) ((Ordinary.flushDelayReq p s).ports p) := by
  rw [flushDelayReq_same]
  exact hrel.noDelayReq _

theorem flushPeerDelay :
    rel (s.ports p) ((Ordinary.flushPeerDelay p s).ports p) := by
  rw [flushPeerDelay_same]
  exact hrel.noPeerDelay _

theorem clearTmos (fds : List Fd) :
    rel (s.ports p) ((clearTmos p fds s).ports p) := by
  induction fds generalizing s with
  | nil => exact hrel.refl _
  | cons fd fds ih => exact hrel.trans (hrel.setFda fd _) ih

/-- Entering a state sets timers and forgets what is pending. -/
theorem e2eEnter (next : PortState) :
    rel (s.ports p) ((e2eEnter env p next s).ports p) := by
  cases next with
  | initializing => exact hrel.refl _
  | faulty | disabled => exact hrel.portOpDisable
  | listening | passive => exact hrel.portSetAnnounceTmo
  | preMaster => exact hrel.setFda ..
  | master | grandMaster => exact hrel.trans (hrel.setFda ..) (hrel.setFda ..)
  | uncalibrated =>
    exact hrel.trans hrel.flushLastSync (hrel.trans hrel.flushDelayReq
      (hrel.trans hrel.portSetAnnounceTmo hrel.portSetDelayTmo))
  | slave => exact hrel.trans hrel.portSetAnnounceTmo hrel.portSetDelayTmo

theorem p2pEnter (next : PortState) :
    rel (s.ports p) ((p2pEnter env p next s).ports p) := by
  cases next with
  | initializing => exact hrel.refl _
  | faulty | disabled => exact hrel.portOpDisable
  | listening => exact hrel.trans hrel.portSetAnnounceTmo hrel.portSetDelayTmo
  | preMaster => exact hrel.setFda ..
  | master | grandMaster => exact hrel.trans (hrel.setFda ..) (hrel.setFda ..)
  | passive | slave => exact hrel.portSetAnnounceTmo
  | uncalibrated =>
    exact hrel.trans hrel.flushLastSync
      (hrel.trans hrel.flushPeerDelay hrel.portSetAnnounceTmo)

theorem transition : rel (s.ports p) ((transition env p s).ports p) := by
  rw [Ordinary.transition]
  split
  · rw [p2pTransition_eq]
    exact hrel.trans (hrel.clearTmos _) (hrel.p2pEnter _)
  · rw [e2eTransition_eq]
    exact hrel.trans (hrel.clearTmos _) (hrel.e2eEnter _)

theorem portInitialize :
    rel (s.ports p) ((portInitialize env p s).2.ports p) := by
  have hreset : rel (s.ports p)
      ((modifyPort p (portResetFields env p) (called s)).ports p) := by
    rw [modifyPort_same]
    exact hrel.reset _
  have hopened : rel (s.ports p)
      ((Ordinary.portSetAnnounceTmo env p (modifyPort p
        (fun port => { port with fda := openDescriptors port.fda })
        (modifyPort p (portResetFields env p) (called s)))).ports p) := by
    refine hrel.trans ?_ hrel.portSetAnnounceTmo
    rw [modifyPort_same]
    exact hrel.trans hreset (hrel.fda ..)
  rw [Ordinary.portInitialize]
  cases env.initOutcome s.calls with
  | noTimers => exact hreset
  | noTransport => exact hreset
  | noUnicastTimer =>
    refine hrel.trans hopened ?_
    dsimp only
    rw [modifyPort_same]
    exact hrel.fda ..
  | ready =>
    dsimp only
    rw [openRtnl]
    split
    · exact hopened
    · exact hrel.trans hopened (hrel.setFda ..)

/-- A port that is started anew has forgotten everything. -/
theorem restart : rel (s.ports p) ((restart env p s).2.ports p) := by
  rw [Ordinary.restart]
  refine hrel.trans ?_ hrel.portInitialize
  split
  · exact hrel.portOpDisable
  · exact hrel.refl _

theorem setState (next : PortState) :
    rel (s.ports p) ((setState p next s).ports p) := by
  rw [Ordinary.setState, modifyPort_same]
  exact hrel.state ..

theorem enterState :
    rel (s.ports p) ((enterState env p event mdiff s).2.ports p) := by
  by_cases hnext : nextState env p event mdiff (s.ports p) = .initializing
  · rw [enterState_started hnext]
    split
    · exact hrel.restart
    · exact hrel.trans hrel.restart (hrel.trans (hrel.setState _) hrel.transition)
  · by_cases hsame : env.stateMachine (s.ports p).state event mdiff =
        (s.ports p).state
    · rw [enterState_same hnext hsame]
      exact hrel.refl _
    · rw [enterState_changed hnext hsame]
      exact hrel.trans (hrel.setState _) hrel.transition

theorem bcDispatch :
    rel (s.ports p) ((bcDispatch env p event mdiff s).ports p) := by
  rw [Ordinary.bcDispatch]
  dsimp only
  have hentered : rel (s.ports p)
      ((Ordinary.enterState env p event mdiff s).2.ports p) := hrel.enterState
  split_ifs
  · refine hrel.trans (hrel.trans hentered ?_) hrel.enterState
    rw [setLastFault, modifyPort_same]
    exact hrel.fault ..
  · exact hentered
  · exact hentered

end Respects

/-! ## What a port waits with -/

/-- The port waits with the same message, or with none. -/
def Awaits (port port' : PtpPort) : Prop :=
  port'.syfu = .empty ∨
    port'.syfu = port.syfu ∧ port'.lastSyncfup = port.lastSyncfup

theorem Awaits.refl (port : PtpPort) : Awaits port port := Or.inr ⟨rfl, rfl⟩

theorem Awaits.trans {port port' port'' : PtpPort} (hfirst : Awaits port port')
    (hsecond : Awaits port' port'') : Awaits port port'' := by
  rcases hsecond with hempty | ⟨hsyfu, hlast⟩
  · exact Or.inl hempty
  · rw [Awaits, hsyfu, hlast]
    exact hfirst

/-- No part of a dispatch gives a port another message to wait with. -/
theorem respects_awaits : Respects env p Awaits where
  refl := .refl
  trans := .trans
  fda _ _ := Or.inr ⟨rfl, rfl⟩
  noSync _ := Or.inl rfl
  noDelayReq _ := Or.inr ⟨rfl, rfl⟩
  noPeerDelay _ := Or.inr ⟨rfl, rfl⟩
  disable _ := Or.inl rfl
  reset _ := Or.inr ⟨rfl, rfl⟩
  state _ _ := Or.inr ⟨rfl, rfl⟩
  fault _ _ := Or.inr ⟨rfl, rfl⟩

def PtpPort.pending (port : PtpPort) : Option Message :=
  if port.syfu = .empty then none else port.lastSyncfup

/-- A message that is still pending was pending before. -/
theorem Awaits.pending {port port' : PtpPort} {m : Message}
    (hawaits : Awaits port port') (hpending : port'.pending = some m) :
    port.pending = some m ∧ port'.syfu = port.syfu := by
  rw [PtpPort.pending] at hpending
  split at hpending
  · exact absurd hpending (Option.some_ne_none m).symm
  · rename_i hwaits
    rcases hawaits with hempty | ⟨hsyfu, hlast⟩
    · exact absurd hempty hwaits
    · rw [PtpPort.pending, ← hsyfu, if_neg hwaits, ← hlast]
      exact ⟨hpending, rfl⟩

/-- No message is used, and each port waits as before or with none. -/
structure Quiet (s s' : PtpClock) : Prop where
  ports : ∀ q, Awaits (s.ports q) (s'.ports q)
  calls : s.calls ≤ s'.calls
  synchronized : s'.synchronized = s.synchronized

namespace Quiet

theorem refl (s : PtpClock) : Quiet s s := ⟨fun _ => .refl _, le_rfl, rfl⟩

theorem trans (hfirst : Quiet s s') (hsecond : Quiet s' s'') : Quiet s s'' :=
  ⟨fun q => (hfirst.ports q).trans (hsecond.ports q),
    hfirst.calls.trans hsecond.calls,
    hsecond.synchronized.trans hfirst.synchronized⟩

/-- Quiet work on one port. -/
theorem of_within (hwithin : Within p s s')
    (hawaits : Awaits (s.ports p) (s'.ports p)) : Quiet s s' where
  ports q := by
    by_cases hsame : q = p
    · subst hsame
      exact hawaits
    · rw [hwithin.ports q hsame]
      exact .refl _
  calls := hwithin.calls
  synchronized := hwithin.synchronized

theorem bcDispatch (event : PortEvent) (mdiff : Bool) :
    Quiet s (bcDispatch env p event mdiff s) :=
  of_within (Kept.refl p s).bcDispatch.toWithin respects_awaits.bcDispatch

theorem modifyPort {f : PtpPort → PtpPort}
    (hf : Awaits (s.ports p) (f (s.ports p))) : Quiet s (modifyPort p f s) := by
  refine of_within (Within.refl p s).modifyPort ?_
  rw [modifyPort_same]
  exact hf

theorem setFda (fd : Fd) (f : Descriptor → Descriptor) :
    Quiet s (setFda p fd f s) :=
  .modifyPort (Or.inr ⟨rfl, rfl⟩)

theorem called : Quiet s (called s) := ⟨fun _ => .refl _, Nat.le_succ _, rfl⟩

end Quiet

theorem Notes.awaits {f : PtpPort → PtpPort} (hnotes : Notes f) (port : PtpPort) :
    Awaits port (f port) := by
  rw [hnotes.rest]
  exact .refl _

theorem clearBest_quiet : Quiet s (clearBest p s) := by
  rw [clearBest]
  split
  · exact .refl s
  · rw [fcClear]
    split
    · exact .refl s
    · refine .of_within (Kept.refl p s).msgPutAll.modifyPort.toWithin ?_
      rw [modifyPort_same, msgPutAll_ports]
      exact .refl _

theorem renewTransport_quiet : Quiet s (renewTransport env p s).2 := by
  rw [renewTransport]
  split
  · exact .refl s
  · dsimp only
    exact Quiet.called.trans ((Quiet.setFda ..).trans (.setFda ..))

/-- An effect uses no Sync and stores none. -/
theorem effect_quiet (heffect : Effect env p linkFault manages s s') :
    Quiet s s' := by
  have hkept : ∀ {clock : PtpClock}, Kept p s clock →
      (clock.ports p).syfu = (s.ports p).syfu →
      (clock.ports p).lastSyncfup = (s.ports p).lastSyncfup → Quiet s clock :=
    fun hkept hsyfu hlast => .of_within hkept.toWithin (Or.inr ⟨hsyfu, hlast⟩)
  cases heffect with
  | called => exact .called
  | allocate => exact ⟨fun _ => .refl _, Nat.le_succ _, rfl⟩
  | putHeld => exact ⟨fun _ => .refl _, le_rfl, rfl⟩
  | announceTmo =>
    exact .of_within (Kept.refl p s).portSetAnnounceTmo.toWithin
      respects_awaits.portSetAnnounceTmo
  | delayTmo =>
    exact .of_within (Kept.refl p s).portSetDelayTmo.toWithin
      respects_awaits.portSetDelayTmo
  | mannoTmo => exact .setFda ..
  | syncTxTmo => exact .setFda ..
  | note hnotes => exact .modifyPort (hnotes.awaits _)
  | putPeerDelayReq => exact hkept (Kept.refl p s).putPeerDelayReq (by simp) (by simp)
  | putPeerDelayResp =>
    exact hkept (Kept.refl p s).putPeerDelayResp (by simp) (by simp)
  | putPeerDelayFup => exact hkept (Kept.refl p s).putPeerDelayFup (by simp) (by simp)
  | delayReqPrune =>
    exact hkept delayReqPrune_kept (by simp [delayReqPrune]) (by simp [delayReqPrune])
  | keepPeerDelayReq =>
    exact .of_within ((Kept.refl p s).called.putPeerDelayReq.toWithin.trans
      keepPeerDelayReq_within) (Or.inr (by simp [keepPeerDelayReq]))
  | keepDelayReq =>
    exact .of_within ((Kept.refl p s).called.toWithin.trans keepDelayReq_within)
      (Or.inr (by simp [keepDelayReq]))
  | @dropDelayReq _ request m =>
    have hrecord : Quiet s (ptpClockPathDelay p request m s) :=
      ⟨fun _ => .refl _, le_rfl, rfl⟩
    refine hrecord.trans (.of_within (Kept.refl p _).msgPut.modifyPort.toWithin ?_)
    rw [dropDelayReq, modifyPort_same]
    exact .refl _
  | usePeerDelayReq =>
    have hrecord : Quiet s (recordPeerDelay p s) :=
      ⟨fun _ => .refl _, le_rfl, rfl⟩
    exact hrecord.trans (.of_within (Kept.refl p _).putPeerDelayReq.toWithin
      (Or.inr (by simp)))
  | logMinDelayReq => exact .modifyPort (.refl _)
  | switchToP2p =>
    have hswitch : Quiet s (modifyPort p
        (fun port => { port with delayMechanism := .p2p }) s) :=
      .modifyPort (Or.inr ⟨rfl, rfl⟩)
    exact hswitch.trans (.of_within (Kept.refl p _).portSetDelayTmo.toWithin
      respects_awaits.portSetDelayTmo)
  | storePeerDelayResp =>
    exact hkept (Kept.refl p s).putPeerDelayResp.msgGet.modifyPort
      (by simp [storePeerDelayResp, msgGet]) (by simp [storePeerDelayResp, msgGet])
  | storePeerDelayFup =>
    exact hkept (Kept.refl p s).putPeerDelayFup.msgGet.modifyPort
      (by simp [storePeerDelayFup, msgGet]) (by simp [storePeerDelayFup, msgGet])
  | clearBest => exact clearBest_quiet
  | renewTransport => exact renewTransport_quiet
  | manage _ _ setting =>
    cases setting <;> exact ⟨fun _ => .refl _, le_rfl, rfl⟩
  | askDecision => exact ⟨fun _ => .refl _, le_rfl, rfl⟩
  | fault => exact .bcDispatch ..

theorem insertAnnounce_quiet (fc : ForeignClock) (m : Message) :
    Quiet s (insertAnnounce env p fc m s) := by
  refine .of_within (insertAnnounce_kept fc m).toWithin ?_
  rw [insertAnnounce, modifyPort_same, msgGet]
  dsimp only
  rw [msgPutAll_ports]
  exact Or.inr ⟨rfl, rfl⟩

theorem addForeignMaster_quiet (m : Message) :
    Quiet s (addForeignMaster env p m s).2 := by
  rw [addForeignMaster]
  split
  · dsimp only
    split_ifs
    · exact Quiet.called.trans (.modifyPort (Or.inr ⟨rfl, rfl⟩))
    · exact .called
  · exact insertAnnounce_quiet ..

/-- An Announce has nothing to do with the pending Sync or Follow_Up. -/
theorem portMsgProAnnounce_quiet (m : Message) :
    Quiet s (portMsgProAnnounce env p m s).2 := by
  have hupdate : Quiet s (updateCurrentMaster env p m s).2 := by
    rw [updateCurrentMaster]
    split
    · exact .refl s
    split
    · exact addForeignMaster_quiet m
    · have htime : Quiet s (if (s.ports p).state ≠ .passive then
          setTimeProperties m s else s) := by
        split_ifs <;> exact ⟨fun _ => .refl _, le_rfl, rfl⟩
      refine (htime.trans ?_).trans (insertAnnounce_quiet ..)
      exact .of_within (Kept.refl p _).portSetAnnounceTmo.toWithin
        (@respects_awaits env p).portSetAnnounceTmo
  rw [portMsgProAnnounce]
  split_ifs
  · exact .refl s
  · cases (s.ports p).state with
    | initializing | faulty | disabled => exact .refl s
    | listening | preMaster | master | grandMaster =>
      exact addForeignMaster_quiet m
    | passive | uncalibrated | slave => exact hupdate

/-! ## The messages that have been used -/

/-- The numbers of the messages of a call of `__portSynchronize`. -/
def Synchronized.arrivals (used : Synchronized) : List ℕ :=
  used.sync.arrival :: (used.followUp.map Message.arrival).toList

def usedArrivals (s : PtpClock) : List ℕ :=
  s.synchronized.flatMap Synchronized.arrivals

/-- A one-step Sync of the parent, or a two-step Sync and a Follow_Up of the same
sequence number; of these the one that has come last is of the parent. -/
structure Synchronized.Paired (used : Synchronized) : Prop where
  type : used.sync.type = .sync
  twoStep : used.sync.twoStep = used.followUp.isSome
  alone : used.followUp = none → used.sync.sourcePortIdentity = used.parent
  followUp : ∀ m ∈ used.followUp,
    m.type = .followUp ∧ m.sequenceId = used.sync.sequenceId
  last : ∀ m ∈ used.followUp,
    used.sync.arrival < m.arrival ∧ m.sourcePortIdentity = used.parent ∨
      m.arrival < used.sync.arrival ∧ used.sync.sourcePortIdentity = used.parent

/-- What is pending has not been used and waits at one port only. -/
structure Tidy (s : PtpClock) : Prop where
  paired : ∀ used ∈ s.synchronized, used.Paired
  once : (usedArrivals s).Nodup
  past : ∀ arrival ∈ usedArrivals s, arrival < s.calls
  pending : ∀ p m, (s.ports p).pending = some m →
    m.arrival < s.calls ∧ m.arrival ∉ usedArrivals s
  apart : ∀ p m, (s.ports p).pending = some m → ∀ q n,
    (s.ports q).pending = some n → m.arrival = n.arrival → p = q
  sync : ∀ p m, (s.ports p).pending = some m → (s.ports p).syfu = .haveSync →
    m.type = .sync ∧ m.twoStep
  followUp : ∀ p m, (s.ports p).pending = some m → (s.ports p).syfu = .haveFup →
    m.type = .followUp

/-- The message has come after all that are pending or have been used. -/
structure Fresh (s : PtpClock) (m : Message) : Prop where
  past : m.arrival < s.calls
  used : ∀ arrival ∈ usedArrivals s, arrival < m.arrival
  pending : ∀ p n, (s.ports p).pending = some n → n.arrival < m.arrival

/-- Quiet work uses no message. -/
theorem Quiet.usedArrivals (hquiet : Quiet s s') :
    usedArrivals s' = usedArrivals s := by
  rw [Ordinary.usedArrivals, hquiet.synchronized]
  rfl

/-- Quiet work keeps a tidy clock tidy. -/
theorem Tidy.quiet (htidy : Tidy s) (hquiet : Quiet s s') : Tidy s' := by
  have hused := hquiet.usedArrivals
  have hwas : ∀ p m, (s'.ports p).pending = some m →
      (s.ports p).pending = some m ∧ (s'.ports p).syfu = (s.ports p).syfu :=
    fun p m hpending => (hquiet.ports p).pending hpending
  refine ⟨?_, ?_, ?_, ?_, ?_, ?_, ?_⟩
  · rw [hquiet.synchronized]
    exact htidy.paired
  · exact hused ▸ htidy.once
  · rw [hused]
    exact fun arrival harrival =>
      (htidy.past arrival harrival).trans_le hquiet.calls
  · rw [hused]
    intro p m hpending
    obtain ⟨hpast, hunused⟩ := htidy.pending p m (hwas p m hpending).1
    exact ⟨hpast.trans_le hquiet.calls, hunused⟩
  · exact fun p m hpending q n hpending' =>
      htidy.apart p m (hwas p m hpending).1 q n (hwas q n hpending').1
  · intro p m hpending hsyfu
    obtain ⟨hpending₀, hsame⟩ := hwas p m hpending
    exact htidy.sync p m hpending₀ (hsame ▸ hsyfu)
  · intro p m hpending hsyfu
    obtain ⟨hpending₀, hsame⟩ := hwas p m hpending
    exact htidy.followUp p m hpending₀ (hsame ▸ hsyfu)

/-- What a call of `__portSynchronize` does. -/
structure Uses (used : Synchronized) (s s' : PtpClock) : Prop where
  ports : ∀ q, Awaits (s.ports q) (s'.ports q)
  calls : s.calls ≤ s'.calls
  synchronized : s'.synchronized = used :: s.synchronized

/-- Quiet work may follow the use. -/
theorem Uses.quiet {used : Synchronized} (huses : Uses used s s')
    (hquiet : Quiet s' s'') : Uses used s s'' where
  ports q := (huses.ports q).trans (hquiet.ports q)
  calls := huses.calls.trans hquiet.calls
  synchronized := hquiet.synchronized.trans huses.synchronized

theorem flushLastSync_quiet : Quiet s (flushLastSync p s) :=
  .of_within (Kept.refl p s).flushLastSync.toWithin (Or.inl (by simp))

theorem flushDelayReq_quiet : Quiet s (flushDelayReq p s) :=
  .of_within (Kept.refl p s).flushDelayReq.toWithin (Or.inr (by simp))

theorem putPeerDelayReq_quiet : Quiet s (putPeerDelayReq p s) :=
  .of_within (Kept.refl p s).putPeerDelayReq.toWithin (Or.inr (by simp))

/-- Synchronizing uses exactly the messages that it is given. -/
theorem portSynchronize_uses (sync : Message) (followUp : Option Message) :
    Uses ⟨sync, followUp, s.parentPortIdentity⟩ s
      (portSynchronize env p sync followUp s) := by
  have htimer : Quiet s (portSetSyncRxTmo env p s) := .setFda ..
  have hrecord : Uses ⟨sync, followUp, s.parentPortIdentity⟩ s
      (called (recordSynchronized sync followUp (portSetSyncRxTmo env p s))) :=
    ⟨htimer.ports, htimer.calls.trans (Nat.le_succ _), rfl⟩
  rw [portSynchronize]
  cases env.servo _ with
  | unlocked => exact hrecord.quiet (.bcDispatch ..)
  | locked => exact hrecord.quiet (.bcDispatch ..)
  | jump =>
    exact ((hrecord.quiet (.bcDispatch .synchronizationFault false)).quiet
      flushDelayReq_quiet).quiet putPeerDelayReq_quiet

theorem putSyncfup_quiet : Quiet s (putSyncfup p s) := by
  refine .of_within (Kept.refl p s).msgPutAll.modifyPort.toWithin (Or.inl ?_)
  rw [putSyncfup, modifyPort_same]

/-- The messages of the call are new to the record, and neither of them stays
pending. -/
theorem Tidy.uses {used : Synchronized} (htidy : Tidy s) (huses : Uses used s s')
    (hpaired : used.Paired) (honce : used.arrivals.Nodup)
    (hnew : ∀ arrival ∈ used.arrivals,
      arrival < s.calls ∧ arrival ∉ usedArrivals s)
    (hpending : ∀ q m, (s'.ports q).pending = some m →
      m.arrival ∉ used.arrivals) : Tidy s' := by
  have hused : usedArrivals s' = used.arrivals ++ usedArrivals s := by
    rw [usedArrivals, huses.synchronized]
    rfl
  have hwas : ∀ p m, (s'.ports p).pending = some m →
      (s.ports p).pending = some m ∧ (s'.ports p).syfu = (s.ports p).syfu :=
    fun p m hpending => (huses.ports p).pending hpending
  refine ⟨?_, ?_, ?_, ?_, ?_, ?_, ?_⟩
  · rw [huses.synchronized]
    exact List.forall_mem_cons.mpr ⟨hpaired, htidy.paired⟩
  · rw [hused]
    exact List.nodup_append.mpr ⟨honce, htidy.once, fun arrival hfirst other hsecond
      hsame => (hnew arrival hfirst).2 (hsame ▸ hsecond)⟩
  · rw [hused]
    intro arrival harrival
    rcases List.mem_append.mp harrival with hfirst | hsecond
    · exact (hnew arrival hfirst).1.trans_le huses.calls
    · exact (htidy.past arrival hsecond).trans_le huses.calls
  · rw [hused]
    intro p m hwaits
    obtain ⟨hpast, hunused⟩ := htidy.pending p m (hwas p m hwaits).1
    refine ⟨hpast.trans_le huses.calls, fun hmem => ?_⟩
    rcases List.mem_append.mp hmem with hfirst | hsecond
    · exact hpending p m hwaits hfirst
    · exact hunused hsecond
  · exact fun p m hwaits q n hwaits' =>
      htidy.apart p m (hwas p m hwaits).1 q n (hwas q n hwaits').1
  · intro p m hwaits hsyfu
    obtain ⟨hwaits₀, hsame⟩ := hwas p m hwaits
    exact htidy.sync p m hwaits₀ (hsame ▸ hsyfu)
  · intro p m hwaits hsyfu
    obtain ⟨hwaits₀, hsame⟩ := hwas p m hwaits
    exact htidy.followUp p m hwaits₀ (hsame ▸ hsyfu)

/-- A message that has just come is kept. -/
theorem storeSyncfup_tidy {syfu : SyfuState} {m : Message} (htidy : Tidy s)
    (hfresh : Fresh s m)
    (hsync : syfu = .haveSync → m.type = .sync ∧ m.twoStep)
    (hfollowUp : syfu = .haveFup → m.type = .followUp) :
    Tidy (storeSyncfup p syfu m s) := by
  have hkept := (@storeSyncfup_kept p s syfu m).toWithin
  have hsame : ((storeSyncfup p syfu m s).ports p).syfu = syfu ∧
      ((storeSyncfup p syfu m s).ports p).lastSyncfup = some m := by
    rw [storeSyncfup, modifyPort_same]
    exact ⟨rfl, rfl⟩
  have hused : usedArrivals (storeSyncfup p syfu m s) = usedArrivals s := by
    rw [usedArrivals, hkept.synchronized]
    rfl
  have hwaits : ∀ q n, ((storeSyncfup p syfu m s).ports q).pending = some n →
      q = p ∧ n = m ∨ q ≠ p ∧ (s.ports q).pending = some n := by
    intro q n hpending
    by_cases hport : q = p
    · subst hport
      rw [PtpPort.pending, hsame.1, hsame.2] at hpending
      split at hpending
      · exact absurd hpending (Option.some_ne_none n).symm
      · exact Or.inl ⟨rfl, (Option.some.inj hpending).symm⟩
    · rw [hkept.ports q hport] at hpending
      exact Or.inr ⟨hport, hpending⟩
  refine ⟨?_, ?_, ?_, ?_, ?_, ?_, ?_⟩
  · rw [hkept.synchronized]
    exact htidy.paired
  · exact hused ▸ htidy.once
  · rw [hused]
    exact fun arrival harrival =>
      (htidy.past arrival harrival).trans_le hkept.calls
  · rw [hused]
    intro q n hpending
    rcases hwaits q n hpending with ⟨rfl, rfl⟩ | ⟨-, hold⟩
    · exact ⟨hfresh.past.trans_le hkept.calls, fun hmem =>
        lt_irrefl _ (hfresh.used _ hmem)⟩
    · obtain ⟨hpast, hunused⟩ := htidy.pending q n hold
      exact ⟨hpast.trans_le hkept.calls, hunused⟩
  · intro q n hpending r k hpending' hsameArrival
    rcases hwaits q n hpending with ⟨rfl, rfl⟩ | ⟨hport, hold⟩ <;>
      rcases hwaits r k hpending' with ⟨rfl, rfl⟩ | ⟨hport', hold'⟩
    · rfl
    · exact absurd hsameArrival (hfresh.pending r k hold').ne'
    · exact absurd hsameArrival (hfresh.pending q n hold).ne
    · exact htidy.apart q n hold r k hold' hsameArrival
  · intro q n hpending hsyfu
    rcases hwaits q n hpending with ⟨rfl, rfl⟩ | ⟨hport, hold⟩
    · exact hsync (hsame.1.symm.trans hsyfu)
    · exact htidy.sync q n hold (hkept.ports q hport ▸ hsyfu)
  · intro q n hpending hsyfu
    rcases hwaits q n hpending with ⟨rfl, rfl⟩ | ⟨hport, hold⟩
    · exact hfollowUp (hsame.1.symm.trans hsyfu)
    · exact htidy.followUp q n hold (hkept.ports q hport ▸ hsyfu)

/-- The pending message is used together with the one that has just come. -/
theorem useSyncfup_tidy {sync followUp pending m : Message} (htidy : Tidy s)
    (hfresh : Fresh s m) (hpending : (s.ports p).pending = some pending)
    (hthese : sync = pending ∧ followUp = m ∨ sync = m ∧ followUp = pending)
    (hpaired :
      Synchronized.Paired ⟨sync, some followUp, s.parentPortIdentity⟩) :
    Tidy (useSyncfup env p sync followUp s) := by
  have huses := (@portSynchronize_uses env p s sync (some followUp)).quiet
    (@putSyncfup_quiet p _)
  have hlater := hfresh.pending p pending hpending
  obtain ⟨hpast, hunused⟩ := htidy.pending p pending hpending
  have hnew : m.arrival ∉ usedArrivals s := fun hmem =>
    lt_irrefl _ (hfresh.used _ hmem)
  have harrivals : ∀ arrival,
      arrival ∈ [sync.arrival, followUp.arrival] →
        arrival = pending.arrival ∨ arrival = m.arrival := by
    intro arrival hmem
    rcases hthese with ⟨rfl, rfl⟩ | ⟨rfl, rfl⟩ <;> simp at hmem <;> tauto
  refine htidy.uses huses hpaired ?_ ?_ ?_
  · rcases hthese with ⟨rfl, rfl⟩ | ⟨rfl, rfl⟩ <;>
      simp [Synchronized.arrivals, hlater.ne, hlater.ne']
  · intro arrival hmem
    rcases harrivals arrival hmem with rfl | rfl
    · exact ⟨hpast, hunused⟩
    · exact ⟨hfresh.past, hnew⟩
  · intro q n hwaits hmem
    have hport : q ≠ p := by
      rintro rfl
      rw [useSyncfup, putSyncfup, modifyPort_same, PtpPort.pending,
        if_pos rfl] at hwaits
      exact absurd hwaits (Option.some_ne_none n).symm
    obtain ⟨hwas, -⟩ := (huses.ports q).pending hwaits
    rcases harrivals _ hmem with hsame | hsame
    · exact hport (htidy.apart q n hwas p pending hpending hsame)
    · exact absurd hsame (hfresh.pending q n hwas).ne

/-- A port that waits has its pointer. -/
theorem pending_of_syfu {port : PtpPort} (hwaits : port.syfu ≠ .empty) :
    port.pending = port.lastSyncfup := if_neg hwaits

/-- A Sync matches only a Follow_Up that waits with its number. -/
theorem syncEvent_cases (port : PtpPort) (m : Message) :
    syncEvent port m = .syncMismatch ∨
      syncEvent port m = .syncMatch ∧ ∃ followUp, port.syfu = .haveFup ∧
        port.lastSyncfup = some followUp ∧ followUp.sequenceId = m.sequenceId := by
  rw [syncEvent]
  split
  · rename_i followUp hsyfu hlast
    split_ifs with hmatch
    · exact Or.inr ⟨rfl, followUp, hsyfu, hlast, hmatch.2⟩
    · exact Or.inl rfl
  · exact Or.inl rfl

/-- A Follow_Up matches only a Sync that waits with its number. -/
theorem followUpEvent_cases (port : PtpPort) (m : Message) :
    followUpEvent port m = .fupMismatch ∨
      followUpEvent port m = .fupMatch ∧ ∃ sync, port.syfu = .haveSync ∧
        port.lastSyncfup = some sync ∧ sync.sequenceId = m.sequenceId := by
  rw [followUpEvent]
  split
  · rename_i sync hsyfu hlast
    split_ifs with hmatch
    · exact Or.inr ⟨rfl, sync, hsyfu, hlast, hmatch⟩
    · exact Or.inl rfl
  · exact Or.inl rfl

/-- A Sync that has just arrived is used, kept or dropped, and once only. -/
theorem portMsgProSync_tidy {m : Message} (htidy : Tidy s) (hfresh : Fresh s m)
    (htype : m.type = .sync) : Tidy (portMsgProSync env p m s) := by
  rw [portMsgProSync]
  split_ifs with _ hsource honeStep
  · exact htidy
  · exact htidy
  · -- a one-step Sync
    have huses := (@portSynchronize_uses env p s m none).quiet
      (@flushLastSync_quiet p _)
    refine htidy.uses huses ⟨htype, ?_, fun _ => ?_, by simp, by simp⟩
      (List.nodup_singleton _) ?_ ?_
    · simpa using honeStep
    · exact (not_not.mp hsource).symm
    · intro arrival hmem
      obtain rfl : arrival = m.arrival := List.mem_singleton.mp hmem
      exact ⟨hfresh.past, fun hused => lt_irrefl _ (hfresh.used _ hused)⟩
    · intro q n hpending hmem
      obtain ⟨hwas, -⟩ := (huses.ports q).pending hpending
      exact (hfresh.pending q n hwas).ne (List.mem_singleton.mp hmem)
  · have htwoStep : m.twoStep := by simpa using honeStep
    rcases syncEvent_cases (s.ports p) m with
      hmismatch | ⟨hmatch, followUp, hsyfu, hlast, hsequence⟩
    · rw [hmismatch]
      exact storeSyncfup_tidy htidy hfresh (fun _ => ⟨htype, htwoStep⟩) (by simp)
    · have hpending : (s.ports p).pending = some followUp :=
        (pending_of_syfu (by simp [hsyfu])).trans hlast
      rw [hmatch]
      simp only [portSyfufsm, hsyfu, hlast]
      refine useSyncfup_tidy htidy hfresh hpending (Or.inr ⟨rfl, rfl⟩)
        ⟨htype, htwoStep, by simp, ?_, ?_⟩
      · rintro n ⟨⟩
        exact ⟨htidy.followUp p followUp hpending hsyfu, hsequence⟩
      · rintro n ⟨⟩
        exact Or.inr ⟨hfresh.pending p followUp hpending,
          (not_not.mp hsource).symm⟩

/-- The same for a Follow_Up. -/
theorem portMsgProFollowUp_tidy {m : Message} (htidy : Tidy s)
    (hfresh : Fresh s m) (htype : m.type = .followUp) :
    Tidy (portMsgProFollowUp env p m s) := by
  rw [portMsgProFollowUp]
  split_ifs with _ hsource
  · exact htidy
  · exact htidy
  · exact htidy
  · rcases followUpEvent_cases (s.ports p) m with
      hmismatch | ⟨hmatch, sync, hsyfu, hlast, hsequence⟩
    · rw [hmismatch]
      exact storeSyncfup_tidy htidy hfresh (by simp) fun _ => htype
    · have hpending : (s.ports p).pending = some sync :=
        (pending_of_syfu (by simp [hsyfu])).trans hlast
      obtain ⟨hsync, htwoStep⟩ := htidy.sync p sync hpending hsyfu
      rw [hmatch]
      simp only [portSyfufsm, hsyfu, hlast]
      refine useSyncfup_tidy htidy hfresh hpending (Or.inl ⟨rfl, rfl⟩)
        ⟨hsync, htwoStep, by simp, ?_, ?_⟩
      · rintro n ⟨⟩
        exact ⟨htype, hsequence.symm⟩
      · rintro n ⟨⟩
        exact Or.inl ⟨hfresh.pending p sync hpending, (not_not.mp hsource).symm⟩

/-! ## Every run -/

/-- A message that is read has come after all others. -/
theorem readMessage_fresh {m : Message} (htidy : Tidy s)
    (hread : readMessage env p s = (.accepted m, s')) :
    Quiet s s' ∧ Fresh s' m := by
  rw [readMessage] at hread
  have hallocated : Quiet s (msgAllocate env s).2 :=
    ⟨fun _ => .refl _, Nat.le_succ _, rfl⟩
  generalize msgAllocate env s = allocated at hallocated hread
  obtain ⟨_ | cell, s₁⟩ := allocated
  · cases hread
  · dsimp only at hallocated hread
    split at hread
    · cases hread
    · cases hread
    · split_ifs at hread
      · obtain ⟨hdropped, -⟩ := Prod.mk.inj hread
        cases hdropped
      obtain ⟨haccepted, rfl⟩ := Prod.mk.inj hread
      obtain rfl := Read.accepted.inj haccepted
      have htidy₁ := htidy.quiet hallocated
      refine ⟨hallocated.trans .called, Nat.lt_succ_self s₁.calls, ?_, ?_⟩
      · exact fun arrival harrival => htidy₁.past arrival harrival
      · exact fun q n hpending => (htidy₁.pending q n hpending).1

theorem noteAnnounce_quiet (result : Bool × PtpClock) :
    Quiet result.2 (noteAnnounce p result).2 := by
  dsimp only [noteAnnounce]
  exact .modifyPort (Or.inr ⟨rfl, rfl⟩)

/-- An event handles at most one message, which is fresh. -/
theorem bcEvent_tidy (fd : Fd) (htidy : Tidy s) :
    Tidy (bcEvent env p fd s).2 := by
  have hdoes : Does env p True True
      (fun m s' => readMessage env p s = (.accepted m, s')) s
      (bcEvent env p fd s).2 :=
    .bcEvent fd (fun _ _ _ hread => hread) (fun _ => trivial) fun _ => trivial
  refine hdoes.keeps (fun before after hhandled htidy' => ?_) htidy
  cases hhandled with
  | effect heffect => exact htidy'.quiet (effect_quiet heffect)
  | announce =>
    rename_i m _ _ _
    have hannounce := @portMsgProAnnounce_quiet env p before m
    exact htidy'.quiet (hannounce.trans (noteAnnounce_quiet _))
  | sync htype _ hread =>
    exact portMsgProSync_tidy htidy' (readMessage_fresh htidy hread).2 htype
  | followUp htype _ hread =>
    exact portMsgProFollowUp_tidy htidy' (readMessage_fresh htidy hread).2 htype

theorem expire_quiet (fd : Fd) : Quiet s (expire p fd s) := by
  rw [expire]
  split
  · exact .setFda ..
  · exact .refl s

theorem portEvent_tidy (fd : Fd) (htidy : Tidy s) : Tidy (portEvent env p fd s) := by
  have hevent := @bcEvent_tidy env p _ fd (htidy.quiet (@expire_quiet p s fd))
  obtain ⟨s', hs', -, hdispatch⟩ := @portEvent_eq env p s fd
  rw [hdispatch]
  refine Tidy.quiet ?_ (.bcDispatch ..)
  rcases hs' with rfl | rfl
  · exact hevent
  · exact hevent.quiet ⟨fun _ => .refl _, le_rfl, rfl⟩

/-- A decision uses no message. -/
theorem decision_quiet : Quiet s (handleStateDecisionEvent env s) := by
  have hstart : Quiet s (decisionStart env s) := by
    have hfirst := @computeBest_keeps env s (Quiet s) (fun p s' hquiet =>
        hquiet.trans (.of_within portComputeBest_within
          (by rw [portComputeBest_same]; exact Or.inr ⟨rfl, rfl⟩)))
      (List.range env.nports) none (.refl s)
    exact hfirst.trans ⟨fun _ => .refl _, le_rfl, rfl⟩
  have hdecide : ∀ p fresh (s' : PtpClock), Quiet s' (decidePort env fresh p s') := by
    intro p fresh s'
    have hupdate : Quiet s'
        (recommendedUpdate env (bmcStateDecision env p s') s') := by
      refine ⟨fun q => ?_, (@recommendedUpdate_decides env p s' _).calls, ?_⟩
      · rw [recommendedUpdate_ports]
        exact .refl _
      · exact (congrArg PtpClock.synchronized
          (@recommendedUpdate_decides env p s' _).clock :)
    rw [decidePort_eq]
    exact hupdate.trans (.bcDispatch ..)
  rw [handleStateDecisionEvent_eq]
  exact @decidePorts_keeps env _ (Quiet s) _ _ List.nodup_range
    (fun p _ s' _ _ _ hquiet => hquiet.trans (hdecide p _ s')) hstart

theorem Tidy.todo {todo : List Task} {sde : Bool} (htidy : Tidy s) :
    Tidy { s with todo := todo, sde := sde } :=
  htidy.quiet ⟨fun _ => .refl _, le_rfl, rfl⟩

theorem clockFaultTimeout_quiet (set : Bool) :
    Quiet s (clockFaultTimeout env p set s) := by
  obtain ⟨armed, harmed⟩ := @clockFaultTimeout_eq env p s set
  rw [harmed]
  exact .modifyPort (Or.inr ⟨rfl, rfl⟩)

/-- Every task of an iteration keeps the clock tidy. -/
theorem runTask_tidy (task : Task) (htidy : Tidy s) : Tidy (runTask env task s) := by
  cases task with
  | fd p fd touched =>
    have hevent := @portEvent_tidy env p s fd htidy
    rw [runTask]
    split
    · exact (hevent.quiet (clockFaultTimeout_quiet true)).todo
    · exact hevent
  | fault p =>
    have hcleared := htidy.quiet (@clockFaultTimeout_quiet env p s false)
    rw [runTask]
    split
    · exact hcleared.quiet (.bcDispatch ..)
    · exact hcleared
  | uds fd touched =>
    have hevent := @bcEvent_tidy env env.udsPort _ fd
      (htidy.quiet (@expire_quiet env.udsPort s fd))
    rw [runTask]
    dsimp only
    split
    · exact hevent.quiet ⟨fun _ => .refl _, le_rfl, rfl⟩
    · exact hevent
  | finish =>
    rw [runTask]
    split
    · exact (htidy.quiet decision_quiet).todo
    · exact htidy

theorem newClock_tidy : Tidy (newClock env) where
  paired _ hused := absurd hused List.not_mem_nil
  once := List.nodup_nil
  past _ harrival := absurd harrival List.not_mem_nil
  pending _ _ hpending := absurd hpending (Option.some_ne_none _).symm
  apart _ _ hpending := absurd hpending (Option.some_ne_none _).symm
  sync _ _ hpending := absurd hpending (Option.some_ne_none _).symm
  followUp _ _ hpending := absurd hpending (Option.some_ne_none _).symm

theorem clockCreate_tidy : Tidy (clockCreate env) := by
  rw [clockCreate]
  generalize List.range (env.nports + 1) = ports
  have hnew : Tidy (newClock env) := newClock_tidy
  generalize newClock env = s at hnew
  induction ports generalizing s with
  | nil => exact hnew
  | cons p ports ih => exact ih _ (hnew.quiet (.bcDispatch ..))

/-- In every state of every run no message has been used twice. -/
theorem runClock_tidy (env : Env) (steps : List Step) :
    Tidy (runClock env steps) := by
  refine Stepping.run_invariant (fun s action htidy => ?_) steps clockCreate_tidy
  cases action with
  | poll ready =>
    rw [step]
    split
    · exact htidy.todo
    · exact htidy
  | next =>
    rw [step]
    split
    · exact htidy
    · exact runTask_tidy _ htidy.todo

/-- Whatever the order of messages, every Sync is used alone or with a Follow_Up of
its sequence number, and no message is used twice. -/
theorem runClock_pairsOnce (env : Env) (steps : List Step) :
    (∀ used ∈ (runClock env steps).synchronized, used.Paired) ∧
      (usedArrivals (runClock env steps)).Nodup :=
  ⟨(runClock_tidy env steps).paired, (runClock_tidy env steps).once⟩

end LinuxPtp.Ordinary
