import LinuxPtp.Ordinary.Faults

/-!
# The timers of a state

A port moves on only where a timer expires or a message arrives.  Each state lives
on certain timers, which the changes of state arm and the handlers arm again.
-/

namespace LinuxPtp.Ordinary

open Bmc Cells Port Wire
open Relation (ReflTransGen)

variable {env : Env} {p q : ℕ} {s s' : PtpClock} {linkFault manages : Prop}
variable {event : PortEvent} {mdiff : Bool} {missing : Set Fd}

/-! ## Timer values -/

/-- The draw does not vanish where the span overflows. -/
theorem span_drawn {n drawn : ℕ} (hn : n ≤ 22) (hpos : 1 ≤ drawn)
    (hdrawn : drawn ≤ 2 ^ 15) :
    2 ^ 15 ≤ 2 * 10 ^ 9 * 2 ^ n * drawn % 2 ^ 64 := by
  by_cases hsmall : n ≤ 18
  · have hpow : 2 ^ n ≤ 2 ^ 18 := Nat.pow_le_pow_right (by decide) hsmall
    have hlow : 1 * 1 ≤ 2 ^ n * drawn := Nat.mul_le_mul Nat.one_le_two_pow hpos
    have hhigh : 2 ^ n * drawn ≤ 2 ^ 18 * 2 ^ 15 := Nat.mul_le_mul hpow hdrawn
    rw [Nat.mul_assoc, Nat.mod_eq_of_lt] <;> omega
  · obtain ⟨m, rfl⟩ : ∃ m, n = 19 + m := ⟨n - 19, by omega⟩
    have hfactor : 2 * 10 ^ 9 * 2 ^ (19 + m) * drawn =
        2 ^ 29 * (5 ^ 9 * (2 ^ m * drawn)) := by ring
    have hinner : 5 ^ 9 * (2 ^ m * drawn) % 2 ^ 35 ≠ 0 := by
      intro hzero
      have hcoprime : Nat.Coprime (2 ^ 35) (5 ^ 9) := by decide
      have hdvd : 2 ^ 35 ∣ 2 ^ m * drawn :=
        hcoprime.dvd_of_dvd_mul_left (Nat.dvd_of_mod_eq_zero hzero)
      have hpow : 2 ^ m ≤ 2 ^ 3 := Nat.pow_le_pow_right (by decide) (by omega)
      have hle : 2 ^ m * drawn ≤ 2 ^ 3 * 2 ^ 15 := Nat.mul_le_mul hpow hdrawn
      have hpositive : 0 < 2 ^ m * drawn := Nat.mul_pos (by positivity) hpos
      exact absurd (Nat.le_of_dvd hpositive hdvd)
        (Nat.not_le_of_lt (hle.trans_lt (by decide)))
    have hmod := Nat.mul_mod_mul_left (2 ^ 29) (5 ^ 9 * (2 ^ m * drawn)) (2 ^ 35)
    rw [hfactor, show 2 ^ 64 = 2 ^ 29 * 2 ^ 35 from rfl, hmod]
    have hone := Nat.mul_le_mul_left (2 ^ 29) (Nat.one_le_iff_ne_zero.mpr hinner)
    exact le_trans (by decide) hone

/-- Every delay interval that a Delay_Resp may ask for is one for the timer. -/
theorem tmoRandom_delay {log : ℤ} (hlow : -10 ≤ log) (hhigh : log ≤ 22)
    (random : ℕ) : tmoRandom env random 0 2 log ≠ 0 := by
  have hmod : random % 2 ^ 15 < 2 ^ 15 := Nat.mod_lt _ (by decide)
  have hquotient : ∀ span, 2 ^ 15 ≤ span * (random % 2 ^ 15 + 1) % 2 ^ 64 →
      (0 + span * (random % 2 ^ 15 + 1) % 2 ^ 64 / 2 ^ 15) % 2 ^ 64 ≠ 0 := by
    intro span hspan
    have hlt : span * (random % 2 ^ 15 + 1) % 2 ^ 64 < 2 ^ 64 :=
      Nat.mod_lt _ (by decide)
    omega
  rw [tmoRandom]
  split_ifs with hsign
  · obtain ⟨n, rfl⟩ := Int.eq_ofNat_of_zero_le hsign
    replace hhigh : n ≤ 22 := by omega
    have hpow : 2 ^ n ≤ 2 ^ 22 := Nat.pow_le_pow_right (by decide) hhigh
    have hspan : 2 * 10 ^ 9 * 2 ^ n % 2 ^ 64 = 2 * 10 ^ 9 * 2 ^ n :=
      Nat.mod_eq_of_lt (by omega)
    simp only [longShiftLeft, Int.natAbs_natCast, if_pos (show n < 64 by omega),
      Nat.zero_mul, Nat.zero_mod, hspan]
    exact hquotient _ (span_drawn hhigh (by omega) (by omega))
  · obtain ⟨n, rfl⟩ : ∃ n : ℕ, log = -n := ⟨log.natAbs, by omega⟩
    replace hlow : n ≤ 10 := by omega
    have hpow : 2 ^ n ≤ 2 ^ 10 := Nat.pow_le_pow_right (by decide) hlow
    have hspan : 2 * 10 ^ 9 / 2 ^ 10 ≤ 2 * 10 ^ 9 / 2 ^ n :=
      Nat.div_le_div_left hpow (by positivity)
    have hbound : 2 * 10 ^ 9 / 2 ^ n ≤ 2 * 10 ^ 9 := Nat.div_le_self ..
    simp only [longShiftRight, Int.natAbs_neg, Int.natAbs_natCast,
      if_pos (show n < 64 by omega), Nat.zero_mul, Nat.zero_div]
    refine hquotient _ ?_
    have hlower := Nat.mul_le_mul hspan (show 1 ≤ random % 2 ^ 15 + 1 by omega)
    have hupper := Nat.mul_le_mul hbound
      (show random % 2 ^ 15 + 1 ≤ 2 ^ 15 by omega)
    rw [Nat.mod_eq_of_lt] <;> omega

/-- The intervals of a port give its timers values other than zero. -/
structure IntervalsRun (env : Env) (p : ℕ) : Prop where
  announce : ∀ random, tmoRandom env random (env.config p).announceReceiptTimeout
    (env.config p).announceSpan (env.config p).logAnnounceInterval ≠ 0
  delay : ∀ random,
    tmoRandom env random 0 2 (env.config p).logMinDelayReqInterval ≠ 0
  peerDelay : tmoLog env 1 (env.config p).logMinPdelayReqInterval ≠ 0
  qualification : ∀ stepsRemoved : UInt16, tmoLog env (1 + stepsRemoved.toNat)
    (env.config p).logAnnounceInterval ≠ 0
  sync : tmoLog env 1 (env.config p).logSyncInterval ≠ 0

theorem IntervalsRun.manno (hruns : IntervalsRun env p) :
    tmoLog env 1 (env.config p).logAnnounceInterval ≠ 0 :=
  hruns.qualification 0

/-- The first Announce of a master follows at once. -/
theorem tmoLog_first : tmoLog env 1 (-10) ≠ 0 := by
  rw [tmoLog, if_pos (by decide)]
  decide

/-! ## The timers that a state lives on -/

def livesOn (mechanism : DelayMechanism) (state : PortState) : Fd → Bool
  | .announceTimer =>
      match state with
      | .listening | .passive | .uncalibrated | .slave => true
      | _ => false
  | .delayTimer =>
      if mechanism = .p2p then portIsEnabled state else isSlave state
  | .qualificationTimer => state = .preMaster
  | .mannoTimer | .syncTxTimer => state = .master || state = .grandMaster
  | _ => false

def PtpPort.livesOn (port : PtpPort) : Fd → Bool :=
  Ordinary.livesOn port.delayMechanism port.state

/-- Every timer that the state lives on is armed. -/
def Timed (port : PtpPort) : Prop :=
  ∀ fd, port.livesOn fd → (port.fda fd).armed

/-- Timers live in states of an enabled port only. -/
theorem livesOn_enabled {mechanism : DelayMechanism} {state : PortState} {fd : Fd}
    (hlives : livesOn mechanism state fd) :
    portIsEnabled state ∧ fd.isTimer := by
  cases fd <;> simp only [livesOn] at hlives <;> cases state <;>
    simp_all [portIsEnabled, isSlave, Fd.isTimer]

/-- What a port needs to be timed in its next states, too, but for timers that
are missing. -/
structure Equipped (env : Env) (missing : Set Fd) (port : PtpPort) : Prop where
  started : port.state ≠ .initializing
  slave : env.slaveOnly → port.state ≠ .preMaster
  isOpen : portIsEnabled port.state → ∀ fd, fd.isTimer → (port.fda fd).isOpen
  delay : ∀ random, tmoRandom env random 0 2 port.logMinDelayReqInterval ≠ 0
  timers : ∀ fd ∉ missing, port.livesOn fd → (port.fda fd).armed

/-- The part of a port that its timers depend on. -/
structure Timing where
  state : PortState
  delayMechanism : DelayMechanism
  logMinDelayReqInterval : ℤ
  fda : Fd → Descriptor

def PtpPort.timing (port : PtpPort) : Timing :=
  ⟨port.state, port.delayMechanism, port.logMinDelayReqInterval, port.fda⟩

namespace Equipped

variable {port port' : PtpPort}

theorem timed (hequipped : Equipped env ∅ port) : Timed port :=
  fun fd => hequipped.timers fd (Set.notMem_empty fd)

/-- Being equipped is a matter of the timers and the state. -/
theorem of_timing (htiming : port'.timing = port.timing)
    (hequipped : Equipped env missing port) : Equipped env missing port' := by
  have hstate : port'.state = port.state := congrArg Timing.state htiming
  have hmechanism : port'.delayMechanism = port.delayMechanism :=
    congrArg Timing.delayMechanism htiming
  have hlog : port'.logMinDelayReqInterval = port.logMinDelayReqInterval :=
    congrArg Timing.logMinDelayReqInterval htiming
  have hfda : port'.fda = port.fda := congrArg Timing.fda htiming
  refine ⟨?_, ?_, ?_, ?_, ?_⟩
  · exact hstate ▸ hequipped.started
  · exact hstate ▸ hequipped.slave
  · rw [hstate, hfda]
    exact hequipped.isOpen
  · exact hlog ▸ hequipped.delay
  · rw [PtpPort.livesOn, hstate, hmechanism, hfda]
    exact hequipped.timers

/-- A port that is not enabled lives on no timer. -/
theorem of_disabled (hstarted : port.state ≠ .initializing)
    (hdisabled : ¬portIsEnabled port.state)
    (hdelay : ∀ random, tmoRandom env random 0 2 port.logMinDelayReqInterval ≠ 0) :
    Equipped env missing port where
  started := hstarted
  slave _ hstate := hdisabled (hstate ▸ rfl)
  isOpen henabled := absurd henabled hdisabled
  delay := hdelay
  timers _ _ hlives := absurd (livesOn_enabled hlives).1 hdisabled

/-- Timers that the state does not live on may be missing. -/
theorem weaken {missing' : Set Fd} (hequipped : Equipped env missing port)
    (hspare : ∀ fd ∈ missing, fd ∉ missing' → ¬port.livesOn fd) :
    Equipped env missing' port :=
  { hequipped with
    timers := fun fd hnot hlives => by
      by_cases hmissing : fd ∈ missing
      · exact absurd hlives (hspare fd hmissing hnot)
      · exact hequipped.timers fd hmissing hlives }

/-- A descriptor is changed; a timer stays open. -/
theorem setFda (fd : Fd) {f : Descriptor → Descriptor} {missing' : Set Fd}
    (hequipped : Equipped env missing (s.ports p))
    (hopen : ∀ d : Descriptor, fd.isTimer → d.isOpen → (f d).isOpen)
    (hothers : ∀ fd' ∈ missing, fd' ≠ fd → fd' ∈ missing')
    (harmed : fd ∉ missing' → ∀ d : Descriptor, d.isOpen →
      (s.ports p).livesOn fd → (f d).armed) :
    Equipped env missing' ((setFda p fd f s).ports p) := by
  rw [setFda_same]
  refine ⟨hequipped.started, hequipped.slave, fun henabled fd' htimer => ?_,
    hequipped.delay, fun fd' hnot hlives => ?_⟩
  · have hwas := hequipped.isOpen henabled fd' htimer
    by_cases hsame : fd' = fd
    · subst hsame
      simpa using hopen _ htimer hwas
    · simpa [hsame] using hwas
  · have hlived : (s.ports p).livesOn fd' := hlives
    obtain ⟨henabled, htimer⟩ := livesOn_enabled hlived
    by_cases hsame : fd' = fd
    · subst hsame
      simpa using harmed hnot _ (hequipped.isOpen henabled fd' htimer) hlived
    · have hwas : fd' ∉ missing := fun hmissing =>
        hnot (hothers fd' hmissing hsame)
      simpa [hsame] using hequipped.timers fd' hwas hlived

/-- A timer that is set is missing no more. -/
theorem settime {value : ℕ} (fd : Fd) (hvalue : value ≠ 0)
    (hequipped : Equipped env missing (s.ports p)) :
    Equipped env (missing \ {fd})
      ((Ordinary.setFda p fd (.settime value) s).ports p) := by
  refine hequipped.setFda fd (fun d _ hopen => ?_)
    (fun fd' hmissing hother => ⟨hmissing, hother⟩) (fun _ d hopen _ => ?_)
  · rw [Descriptor.settime, if_pos hopen]
    exact hopen
  · rw [Descriptor.settime, if_pos hopen]
    exact decide_eq_true hvalue

/-- A timer that is cleared is missing. -/
theorem portClrTmo (fd : Fd) (hequipped : Equipped env missing (s.ports p)) :
    Equipped env (insert fd missing) ((portClrTmo p fd s).ports p) := by
  refine hequipped.setFda fd (fun d _ hopen => ?_)
    (fun fd' hmissing _ => Set.mem_insert_of_mem fd hmissing)
    (fun hnot => absurd (Set.mem_insert fd missing) hnot)
  rw [Descriptor.settime, if_pos hopen]
  exact hopen

/-- Those that are cleared are missing, besides those that were. -/
theorem clearTmos (fds : List Fd) {missing' : Set Fd}
    (hequipped : Equipped env missing (s.ports p))
    (hcleared : ∀ fd, fd ∈ fds ∨ fd ∈ missing → fd ∈ missing') :
    Equipped env missing' ((clearTmos p fds s).ports p) := by
  induction fds generalizing s missing with
  | nil =>
    exact hequipped.weaken fun fd hmissing hnot =>
      absurd (hcleared fd (Or.inr hmissing)) hnot
  | cons fd fds ih =>
    refine ih (hequipped.portClrTmo fd) fun fd' hfd' => hcleared fd' ?_
    rcases hfd' with hrest | rfl | hmissing
    · exact Or.inl (List.mem_cons_of_mem fd hrest)
    · exact Or.inl List.mem_cons_self
    · exact Or.inr hmissing

section

variable (hruns : IntervalsRun env p)
variable (hequipped : Equipped env missing (s.ports p))

include hruns hequipped

theorem portSetAnnounceTmo :
    Equipped env (missing \ {.announceTimer})
      ((portSetAnnounceTmo env p s).ports p) :=
  @settime env p (called s) missing _ .announceTimer (hruns.announce _) hequipped

theorem portSetDelayTmo :
    Equipped env (missing \ {.delayTimer})
      ((portSetDelayTmo env p s).ports p) := by
  rw [Ordinary.portSetDelayTmo]
  split
  · exact hequipped.settime .delayTimer hruns.peerDelay
  · exact @settime env p (called s) missing _ .delayTimer (hequipped.delay _)
      hequipped

theorem portSetQualificationTmo :
    Equipped env (missing \ {.qualificationTimer})
      ((portSetQualificationTmo env p s).ports p) :=
  hequipped.settime .qualificationTimer (hruns.qualification _)

theorem setMannoTmo :
    Equipped env (missing \ {.mannoTimer}) ((setMannoTmo env p s).ports p) :=
  hequipped.settime .mannoTimer hruns.manno

theorem setSyncTxTmo :
    Equipped env (missing \ {.syncTxTimer}) ((setSyncTxTmo env p s).ports p) :=
  hequipped.settime .syncTxTimer hruns.sync

end

end Equipped

/-! ## Changes of state -/

/-- A timer that a state lives on is not missing once the state has been entered. -/
theorem Equipped.entered {port : PtpPort} {mechanism : DelayMechanism}
    {state : PortState} (hequipped : Equipped env missing port)
    (hmechanism : port.delayMechanism = mechanism) (hstate : port.state = state)
    (hspare : ∀ fd ∈ missing, livesOn mechanism state fd = false) :
    Equipped env ∅ port := by
  refine hequipped.weaken fun fd hmissing _ hlives => ?_
  rw [PtpPort.livesOn, hmechanism, hstate, hspare fd hmissing] at hlives
  exact Bool.false_ne_true hlives

theorem flushLastSync_timing :
    ((flushLastSync p s).ports p).timing = (s.ports p).timing := by
  rw [flushLastSync_same]
  rfl

theorem flushDelayReq_timing :
    ((flushDelayReq p s).ports p).timing = (s.ports p).timing := by
  rw [flushDelayReq_same]
  rfl

theorem flushPeerDelay_timing :
    ((flushPeerDelay p s).ports p).timing = (s.ports p).timing := by
  rw [flushPeerDelay_same]
  rfl

/-- Out of service no timer can be missing. -/
theorem portOpDisable_equipped {missing' : Set Fd}
    (hdisabled : ¬portIsEnabled (s.ports p).state)
    (hequipped : Equipped env missing (s.ports p)) :
    Equipped env missing' ((portOpDisable p s).ports p) := by
  rw [portOpDisable_same]
  exact .of_disabled hequipped.started hdisabled hequipped.delay

/-- On entering a state, an E2E port sets all that it needs. -/
theorem e2eEnter_equipped (hruns : IntervalsRun env p) {state : PortState}
    (hmechanism : (s.ports p).delayMechanism ≠ .p2p)
    (hstate : (s.ports p).state = state)
    (hequipped : Equipped env Set.univ (s.ports p)) :
    Equipped env ∅ ((e2eEnter env p state s).ports p) := by
  have hmech : ((e2eEnter env p state s).ports p).delayMechanism =
      (s.ports p).delayMechanism := (Forgets.e2eEnter state).delayMechanism
  have hstays : ((e2eEnter env p state s).ports p).state = state :=
    (Forgets.e2eEnter state).state.trans hstate
  have hend : ∀ {missing : Set Fd},
      Equipped env missing ((e2eEnter env p state s).ports p) →
      (∀ fd ∈ missing, livesOn (s.ports p).delayMechanism state fd = false) →
      Equipped env ∅ ((e2eEnter env p state s).ports p) :=
    fun hequipped => hequipped.entered hmech hstays
  generalize (s.ports p).delayMechanism = mechanism at hmechanism hend
  cases state with
  | initializing => exact absurd hstate hequipped.started
  | faulty | disabled =>
    exact portOpDisable_equipped (by simp [hstate, portIsEnabled]) hequipped
  | listening | passive =>
    refine hend (hequipped.portSetAnnounceTmo hruns) fun fd hfd => ?_
    cases fd <;> simp_all [livesOn, isSlave]
  | preMaster =>
    refine hend (hequipped.portSetQualificationTmo hruns) fun fd hfd => ?_
    cases fd <;> simp_all [livesOn, isSlave]
  | master | grandMaster =>
    refine hend ((hequipped.settime .mannoTimer tmoLog_first).setSyncTxTmo hruns)
      fun fd hfd => ?_
    cases fd <;> simp_all [livesOn, isSlave]
  | uncalibrated =>
    refine hend ((((hequipped.of_timing flushLastSync_timing).of_timing
      flushDelayReq_timing).portSetAnnounceTmo hruns).portSetDelayTmo hruns)
      fun fd hfd => ?_
    cases fd <;> simp_all [livesOn, isSlave]
  | slave =>
    refine hend ((hequipped.portSetAnnounceTmo hruns).portSetDelayTmo hruns)
      fun fd hfd => ?_
    cases fd <;> simp_all [livesOn, isSlave]

/-- A P2P port keeps its delay timer, which only LISTENING sets. -/
theorem p2pEnter_equipped (hruns : IntervalsRun env p) {state : PortState}
    (hmechanism : (s.ports p).delayMechanism = .p2p)
    (hstate : (s.ports p).state = state)
    (hdelay : portIsEnabled state → state ≠ .listening → .delayTimer ∉ missing)
    (hequipped : Equipped env missing (s.ports p)) :
    Equipped env ∅ ((p2pEnter env p state s).ports p) := by
  have hmech : ((p2pEnter env p state s).ports p).delayMechanism = .p2p :=
    (Forgets.p2pEnter state).delayMechanism.trans hmechanism
  have hstays : ((p2pEnter env p state s).ports p).state = state :=
    (Forgets.p2pEnter state).state.trans hstate
  have hend : ∀ {missing : Set Fd},
      Equipped env missing ((p2pEnter env p state s).ports p) →
      (∀ fd ∈ missing, livesOn .p2p state fd = false) →
      Equipped env ∅ ((p2pEnter env p state s).ports p) :=
    fun hequipped => hequipped.entered hmech hstays
  cases state with
  | initializing => exact absurd hstate hequipped.started
  | faulty | disabled =>
    exact portOpDisable_equipped (by simp [hstate, portIsEnabled]) hequipped
  | listening =>
    refine hend ((hequipped.portSetAnnounceTmo hruns).portSetDelayTmo hruns)
      fun fd hfd => ?_
    cases fd <;> simp_all [livesOn]
  | preMaster =>
    replace hdelay := hdelay rfl (by decide)
    refine hend (hequipped.portSetQualificationTmo hruns) fun fd hfd => ?_
    cases fd <;> simp_all [livesOn]
  | master | grandMaster =>
    replace hdelay := hdelay rfl (by decide)
    refine hend ((hequipped.settime .mannoTimer tmoLog_first).setSyncTxTmo hruns)
      fun fd hfd => ?_
    cases fd <;> simp_all [livesOn]
  | passive | slave =>
    replace hdelay := hdelay rfl (by decide)
    refine hend (hequipped.portSetAnnounceTmo hruns) fun fd hfd => ?_
    cases fd <;> simp_all [livesOn]
  | uncalibrated =>
    replace hdelay := hdelay rfl (by decide)
    refine hend (((hequipped.of_timing flushLastSync_timing).of_timing
      flushPeerDelay_timing).portSetAnnounceTmo hruns) fun fd hfd => ?_
    cases fd <;> simp_all [livesOn]

/-- A P2P port does, if its delay timer was not missing. -/
theorem transition_equipped (hruns : IntervalsRun env p)
    (hdelay : (s.ports p).delayMechanism = .p2p → portIsEnabled (s.ports p).state →
      (s.ports p).state ≠ .listening → .delayTimer ∉ missing)
    (hequipped : Equipped env missing (s.ports p)) :
    Equipped env ∅ ((transition env p s).ports p) := by
  rw [transition]
  split
  · rename_i hmechanism
    rw [p2pTransition_eq]
    refine p2pEnter_equipped hruns
      ((Forgets.clearTmos stateTimers).delayMechanism.trans hmechanism)
      (Forgets.clearTmos stateTimers).state ?_
      (hequipped.clearTmos stateTimers fun fd hfd => hfd)
    intro henabled hlistening hmissing
    rcases hmissing with hcleared | hmissing
    · exact absurd hcleared (by decide)
    · exact hdelay hmechanism henabled hlistening hmissing
  · rename_i hmechanism
    rw [e2eTransition_eq]
    refine e2eEnter_equipped hruns (fun hp2p => hmechanism ?_)
      (Forgets.clearTmos _).state
      (hequipped.clearTmos _ fun fd _ => Set.mem_univ fd)
    rw [← hp2p, (Forgets.clearTmos _).delayMechanism]

/-! ## Dispatch -/

/-- The event starts a P2P port anew that listens, and so stays in its state. -/
def Relistens (env : Env) (p : ℕ) (event : PortEvent) (mdiff : Bool)
    (port : PtpPort) : Prop :=
  port.delayMechanism = .p2p ∧ port.state = .listening ∧
    nextState env p event mdiff port = .initializing

theorem stateMachine_slaveOnly {state : PortState} (hslave : env.slaveOnly)
    (hstate : state ≠ .preMaster) :
    env.stateMachine state event mdiff ≠ .preMaster := by
  rw [Env.stateMachine, if_pos hslave]
  cases state <;> cases event <;> cases mdiff <;> simp_all [ptpSlaveFsm]

/-- Only the start of a port leads back into service. -/
theorem stateMachine_disabled {state : PortState} (hstarted : state ≠ .initializing)
    (hdisabled : ¬portIsEnabled state) :
    ¬portIsEnabled (env.stateMachine state event mdiff) := by
  rw [Env.stateMachine]
  split <;> cases state <;> cases event <;>
    simp_all [ptpFsm, ptpSlaveFsm, portIsEnabled]

theorem portInitialize_opens (hruns : IntervalsRun env p)
    (hready : env.initOutcome s.calls = .ready) :
    (∀ fd, fd.isTimer → (((portInitialize env p s).2.ports p).fda fd).isOpen) ∧
      (((portInitialize env p s).2.ports p).fda .announceTimer).armed := by
  have hopened : ∀ fd, fd.isTimer →
      ((openDescriptors (s.ports p).fda) fd).isOpen := by
    intro fd htimer
    cases fd <;> first | rfl | exact absurd htimer (by decide)
  have hset : ∀ clock : PtpClock,
      (∀ fd, fd.isTimer → ((clock.ports p).fda fd).isOpen) →
      (∀ fd, fd.isTimer →
        (((portSetAnnounceTmo env p clock).ports p).fda fd).isOpen) ∧
        (((portSetAnnounceTmo env p clock).ports p).fda .announceTimer).armed := by
    intro clock hopen
    rw [portSetAnnounceTmo, setTmoRandom_same]
    refine ⟨fun fd htimer => ?_, ?_⟩
    · by_cases hsame : fd = .announceTimer
      · subst hsame
        simp [Descriptor.settime, hopen .announceTimer rfl]
      · simpa [hsame] using hopen fd htimer
    · simp [Descriptor.settime, hopen .announceTimer rfl, hruns.announce]
  have hdone := hset (modifyPort p
    (fun port => { port with fda := openDescriptors port.fda })
    (modifyPort p (portResetFields env p) (called s))) (by
      rw [modifyPort_same, modifyPort_same]
      exact hopened)
  rw [portInitialize]
  simp only [hready]
  rw [openRtnl]
  split
  · exact hdone
  · rw [setFda_same]
    refine ⟨fun fd htimer => ?_, ?_⟩
    · have hother : fd ≠ .rtnl := by
        rintro rfl
        exact absurd htimer (by decide)
      simpa [hother] using hdone.1 fd htimer
    · simpa using hdone.2

theorem restart_forgets :
    Forgets (portResetFields env p (s.ports p)) ((restart env p s).2.ports p) := by
  rw [restart]
  refine .trans ?_ portInitialize_forgets
  split
  · rw [portOpDisable_same]
    rfl
  · exact .refl _

/-- A port that is started has its descriptors, and waits for an Announce. -/
theorem restart_opens (hruns : IntervalsRun env p)
    (hready : env.initOutcome s.calls = .ready) :
    (∀ fd, fd.isTimer → (((restart env p s).2.ports p).fda fd).isOpen) ∧
      (((restart env p s).2.ports p).fda .announceTimer).armed := by
  rw [restart]
  refine portInitialize_opens hruns ?_
  split
  · rwa [portOpDisable_calls]
  · exact hready

theorem setState_forgets (next : PortState) :
    (setState p next s).ports p = { s.ports p with state := next } :=
  modifyPort_same _

/-- A port that is started is equipped for its new state. -/
theorem enterState_started_equipped (hruns : IntervalsRun env p)
    (hnext : nextState env p event mdiff (s.ports p) = .initializing)
    (hrelistens : ¬Relistens env p event mdiff (s.ports p)) :
    Equipped env ∅ ((enterState env p event mdiff s).2.ports p) := by
  have hready := @restart_ready env p s
  have hforgets := @restart_forgets env p s
  have hopens := @restart_opens env p s hruns
  rw [enterState_started hnext]
  generalize restart env p s = started at hready hforgets hopens ⊢
  obtain ⟨next, s'⟩ := started
  dsimp only at hready hforgets hopens ⊢
  have hdelay : ∀ random,
      tmoRandom env random 0 2 (s'.ports p).logMinDelayReqInterval ≠ 0 := by
    rw [hforgets.logMinDelayReqInterval]
    exact hruns.delay
  have hcases : next = .listening ∧ env.initOutcome s.calls = .ready ∨
      next = .faulty := by
    rw [hready]
    split
    · exact Or.inl ⟨rfl, ‹_›⟩
    · exact Or.inr rfl
  split_ifs with hsame
  · rcases hcases with ⟨hlistening, houtcome⟩ | hfaulty
    · obtain ⟨hopen, hannounce⟩ := hopens houtcome
      have hstate := hsame.symm.trans hlistening
      have hmechanism : (s'.ports p).delayMechanism ≠ .p2p := fun hp2p =>
        hrelistens ⟨hforgets.delayMechanism.symm.trans hp2p,
          hforgets.state.symm.trans hstate, hnext⟩
      refine ⟨by simp [hstate], fun _ => by simp [hstate], fun _ => hopen, hdelay,
        fun fd _ hlives => ?_⟩
      rw [PtpPort.livesOn, hstate] at hlives
      cases fd <;> simp_all [livesOn, isSlave]
    · have hstate := hsame.symm.trans hfaulty
      exact .of_disabled (by simp [hstate]) (by simp [hstate, portIsEnabled]) hdelay
  · refine transition_equipped hruns ?_ (?_ : Equipped env Set.univ _)
    · rw [setState_forgets]
      rintro - henabled hlistening
      rcases hcases with ⟨rfl, -⟩ | rfl
      · exact absurd rfl hlistening
      · exact absurd henabled Bool.false_ne_true
    · rw [setState_forgets]
      refine ⟨?_, fun _ => ?_, fun henabled => ?_, hdelay,
        fun fd hnot => absurd (Set.mem_univ fd) hnot⟩
      · rcases hcases with ⟨rfl, -⟩ | rfl <;> simp
      · rcases hcases with ⟨rfl, -⟩ | rfl <;> simp
      · rcases hcases with ⟨-, houtcome⟩ | rfl
        · exact (hopens houtcome).1
        · exact absurd henabled Bool.false_ne_true

/-- An event keeps the port equipped, unless it starts a listening P2P port anew.
A timer may be missing where the event changes the state. -/
theorem enterState_equipped (hruns : IntervalsRun env p)
    (hrelistens : ¬Relistens env p event mdiff (s.ports p))
    (hmissing : missing = ∅ ∨ .delayTimer ∉ missing ∧
      env.stateMachine (s.ports p).state event mdiff ≠ (s.ports p).state)
    (hequipped : Equipped env missing (s.ports p)) :
    Equipped env ∅ ((enterState env p event mdiff s).2.ports p) := by
  by_cases hnext : nextState env p event mdiff (s.ports p) = .initializing
  · exact enterState_started_equipped hruns hnext hrelistens
  have hmachine := nextState_eq hnext
  by_cases hsame : env.stateMachine (s.ports p).state event mdiff =
      (s.ports p).state
  · rw [enterState_same hnext hsame]
    rcases hmissing with rfl | ⟨-, hchanged⟩
    · exact hequipped
    · exact absurd hsame hchanged
  have hdelay : .delayTimer ∉ missing := by
    rcases hmissing with rfl | ⟨hdelay, -⟩
    · exact Set.notMem_empty _
    · exact hdelay
  have henabled : portIsEnabled
      (env.stateMachine (s.ports p).state event mdiff) →
      portIsEnabled (s.ports p).state := fun hserves => by
    by_contra hdisabled
    exact stateMachine_disabled hequipped.started hdisabled hserves
  rw [enterState_changed hnext hsame]
  refine @transition_equipped env p _
    {fd | ¬(fd = .delayTimer ∧ (s.ports p).delayMechanism = .p2p)} hruns ?_ ?_
  · rw [setState_forgets]
    exact fun hp2p _ _ hnot => hnot ⟨rfl, hp2p⟩
  · rw [setState_forgets]
    refine ⟨?_, fun hslave => ?_, fun hserves => ?_, hequipped.delay,
      fun fd hnot hlives => ?_⟩
    · exact hmachine ▸ hnext
    · exact stateMachine_slaveOnly hslave (hequipped.slave hslave)
    · exact hequipped.isOpen (henabled hserves)
    · obtain ⟨rfl, hp2p⟩ := not_not.mp hnot
      refine hequipped.timers _ hdelay ?_
      rw [PtpPort.livesOn, livesOn, if_pos hp2p]
      exact henabled (livesOn_enabled hlives).1

/-- A dispatch leaves nothing missing, unless a P2P port listens again. -/
theorem bcDispatch_equipped (hruns : IntervalsRun env p)
    (hrelistens : ¬Relistens env p event mdiff (s.ports p))
    (hmissing : missing = ∅ ∨ .delayTimer ∉ missing ∧
      env.stateMachine (s.ports p).state event mdiff ≠ (s.ports p).state)
    (hequipped : Equipped env missing (s.ports p)) :
    Equipped env ∅ ((bcDispatch env p event mdiff s).ports p) := by
  have hentered := enterState_equipped hruns hrelistens hmissing hequipped
  rw [bcDispatch]
  generalize enterState env p event mdiff s = entered at hentered ⊢
  obtain ⟨changed, s'⟩ := entered
  dsimp only at hentered ⊢
  split_ifs with hswitch
  · refine @enterState_equipped env p _ .faultDetected false ∅ hruns ?_
      (Or.inl rfl) ?_
    · rintro ⟨-, hlistening, -⟩
      rw [setLastFault, modifyPort_same] at hlistening
      exact absurd (hswitch.2.2.symm.trans hlistening) (by decide)
    · refine hentered.of_timing ?_
      rw [setLastFault, modifyPort_same]
      rfl
  · exact hentered
  · exact hentered

/-! ## Events -/

theorem modifyPort_timing {f : PtpPort → PtpPort}
    (hf : ∀ port, (f port).timing = port.timing) :
    ((modifyPort p f s).ports p).timing = (s.ports p).timing := by
  rw [modifyPort_same]
  exact hf _

theorem Notes.timing {f : PtpPort → PtpPort} (hnotes : Notes f) (port : PtpPort) :
    (f port).timing = port.timing := by
  rw [hnotes.rest]
  rfl

theorem clearBest_timing :
    ((clearBest p s).ports p).timing = (s.ports p).timing := by
  rw [clearBest]
  split
  · rfl
  · rw [fcClear]
    split
    · rfl
    · simp [PtpPort.timing]

theorem delayReqPrune_timing :
    ((delayReqPrune env p s).ports p).timing = (s.ports p).timing := by
  simp [delayReqPrune, PtpPort.timing]

theorem renewTransport_equipped (hequipped : Equipped env missing (s.ports p)) :
    Equipped env missing ((renewTransport env p s).2.ports p) := by
  rw [renewTransport]
  split
  · exact hequipped
  · have hsocket : ∀ {clock : PtpClock} {f : Descriptor → Descriptor} (fd : Fd),
        fd.isTimer = false → Equipped env missing (clock.ports p) →
        Equipped env missing ((setFda p fd f clock).ports p) := by
      intro clock f fd hsocket hequipped
      refine hequipped.setFda fd (fun _ htimer => ?_) (fun _ hmissing _ => hmissing)
        (fun _ _ _ hlives => ?_)
      · exact absurd (hsocket ▸ htimer) Bool.false_ne_true
      · exact absurd (hsocket ▸ (livesOn_enabled hlives).2) Bool.false_ne_true
    dsimp only
    exact hsocket .event rfl (@hsocket (called s) _ .general rfl hequipped)

/-- A port that detects a peer takes up the peer delay mechanism. -/
theorem switchToP2p_equipped (hruns : IntervalsRun env p)
    (hequipped : Equipped env ∅ (s.ports p)) :
    Equipped env ∅ ((switchToP2p env p s).ports p) := by
  have hswitched : Equipped env {.delayTimer} ((modifyPort p (fun port =>
      { port with delayMechanism := .p2p }) s).ports p) := by
    rw [modifyPort_same]
    refine ⟨hequipped.started, hequipped.slave, hequipped.isOpen, hequipped.delay,
      fun fd hnot hlives => hequipped.timers fd (Set.notMem_empty fd) ?_⟩
    cases fd <;> first | exact hlives | exact absurd rfl hnot
  refine (hswitched.portSetDelayTmo hruns).weaken fun fd hfd hnot => ?_
  exact absurd hfd.1 hfd.2

/-- A fault of the switch to another clock does not have it listen. -/
theorem not_relistens_of_switchPhc (htype : (s.ports p).lastFaultType = .switchPhc) :
    ¬Relistens env p .faultDetected false (s.ports p) := by
  rintro ⟨-, hlistening, hnext⟩
  have hmachine : env.stateMachine .listening .faultDetected false = .faulty := by
    rw [Env.stateMachine]
    split <;> rfl
  have hstays : clearFaultAsap (faultInterval env p .switchPhc) = false := rfl
  rw [nextState, hlistening, hmachine, htype] at hnext
  simp [hstays] at hnext

/-- A port that listens is started anew by a fault only. -/
theorem not_relistens_of_not_disables (hevent : ¬disables event) :
    ¬Relistens env p event mdiff (s.ports p) := by
  rintro ⟨-, hlistening, hnext⟩
  have hserves : portIsEnabled (env.stateMachine (s.ports p).state event mdiff) :=
    stateMachine_enabled hevent (by rw [hlistening]; rfl)
  rw [portIsEnabled_of_initializing hnext] at hserves
  exact Bool.false_ne_true hserves

/-- No effect stops a timer that is needed. -/
theorem effect_equipped (hruns : IntervalsRun env p)
    (heffect : Effect env p linkFault manages s s')
    (hequipped : Equipped env ∅ (s.ports p)) : Equipped env ∅ (s'.ports p) := by
  have hset : ∀ {port : PtpPort} {fd : Fd},
      Equipped env (∅ \ {fd}) port → Equipped env ∅ port :=
    fun hequipped => hequipped.weaken fun _ hfd _ => absurd hfd.1 (Set.notMem_empty _)
  cases heffect with
  | called => exact hequipped
  | allocate => exact hequipped
  | putHeld => exact hequipped
  | announceTmo => exact hset (hequipped.portSetAnnounceTmo hruns)
  | delayTmo => exact hset (hequipped.portSetDelayTmo hruns)
  | mannoTmo => exact hset (hequipped.setMannoTmo hruns)
  | syncTxTmo => exact hset (hequipped.setSyncTxTmo hruns)
  | note hnotes => exact hequipped.of_timing (modifyPort_timing hnotes.timing)
  | putPeerDelayReq => exact hequipped.of_timing (by simp [PtpPort.timing])
  | putPeerDelayResp => exact hequipped.of_timing (by simp [PtpPort.timing])
  | putPeerDelayFup => exact hequipped.of_timing (by simp [PtpPort.timing])
  | delayReqPrune => exact hequipped.of_timing delayReqPrune_timing
  | keepPeerDelayReq =>
    exact hequipped.of_timing (by simp [keepPeerDelayReq, PtpPort.timing])
  | keepDelayReq =>
    exact hequipped.of_timing (by simp [keepDelayReq, PtpPort.timing])
  | dropDelayReq =>
    refine hequipped.of_timing ?_
    rw [dropDelayReq, modifyPort_same]
    rfl
  | usePeerDelayReq =>
    refine hequipped.of_timing ?_
    rw [putPeerDelayReq_same]
    rfl
  | logMinDelayReq hlow hhigh =>
    rw [setLogMinDelayReqInterval, modifyPort_same]
    exact { hequipped with delay := tmoRandom_delay hlow hhigh }
  | switchToP2p => exact switchToP2p_equipped hruns hequipped
  | storePeerDelayResp =>
    exact hequipped.of_timing
      (by simp [storePeerDelayResp, msgGet, PtpPort.timing])
  | storePeerDelayFup =>
    exact hequipped.of_timing
      (by simp [storePeerDelayFup, msgGet, PtpPort.timing])
  | clearBest => exact hequipped.of_timing clearBest_timing
  | renewTransport => exact renewTransport_equipped hequipped
  | manage _ _ setting => cases setting <;> exact hequipped
  | askDecision => exact hequipped
  | fault _ htype =>
    exact bcDispatch_equipped hruns (not_relistens_of_switchPhc htype) (Or.inl rfl)
      hequipped

theorem addForeignMaster_timing (m : Message) :
    ((addForeignMaster env p m s).2.ports p).timing = (s.ports p).timing := by
  rw [addForeignMaster]
  split
  · dsimp only
    split_ifs
    · simp [addRecord, PtpPort.timing]
    · rfl
  · simp [insertAnnounce, msgGet, PtpPort.timing]

theorem updateCurrentMaster_equipped (hruns : IntervalsRun env p) (m : Message)
    (hequipped : Equipped env ∅ (s.ports p)) :
    Equipped env ∅ ((updateCurrentMaster env p m s).2.ports p) := by
  rw [updateCurrentMaster]
  split
  · exact hequipped
  split
  · exact hequipped.of_timing (addForeignMaster_timing m)
  · dsimp only
    have hports : ((if (s.ports p).state ≠ .passive then setTimeProperties m s
        else s).ports p) = s.ports p := by
      split_ifs <;> rfl
    generalize (if (s.ports p).state ≠ .passive then setTimeProperties m s
      else s) = s₁ at hports ⊢
    rw [← hports] at hequipped
    have htimer : Equipped env ∅ ((portSetAnnounceTmo env p s₁).ports p) :=
      (hequipped.portSetAnnounceTmo hruns).weaken fun _ hfd _ =>
        absurd hfd.1 (Set.notMem_empty _)
    exact htimer.of_timing (by simp [insertAnnounce, msgGet, PtpPort.timing])

theorem announce_equipped (hruns : IntervalsRun env p) (m : Message)
    (hequipped : Equipped env ∅ (s.ports p)) :
    Equipped env ∅
      ((noteAnnounce p (portMsgProAnnounce env p m s)).2.ports p) := by
  have hannounce : Equipped env ∅ ((portMsgProAnnounce env p m s).2.ports p) := by
    rw [portMsgProAnnounce]
    split_ifs
    · exact hequipped
    · cases (s.ports p).state with
      | initializing | faulty | disabled => exact hequipped
      | listening | preMaster | master | grandMaster =>
        exact hequipped.of_timing (addForeignMaster_timing m)
      | passive | uncalibrated | slave =>
        exact updateCurrentMaster_equipped hruns m hequipped
  refine hannounce.of_timing ?_
  rw [noteAnnounce, modifyPort_same]
  rfl

theorem portSynchronize_equipped (hruns : IntervalsRun env p) (sync : Message)
    (followUp : Option Message) (hequipped : Equipped env ∅ (s.ports p)) :
    Equipped env ∅ ((portSynchronize env p sync followUp s).ports p) := by
  have hreceipt : Equipped env ∅ ((portSetSyncRxTmo env p s).ports p) := by
    refine hequipped.setFda .syncRxTimer (fun d _ hopen => ?_)
      (fun _ hmissing _ => hmissing) (fun _ _ _ hlives => absurd hlives (by simp
        [PtpPort.livesOn, livesOn]))
    rw [Descriptor.settime, if_pos hopen]
    exact hopen
  have hdispatch : ∀ event, ofServo event → Equipped env ∅
      ((bcDispatch env p event false (called (recordSynchronized sync followUp
        (portSetSyncRxTmo env p s)))).ports p) := by
    intro event hservo
    refine bcDispatch_equipped hruns (not_relistens_of_not_disables ?_) (Or.inl rfl)
      hreceipt
    cases event <;> simp_all [ofServo, disables]
  rw [portSynchronize]
  cases env.servo _ with
  | unlocked => exact hdispatch _ rfl
  | locked => exact hdispatch _ rfl
  | jump =>
    refine (hdispatch .synchronizationFault rfl).of_timing ?_
    dsimp only
    rw [putPeerDelayReq_same, flushDelayReq_same]
    rfl

theorem portSyfufsm_equipped (hruns : IntervalsRun env p) (event : SyfuEvent)
    (m : Message) (hequipped : Equipped env ∅ (s.ports p)) :
    Equipped env ∅ ((portSyfufsm env p event m s).ports p) := by
  have hstore : ∀ syfu, Equipped env ∅ ((storeSyncfup p syfu m s).ports p) := by
    intro syfu
    refine hequipped.of_timing ?_
    rw [storeSyncfup, modifyPort_same, msgGet]
    dsimp only
    split_ifs
    · rfl
    · rw [msgPutAll_ports]
      rfl
  have huse : ∀ sync followUp,
      Equipped env ∅ ((useSyncfup env p sync followUp s).ports p) := by
    intro sync followUp
    refine (portSynchronize_equipped hruns sync (some followUp) hequipped).of_timing
      ?_
    rw [useSyncfup, putSyncfup, modifyPort_same, msgPutAll_ports]
    rfl
  unfold portSyfufsm
  split
  · exact hstore .haveSync
  · exact hstore .haveFup
  · exact huse ..
  · exact huse ..
  · exact hequipped

/-- Neither does a message. -/
theorem handled_equipped {ok : Message → PtpClock → Prop}
    (hruns : IntervalsRun env p)
    (hhandled : Handled env p linkFault manages ok s s')
    (hequipped : Equipped env ∅ (s.ports p)) : Equipped env ∅ (s'.ports p) := by
  cases hhandled with
  | effect heffect => exact effect_equipped hruns heffect hequipped
  | announce => exact announce_equipped hruns _ hequipped
  | @sync m =>
    rw [portMsgProSync]
    split_ifs
    · exact hequipped
    · exact hequipped
    · exact (portSynchronize_equipped hruns m none hequipped).of_timing
        flushLastSync_timing
    · exact portSyfufsm_equipped hruns _ m hequipped
  | @followUp m =>
    rw [portMsgProFollowUp]
    split_ifs
    · exact hequipped
    · exact hequipped
    · exact hequipped
    · exact portSyfufsm_equipped hruns _ m hequipped

theorem does_equipped {ok : Message → PtpClock → Prop} (hruns : IntervalsRun env p)
    (hdoes : Does env p linkFault manages ok s s')
    (hequipped : Equipped env ∅ (s.ports p)) : Equipped env ∅ (s'.ports p) :=
  @Does.keeps env p s s' linkFault manages ok
    (fun s => Equipped env ∅ (s.ports p))
    (fun _ _ hhandled => handled_equipped hruns hhandled) hdoes hequipped

/-- A timer that expires is missing until it is set again. -/
theorem expire_equipped (fd : Fd) (hequipped : Equipped env ∅ (s.ports p)) :
    Equipped env {fd} ((expire p fd s).ports p) := by
  rw [expire]
  split
  · exact hequipped.setFda fd (fun _ _ hopen => hopen)
      (fun fd' hfd' => absurd hfd' (Set.notMem_empty fd'))
      (fun hnot => absurd rfl hnot)
  · exact hequipped.weaken fun fd' hfd' => absurd hfd' (Set.notMem_empty fd')

/-- No state lives on this timer. -/
theorem Equipped.spare {port : PtpPort} {fd : Fd} {missing' : Set Fd}
    (hequipped : Equipped env {fd} port)
    (hspare : ∀ mechanism state, livesOn mechanism state fd = false) :
    Equipped env missing' port := by
  refine hequipped.weaken fun fd' hfd' _ hlives => ?_
  rw [show fd' = fd from hfd', PtpPort.livesOn, hspare] at hlives
  exact Bool.false_ne_true hlives

theorem Equipped.restored {port : PtpPort} {fd : Fd}
    (hequipped : Equipped env ({fd} \ {fd}) port) : Equipped env ∅ port :=
  hequipped.weaken fun _ hfd _ => absurd hfd.1 hfd.2

/-- The receipt timer is set again at once. -/
theorem receiptTimeout_equipped (hruns : IntervalsRun env p)
    (hequipped : Equipped env {.announceTimer} (s.ports p)) :
    Equipped env ∅ ((receiptTimeout env p s).2.ports p) := by
  have hset := (hequipped.of_timing clearBest_timing).portSetAnnounceTmo hruns
  have hpruned := hset.restored.of_timing (@delayReqPrune_timing env p _)
  rw [receiptTimeout]
  split_ifs
  · exact renewTransport_equipped hpruned
  · exact hpruned

/-- Handling a timer sets it again; only the qualification timer is left to the
dispatch of its event. -/
theorem bcEvent_equipped (hruns : IntervalsRun env p) {fd : Fd}
    (hother : fd ≠ .qualificationTimer) (hequipped : Equipped env ∅ (s.ports p)) :
    Equipped env ∅ ((bcEvent env p fd (expire p fd s)).2.ports p) := by
  have hexpired := expire_equipped fd hequipped
  generalize hs : expire p fd s = s₁ at hexpired ⊢
  have hdoes : ∀ {before after : PtpClock},
      Does env p True True (fun _ _ => True) before after →
      Equipped env ∅ (before.ports p) → Equipped env ∅ (after.ports p) :=
    does_equipped hruns
  cases fd with
  | announceTimer => exact receiptTimeout_equipped hruns hexpired
  | syncRxTimer =>
    exact receiptTimeout_equipped hruns (hexpired.spare fun _ _ => rfl)
  | delayTimer =>
    exact hdoes (Does.refl _).delayReqPrune.portDelayRequest
      (hexpired.portSetDelayTmo hruns).restored
  | qualificationTimer => exact absurd rfl hother
  | mannoTimer =>
    exact hdoes (Does.refl _).portTxAnnounce (hexpired.setMannoTmo hruns).restored
  | syncTxTimer =>
    exact hdoes (Does.refl _).portTxSync (hexpired.setSyncTxTmo hruns).restored
  | unicastReqTimer | unicastSrvTimer =>
    exact hdoes ((Does.refl _).called.sendAll 1) (hexpired.spare fun _ _ => rfl)
  | rtnl | event | general =>
    exact hdoes (.bcEvent _ (fun _ _ _ _ => trivial) (fun _ => trivial)
      fun _ => trivial) (hexpired.spare fun _ _ => rfl)

/-- The condition on a task: no event starts a listening P2P port anew. -/
def KeepsDelayTimer (env : Env) (task : Task) (s : PtpClock) : Prop :=
  match task with
  | .fd p fd _ =>
      ¬Relistens env p (bcEvent env p fd (expire p fd s)).1 false
        ((bcEvent env p fd (expire p fd s)).2.ports p)
  | _ => True

instance {port : PtpPort} : Decidable (Relistens env p event mdiff port) :=
  inferInstanceAs (Decidable (_ ∧ _ ∧ _))

instance (task : Task) : Decidable (KeepsDelayTimer env task s) :=
  match task with
  | .fd .. => inferInstanceAs (Decidable (¬_))
  | .fault _ => inferInstanceAs (Decidable True)
  | .uds .. => inferInstanceAs (Decidable True)
  | .finish => inferInstanceAs (Decidable True)

/-- After an event and its dispatch every timer is back. -/
theorem portEvent_equipped (hruns : IntervalsRun env p) {fd : Fd} {touched : ℕ}
    (hkeeps : KeepsDelayTimer env (.fd p fd touched) s)
    (hequipped : Equipped env ∅ (s.ports p)) :
    Equipped env ∅ ((portEvent env p fd s).ports p) := by
  obtain ⟨s', hs', -, hevent⟩ := @portEvent_eq env p s fd
  rw [KeepsDelayTimer] at hkeeps
  have hports : s'.ports p = (bcEvent env p fd (expire p fd s)).2.ports p := by
    rcases hs' with rfl | rfl <;> rfl
  rw [hevent]
  rw [← hports] at hkeeps
  by_cases hother : fd ≠ .qualificationTimer
  · refine bcDispatch_equipped hruns hkeeps (Or.inl rfl) ?_
    rw [hports]
    exact bcEvent_equipped hruns hother hequipped
  obtain rfl := not_not.mp hother
  have hexpired : Equipped env {.qualificationTimer} (s'.ports p) := by
    rw [hports]
    exact expire_equipped .qualificationTimer hequipped
  by_cases hstate : (s'.ports p).state = .preMaster
  · refine bcDispatch_equipped hruns hkeeps (Or.inr ⟨by simp, ?_⟩) hexpired
    have hfree : ¬env.slaveOnly := fun hslave => hexpired.slave hslave hstate
    rw [hstate, Env.stateMachine, if_neg hfree]
    change ptpFsm .preMaster .qualificationTimeoutExpires false ≠ .preMaster
    decide
  · refine bcDispatch_equipped hruns hkeeps (Or.inl rfl)
      (hexpired.weaken fun fd hfd _ hlives => hstate ?_)
    rw [show fd = .qualificationTimer from hfd] at hlives
    exact of_decide_eq_true hlives

/-! ## Every run -/

def AllEquipped (env : Env) (s : PtpClock) : Prop :=
  ∀ p < env.nports, Equipped env ∅ (s.ports p)

theorem decidePort_equipped (hruns : IntervalsRun env p) {fresh : Bool}
    (hequipped : Equipped env ∅ (s.ports p)) :
    Equipped env ∅ ((decidePort env fresh p s).ports p) := by
  rw [decidePort_eq]
  refine bcDispatch_equipped hruns
    (not_relistens_of_not_disables not_disables_recommendedEvent) (Or.inl rfl) ?_
  rw [recommendedUpdate_ports]
  exact hequipped

/-- A decision keeps all ports equipped. -/
theorem decision_equipped (hruns : ∀ p < env.nports, IntervalsRun env p)
    (hequipped : AllEquipped env s) :
    AllEquipped env (handleStateDecisionEvent env s) := by
  have hstart : AllEquipped env (decisionStart env s) := by
    refine @computeBest_keeps env s (AllEquipped env) (fun p s hall q hq => ?_)
      (List.range env.nports) none hequipped
    by_cases hsame : q = p
    · subst hsame
      rw [portComputeBest_same]
      refine (hall q hq).of_timing ?_
      rfl
    · rw [portComputeBest_within.ports q hsame]
      exact hall q hq
  rw [handleStateDecisionEvent_eq]
  refine @decidePorts_keeps env _ (AllEquipped env) _ _ List.nodup_range
    (fun p hp s' _ _ _ hall q hq => ?_) hstart
  by_cases hsame : q = p
  · subst hsame
    exact decidePort_equipped (hruns q hq) (hall q hq)
  · rw [(decidePort_decides _).ports q hsame]
    exact hall q hq

/-- So does every task that spares the delay timer. -/
theorem runTask_equipped (hruns : ∀ p < env.nports, IntervalsRun env p)
    (task : Task) (hkeeps : KeepsDelayTimer env task s)
    (hequipped : AllEquipped env s) : AllEquipped env (runTask env task s) := by
  have htimer : ∀ {clock : PtpClock} {p : ℕ} (set : Bool), AllEquipped env clock →
      AllEquipped env (clockFaultTimeout env p set clock) := by
    intro clock p set hall q hq
    obtain ⟨armed, harmed⟩ := @clockFaultTimeout_eq env p clock set
    rw [harmed]
    by_cases hsame : q = p
    · subst hsame
      rw [modifyPort_same]
      refine (hall q hq).of_timing ?_
      rfl
    · rw [modifyPort_other _ hsame]
      exact hall q hq
  cases task with
  | fd p fd touched =>
    have hevent : AllEquipped env (portEvent env p fd s) := by
      intro q hq
      by_cases hsame : q = p
      · subst hsame
        exact portEvent_equipped (hruns q hq) hkeeps (hequipped q hq)
      · rw [portEvent_elsewhere fd |>.1 q hsame]
        exact hequipped q hq
    rw [runTask]
    split
    · exact htimer true hevent
    · exact hevent
  | fault p =>
    have hcleared : AllEquipped env (clockFaultTimeout env p false s) :=
      htimer false hequipped
    rw [runTask]
    split
    · intro q hq
      by_cases hsame : q = p
      · subst hsame
        refine bcDispatch_equipped (hruns q hq)
          (not_relistens_of_not_disables (by decide)) (Or.inl rfl) (hcleared q hq)
      · rw [(Kept.refl p _).bcDispatch.ports q hsame]
        exact hcleared q hq
    · exact hcleared
  | uds fd touched =>
    obtain ⟨hothers, -⟩ := @bcEvent_elsewhere env env.udsPort s fd
    have hevent : AllEquipped env
        (bcEvent env env.udsPort fd (expire env.udsPort fd s)).2 := by
      intro q hq
      rw [hothers q hq.ne]
      exact hequipped q hq
    rw [runTask]
    dsimp only
    split <;> exact hevent
  | finish =>
    rw [runTask]
    split
    · exact decision_equipped hruns hequipped
    · exact hequipped

theorem bcDispatch_initializePort_equipped (hruns : IntervalsRun env p)
    (hstarted : (s.ports p).state = .initializing) :
    Equipped env ∅ ((bcDispatch env p .initializePort false s).ports p) := by
  have hentered : Equipped env ∅
      ((enterState env p .initializePort false s).2.ports p) := by
    refine enterState_started_equipped hruns ?_ ?_
    · rw [nextState, stateMachine_initializePort, if_neg (by simp)]
    · rintro ⟨-, hlistening, -⟩
      exact absurd (hstarted.symm.trans hlistening) (by decide)
  have hstate : ((enterState env p .initializePort false s).2.ports p).state ≠
      .uncalibrated := by
    intro huncalibrated
    have hmachine := enterState_uncalibrated huncalibrated
    rw [stateMachine_initializePort] at hmachine
    exact PortState.noConfusion hmachine
  rw [bcDispatch]
  dsimp only
  rw [if_neg fun hswitch => hstate hswitch.2.2]
  exact hentered

/-- The ports are equipped one after the other when the clock is created. -/
theorem startPorts_equipped (hruns : ∀ p < env.nports, IntervalsRun env p)
    (count : ℕ) :
    (∀ p < count, p < env.nports → Equipped env ∅ ((startPorts env count).ports p)) ∧
      ∀ p, count ≤ p → (startPorts env count).ports p = portCreate env p := by
  induction count with
  | zero => exact ⟨fun _ hp => absurd hp (Nat.not_lt_zero _), fun _ _ => rfl⟩
  | succ count ih =>
    obtain ⟨hready, hnew⟩ := ih
    rw [startPorts_succ]
    refine ⟨fun p hp hnetwork => ?_, fun p hp => ?_⟩
    · by_cases hsame : p = count
      · subst hsame
        refine bcDispatch_initializePort_equipped (hruns p hnetwork) ?_
        rw [hnew p le_rfl]
        rfl
      · rw [(Kept.refl count _).bcDispatch.ports p hsame]
        exact hready p (Nat.lt_of_le_of_ne (Nat.le_of_lt_succ hp) hsame) hnetwork
    · rw [(Kept.refl count _).bcDispatch.ports p (Nat.ne_of_gt hp)]
      exact hnew p (Nat.le_of_succ_le hp)

/-- In every state of a run in which no listening P2P port is started anew, each
network port has armed the timers that its state lives on. -/
theorem runClock_timed (env : Env) (steps : List Step)
    (hruns : ∀ p < env.nports, IntervalsRun env p)
    (hkeeps : MeetsTasks env (KeepsDelayTimer env) steps) :
    ∀ p < env.nports, Timed ((runClock env steps).ports p) := by
  have hequipped : AllEquipped env (runClock env steps) := by
    refine runClock_of_tasks ?_ (fun _ _ hequipped => hequipped)
      (fun task s => runTask_equipped hruns task) hkeeps
    exact fun p hp =>
      (startPorts_equipped hruns (env.nports + 1)).1 p (Nat.lt_succ_of_lt hp) hp
  exact fun p hp => (hequipped p hp).timed

/-- The default intervals are good for the timers. -/
theorem soloClock_intervalsRun (p : ℕ) : IntervalsRun soloClock p where
  announce random := by
    change tmoRandom soloClock random 3 1 1 ≠ 0
    rw [tmoRandom, if_pos (by decide)]
    simp only [longShiftLeft, Int.natAbs_one, if_pos (show 1 < 64 by decide)]
    generalize 1 * 10 ^ 9 * 2 ^ 1 % 2 ^ 64 * (random % 2 ^ 15 + 1) = drawn
    omega
  delay := by
    change ∀ random, tmoRandom soloClock random 0 2 0 ≠ 0
    exact tmoRandom_delay (by decide) (by decide)
  peerDelay := by
    change tmoLog soloClock 1 0 ≠ 0
    decide
  qualification stepsRemoved := by
    change tmoLog soloClock (1 + stepsRemoved.toNat) 1 ≠ 0
    have hsteps := stepsRemoved.toNat_lt
    rw [tmoLog, if_neg (by decide)]
    simp only [intShift, Int.toNat_one, if_pos (show 1 < 31 by decide)]
    omega
  sync := by
    change tmoLog soloClock 1 0 ≠ 0
    decide

theorem runClock_timed_soloClock :
    Timed ((runClock soloClock delayRequestSteps).ports 0) :=
  runClock_timed soloClock delayRequestSteps
    (fun p _ => soloClock_intervalsRun p) (by decide +kernel) 0 Nat.one_pos

end LinuxPtp.Ordinary
