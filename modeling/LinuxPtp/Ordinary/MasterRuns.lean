import LinuxPtp.Ordinary.MasterTimers

/-!
# Masters in every run

The loop has noted the timers that are ready before it goes through them, and the state of a
port may change in between.  What is left of a port when it leaves the state of a master is
passed over, unless its faults are cleared at once.
-/

namespace LinuxPtp.Ordinary

open Bmc Cells Port Wire

variable {env : Env} {p q : ℕ} {s s' : PtpClock} {event : PortEvent} {mdiff : Bool} {fd : Fd}

/-- A fault of the port is never cleared at once. -/
def KeepsFaults (env : Env) (p : ℕ) : Prop :=
  ∀ type, clearFaultAsap (faultInterval env p type) = false

/-! ## The state of a master -/

theorem ofMaster_enabled {state : PortState} (hstate : ofMaster state) :
    portIsEnabled state := by
  cases state <;> first | rfl | exact absurd hstate (by decide)

theorem ofMaster_not_slave {state : PortState} (hstate : ofMaster state) :
    isSlave state = false := by
  cases state <;> first | rfl | exact absurd hstate (by decide)

theorem not_ofMaster {state : PortState} (hslave : ofSlaveOnly state) :
    ofMaster state = false := by
  cases state <;> first | rfl | exact absurd hslave (by decide)

theorem orFault_event (result : Bool × PtpClock) :
    (orFault result).1 ≠ .qualificationTimeoutExpires := by
  rw [orFault]
  dsimp only
  split <;> simp

theorem orDecision_event (result : Bool × PtpClock) :
    (orDecision result).1 ≠ .qualificationTimeoutExpires := by
  rw [orDecision]
  dsimp only
  split <;> simp

theorem handleMessage_event (m : Message) :
    (handleMessage env p m s).1 ≠ .qualificationTimeoutExpires := by
  rw [handleMessage]
  cases m.type with
  | sync | followUp | delayResp | pdelayRespFollowUp => simp
  | delayReq | pdelayReq | pdelayResp | signaling => exact orFault_event _
  | announce | management => exact orDecision_event _

/-- Only the qualification timer ends the qualification. -/
theorem bcEvent_event (hfd : fd ≠ .qualificationTimer) :
    (bcEvent env p fd s).1 ≠ .qualificationTimeoutExpires := by
  cases fd with
  | announceTimer | syncRxTimer =>
    rw [bcEvent, receiptTimeout]
    split_ifs <;> dsimp only
    · split <;> simp
    · simp
  | qualificationTimer => exact absurd rfl hfd
  | delayTimer | mannoTimer | syncTxTimer | unicastSrvTimer | unicastReqTimer =>
    exact orFault_event _
  | rtnl =>
    rw [bcEvent, linkEvent]
    dsimp only
    split_ifs <;> simp
  | event | general =>
    rw [bcEvent, receiveMessage]
    split
    · simp
    · simp
    · exact handleMessage_event _

theorem expire_state : ((expire p fd s).ports p).state = (s.ports p).state := by
  rw [expire]
  split
  · rw [setFda_same]
  · rfl

theorem bcEvent_state (hlink : fd ≠ .rtnl) (hslave : isSlave (s.ports p).state = false) :
    ((bcEvent env p fd s).2.ports p).state = (s.ports p).state := by
  cases hmaster : fd.isMaster with
  | false => exact (SameMasters.bcEvent hmaster hlink hslave).state
  | true =>
    have hset : ∀ fd value,
        ((setFda p fd (.settime value) s).ports p).state = (s.ports p).state := by
      intro fd value
      rw [setFda_same]
    cases fd with
    | qualificationTimer => rfl
    | mannoTimer =>
      exact (congrArg (fun ports => (ports p).state) portTxAnnounce_ports).trans (hset _ _)
    | syncTxTimer =>
      exact (congrArg (fun ports => (ports p).state) portTxSync_ports).trans (hset _ _)
    | _ => exact absurd hmaster Bool.false_ne_true

theorem stateMachine_ofMaster {state : PortState} (hfree : ¬env.slaveOnly)
    (hstate : ofMaster state) (hport : ofPort event)
    (hevent : event ≠ .qualificationTimeoutExpires) :
    env.stateMachine state event false = state ∨
      env.stateMachine state event false = .faulty := by
  rw [Env.stateMachine, if_neg hfree]
  cases state <;> cases event <;>
    first
    | exact Or.inl rfl
    | exact Or.inr rfl
    | exact absurd rfl hevent
    | exact absurd hstate Bool.false_ne_true
    | exact absurd hport Bool.false_ne_true

/-- The state machine has its way where nothing is cleared at once and no clock switched. -/
theorem bcDispatch_state (hkeeps : KeepsFaults env p)
    (hnext : env.stateMachine (s.ports p).state event mdiff ≠ .initializing)
    (hstays : env.stateMachine (s.ports p).state event mdiff ≠ .uncalibrated) :
    ((bcDispatch env p event mdiff s).ports p).state =
      env.stateMachine (s.ports p).state event mdiff := by
  have hsame : nextState env p event mdiff (s.ports p) =
      env.stateMachine (s.ports p).state event mdiff := by
    rw [nextState]
    exact if_neg fun hcleared => Bool.false_ne_true ((hkeeps _).symm.trans hcleared.2)
  have hentered : ((enterState env p event mdiff s).2.ports p).state =
      env.stateMachine (s.ports p).state event mdiff := by
    rw [enterState_state, hsame, if_neg hnext]
  rw [bcDispatch]
  dsimp only
  rw [if_neg fun hswitch => hstays (hentered.symm.trans hswitch.2.2)]
  exact hentered

/-- Until its qualification is over or its link changes, a master stays one or is faulty. -/
theorem portEvent_state (hkeeps : KeepsFaults env p) (hfree : ¬env.slaveOnly)
    (hstate : ofMaster (s.ports p).state) (hlink : fd ≠ .rtnl)
    (hfd : fd ≠ .qualificationTimer) :
    ((portEvent env p fd s).ports p).state = (s.ports p).state ∨
      ((portEvent env p fd s).ports p).state = .faulty := by
  obtain ⟨s', hs', -, hevent⟩ := @portEvent_eq env p s fd
  have hslave : isSlave ((expire p fd s).ports p).state = false := by
    rw [expire_state]
    exact ofMaster_not_slave hstate
  have hbefore : (s'.ports p).state = (s.ports p).state := by
    have hports : s'.ports = (bcEvent env p fd (expire p fd s)).2.ports := by
      rcases hs' with rfl | rfl <;> rfl
    rw [hports, bcEvent_state hlink hslave, expire_state]
  have hmachine := @stateMachine_ofMaster env (bcEvent env p fd (expire p fd s)).1 _ hfree
    (hbefore ▸ hstate) (ofPort_bcEvent fd) (bcEvent_event hfd)
  have hdispatch := @bcDispatch_state env p s' (bcEvent env p fd (expire p fd s)).1 false
    hkeeps
  rw [← hbefore, hevent, hdispatch]
  · exact hmachine
  · rcases hmachine with hsame | hfaulty
    · rw [hsame]
      rintro hinit
      rw [← hbefore, hinit] at hstate
      exact absurd hstate (by decide)
    · rw [hfaulty]
      decide
  · rcases hmachine with hsame | hfaulty
    · rw [hsame]
      rintro huncalibrated
      rw [← hbefore, huncalibrated] at hstate
      exact absurd hstate (by decide)
    · rw [hfaulty]
      decide

/-! ## Tasks -/

/-- A timer of a master that is to be looked at is one of the state of its port. -/
def TaskLives (env : Env) (s : PtpClock) : Task → Prop
  | .fd p fd _ => p < env.nports ∧ (fd.isMaster → (s.ports p).livesOn fd)
  | _ => True

/-- No descriptor of a port is to be looked at twice, nor a timer of a master after the
link, and nothing follows the end of the iteration. -/
def Follows : Task → Task → Prop
  | .fd p fd _, .fd q fd' _ => p = q → fd ≠ fd' ∧ (fd = .rtnl → fd'.isMaster = false)
  | .finish, _ => False
  | _, _ => True

theorem TaskLives.of_state {task : Task}
    (hlives : TaskLives env s task)
    (hstate : ∀ p fd touched, task = .fd p fd touched → fd.isMaster →
      (s'.ports p).state = (s.ports p).state) : TaskLives env s' task := by
  cases task with
  | fd p fd touched =>
    refine ⟨hlives.1, fun hfd => ?_⟩
    rw [PtpPort.livesOn, hstate p fd touched rfl hfd,
      @livesOn_master _ (s.ports p).delayMechanism _ _ hfd]
    exact hlives.2 hfd
  | fault | uds | finish => trivial

theorem mem_portTasks {ready : Ready} {task : Task} (hmem : task ∈ portTasks ready s p) :
    (∃ fd touched, task = .fd p fd touched ∧ pollable (s.ports p) fd) ∨ task = .fault p := by
  rw [portTasks, List.mem_append] at hmem
  rcases hmem with hmem | hmem
  · obtain ⟨fd, hfd, rfl⟩ := List.mem_map.mp hmem
    have hready := (List.mem_filter.mp hfd).2
    rw [Bool.and_eq_true] at hready
    exact Or.inl ⟨fd, _, rfl, hready.2⟩
  · split at hmem
    · exact Or.inr (List.mem_singleton.mp hmem)
    · exact absurd hmem List.not_mem_nil

theorem mem_udsTasks {ready : Ready} {task : Task} (hmem : task ∈ udsTasks env ready s) :
    ∃ fd touched, task = .uds fd touched := by
  obtain ⟨fd, -, rfl⟩ := List.mem_map.mp hmem
  exact ⟨fd, _, rfl⟩

theorem mem_pollTasks {ready : Ready} {task : Task} (hmem : task ∈ pollTasks env ready s) :
    (∃ p < env.nports, task ∈ portTasks ready s p) ∨
      (∃ fd touched, task = .uds fd touched) ∨ task = .finish := by
  have hall : task ∈ (List.range env.nports).flatMap (portTasks ready s) ++
      udsTasks env ready s ∨ task = .finish := by
    rw [pollTasks] at hmem
    split at hmem
    · exact absurd hmem List.not_mem_nil
    · rename_i first rest htasks
      rw [htasks]
      exact (List.mem_append.mp hmem).imp_right List.mem_singleton.mp
  rcases hall with hmem | hfinish
  · rcases List.mem_append.mp hmem with hport | huds
    · obtain ⟨p, hp, hport⟩ := List.mem_flatMap.mp hport
      exact Or.inl ⟨p, List.mem_range.mp hp, hport⟩
    · exact Or.inr (Or.inl (mem_udsTasks huds))
  · exact Or.inr (Or.inr hfinish)

theorem portTasks_follows (ready : Ready) (p : ℕ) :
    (portTasks ready s p).Pairwise Follows := by
  have hfds : Fd.all.Pairwise fun fd fd' =>
      fd ≠ fd' ∧ (fd = .rtnl → fd'.isMaster = false) := by decide
  rw [portTasks, List.pairwise_append, List.pairwise_map]
  refine ⟨(hfds.filter _).imp fun hpair _ => hpair, ?_, fun task hmem task' hmem' => ?_⟩
  · split <;> simp
  · obtain ⟨fd, -, rfl⟩ := List.mem_map.mp hmem
    split at hmem'
    · obtain rfl := List.mem_singleton.mp hmem'
      trivial
    · exact absurd hmem' List.not_mem_nil

theorem pollTasks_follows (ready : Ready) : (pollTasks env ready s).Pairwise Follows := by
  have hports : ((List.range env.nports).flatMap (portTasks ready s)).Pairwise Follows := by
    refine List.pairwise_flatMap.mpr ⟨fun p _ => portTasks_follows ready p, ?_⟩
    refine List.nodup_range.imp fun hother task hmem task' hmem' => ?_
    rcases mem_portTasks hmem with ⟨fd, touched, rfl, -⟩ | rfl
    · rcases mem_portTasks hmem' with ⟨fd', touched', rfl, -⟩ | rfl
      · exact fun hsame => absurd hsame hother
      · trivial
    · trivial
  have huds : (udsTasks env ready s).Pairwise Follows := by
    rw [udsTasks, List.pairwise_map]
    exact List.pairwise_of_forall fun _ _ => trivial
  have hall : ((List.range env.nports).flatMap (portTasks ready s) ++
      udsTasks env ready s).Pairwise Follows := by
    refine List.pairwise_append.mpr ⟨hports, huds, fun task hmem task' hmem' => ?_⟩
    obtain ⟨p, -, hport⟩ := List.mem_flatMap.mp hmem
    obtain ⟨fd', touched', rfl⟩ := mem_udsTasks hmem'
    rcases mem_portTasks hport with ⟨fd, touched, rfl, -⟩ | rfl <;> trivial
  rw [pollTasks]
  split
  · exact List.Pairwise.nil
  · rename_i first rest htasks
    rw [htasks] at hall
    refine List.pairwise_append.mpr ⟨hall, List.pairwise_singleton _ _, ?_⟩
    intro task hmem task' hmem'
    obtain rfl := List.mem_singleton.mp hmem'
    rw [← htasks] at hmem
    rcases List.mem_append.mp hmem with hport | huds
    · obtain ⟨p, -, hport⟩ := List.mem_flatMap.mp hport
      rcases mem_portTasks hport with ⟨fd, touched, rfl, -⟩ | rfl <;> trivial
    · obtain ⟨fd, touched, rfl⟩ := mem_udsTasks huds
      trivial

/-! ## Steps -/

/-- The network ports have their timers of a master in the states of one only, and these
are the timers of a master that are to be looked at. -/
structure Timely (env : Env) (s : PtpClock) : Prop where
  ports : ∀ p < env.nports, Governed env (s.ports p)
  tasks : ∀ task ∈ s.todo, TaskLives env s task
  order : s.todo.Pairwise Follows

theorem portEvent_governed (hlives : fd.isMaster → (s.ports p).livesOn fd)
    (hgoverned : Governed env (s.ports p)) :
    Governed env ((portEvent env p fd s).ports p) := by
  obtain ⟨s', hs', -, hevent⟩ := @portEvent_eq env p s fd
  have hports : s'.ports = (bcEvent env p fd (expire p fd s)).2.ports := by
    rcases hs' with rfl | rfl <;> rfl
  rw [hevent]
  refine bcDispatch_governed ?_
  rw [hports]
  refine bcEvent_governed (fun hfd => ?_) (expire_governed hlives hgoverned)
  rw [PtpPort.livesOn, expire_state, @livesOn_master _ (s.ports p).delayMechanism _ _ hfd]
  exact hlives hfd

/-- What is left to do for the port after an event is still for its state. -/
theorem portEvent_lives {touched : ℕ} {task : Task}
    (hclear : env.slaveOnly ∨ ∀ p < env.nports, KeepsFaults env p)
    (hgoverned : Governed env (s.ports p)) (hfirst : TaskLives env s (.fd p fd touched))
    (hfollows : Follows (.fd p fd touched) task) (hlives : TaskLives env s task)
    (hnot : ((portEvent env p fd s).ports p).state ≠ .faulty) :
    TaskLives env (portEvent env p fd s) task := by
  refine hlives.of_state ?_
  rintro q fd' touched' rfl hfd'
  by_cases hsame : p = q
  · subst hsame
    obtain ⟨hother, hlast⟩ := hfollows rfl
    have hlived := hlives.2 hfd'
    have hmaster := ofMaster_of_livesOn hfd' hlived
    have hlink : fd ≠ .rtnl := fun hrtnl =>
      Bool.false_ne_true ((hlast hrtnl).symm.trans hfd')
    have hqualified : fd ≠ .qualificationTimer := by
      rintro rfl
      have hpre : (s.ports p).state = .preMaster := of_decide_eq_true (hfirst.2 rfl)
      rw [PtpPort.livesOn, hpre] at hlived
      cases fd' <;> simp_all [livesOn, Fd.isMaster]
    have hfree : ¬env.slaveOnly := by
      intro honly
      rw [not_ofMaster (hgoverned.slave honly)] at hmaster
      exact Bool.false_ne_true hmaster
    exact (portEvent_state (hclear.resolve_left hfree p hlives.1) hfree hmaster hlink
      hqualified).resolve_right hnot
  · rw [(portEvent_elsewhere fd).1 q (Ne.symm hsame)]

/-! ## What one task leaves to the next ones -/

theorem clockFaultTimeout_governed {set : Bool}
    (hports : ∀ q < env.nports, Governed env (s.ports q)) :
    ∀ q < env.nports, Governed env ((clockFaultTimeout env p set s).ports q) := by
  intro q hq
  obtain ⟨armed, harmed⟩ := @clockFaultTimeout_eq env p s set
  rw [harmed]
  by_cases hsame : q = p
  · subst hsame
    rw [modifyPort_same]
    exact (hports q hq).of_timing rfl
  · rw [modifyPort_other _ hsame]
    exact hports q hq

theorem clockFaultTimeout_state {set : Bool} :
    ((clockFaultTimeout env p set s).ports q).state = (s.ports q).state := by
  obtain ⟨armed, harmed⟩ := @clockFaultTimeout_eq env p s set
  rw [harmed]
  by_cases hsame : q = p
  · subst hsame
    rw [modifyPort_same]
  · rw [modifyPort_other _ hsame]

theorem clockFaultTimeout_todo {set : Bool} :
    (clockFaultTimeout env p set s).todo = s.todo := by
  obtain ⟨armed, harmed⟩ := @clockFaultTimeout_eq env p s set
  rw [harmed]
  rfl

theorem decision_governed (hports : ∀ p < env.nports, Governed env (s.ports p)) :
    ∀ p < env.nports, Governed env ((handleStateDecisionEvent env s).ports p) := by
  have hstart : ∀ p < env.nports, Governed env ((decisionStart env s).ports p) := by
    refine @computeBest_keeps env s (fun s => ∀ p < env.nports, Governed env (s.ports p))
      (fun p s hall q hq => ?_) (List.range env.nports) none hports
    by_cases hsame : q = p
    · subst hsame
      rw [portComputeBest_same]
      exact (hall q hq).of_timing rfl
    · rw [portComputeBest_within.ports q hsame]
      exact hall q hq
  rw [handleStateDecisionEvent_eq]
  refine @decidePorts_keeps env _ (fun s => ∀ p < env.nports, Governed env (s.ports p))
    _ _ List.nodup_range (fun p hp s' _ _ _ hall q hq => ?_) hstart
  by_cases hsame : q = p
  · subst hsame
    rw [decidePort_eq]
    refine bcDispatch_governed ?_
    rw [recommendedUpdate_ports]
    exact hall q hq
  · rw [(decidePort_decides _).ports q hsame]
    exact hall q hq

/-- The tasks that are left of a port that has become faulty are passed over. -/
theorem skipPort_timely (htimely : Timely env s)
    (hports : ∀ q < env.nports, Governed env (s'.ports q)) (htodo : s'.todo = s.todo)
    (hothers : ∀ q, q ≠ p → (s'.ports q).state = (s.ports q).state) :
    Timely env (skipPort p s') where
  ports := hports
  tasks task hmem := by
    rw [skipPort, htodo] at hmem
    obtain ⟨hmem, hkept⟩ := List.mem_filter.mp hmem
    refine (htimely.tasks task hmem).of_state ?_
    rintro q fd touched rfl -
    exact hothers q (of_decide_eq_true hkept)
  order := (htodo ▸ htimely.order).filter _

theorem runTask_fd_timely {touched : ℕ}
    (hclear : env.slaveOnly ∨ ∀ p < env.nports, KeepsFaults env p) (htimely : Timely env s)
    (hlives : TaskLives env s (.fd p fd touched))
    (hfollows : ∀ task ∈ s.todo, Follows (.fd p fd touched) task) :
    Timely env (runTask env (.fd p fd touched) s) := by
  have hgoverned := htimely.ports p hlives.1
  have helsewhere := (@portEvent_elsewhere env p s fd).1
  have htodo := @portEvent_todo env p s fd
  have hports : ∀ q < env.nports, Governed env ((portEvent env p fd s).ports q) := by
    intro q hq
    by_cases hsame : q = p
    · subst hsame
      exact portEvent_governed hlives.2 hgoverned
    · rw [helsewhere q hsame]
      exact htimely.ports q hq
  rw [runTask]
  split
  · refine skipPort_timely htimely (clockFaultTimeout_governed hports)
      (clockFaultTimeout_todo.trans htodo) fun q hother => ?_
    rw [clockFaultTimeout_state, helsewhere q hother]
  · rename_i hnot
    refine ⟨hports, fun task hmem => ?_, htodo ▸ htimely.order⟩
    rw [htodo] at hmem
    exact portEvent_lives hclear hgoverned hlives (hfollows task hmem)
      (htimely.tasks task hmem) hnot

/-- A port with tasks of a master is not concerned by the end of a fault. -/
theorem runTask_fault_timely (htimely : Timely env s) :
    Timely env (runTask env (.fault p) s) := by
  have hcleared : Timely env (clockFaultTimeout env p false s) := by
    refine ⟨clockFaultTimeout_governed htimely.ports, fun task hmem => ?_, ?_⟩
    · rw [clockFaultTimeout_todo] at hmem
      exact (htimely.tasks task hmem).of_state fun _ _ _ _ _ => clockFaultTimeout_state
    · rw [clockFaultTimeout_todo]
      exact htimely.order
  rw [runTask]
  split
  · generalize clockFaultTimeout env p false s = clock at hcleared ⊢
    have hkept := (@Kept.bcDispatch env p clock clock (.refl p clock) .faultCleared false)
    refine ⟨fun q hq => ?_, fun task hmem => ?_, hkept.todo ▸ hcleared.order⟩
    · by_cases hsame : q = p
      · subst hsame
        exact bcDispatch_governed (hcleared.ports q hq)
      · rw [hkept.ports q hsame]
        exact hcleared.ports q hq
    · rw [hkept.todo] at hmem
      have htask := hcleared.tasks task hmem
      refine htask.of_state ?_
      rintro q fd touched rfl hfd
      by_cases hsame : q = p
      · subst hsame
        rw [bcDispatch_faultCleared]
        exact ofMaster_enabled (ofMaster_of_livesOn hfd (htask.2 hfd))
      · rw [hkept.ports q hsame]
  · exact hcleared

theorem runTask_uds_timely {touched : ℕ} (htimely : Timely env s) :
    Timely env (runTask env (.uds fd touched) s) := by
  obtain ⟨hothers, -⟩ := @bcEvent_elsewhere env env.udsPort s fd
  have htodo := @bcEvent_todo env env.udsPort s fd
  have hevent : Timely env (bcEvent env env.udsPort fd (expire env.udsPort fd s)).2 := by
    refine ⟨fun q hq => ?_, fun task hmem => ?_, htodo ▸ htimely.order⟩
    · rw [hothers q hq.ne]
      exact htimely.ports q hq
    · rw [htodo] at hmem
      have htask := htimely.tasks task hmem
      refine htask.of_state ?_
      rintro q fd' touched' rfl -
      rw [hothers q htask.1.ne]
  rw [runTask]
  dsimp only
  split
  · exact ⟨hevent.ports, hevent.tasks, hevent.order⟩
  · exact hevent

theorem runTask_finish_timely (htimely : Timely env s)
    (hfollows : ∀ task ∈ s.todo, Follows .finish task) :
    Timely env (runTask env .finish s) := by
  have hnone : s.todo = [] := List.eq_nil_iff_forall_not_mem.mpr hfollows
  have htodo : (handleStateDecisionEvent env s).todo = [] :=
    handleStateDecisionEvent_todo.trans hnone
  rw [runTask]
  split
  · refine ⟨decision_governed htimely.ports, fun task hmem => ?_, ?_⟩
    · exact absurd (htodo ▸ hmem) List.not_mem_nil
    · exact htodo ▸ List.Pairwise.nil
  · exact htimely

section

variable (hclear : env.slaveOnly ∨ ∀ p < env.nports, KeepsFaults env p)

include hclear

theorem runTask_timely {task : Task} (htimely : Timely env s) (hlives : TaskLives env s task)
    (hfollows : ∀ task' ∈ s.todo, Follows task task') : Timely env (runTask env task s) := by
  cases task with
  | fd p fd touched => exact runTask_fd_timely hclear htimely hlives hfollows
  | fault p => exact runTask_fault_timely htimely
  | uds fd touched => exact runTask_uds_timely htimely
  | finish => exact runTask_finish_timely htimely hfollows

theorem step_timely (action : Step) (htimely : Timely env s) :
    Timely env (step env s action) := by
  cases action with
  | poll ready =>
    rw [step]
    split
    · refine ⟨htimely.ports, fun task hmem => ?_, pollTasks_follows ready⟩
      rcases mem_pollTasks hmem with ⟨p, hp, hport⟩ | ⟨fd, touched, rfl⟩ | rfl
      · rcases mem_portTasks hport with ⟨fd, touched, rfl, hready⟩ | rfl
        · refine ⟨hp, fun hfd => (htimely.ports p hp).lives fd hfd ?_⟩
          have htimer : fd.isTimer := by
            cases fd <;> first | rfl | exact absurd hfd (by decide)
          rw [pollable, htimer] at hready
          simpa [Descriptor.pending] using (Bool.and_eq_true_iff.mp hready).2
        · trivial
      · trivial
      · trivial
    · exact htimely
  | next =>
    rw [step]
    split
    · exact htimely
    · rename_i task rest htodo
      obtain ⟨hfollows, hrest⟩ := List.pairwise_cons.mp (htodo ▸ htimely.order)
      refine runTask_timely hclear ⟨htimely.ports, fun task' hmem => ?_, hrest⟩ ?_ hfollows
      · exact htimely.tasks task' (htodo ▸ List.mem_cons_of_mem task hmem)
      · exact htimely.tasks task (htodo ▸ List.mem_cons_self)

end

/-! ## Every run -/

theorem startPorts_governed (count : ℕ) :
    (∀ p < count, Governed env ((startPorts env count).ports p)) ∧
      (∀ p, count ≤ p → (startPorts env count).ports p = portCreate env p) ∧
      (startPorts env count).todo = [] := by
  induction count with
  | zero => exact ⟨fun _ hp => absurd hp (Nat.not_lt_zero _), fun _ _ => rfl, rfl⟩
  | succ count ih =>
    obtain ⟨hready, hnew, htodo⟩ := ih
    have hkept := (@Kept.bcDispatch env count _ _
      (.refl count (startPorts env count)) .initializePort false)
    rw [startPorts_succ]
    refine ⟨fun p hp => ?_, fun p hp => ?_, hkept.todo.trans htodo⟩
    · by_cases hsame : p = count
      · subst hsame
        refine dispatch_governed (enterState_governed (Or.inr rfl) ?_ fun _ => ?_)
        · rw [hnew p le_rfl]
          exact ⟨fun _ _ hpending => absurd hpending Bool.false_ne_true,
            fun henabled => absurd henabled Bool.false_ne_true⟩
        · rw [hnew p le_rfl]
          rfl
      · rw [hkept.ports p hsame]
        exact hready p (Nat.lt_of_le_of_ne (Nat.le_of_lt_succ hp) hsame)
    · rw [hkept.ports p (Nat.ne_of_gt hp)]
      exact hnew p (Nat.le_of_succ_le hp)

theorem runClock_timely (hclear : env.slaveOnly ∨ ∀ p < env.nports, KeepsFaults env p)
    (steps : List Step) : Timely env (runClock env steps) := by
  obtain ⟨hready, -, htodo⟩ := @startPorts_governed env (env.nports + 1)
  refine Stepping.run_invariant (fun _ action => step_timely hclear action) steps ?_
  refine ⟨fun p hp => hready p (Nat.lt_succ_of_lt hp), fun task hmem => ?_, ?_⟩
  · exact absurd (htodo ▸ hmem) List.not_mem_nil
  · exact htodo ▸ List.Pairwise.nil

/-- Where no port is set to clear its faults at once, in every state of a run the timers
for Announce and Sync messages run only on a port that is a master, and the qualification
timer only on one that is to become a master; and where the loop has still to look at such
a timer, its port is in that state. -/
theorem runClock_mastered (env : Env) (hkeeps : ∀ p < env.nports, KeepsFaults env p)
    (steps : List Step) :
    (∀ p < env.nports, ∀ fd, fd.isMaster →
        (((runClock env steps).ports p).fda fd).pending →
        ((runClock env steps).ports p).livesOn fd) ∧
      ∀ p fd touched, .fd p fd touched ∈ (runClock env steps).todo → fd.isMaster →
        ((runClock env steps).ports p).livesOn fd := by
  have htimely := runClock_timely (Or.inr hkeeps) steps
  exact ⟨fun p hp => (htimely.ports p hp).lives,
    fun p fd touched hmem => (htimely.tasks _ hmem).2⟩

/-- The port has heard nothing and is the master, and its Announce timer is ready. -/
def masterSteps : List Step :=
  soloRound .announceTimer ++
    [.poll ⟨fun p ready => p == 0 && ready == .mannoTimer, fun _ => false⟩]

theorem plainPort_keepsFaults (env : Env) (hconfig : env.config p = plainPort) :
    KeepsFaults env p := by
  intro type
  cases type <;> rw [faultInterval] <;> first | rfl | (rw [hconfig]; rfl)

theorem runClock_mastered_soloClock :
    .fd 0 .mannoTimer 4 ∈ (runClock soloClock masterSteps).todo ∧
      ((runClock soloClock masterSteps).ports 0).livesOn .mannoTimer := by
  have hready : .fd 0 .mannoTimer 4 ∈ (runClock soloClock masterSteps).todo := by
    decide +kernel
  exact ⟨hready, (runClock_mastered soloClock (fun _ _ => plainPort_keepsFaults _ rfl)
    masterSteps).2 0 .mannoTimer 4 hready rfl⟩

/-- The same clock, but nothing can be received, and its faults are cleared at once. -/
def hastyClock : Env :=
  { soloClock with
    config := fun _ => { plainPort with faultResetInterval := -128 }
    receive := fun _ => .failed }

/-- The general socket of the master fails while its Announce timer is ready. -/
def hastySteps : List Step :=
  soloRound .announceTimer ++
    [.poll ⟨fun p ready => p == 0 && (ready == .general || ready == .mannoTimer),
      fun _ => false⟩, .next]

/-- It listens again, and will send an Announce all the same. -/
theorem hastyClock_not_mastered :
    .fd 0 .mannoTimer 4 ∈ (runClock hastyClock hastySteps).todo ∧
      ((runClock hastyClock hastySteps).ports 0).state = .listening := by
  decide +kernel

/-- A clock that can only be a slave never has a port that is to become a master, is one
or is passive, and no timer of a master ever runs or is looked at. -/
theorem runClock_slaveOnly (env : Env) (hslave : env.slaveOnly) (steps : List Step) :
    ∀ p < env.nports, ofSlaveOnly ((runClock env steps).ports p).state ∧
      ∀ fd, fd.isMaster → (((runClock env steps).ports p).fda fd).pending = false ∧
        ∀ touched, .fd p fd touched ∉ (runClock env steps).todo := by
  have htimely := @runClock_timely env (Or.inl hslave) steps
  intro p hp
  have hstate := (htimely.ports p hp).slave hslave
  have hnever : ∀ fd, fd.isMaster → ¬((runClock env steps).ports p).livesOn fd := by
    intro fd hfd hlives
    have hmaster := ofMaster_of_livesOn hfd hlives
    rw [not_ofMaster hstate] at hmaster
    exact Bool.false_ne_true hmaster
  refine ⟨hstate, fun fd hfd => ⟨?_, fun touched hmem => ?_⟩⟩
  · exact Bool.eq_false_iff.mpr fun hpending =>
      hnever fd hfd ((htimely.ports p hp).lives fd hfd hpending)
  · exact hnever fd hfd ((htimely.tasks _ hmem).2 hfd)

/-- It has chosen its master, and its delay timer expires. -/
theorem runClock_slaveOnly_soloClock :
    ofSlaveOnly ((runClock { soloClock with slaveOnly := true } delayRequestSteps).ports
      0).state :=
  (runClock_slaveOnly { soloClock with slaveOnly := true } rfl delayRequestSteps 0
    Nat.one_pos).1

end LinuxPtp.Ordinary
