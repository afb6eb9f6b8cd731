import LinuxPtp.Ordinary.Masters

/-!
# The best record of the clock

The clock remembers the record that the last decision has chosen.  The record is
still there as long as its port is not disabled before the next decision.
-/

namespace LinuxPtp.Ordinary

open Bmc Cells Port Wire
open Relation (ReflTransGen)

variable {env : Env} {p q : ℕ} {s s' : PtpClock}
variable {linkFault switchFails : Prop}
variable {state : PortState} {event : PortEvent} {mdiff : Bool}

/-! ## Ports that are not enabled have no records -/

def Idle (s : PtpClock) : Prop :=
  ∀ p, ¬portIsEnabled (s.ports p).state → (s.ports p).foreignMasters = []

theorem Dispatched.idle {role role' : Role}
    (hdispatched : Dispatched env p event mdiff switchFails role role')
    (hidle : ¬portIsEnabled role.state → role.bmc.foreignMasters = []) :
    ¬portIsEnabled role'.state → role'.bmc.foreignMasters = [] := by
  intro hdisabled
  cases hdispatched with
  | moved hmoved =>
    rw [hmoved.machine] at hdisabled ⊢
    rcases hmoved.serves with hsame | henabled
    · exact hidle (hsame ▸ hdisabled)
    · exact absurd henabled hdisabled
  | dropped hdropped =>
    rcases hdropped.rest with hcleared | ⟨hbefore, hsame⟩
    · rw [hcleared]
      rfl
    · rw [hsame]
      exact hidle hbefore

theorem Idle.of_within (hidle : Idle s) (hwithin : Within p s s')
    (hport : ¬portIsEnabled (s'.ports p).state →
      (s'.ports p).foreignMasters = []) : Idle s' := by
  intro q hdisabled
  by_cases hsame : q = p
  · subst hsame
    exact hport hdisabled
  · rw [hwithin.ports q hsame] at hdisabled ⊢
    exact hidle q hdisabled

theorem bcDispatch_idle (hidle : Idle s) : Idle (bcDispatch env p event mdiff s) :=
  hidle.of_within (Kept.refl p s).bcDispatch.toWithin
    ((bcDispatch_cases event mdiff).idle (hidle p))

theorem turn_idle (hturn : Turn env p linkFault s s') (hidle : Idle s) :
    Idle s' := by
  cases hturn with
  | quiet hwithin hrole =>
    refine hidle.of_within hwithin ?_
    rw [Role.records_eq hrole, show (s'.ports p).state = (s.ports p).state from
      congrArg Role.state hrole]
    exact hidle p
  | link hwithin hrole =>
    refine hidle.of_within hwithin ?_
    have hstate : (s'.ports p).state = (s.ports p).state :=
      congrArg Role.state hrole
    have hrecords : (s'.ports p).foreignMasters = (s.ports p).foreignMasters :=
      congrArg (fun role : Role => role.bmc.foreignMasters) hrole
    rw [hstate, hrecords]
    exact hidle p
  | aside haside =>
    rw [Idle, haside.ports]
    exact hidle
  | clearBest =>
    refine hidle.of_within clearBest_within fun hdisabled => ?_
    rw [clearBest_state] at hdisabled
    rcases @clearBest_role p s with hsame | ⟨best, -, hcleared⟩
    · exact (Role.records_eq hsame).trans (hidle p hdisabled)
    · have hrecords : ((clearBest p s).ports p).foreignMasters = _ :=
        congrArg (fun role => role.bmc.foreignMasters) hcleared
      rw [hrecords]
      simp [Role.withRecords, hidle p hdisabled, setRecord]
  | settle | fault => exact bcDispatch_idle hidle
  | @insertAnnounce _ fc m hfc =>
    refine hidle.of_within (insertAnnounce_kept fc m).toWithin fun hdisabled => ?_
    have hnone := hidle p (by simpa [insertAnnounce, msgGet] using hdisabled)
    exact absurd (hnone ▸ hfc) List.not_mem_nil
  | addRecord henabled =>
    refine hidle.of_within (Within.refl p s).called.modifyPort fun hdisabled => ?_
    exact absurd henabled (by simpa [addRecord] using hdisabled)
  | reported =>
    refine hidle.of_within (Within.refl p s).modifyPort ?_
    rw [modifyPort_same]
    exact hidle p

theorem portComputeBest_idle (hidle : Idle s) :
    Idle (portComputeBest env p s).2 := by
  refine hidle.of_within portComputeBest_within fun hdisabled => ?_
  rw [portComputeBest_same] at hdisabled ⊢
  have hrecords := (@portComputeBest_records env.bmc env.dscmp s.calls
    (s.ports p).toBmcPort).1
  have hnone := hidle p hdisabled
  rw [show (s.ports p).toBmcPort.foreignMasters = [] from hnone] at hrecords
  exact List.forall₂_nil_left_iff.mp hrecords

theorem decisionStart_idle (hidle : Idle s) : Idle (decisionStart env s) :=
  @computeBest_keeps env s Idle (fun p s => @portComputeBest_idle env p s)
    (List.range env.nports) none hidle

theorem decidePort_idle {fresh : Bool} (hidle : Idle s) :
    Idle (decidePort env fresh p s) := by
  rw [decidePort_eq]
  refine bcDispatch_idle ?_
  rw [Idle, recommendedUpdate_ports]
  exact hidle

theorem idle_preserves : Preserves env Idle where
  turn _ _ _ _ := turn_idle
  dispatch _ _ _ _ := bcDispatch_idle
  faultArmed p armed s hidle := by
    refine hidle.of_within (Within.refl p s).modifyPort ?_
    rw [modifyPort_same]
    exact hidle p
  agenda _ _ _ hidle := hidle
  decision s hidle := by
    rw [handleStateDecisionEvent_eq]
    exact decidePorts_keeps _ List.nodup_range
      (fun p _ s' _ _ _ => decidePort_idle) (decisionStart_idle hidle)

/-! ## The best record is listed -/

/-- The best record of the clock, if there is one, is in the list of its port. -/
def BestListed (s : PtpClock) : Prop :=
  ∀ fc ∈ s.best, ∃ fc' ∈ (s.ports fc.port).foreignMasters,
    fc'.address = fc.address

instance : Decidable (BestListed s) :=
  inferInstanceAs (Decidable (∀ fc ∈ s.best, ∃ fc' ∈ _, _))

theorem BestListed.of_within (hlisted : BestListed s) (hwithin : Within p s s')
    (hport : ∀ fc ∈ s.best, fc.port = p →
      ∃ fc' ∈ (s'.ports p).foreignMasters, fc'.address = fc.address) :
    BestListed s' := by
  intro fc hfc
  rw [hwithin.best] at hfc
  by_cases hsame : fc.port = p
  · exact hsame ▸ hport fc hfc hsame
  · rw [hwithin.ports _ hsame]
    exact hlisted fc hfc

def disables : PortEvent → Bool
  | .faultDetected | .designatedDisabled | .initializePort | .powerup => true
  | _ => false

theorem stateMachine_enabled (hevent : ¬disables event)
    (henabled : portIsEnabled state) :
    portIsEnabled (env.stateMachine state event mdiff) := by
  rw [Env.stateMachine]
  split
  · cases state <;> cases event <;>
      first
      | rfl
      | exact absurd rfl hevent
      | exact Bool.noConfusion henabled
      | (cases mdiff <;> rfl)
  · cases state <;> cases event <;>
      first
      | rfl
      | exact absurd rfl hevent
      | exact Bool.noConfusion henabled
      | (cases mdiff <;> rfl)

/-- What an event must not do to the port of the best record. -/
def Spared (env : Env) (p : ℕ) (s s' : PtpClock) : Prop :=
  s.best.map ForeignClock.port = some p → (env.config p).jbod →
    ¬SwitchFails env s s'

instance : Decidable (Spared env p s s') :=
  inferInstanceAs (Decidable (_ → _ → ¬_))

theorem bcDispatch_bestListed (hidle : Idle s) (hlisted : BestListed s)
    (hevent : s.best.map ForeignClock.port = some p → ¬disables event)
    (hspared : Spared env p s (bcDispatch env p event mdiff s)) :
    BestListed (bcDispatch env p event mdiff s) := by
  refine hlisted.of_within (Kept.refl p s).bcDispatch.toWithin ?_
  rintro fc hfc rfl
  have hport : s.best.map ForeignClock.port = some fc.port := by
    rw [show s.best = some fc from hfc]
    rfl
  have henabled : portIsEnabled (s.ports fc.port).state := by
    by_contra hdisabled
    obtain ⟨fc', hmem, -⟩ := hlisted fc hfc
    exact absurd (hidle fc.port hdisabled ▸ hmem) List.not_mem_nil
  have hmachine := @stateMachine_enabled env (s.ports fc.port).state event mdiff
    (hevent hport) henabled
  cases @bcDispatch_cases env fc.port s event mdiff with
  | moved hmoved =>
    rw [show ((bcDispatch env fc.port event mdiff s).ports fc.port).foreignMasters
      = (s.ports fc.port).foreignMasters from
        congrArg (fun role : Role => role.bmc.foreignMasters) hmoved.machine]
    exact hlisted fc hfc
  | dropped _ hcause =>
    rcases hcause with hdisabled | ⟨hjbod, hfails, -⟩
    · exact absurd hmachine (Bool.eq_false_iff.mp hdisabled)
    · exact absurd hfails (hspared hport hjbod)

theorem SwitchFails.widen {start stop : PtpClock} (hfails : SwitchFails env s s')
    (hstart : start.calls ≤ s.calls) (hstop : s'.calls ≤ stop.calls) :
    SwitchFails env start stop := by
  obtain ⟨n, hbefore, hafter, hn⟩ := hfails
  exact ⟨n, hbefore.trans_le hstop, hstart.trans hafter, hn⟩

/-- A turn keeps the best record listed, unless a fault arises in it. -/
theorem turn_bestListed (hturn : Turn env p linkFault s s') (hidle : Idle s)
    (hlisted : BestListed s)
    (hlink : s.best.map ForeignClock.port = some p → ¬linkFault)
    (hspared : Spared env p s s') : BestListed s' := by
  cases hturn with
  | quiet hwithin hrole =>
    refine hlisted.of_within hwithin fun fc hfc hport => ?_
    rw [Role.records_eq hrole, ← hport]
    exact hlisted fc hfc
  | link hwithin hrole =>
    refine hlisted.of_within hwithin fun fc hfc hport => ?_
    rw [show (s'.ports p).foreignMasters = (s.ports p).foreignMasters from
      congrArg (fun role : Role => role.bmc.foreignMasters) hrole, ← hport]
    exact hlisted fc hfc
  | aside haside =>
    intro fc hfc
    rw [haside.ports]
    exact hlisted fc (haside.best ▸ hfc)
  | clearBest =>
    refine hlisted.of_within clearBest_within fun fc hfc hport => ?_
    obtain ⟨fc', hfc', haddress⟩ := hlisted fc hfc
    rw [hport] at hfc'
    rcases @clearBest_role p s with hsame | ⟨best, -, hcleared⟩
    · rw [Role.records_eq hsame]
      exact ⟨fc', hfc', haddress⟩
    · have hrecords : ((clearBest p s).ports p).foreignMasters = _ :=
        congrArg (fun role => role.bmc.foreignMasters) hcleared
      obtain ⟨fc'', hfc'', hsame⟩ := exists_setRecord hfc'
      rw [hrecords]
      exact ⟨fc'', hfc'', hsame.trans haddress⟩
  | @settle event hevent =>
    refine bcDispatch_bestListed hidle hlisted (fun _ => ?_) hspared
    cases event <;> simp_all [ofServo, disables]
  | fault hfault =>
    exact bcDispatch_bestListed hidle hlisted
      (fun hport => absurd hfault (hlink hport)) hspared
  | insertAnnounce =>
    refine hlisted.of_within (insertAnnounce_kept ..).toWithin
      fun fc hfc hport => ?_
    obtain ⟨fc', hfc', haddress⟩ := hlisted fc hfc
    rw [hport] at hfc'
    obtain ⟨fc'', hfc'', hsame⟩ := exists_setRecord hfc'
    refine ⟨fc'', ?_, hsame.trans haddress⟩
    rw [insertAnnounce, modifyPort_same, msgGet]
    dsimp only
    rw [msgPutAll_ports]
    exact hfc''
  | addRecord =>
    refine hlisted.of_within (Within.refl p s).called.modifyPort
      fun fc hfc hport => ?_
    obtain ⟨fc', hfc', haddress⟩ := hlisted fc hfc
    rw [addRecord, modifyPort_same]
    exact ⟨fc', List.mem_cons_of_mem _ (hport ▸ hfc'), haddress⟩
  | reported =>
    refine hlisted.of_within (Within.refl p s).modifyPort fun fc hfc hport => ?_
    rw [modifyPort_same, ← hport]
    exact hlisted fc hfc

/-! ## Events and decisions -/

theorem turn_best (hturn : Turn env p linkFault s s') : s'.best = s.best := by
  cases hturn with
  | quiet hwithin => exact hwithin.best
  | link hwithin => exact hwithin.best
  | aside haside => exact haside.best
  | clearBest => exact clearBest_within.best
  | settle | fault => exact (Kept.refl p s).bcDispatch.best
  | insertAnnounce => exact (insertAnnounce_kept ..).best
  | addRecord => rfl
  | reported => rfl

theorem expire_calls (fd : Fd) : (expire p fd s).calls = s.calls := by
  rw [expire]
  split <;> rfl

theorem expire_best (fd : Fd) : (expire p fd s).best = s.best := by
  rw [expire]
  split <;> rfl

theorem bcEvent_bestListed {fd : Fd} (hidle : Idle s) (hlisted : BestListed s)
    (hlink : s.best.map ForeignClock.port = some p → ¬LinkFails env fd s)
    (hspared : Spared env p s (bcEvent env p fd s).2) :
    BestListed (bcEvent env p fd s).2 := by
  have hturns : ReflTransGen (Turn env p (LinkFails env fd s)) s
      (bcEvent env p fd s).2 := bcEvent_turns fd id
  refine (@turns_keep env p s _ _
    (fun s' => Idle s' ∧ BestListed s' ∧ s'.best = s.best) hturns ?_
    ⟨hidle, hlisted, rfl⟩).2.1
  rintro before after hbefore hafter hturn ⟨hidle, hlisted, hbest⟩
  refine ⟨turn_idle hturn hidle, turn_bestListed hturn hidle hlisted ?_ ?_,
    (turn_best hturn).trans hbest⟩
  · rw [hbest]
    exact hlink
  · intro hport hjbod hfails
    rw [hbest] at hport
    exact hspared hport hjbod (hfails.widen hbefore hafter)

theorem bcEvent_best (fd : Fd) : (bcEvent env p fd s).2.best = s.best := by
  have hturns : ReflTransGen (Turn env p (LinkFails env fd s)) s
      (bcEvent env p fd s).2 := bcEvent_turns fd id
  exact @turns_keep env p s _ _ (fun s' => s'.best = s.best) hturns
    (fun _ _ _ _ hturn hbest => (turn_best hturn).trans hbest) rfl

/-- The condition on a task: at the port of the best record no fault is raised,
and no switch to its clock fails. -/
def SparesBest (env : Env) (task : Task) (s : PtpClock) : Prop :=
  match task with
  | .fd p fd _ =>
      s.best.map ForeignClock.port = some p →
        (bcEvent env p fd (expire p fd s)).1 ≠ .faultDetected ∧
        ¬LinkFails env fd s ∧
        ((env.config p).jbod → ¬SwitchFails env s (portEvent env p fd s))
  | .finish =>
      s.sde → ∀ fc ∈ (decisionStart env s).best, (env.config fc.port).jbod →
        ¬SwitchFails env s (handleStateDecisionEvent env s)
  | _ => True

instance {fd : Fd} : Decidable (LinkFails env fd s) :=
  inferInstanceAs (Decidable (_ ∧ ∃ report ∈ _, _))

instance (task : Task) : Decidable (SparesBest env task s) :=
  match task with
  | .fd .. => inferInstanceAs (Decidable (_ → _ ∧ _ ∧ (_ → _)))
  | .finish => inferInstanceAs (Decidable (_ → ∀ fc ∈ _, _ → ¬_))
  | .fault _ => inferInstanceAs (Decidable True)
  | .uds .. => inferInstanceAs (Decidable True)

/-- Events of ports that are not of the state decision disable a port only where
they tell of a fault. -/
theorem not_disables_of_ofPort (hport : ofPort event)
    (hevent : event ≠ .faultDetected) : ¬disables event := by
  cases event <;> simp_all [ofPort, disables]

theorem portEvent_eq (fd : Fd) :
    ∃ s', (s' = (bcEvent env p fd (expire p fd s)).2 ∨
        s' = askDecision (bcEvent env p fd (expire p fd s)).2) ∧
      ((bcEvent env p fd (expire p fd s)).1 = .stateDecisionEvent → s'.sde) ∧
      portEvent env p fd s =
        bcDispatch env p (bcEvent env p fd (expire p fd s)).1 false s' := by
  rw [portEvent]
  dsimp only
  split_ifs with hasks
  · exact ⟨_, Or.inr rfl, fun _ => rfl, rfl⟩
  · exact ⟨_, Or.inl rfl, fun hevent => absurd (Or.inl hevent) hasks, rfl⟩

theorem portEvent_bestListed {fd : Fd} {touched : ℕ} (hidle : Idle s)
    (hlisted : BestListed s) (hspares : SparesBest env (.fd p fd touched) s) :
    BestListed (portEvent env p fd s) := by
  obtain ⟨s', hs', -, hevent⟩ := @portEvent_eq env p s fd
  have hexpire := @turn_expire env p s False fd
  have hcalls := @expire_calls p s fd
  have hbest := @expire_best p s fd
  have hlater : s'.calls ≤ (portEvent env p fd s).calls := by
    rw [hevent]
    exact (Kept.refl p s').bcDispatch.calls
  have hsame : s'.calls = (bcEvent env p fd (expire p fd s)).2.calls := by
    rcases hs' with rfl | rfl <;> rfl
  have hturns : ReflTransGen (Turn env p True) (expire p fd s)
      (bcEvent env p fd (expire p fd s)).2 := bcEvent_turns fd fun _ => trivial
  have hfirst : (expire p fd s).calls ≤ s'.calls := hsame ▸ turns_calls hturns
  -- the timer has expired
  have hidle₁ := turn_idle hexpire hidle
  have hlisted₁ : BestListed (expire p fd s) := by
    refine turn_bestListed hexpire hidle hlisted (fun _ => id) ?_
    rintro - - ⟨n, hn, hstart, -⟩
    omega
  -- the event is handled
  have hlisted₂ : BestListed (bcEvent env p fd (expire p fd s)).2 := by
    refine bcEvent_bestListed hidle₁ hlisted₁ ?_ ?_
    · rw [hbest, LinkFails, hcalls]
      exact fun hport => (hspares hport).2.1
    · intro hport hjbod hfails
      rw [hbest] at hport
      exact (hspares hport).2.2 hjbod (hfails.widen hcalls.ge (hsame ▸ hlater))
  have hidle₂ : Idle (bcEvent env p fd (expire p fd s)).2 :=
    idle_preserves.bcEvent fd hidle
  have hbest₂ : s'.best = s.best := by
    rcases hs' with rfl | rfl <;> exact (bcEvent_best fd).trans hbest
  have hports : s'.ports = (bcEvent env p fd (expire p fd s)).2.ports := by
    rcases hs' with rfl | rfl <;> rfl
  have hidle₃ : Idle s' := by
    rw [Idle, hports]
    exact hidle₂
  have hlisted₃ : BestListed s' := by
    rcases hs' with rfl | rfl <;> exact hlisted₂
  -- the event is dispatched
  rw [hevent]
  refine bcDispatch_bestListed hidle₃ hlisted₃ ?_ ?_
  · rw [hbest₂]
    exact fun hport => not_disables_of_ofPort (ofPort_bcEvent fd) (hspares hport).1
  · intro hport hjbod hfails
    rw [hbest₂] at hport
    refine (hspares hport).2.2 hjbod (hfails.widen (hcalls.ge.trans hfirst) ?_)
    rw [hevent]

/-- The end of a fault means nothing to a port that is enabled. -/
theorem bcDispatch_faultCleared (henabled : portIsEnabled (s.ports p).state) :
    bcDispatch env p .faultCleared false s = s := by
  have hsame : env.stateMachine (s.ports p).state .faultCleared false =
      (s.ports p).state := by
    rw [Env.stateMachine]
    generalize (s.ports p).state = state at henabled ⊢
    split <;> cases state <;> first | rfl | exact Bool.noConfusion henabled
  have hnext : nextState env p .faultCleared false (s.ports p) ≠ .initializing := by
    intro hinit
    have hdisabled := portIsEnabled_of_initializing hinit
    rw [hsame, henabled] at hdisabled
    exact Bool.noConfusion hdisabled
  rw [bcDispatch, enterState_same hnext hsame]
  simp

theorem BestListed.enabled (hlisted : BestListed s) (hidle : Idle s)
    (hport : s.best.map ForeignClock.port = some p) :
    portIsEnabled (s.ports p).state := by
  obtain ⟨fc, hfc, rfl⟩ := Option.map_eq_some_iff.mp hport
  by_contra hdisabled
  obtain ⟨fc', hmem, -⟩ := hlisted fc hfc
  exact absurd (hidle fc.port hdisabled ▸ hmem) List.not_mem_nil

/-- Work on a port other than that of the best record does no harm. -/
theorem BestListed.elsewhere (hlisted : BestListed s) (hwithin : Within p s s')
    (hport : s.best.map ForeignClock.port ≠ some p) : BestListed s' := by
  refine hlisted.of_within hwithin fun fc hfc hsame => ?_
  rw [show s.best = some fc from hfc, ← hsame] at hport
  exact absurd rfl hport

theorem not_disables_recommendedEvent :
    ¬disables (recommendedEvent (bmcStateDecision env p s)) := by
  rcases @bmcStateDecision_cases env p s with
    hstate | hstate | hstate | hstate | hstate <;> rw [hstate] <;>
    exact Bool.noConfusion

/-- The decision for a port keeps the best record listed, unless the switch to
the clock of that port fails. -/
theorem decidePort_bestListed {fresh : Bool} (hidle : Idle s)
    (hlisted : BestListed s) (hspared : Spared env p s (decidePort env fresh p s)) :
    BestListed (decidePort env fresh p s) := by
  have hdecides := @recommendedUpdate_decides env p s (bmcStateDecision env p s)
  have hports := @recommendedUpdate_ports env s (bmcStateDecision env p s)
  rw [decidePort_eq] at hspared ⊢
  refine bcDispatch_bestListed ?_ ?_ (fun _ => not_disables_recommendedEvent) ?_
  · rw [Idle, hports]
    exact hidle
  · rw [BestListed, hports, hdecides.best]
    exact hlisted
  · intro hport hjbod hfails
    rw [hdecides.best] at hport
    exact hspared hport hjbod (hfails.widen hdecides.calls le_rfl)

/-- A decision finds a best record that is listed, and leaves it so. -/
theorem decision_bestListed (hkept : AllWellKept s) (hidle : Idle s)
    (hspares : SparesBest env .finish s) (hsde : s.sde) :
    BestListed (handleStateDecisionEvent env s) := by
  have hstart : BestListed (decisionStart env s) := fun fc hfc =>
    ⟨fc, (decisionStart_chosen hkept.own fc hfc).mem, rfl⟩
  rw [SparesBest, handleStateDecisionEvent_eq] at hspares
  rw [handleStateDecisionEvent_eq]
  refine (@decidePorts_keeps_within env _ (fun s => Idle s ∧ BestListed s) _ _
    List.nodup_range ?_ ⟨decisionStart_idle hidle, hstart⟩).2
  rintro p hp s' - hbest - hfirst hlater ⟨hidle, hlisted⟩
  refine ⟨decidePort_idle hidle, decidePort_bestListed hidle hlisted ?_⟩
  intro hport hjbod hfails
  obtain ⟨fc, hfc, rfl⟩ := Option.map_eq_some_iff.mp hport
  exact hspares hsde fc (hbest ▸ hfc) hjbod
    (hfails.widen (decisionStart_calls.trans hfirst) hlater)

/-! ## Every run -/

/-- Only a network port has the best record. -/
def BestOnNetwork (env : Env) (s : PtpClock) : Prop :=
  ∀ fc ∈ s.best, fc.port < env.nports

theorem bestOnNetwork_preserves :
    Preserves env fun s => AllWellKept s ∧ BestOnNetwork env s where
  turn _ _ _ _ hturn hs :=
    ⟨turn_allWellKept hturn hs.1, fun fc hfc => hs.2 fc (turn_best hturn ▸ hfc)⟩
  dispatch p event s _ hs :=
    ⟨bcDispatch_allWellKept event false hs.1, fun fc hfc =>
      hs.2 fc ((Kept.refl p s).bcDispatch.best ▸ hfc)⟩
  faultArmed p armed s hs :=
    ⟨(@allWellKept_preserves env).faultArmed p armed s hs.1, hs.2⟩
  agenda _ _ _ hs := hs
  decision s hs := by
    refine ⟨allWellKept_preserves.decision s hs.1, fun fc hfc => ?_⟩
    rw [handleStateDecisionEvent_eq, decidePorts_best] at hfc
    exact decisionStart_port hs.1.own fc hfc

theorem BestListed.faultArmed (hlisted : BestListed s) (p : ℕ) (armed : Bool) :
    BestListed
      (modifyPort p (fun port => { port with faultArmed := armed }) s) := by
  refine hlisted.of_within (Within.refl p s).modifyPort fun fc hfc hport => ?_
  rw [modifyPort_same, ← hport]
  exact hlisted fc hfc

theorem runTask_bestListed (task : Task) (hspares : SparesBest env task s)
    (hbase : Idle s ∧ AllWellKept s ∧ BestOnNetwork env s)
    (hlisted : BestListed s) : BestListed (runTask env task s) := by
  obtain ⟨hidle, hkept, hnetwork⟩ := hbase
  cases task with
  | fd p fd touched =>
    have hevent := portEvent_bestListed hidle hlisted hspares
    rw [runTask]
    split
    · obtain ⟨armed, harmed⟩ :=
        @clockFaultTimeout_eq env p (portEvent env p fd s) true
      rw [harmed]
      exact hevent.faultArmed p armed
    · exact hevent
  | fault p =>
    obtain ⟨armed, harmed⟩ := @clockFaultTimeout_eq env p s false
    rw [runTask, harmed]
    have hcleared := hlisted.faultArmed p armed
    split
    · by_cases hport : s.best.map ForeignClock.port = some p
      · rw [bcDispatch_faultCleared]
        · exact hcleared
        · rw [modifyPort_same]
          exact hlisted.enabled hidle hport
      · exact hcleared.elsewhere (Kept.refl p _).bcDispatch.toWithin hport
    · exact hcleared
  | uds fd touched =>
    have hother : s.best.map ForeignClock.port ≠ some env.udsPort := by
      intro hport
      obtain ⟨fc, hfc, huds⟩ := Option.map_eq_some_iff.mp hport
      exact (hnetwork fc hfc).ne huds
    have hexpire := @turn_expire env env.udsPort s False fd
    have hbest := @expire_best env.udsPort s fd
    have hlisted₁ : BestListed (expire env.udsPort fd s) :=
      turn_bestListed hexpire hidle hlisted (fun _ => id)
        fun hport => absurd hport hother
    have hevent : BestListed
        (bcEvent env env.udsPort fd (expire env.udsPort fd s)).2 := by
      refine bcEvent_bestListed (turn_idle hexpire hidle) hlisted₁ ?_ ?_
      · exact fun hport => absurd (hbest ▸ hport) hother
      · exact fun hport => absurd (hbest ▸ hport) hother
    rw [runTask]
    dsimp only
    split
    · exact hevent
    · exact hevent
  | finish =>
    rw [runTask]
    split
    · rename_i hsde
      exact decision_bestListed hkept hidle hspares hsde
    · exact hlisted

theorem clockCreate_best : (clockCreate env).best = none := by
  rw [clockCreate]
  generalize List.range (env.nports + 1) = ports
  have hnew : (newClock env).best = none := rfl
  generalize newClock env = s at hnew
  induction ports generalizing s with
  | nil => exact hnew
  | cons p ports ih =>
    exact ih _ ((Kept.refl p s).bcDispatch.best.trans hnew)

/-- In a run that spares the port of the best record, that record is listed in
every state. -/
theorem runClock_bestListed (env : Env) (steps : List Step)
    (hspares : MeetsTasks env (SparesBest env) steps) :
    BestListed (runClock env steps) := by
  have hnew : Idle (newClock env) ∧ AllWellKept (newClock env) ∧
      BestOnNetwork env (newClock env) :=
    ⟨fun _ _ => rfl, newClock_allWellKept, fun _ hfc => nomatch hfc⟩
  refine runClock_over (idle_preserves.and bestOnNetwork_preserves) hnew ?_
    (fun _ _ hlisted => hlisted)
    (fun task s hcondition hbase => runTask_bestListed task hcondition hbase)
    hspares
  intro fc hfc
  rw [clockCreate_best] at hfc
  exact nomatch hfc

/-! ## A clock of one port -/

def repeatedIdentity (octet : UInt8) : ClockIdentity :=
  ⟨Vector.replicate 8 octet⟩

def plainPort : PortConfig where
  localPriority := 128
  masterOnly := false
  delayMechanism := .e2e
  hybridE2e := false
  netSyncMonitor := false
  jbod := false
  followUpInfo := false
  pathTraceEnabled := false
  matchTransportSpecific := false
  inhibitMulticastService := false
  transportSpecific := 0
  oneStep := false
  p2pOneStep := false
  announceReceiptTimeout := 3
  announceSpan := 1
  syncReceiptTimeout := 0
  logAnnounceInterval := 1
  logSyncInterval := 0
  logMinDelayReqInterval := 0
  logMinPdelayReqInterval := 0
  faultResetInterval := 4
  faultBadpeernetInterval := 16

def masterAnnounce : Message where
  cell := 0
  arrival := 0
  type := .announce
  transportSpecific := 0
  domainNumber := 0
  unicast := false
  twoStep := false
  timeFlags := 0
  sourcePortIdentity := ⟨repeatedIdentity 2, 1⟩
  sequenceId := 0
  logMessageInterval := 1
  stamped := false
  softwareTime := 0
  hostTime := ⟨0, 0⟩
  pdu := ⟨0, 0⟩
  correction := 0
  requestingPortIdentity := ⟨repeatedIdentity 0, 0⟩
  pathTrace := []
  followUpInfo := false
  monitorRequest := false
  announce := ⟨37, 1, ⟨6, 0, 0⟩, 1, repeatedIdentity 2, 0, 0⟩
  management := ⟨repeatedIdentity 0, 0, none⟩

/-- Its only port hears Announces of a grandmaster, and all goes well. -/
def soloClock : Env where
  bmc := ⟨.little, fun _ => 0, fun _ => ⟨0, 0⟩⟩
  comparison := .ieee1588
  slaveOnly := false
  nports := 1
  clockIdentity := repeatedIdentity 1
  domainNumber := 0
  localPriority := 128
  priority1 := 128
  priority2 := 128
  clockQuality := ⟨248, 254, 65535⟩
  utcOffset := 37
  timeFlags := 0
  timeSource := 160
  config := fun _ => plainPort
  wideLongShift := fun _ _ => 0
  memory := fun _ => true
  random := fun _ => 0
  receive := fun _ => .received masterAnnounce
  capable := fun _ => true
  syncIncapable := fun _ => false
  send := fun _ => ⟨true, true⟩
  transmitTime := fun _ => 0
  servo := fun _ => .locked
  delayUpdated := fun _ => true
  initOutcome := fun _ => .ready
  transportOpen := fun _ => true
  switchPhcFails := fun _ => false
  linkReports := fun _ => []
  unicastFails := fun _ => false
  tlvMemory := fun _ => true

/-- One iteration in which a descriptor of the only port is ready. -/
def soloRound (fd : Fd) : List Step :=
  [.poll ⟨fun p ready => p == 0 && ready == fd, fun _ => false⟩, .next, .next]

/-- The port has chosen its master, and its delay timer expires. -/
def delayRequestSteps : List Step :=
  soloRound .general ++ soloRound .general ++ soloRound .general ++
    soloRound .delayTimer

theorem runClock_bestListed_soloClock :
    BestListed (runClock soloClock delayRequestSteps) :=
  runClock_bestListed soloClock delayRequestSteps (by decide +kernel)

def muteClock : Env := { soloClock with send := fun _ => ⟨false, false⟩ }

/-- The failed request disables the port, whose record the clock still has. -/
theorem muteClock_not_bestListed :
    ¬BestListed (runClock muteClock delayRequestSteps) := by decide +kernel

end LinuxPtp.Ordinary
