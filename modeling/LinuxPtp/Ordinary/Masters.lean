import LinuxPtp.Ordinary.Records

/-!
# The masters that ports follow

A port that follows or defers to a master knows one of its own records, and at
most one port of the clock follows a master.
-/

namespace LinuxPtp.Ordinary

open Bmc Cells Port Wire

variable {env : Env} {p q : ℕ} {s s' : PtpClock}
variable {linkFault switchFails : Prop}
variable {state : PortState} {event : PortEvent} {mdiff : Bool}

/-! ## The state machines -/

/-- The states in which a port follows a master, or defers to one. -/
def defers : PortState → Bool
  | .passive | .uncalibrated | .slave => true
  | _ => false

theorem ptpFsm_defers (hdefers : defers (ptpFsm state event mdiff)) :
    event = .rsSlave ∨ event = .rsPassive ∨
      (defers state ∧ ¬isRecommendation event) := by
  cases state <;> cases event <;>
    first
    | exact Or.inl rfl
    | exact Or.inr (Or.inl rfl)
    | exact Or.inr (Or.inr ⟨rfl, Bool.noConfusion⟩)
    | exact Bool.noConfusion hdefers

theorem ptpSlaveFsm_defers (hregular : state ≠ .passive)
    (hdefers : defers (ptpSlaveFsm state event mdiff)) :
    event = .rsSlave ∨ event = .rsPassive ∨
      (defers state ∧ ¬isRecommendation event) := by
  cases state <;> cases event <;>
    first
    | exact Or.inl rfl
    | exact Or.inr (Or.inl rfl)
    | exact Or.inr (Or.inr ⟨rfl, Bool.noConfusion⟩)
    | exact Bool.noConfusion hdefers
    | exact absurd rfl hregular

theorem ptpSlaveFsm_regular (hregular : state ≠ .passive) :
    ptpSlaveFsm state event mdiff ≠ .passive := by
  cases state <;> cases event <;>
    first
    | exact PortState.noConfusion
    | exact absurd rfl hregular
    | (cases mdiff <;> exact PortState.noConfusion)

theorem stateMachine_defers (hregular : env.slaveOnly → state ≠ .passive)
    (hdefers : defers (env.stateMachine state event mdiff)) :
    event = .rsSlave ∨ event = .rsPassive ∨
      (defers state ∧ ¬isRecommendation event) := by
  rw [Env.stateMachine] at hdefers
  split at hdefers
  · rename_i hslaveOnly
    exact ptpSlaveFsm_defers (hregular hslaveOnly) hdefers
  · exact ptpFsm_defers hdefers

theorem stateMachine_regular (hslaveOnly : env.slaveOnly)
    (hregular : state ≠ .passive) :
    env.stateMachine state event mdiff ≠ .passive := by
  rw [Env.stateMachine, if_pos hslaveOnly]
  exact ptpSlaveFsm_regular hregular

/-! ## A port knows its master -/

/-- The best record, if there is one, is among the records of the port. -/
structure Role.Listed (env : Env) (role : Role) : Prop where
  mem : ∀ best ∈ role.best, ∃ fc ∈ role.bmc.foreignMasters, fc.address = best
  regular : env.slaveOnly → role.state ≠ .passive

/-- Where the port defers, there is a best record, and it is listed. -/
structure Role.Knows (env : Env) (role : Role) : Prop
    extends role.Listed env where
  best : defers role.state → role.best.isSome

theorem not_defers_of_dropped {role role' : Role} (hdropped : Dropped role role') :
    ¬defers role'.state := by
  rcases hdropped.state with hlistening | hout
  · rw [hlistening]
    exact Bool.noConfusion
  · cases hstate : role'.state <;> simp_all [outOfService, defers]

theorem Dispatched.listed {role role' : Role}
    (hdispatched : Dispatched env p event mdiff switchFails role role')
    (hlisted : role.Listed env) : role'.Listed env := by
  cases hdispatched with
  | moved hmoved =>
    rw [hmoved.machine]
    exact ⟨hlisted.mem, fun hslaveOnly =>
      stateMachine_regular hslaveOnly (hlisted.regular hslaveOnly)⟩
  | dropped hdropped =>
    have hregular : role'.state ≠ .passive := fun hpassive =>
      not_defers_of_dropped hdropped (congrArg defers hpassive)
    refine ⟨?_, fun _ => hregular⟩
    rcases hdropped.rest with hcleared | ⟨-, hsame⟩
    · rw [hcleared]
      simp [Role.cleared]
    · rw [hsame]
      exact hlisted.mem

/-- Outside a decision, only a port that defers comes to defer. -/
theorem Dispatched.knows {role role' : Role}
    (hdispatched : Dispatched env p event mdiff switchFails role role')
    (hlisted : role.Listed env)
    (hbest : event = .rsSlave ∨ event = .rsPassive ∨
      (defers role.state ∧ ¬isRecommendation event) → role.best.isSome) :
    role'.Knows env := by
  refine ⟨hdispatched.listed hlisted, fun hdefers => ?_⟩
  cases hdispatched with
  | moved hmoved =>
    rw [hmoved.machine] at hdefers ⊢
    exact hbest (stateMachine_defers hlisted.regular hdefers)
  | dropped hdropped => exact absurd hdefers (not_defers_of_dropped hdropped)

def AllKnow (env : Env) (s : PtpClock) : Prop :=
  ∀ p, (s.ports p).role.Knows env

theorem AllKnow.of_within (hknow : AllKnow env s) (hwithin : Within p s s')
    (hport : (s'.ports p).role.Knows env) : AllKnow env s' := by
  intro q
  by_cases hsame : q = p
  · exact hsame ▸ hport
  · rw [hwithin.ports q hsame]
    exact hknow q

theorem bcDispatch_allKnow (hevent : ¬isRecommendation event)
    (hknow : AllKnow env s) : AllKnow env (bcDispatch env p event mdiff s) := by
  refine hknow.of_within (Kept.refl p s).bcDispatch.toWithin
    ((bcDispatch_cases event mdiff).knows (hknow p).toListed ?_)
  rintro (rfl | rfl | ⟨hdefers, -⟩)
  · exact absurd rfl hevent
  · exact absurd rfl hevent
  · exact (hknow p).best hdefers

/-- New records at the old addresses, and more of them, change nothing. -/
theorem Role.Knows.setRecords {role : Role} (hknows : role.Knows env)
    {records : List ForeignClock}
    (hrecords : ∀ fc ∈ role.bmc.foreignMasters,
      ∃ fc' ∈ records, fc'.address = fc.address) :
    (role.withRecords records).Knows env where
  mem best hbest := by
    obtain ⟨fc, hfc, rfl⟩ := hknows.mem best hbest
    exact hrecords fc hfc
  regular := hknows.regular
  best := hknows.best

theorem exists_setRecord {address : ℕ} {messages : List Announce}
    {records : List ForeignClock} {fc : ForeignClock} (hfc : fc ∈ records) :
    ∃ fc' ∈ setRecord address (fun fc => { fc with messages := messages }) records,
      fc'.address = fc.address := by
  refine ⟨_, mem_setRecord.mpr ⟨fc, hfc, rfl⟩, ?_⟩
  split <;> rfl

theorem turn_allKnow (hturn : Turn env p linkFault s s') (hknow : AllKnow env s) :
    AllKnow env s' := by
  cases hturn with
  | quiet hwithin hrole =>
    exact hknow.of_within hwithin (hrole ▸ hknow p)
  | link hwithin hrole =>
    refine hknow.of_within hwithin ?_
    rw [hrole]
    exact ⟨⟨(hknow p).mem, (hknow p).regular⟩, (hknow p).best⟩
  | aside haside =>
    intro q
    rw [haside.ports]
    exact hknow q
  | clearBest =>
    refine hknow.of_within clearBest_within ?_
    rcases @clearBest_role p s with hsame | ⟨best, -, hcleared⟩
    · exact hsame ▸ hknow p
    · rw [hcleared]
      exact (hknow p).setRecords fun fc hfc => exists_setRecord hfc
  | settle hevent =>
    exact bcDispatch_allKnow (not_isRecommendation_of_ofServo hevent) hknow
  | fault => exact bcDispatch_allKnow Bool.noConfusion hknow
  | insertAnnounce =>
    refine hknow.of_within (insertAnnounce_kept ..).toWithin ?_
    rw [insertAnnounce, modifyPort_same, msgGet]
    dsimp only
    rw [msgPutAll_ports]
    exact (hknow p).setRecords fun fc hfc => exists_setRecord hfc
  | addRecord =>
    refine hknow.of_within (Within.refl p s).called.modifyPort ?_
    rw [addRecord, modifyPort_same]
    exact (hknow p).setRecords fun fc hfc => ⟨fc, List.mem_cons_of_mem _ hfc, rfl⟩
  | reported =>
    refine hknow.of_within (Within.refl p s).modifyPort ?_
    rw [modifyPort_same]
    exact ⟨⟨(hknow p).mem, (hknow p).regular⟩, (hknow p).best⟩

/-! ## The recommendation -/

theorem dscmp_some_none (ds : Dataset) : env.dscmp (some ds) none = aBetter := by
  rw [Env.dscmp]
  cases env.comparison <;> rfl

theorem dscmp_none_none : env.dscmp none none = 0 := by
  rw [Env.dscmp]
  cases env.comparison <;> rfl

/-- A port is passive only on account of its own best record. -/
theorem bmcStateDecision_passive
    (hpassive : bmcStateDecision env p s = .passive) :
    (bestRecord (s.ports p)).isSome := by
  by_contra hnone
  rw [Option.not_isSome_iff_eq_none] at hnone
  have hbest : portBestDs (s.ports p) = none := by
    rw [portBestDs, hnone]
    rfl
  rw [bmcStateDecision] at hpassive
  simp only [hbest, true_and, dscmp_some_none] at hpassive
  split_ifs at hpassive with _ _ _ _ _ htopo
  · exact absurd (by decide) ‹¬aBetter > 0›
  · cases hclock : s.best.map ForeignClock.dataset with
    | none =>
      rw [hclock, dscmp_none_none] at htopo
      exact absurd htopo (by decide)
    | some ds =>
      rw [hclock, dscmp_some_none] at htopo
      exact absurd htopo (by decide)

/-- A port is to follow a master only where the best record is its own, and the
clock itself is not better. -/
theorem bmcStateDecision_slave (hslave : bmcStateDecision env p s = .slave) :
    s.best.map ForeignClock.port = some p ∧
      127 < s.clockQuality.clockClass.toNat ∧
      ¬0 < env.dscmp (some (clockDefaultDs env s))
        (s.best.map ForeignClock.dataset) := by
  rw [bmcStateDecision] at hslave
  split_ifs at hslave
  rename_i hclass hclock hport
  exact ⟨hport, not_le.mp hclass, hclock⟩

/-- A clock of a class above 127 is grandmaster only where it is better than the
best record. -/
theorem bmcStateDecision_grandMaster
    (hclass : 127 < s.clockQuality.clockClass.toNat)
    (hgrandMaster : bmcStateDecision env p s = .grandMaster) :
    0 < env.dscmp (some (clockDefaultDs env s))
      (s.best.map ForeignClock.dataset) := by
  rw [bmcStateDecision, if_neg (not_le.mpr hclass)] at hgrandMaster
  split_ifs at hgrandMaster
  assumption

theorem bmcStateDecision_listening
    (hlistening : bmcStateDecision env p s = .listening) :
    (s.ports p).state = .listening := by
  rw [bmcStateDecision] at hlistening
  split_ifs at hlistening with hnone
  exact hnone.2

theorem bmcStateDecision_cases :
    bmcStateDecision env p s = .listening ∨
      bmcStateDecision env p s = .grandMaster ∨
      bmcStateDecision env p s = .master ∨
      bmcStateDecision env p s = .passive ∨ bmcStateDecision env p s = .slave := by
  rw [bmcStateDecision]
  split_ifs <;> simp

/-- A port defers after a decision only where the decision says so. -/
theorem recommendedEvent_defers
    (hdefers : recommendedEvent (bmcStateDecision env p s) = .rsSlave ∨
      recommendedEvent (bmcStateDecision env p s) = .rsPassive ∨
      (defers (s.ports p).state ∧
        ¬isRecommendation (recommendedEvent (bmcStateDecision env p s)))) :
    bmcStateDecision env p s = .slave ∨ bmcStateDecision env p s = .passive := by
  rcases @bmcStateDecision_cases env p s with
    hlistening | hgrandMaster | hmaster | hpassive | hslave
  · rw [hlistening, bmcStateDecision_listening hlistening] at hdefers
    simp [recommendedEvent, defers] at hdefers
  · rw [hgrandMaster] at hdefers
    simp [recommendedEvent, isRecommendation] at hdefers
  · rw [hmaster] at hdefers
    simp [recommendedEvent, isRecommendation] at hdefers
  · exact Or.inr hpassive
  · exact Or.inl hslave

/-- A port at its turn is as the second loop has found it. -/
theorem decidePorts_at {fresh : Bool} {ports : List ℕ} (hnodup : ports.Nodup)
    (hp : p ∈ ports) :
    ∃ s', s'.ports p = s.ports p ∧ s'.best = s.best ∧
      (decidePorts env fresh ports s).ports p =
        (decidePort env fresh p s').ports p := by
  induction ports generalizing s with
  | nil => simp at hp
  | cons q ports ih =>
    obtain ⟨hfirst, hrest⟩ := List.nodup_cons.mp hnodup
    have hdecides := @decidePort_decides env q s fresh
    rcases List.mem_cons.mp hp with rfl | hp
    · exact ⟨s, rfl, rfl, decidePorts_other hfirst⟩
    · have hother : p ≠ q := fun heq => hfirst (heq ▸ hp)
      obtain ⟨s', hsame, hbest, hat⟩ := @ih (decidePort env fresh q s) hrest hp
      exact ⟨s', hsame.trans (hdecides.ports p hother),
        hbest.trans hdecides.best, hat⟩

theorem portComputeBest_listed (hlisted : ∀ q, (s.ports q).role.Listed env) :
    ∀ q, ((portComputeBest env p s).2.ports q).role.Listed env := by
  intro q
  by_cases hsame : q = p
  · subst hsame
    rw [portComputeBest_same]
    refine ⟨fun address haddress => ?_, (hlisted q).regular⟩
    obtain ⟨fc, hfc, rfl⟩ := Option.map_eq_some_iff.mp haddress
    exact ⟨fc, ((@portComputeBest_records env.bmc env.dscmp s.calls
      (s.ports q).toBmcPort).2 fc hfc).1, rfl⟩
  · rw [portComputeBest_within.ports q hsame]
    exact hlisted q

theorem decisionStart_listed (hlisted : ∀ q, (s.ports q).role.Listed env) :
    ∀ q, ((decisionStart env s).ports q).role.Listed env :=
  @computeBest_keeps env s (fun s => ∀ q, (s.ports q).role.Listed env)
    (fun p s => @portComputeBest_listed env p s)
    (List.range env.nports) none hlisted

theorem computeBest_other {ports : List ℕ} (hother : q ∉ ports)
    (best : Option ForeignClock) :
    (computeBest env ports best s).2.ports q = s.ports q := by
  induction ports generalizing best s with
  | nil => rfl
  | cons p ports ih =>
    rw [List.mem_cons, not_or] at hother
    exact (ih hother.2 _).trans (portComputeBest_within.ports q hother.1)

/-- The decision for a port that has been examined. -/
theorem decidePort_knows {fresh : Bool}
    (hlisted : (s.ports p).role.Listed env)
    (hchosen : ∀ fc ∈ s.best, fc.port = p → (s.ports p).best.isSome) :
    ((decidePort env fresh p s).ports p).role.Knows env := by
  have hports := @recommendedUpdate_ports env s (bmcStateDecision env p s)
  rw [decidePort_eq]
  refine (bcDispatch_cases _ _).knows (hports ▸ hlisted) fun hdefers => ?_
  rw [hports] at hdefers ⊢
  rcases recommendedEvent_defers hdefers with hslave | hpassive
  · obtain ⟨fc, hfc, hport⟩ :=
      Option.map_eq_some_iff.mp (bmcStateDecision_slave hslave).1
    exact hchosen fc hfc hport
  · obtain ⟨fc, hfc⟩ :=
      Option.isSome_iff_exists.mp (bmcStateDecision_passive hpassive)
    exact Option.isSome_iff_exists.mpr ⟨_, (mem_of_bestRecord hfc).2⟩

theorem decision_allKnow (hkept : AllWellKept s) (hknow : AllKnow env s) :
    AllKnow env (handleStateDecisionEvent env s) := by
  have hlisted := decisionStart_listed fun q => (hknow q).toListed
  have hchosen := @decisionStart_chosen env s hkept.own
  rw [handleStateDecisionEvent_eq]
  intro p
  by_cases hp : p ∈ List.range env.nports
  · obtain ⟨s', hsame, hbest, hat⟩ := @decidePorts_at env p
      (decisionStart env s) (freshBest env s) _ List.nodup_range hp
    rw [hat]
    refine decidePort_knows (hsame ▸ hlisted p) fun fc hfc hport => ?_
    rw [hsame, Option.isSome_iff_exists]
    exact ⟨_, hport ▸ (hchosen fc (hbest ▸ hfc)).best⟩
  · have hstart : (decisionStart env s).ports p = s.ports p :=
      computeBest_other hp none
    rw [decidePorts_other hp, hstart]
    exact hknow p

theorem allKnow_preserves :
    Preserves env fun s => AllWellKept s ∧ AllKnow env s where
  turn _ _ _ _ hturn hinv :=
    ⟨turn_allWellKept hturn hinv.1, turn_allKnow hturn hinv.2⟩
  dispatch _ event _ hevent hinv :=
    ⟨bcDispatch_allWellKept event false hinv.1, bcDispatch_allKnow hevent hinv.2⟩
  faultArmed p armed s hinv := by
    refine ⟨(@allWellKept_preserves env).faultArmed p armed s hinv.1, ?_⟩
    refine hinv.2.of_within (Within.refl p s).modifyPort ?_
    rw [modifyPort_same]
    exact ⟨⟨(hinv.2 p).mem, (hinv.2 p).regular⟩, (hinv.2 p).best⟩
  agenda _ _ _ hinv := hinv
  decision s hinv :=
    ⟨allWellKept_preserves.decision s hinv.1, decision_allKnow hinv.1 hinv.2⟩

theorem newClock_allKnow : AllKnow env (newClock env) :=
  fun _ => ⟨⟨by simp [newClock, portCreate, PtpPort.role], fun _ => by
    simp [newClock, portCreate, PtpPort.role]⟩, Bool.noConfusion⟩

/-- In each port that defers, the best record is there and is its own. -/
def KnowMasters (s : PtpClock) : Prop :=
  ∀ p, defers (s.ports p).state →
    ∃ fc ∈ (s.ports p).foreignMasters, (s.ports p).best = some fc.address

theorem AllKnow.knowMasters (hknow : AllKnow env s) : KnowMasters s := by
  intro p hdefers
  obtain ⟨best, hbest⟩ := Option.isSome_iff_exists.mp ((hknow p).best hdefers)
  obtain ⟨fc, hfc, haddress⟩ := (hknow p).mem best hbest
  exact ⟨fc, hfc, hbest.trans (congrArg some haddress.symm)⟩

/-- Reading a message changes no port. -/
theorem readMessage_ports : (readMessage env p s).2.ports = s.ports := by
  rw [readMessage]
  generalize hallocated : msgAllocate env s = allocated
  have hports : allocated.2.ports = s.ports := hallocated ▸ rfl
  obtain ⟨_ | cell, s₁⟩ := allocated
  · exact hports
  · dsimp only
    split
    · exact hports
    · exact hports
    · split <;> exact hports

/-- In every state of every run, and whenever a message handler runs, a port that
defers knows a master. -/
theorem runClock_knowMasters (env : Env) (steps : List Step) :
    KnowMasters (runClock env steps) ∧
      ∀ p fd, KnowMasters
        (readMessage env p (expire p fd (runClock env steps))).2 := by
  have hknow := (@allKnow_preserves env).runClock
    ⟨newClock_allWellKept, newClock_allKnow⟩ steps
  refine ⟨hknow.2.knowMasters, fun p fd => ?_⟩
  have hexpired : AllKnow env (expire p fd (runClock env steps)) :=
    turn_allKnow (@turn_expire env p (runClock env steps) False fd) hknow.2
  rw [KnowMasters, readMessage_ports]
  exact hexpired.knowMasters

/-! ## At most one port follows a master -/

theorem ptpFsm_isSlave (hslave : isSlave (ptpFsm state event mdiff)) :
    event = .rsSlave ∨ (isSlave state ∧ ¬isRecommendation event) := by
  cases state <;> cases event <;>
    first
    | exact Or.inl rfl
    | exact Or.inr ⟨rfl, Bool.noConfusion⟩
    | exact Bool.noConfusion hslave

theorem ptpSlaveFsm_isSlave (hslave : isSlave (ptpSlaveFsm state event mdiff)) :
    event = .rsSlave ∨ (isSlave state ∧ ¬isRecommendation event) := by
  cases state <;> cases event <;>
    first
    | exact Or.inl rfl
    | exact Or.inr ⟨rfl, Bool.noConfusion⟩
    | exact Bool.noConfusion hslave

/-- A port comes to follow only by a recommendation. -/
theorem Dispatched.isSlave {role role' : Role}
    (hdispatched : Dispatched env p event mdiff switchFails role role')
    (hslave : isSlave role'.state) :
    event = .rsSlave ∨ (isSlave role.state ∧ ¬isRecommendation event) := by
  cases hdispatched with
  | moved hmoved =>
    rw [hmoved.machine, Env.stateMachine] at hslave
    dsimp only at hslave
    split at hslave
    · exact ptpSlaveFsm_isSlave hslave
    · exact ptpFsm_isSlave hslave
  | dropped hdropped =>
    have hdefers : defers role'.state := by
      cases hstate : role'.state <;> simp_all [Ordinary.isSlave, defers]
    exact absurd hdefers (not_defers_of_dropped hdropped)

/-- Only network ports follow a master, and no two of them do. -/
structure FollowOne (env : Env) (s : PtpClock) : Prop where
  network : ∀ p, isSlave (s.ports p).state → p < env.nports
  unique : ∀ p q, isSlave (s.ports p).state → isSlave (s.ports q).state → p = q

/-- Fewer ports may follow. -/
theorem FollowOne.mono (hone : FollowOne env s)
    (hfewer : ∀ p, isSlave (s'.ports p).state → isSlave (s.ports p).state) :
    FollowOne env s' where
  network p hslave := hone.network p (hfewer p hslave)
  unique p q hp hq := hone.unique p q (hfewer p hp) (hfewer q hq)

theorem FollowOne.of_within (hone : FollowOne env s) (hwithin : Within p s s')
    (hfewer : isSlave (s'.ports p).state → isSlave (s.ports p).state) :
    FollowOne env s' := by
  refine hone.mono fun q hslave => ?_
  by_cases hsame : q = p
  · subst hsame
    exact hfewer hslave
  · rwa [hwithin.ports q hsame] at hslave

theorem bcDispatch_followOne (hevent : ¬isRecommendation event)
    (hone : FollowOne env s) : FollowOne env (bcDispatch env p event mdiff s) := by
  refine hone.of_within (Kept.refl p s).bcDispatch.toWithin fun hslave => ?_
  rcases (bcDispatch_cases event mdiff).isSlave hslave with rfl | ⟨hbefore, -⟩
  · exact absurd rfl hevent
  · exact hbefore

theorem turn_followOne (hturn : Turn env p linkFault s s') (hone : FollowOne env s) :
    FollowOne env s' := by
  cases hturn with
  | quiet hwithin hrole =>
    refine hone.of_within hwithin fun hslave => ?_
    rwa [show (s'.ports p).state = (s.ports p).state from
      congrArg Role.state hrole] at hslave
  | link hwithin hrole =>
    refine hone.of_within hwithin fun hslave => ?_
    rwa [show (s'.ports p).state = (s.ports p).state from
      congrArg Role.state hrole] at hslave
  | aside haside => exact hone.mono fun p hslave => haside.ports ▸ hslave
  | clearBest =>
    exact hone.of_within clearBest_within fun hslave =>
      clearBest_state ▸ hslave
  | settle hevent =>
    exact bcDispatch_followOne (not_isRecommendation_of_ofServo hevent) hone
  | fault => exact bcDispatch_followOne Bool.noConfusion hone
  | insertAnnounce =>
    refine hone.of_within (insertAnnounce_kept ..).toWithin fun hslave => ?_
    simpa [insertAnnounce, msgGet] using hslave
  | addRecord =>
    refine hone.of_within (Within.refl p s).called.modifyPort fun hslave => ?_
    simpa [addRecord] using hslave
  | reported =>
    refine hone.of_within (Within.refl p s).modifyPort fun hslave => ?_
    simpa using hslave

/-- After its decision a port follows only where the decision says so. -/
theorem decidePort_isSlave {fresh : Bool}
    (hslave : isSlave ((decidePort env fresh p s).ports p).state) :
    bmcStateDecision env p s = .slave := by
  have hports := @recommendedUpdate_ports env s (bmcStateDecision env p s)
  rw [decidePort_eq] at hslave
  have hevent := (bcDispatch_cases _ _).isSlave hslave
  dsimp only [PtpPort.role] at hevent
  rw [hports] at hevent
  rcases @bmcStateDecision_cases env p s with
    hlistening | hgrandMaster | hmaster | hpassive | hslave
  · rw [hlistening, bmcStateDecision_listening hlistening] at hevent
    simp [recommendedEvent, Ordinary.isSlave] at hevent
  · rw [hgrandMaster] at hevent
    simp [recommendedEvent, isRecommendation] at hevent
  · rw [hmaster] at hevent
    simp [recommendedEvent, isRecommendation] at hevent
  · rw [hpassive] at hevent
    simp [recommendedEvent, isRecommendation] at hevent
  · exact hslave

theorem decision_isSlave
    (hslave : isSlave ((handleStateDecisionEvent env s).ports p).state)
    (hp : p < env.nports) :
    (decisionStart env s).best.map ForeignClock.port = some p := by
  obtain ⟨s', -, hbest, hat⟩ := @decidePorts_at env p (decisionStart env s)
    (freshBest env s) _ List.nodup_range (List.mem_range.mpr hp)
  rw [handleStateDecisionEvent_eq, hat] at hslave
  exact hbest ▸ (bmcStateDecision_slave (decidePort_isSlave hslave)).1

theorem decision_followOne (hone : FollowOne env s) :
    FollowOne env (handleStateDecisionEvent env s) := by
  have hnetwork : ∀ p, isSlave ((handleStateDecisionEvent env s).ports p).state →
      p < env.nports := by
    intro p hslave
    by_contra hp
    have hnot : p ∉ List.range env.nports := by simpa using hp
    have hstart : (decisionStart env s).ports p = s.ports p :=
      computeBest_other hnot none
    rw [handleStateDecisionEvent_eq, decidePorts_other hnot, hstart] at hslave
    exact hp (hone.network p hslave)
  refine ⟨hnetwork, fun p q hp hq => ?_⟩
  have hbest := decision_isSlave hp (hnetwork p hp)
  exact Option.some.inj (hbest.symm.trans (decision_isSlave hq (hnetwork q hq)))

theorem followOne_preserves : Preserves env (FollowOne env) where
  turn _ _ _ _ := turn_followOne
  dispatch _ _ _ hevent := bcDispatch_followOne hevent
  faultArmed p armed s hone :=
    hone.of_within (Within.refl p s).modifyPort fun hslave => by
      simpa using hslave
  agenda _ _ _ hone := hone.mono fun _ => id
  decision _ := decision_followOne

theorem newClock_followOne : FollowOne env (newClock env) where
  network _ := Bool.noConfusion
  unique _ _ := Bool.noConfusion

/-! ## The clock takes over the master of the port that follows -/

def decisionTurn (env : Env) (p : ℕ) (s : PtpClock) : PtpClock :=
  decidePorts env (freshBest env s) (List.range p) (decisionStart env s)

/-- The best record of the clock is of the port, and the clock has its sender for
a parent and one step more than it, at most 255. -/
def FollowsBest (p : ℕ) (s : PtpClock) : Prop :=
  ∃ fc ∈ s.best, fc.port = p ∧
    s.parentPortIdentity = fc.dataset.sender ∧
    s.stepsRemoved.toNat = 1 + fc.dataset.stepsRemoved.toNat ∧
    s.stepsRemoved.toNat ≤ 255

theorem FollowsBest.of_within (hfollows : FollowsBest p s)
    (hwithin : Within q s s') : FollowsBest p s' := by
  rw [FollowsBest, hwithin.best, hwithin.parentPortIdentity,
    hwithin.stepsRemoved]
  exact hfollows

/-- What the clock takes over from the best record. -/
theorem clockUpdateSlave_eq {fc : ForeignClock} {m : Announce}
    (hbest : s.best = some fc) (hm : m ∈ fc.messages.head?) :
    clockUpdateSlave s = { s with
      stepsRemoved := 1 + fc.dataset.stepsRemoved
      parentPortIdentity := fc.dataset.sender
      grandmasterIdentity := m.grandmasterIdentity
      grandmasterClockQuality := m.grandmasterClockQuality
      grandmasterPriority1 := m.grandmasterPriority1
      grandmasterPriority2 := m.grandmasterPriority2
      tds := ⟨m.currentUtcOffset.toInt, m.timeFlags, m.timeSource⟩
      utcOffset :=
        if utcTraceable m.timeFlags ∨ m.currentUtcOffset.toInt > s.utcOffset then
          m.currentUtcOffset.toInt
        else s.utcOffset } := by
  obtain ⟨messages, hcons⟩ := List.head?_eq_some_iff.mp hm
  simp only [clockUpdateSlave, hbest, hcons]

theorem clockUpdateSlave_followsBest {fc : ForeignClock} {m : Announce}
    (hbest : s.best = some fc) (hport : fc.port = p) (hm : m ∈ fc.messages.head?)
    (hsteps : fc.dataset.stepsRemoved.toNat < 255) :
    FollowsBest p (clockUpdateSlave s) := by
  have hsum : (1 + fc.dataset.stepsRemoved).toNat =
      1 + fc.dataset.stepsRemoved.toNat := by
    rw [UInt16.toNat_add, show (1 : UInt16).toNat = 1 from rfl]
    exact Nat.mod_eq_of_lt (by omega)
  rw [clockUpdateSlave_eq hbest hm]
  refine ⟨fc, hbest, hport, rfl, hsum, ?_⟩
  dsimp only
  omega

/-- While the clock follows a port, no other port is to follow or to be
grandmaster. -/
theorem recommendedUpdate_other (hother : q ≠ p)
    (hport : s.best.map ForeignClock.port = some p)
    (hclass : 127 < s.clockQuality.clockClass.toNat)
    (hclock : ¬0 < env.dscmp (some (clockDefaultDs env s))
      (s.best.map ForeignClock.dataset)) :
    recommendedUpdate env (bmcStateDecision env q s) s = s := by
  rcases @bmcStateDecision_cases env q s with
    hlistening | hgrandMaster | hmaster | hpassive | hslave
  · rw [hlistening]
    rfl
  · exact absurd (bmcStateDecision_grandMaster hclass hgrandMaster) hclock
  · rw [hmaster]
    rfl
  · rw [hpassive]
    rfl
  · have hq := (bmcStateDecision_slave hslave).1
    exact absurd (Option.some.inj (hq.symm.trans hport)) hother

theorem range_split (hp : p < q) :
    ∃ rest, List.range q = List.range p ++ p :: rest := by
  refine ⟨(List.range (q - p - 1)).map (p + 1 + ·), ?_⟩
  obtain ⟨k, rfl⟩ := Nat.exists_eq_add_of_lt hp
  rw [show p + k + 1 - p - 1 = k by omega, show p + k + 1 = p + 1 + k by omega,
    List.range_add, List.range_succ, List.append_assoc]
  rfl

/-- The turn of a port in the second loop. -/
theorem decision_split (hp : p < env.nports) :
    ∃ rest, p ∉ rest ∧ rest.Nodup ∧
      handleStateDecisionEvent env s =
        decidePorts env (freshBest env s) rest
          (decidePort env (freshBest env s) p (decisionTurn env p s)) := by
  obtain ⟨rest, hrange⟩ := range_split hp
  have hnodup := hrange ▸ @List.nodup_range env.nports
  obtain ⟨hfirst, hrest⟩ := List.nodup_cons.mp (List.nodup_append.mp hnodup).2.1
  refine ⟨rest, hfirst, hrest, ?_⟩
  rw [handleStateDecisionEvent_eq, hrange, decidePorts, List.foldl_append,
    List.foldl_cons]
  rfl

/-- What the clock takes over from the best record, and work on the ports leaves
alone, holds after the decision that has a port follow. -/
theorem decision_follows {inv : PtpClock → Prop}
    (hwithin : ∀ q s s', Within q s s' → inv s → inv s') (hp : p < env.nports)
    (hslave : bmcStateDecision env p (decisionTurn env p s) = .slave)
    (hinv : inv (clockUpdateSlave (decisionTurn env p s))) :
    inv (handleStateDecisionEvent env s) := by
  obtain ⟨rest, hfirst, hrest, heq⟩ := @decision_split env p s hp
  obtain ⟨hport, hclass, hclock⟩ := bmcStateDecision_slave hslave
  have hdecides := @decidePort_decides env p (decisionTurn env p s)
    (freshBest env s)
  rw [heq]
  refine decidePorts_keeps rest hrest ?_ ?_
  · intro q hq s' _ hsame hdefault hinv
    have hother : q ≠ p := fun heq => hfirst (heq ▸ hq)
    have hds := hdefault.trans hdecides.clockDefaultDs
    have hquality : s'.clockQuality = (decisionTurn env p s).clockQuality :=
      congrArg Dataset.quality hds
    rw [hdecides.best] at hsame
    rw [decidePort_eq, recommendedUpdate_other hother (hsame ▸ hport)
      (hquality ▸ hclass) (by rwa [hds, hsame])]
    exact hwithin q _ _ (Kept.refl q s').bcDispatch.toWithin hinv
  · rw [decidePort_eq, hslave]
    exact hwithin p _ _ (Kept.refl p _).bcDispatch.toWithin hinv

/-- The best record of a decision that has a port follow. -/
theorem decisionTurn_best (hkept : AllWellKept s)
    (hslave : bmcStateDecision env p (decisionTurn env p s) = .slave) :
    ∃ fc, (decisionTurn env p s).best = some fc ∧ fc.port = p ∧
      Chosen (decisionStart env s) fc := by
  have hbest : (decisionTurn env p s).best = (decisionStart env s).best :=
    decidePorts_best
  obtain ⟨fc, hfc, hport⟩ :=
    Option.map_eq_some_iff.mp (bmcStateDecision_slave hslave).1
  exact ⟨fc, hfc, hport, decisionStart_chosen hkept.own fc (hbest ▸ hfc)⟩

/-- The decision that has a port follow makes the clock follow. -/
theorem decision_followsBest (hkept : AllWellKept s) (hp : p < env.nports)
    (hslave : bmcStateDecision env p (decisionTurn env p s) = .slave) :
    FollowsBest p (handleStateDecisionEvent env s) := by
  obtain ⟨fc, hfc, hport, hchosen⟩ := decisionTurn_best hkept hslave
  obtain ⟨newest, hnewest, hdataset⟩ := hchosen.qualifies.dataset
  have hsteps : fc.dataset.stepsRemoved.toNat < 255 := by
    rw [hdataset]
    exact (decisionStart_allWellKept hkept fc.port).steps fc hchosen.mem newest
      (List.mem_of_mem_head? hnewest)
  exact decision_follows (fun q s s' hwithin hfollows =>
    hfollows.of_within hwithin) hp hslave
    (clockUpdateSlave_followsBest hfc hport hnewest hsteps)

/-- At most one port is UNCALIBRATED or SLAVE; and a decision that recommends
SLAVE makes the clock follow the best record, which is of that port. -/
structure FollowsOneMaster (env : Env) (s : PtpClock) : Prop where
  unique : ∀ p q, isSlave (s.ports p).state → isSlave (s.ports q).state → p = q
  decision : ∀ todo, ∀ p < env.nports,
    bmcStateDecision env p (decisionTurn env p { s with todo := todo }) = .slave →
    FollowsBest p (handleStateDecisionEvent env { s with todo := todo })

/-- In every state of every run the clock follows at most one master. -/
theorem runClock_followsOneMaster (env : Env) (steps : List Step) :
    FollowsOneMaster env (runClock env steps) where
  unique := (followOne_preserves.runClock newClock_followOne steps).unique
  decision todo p hp hslave := by
    have hkept := (@allWellKept_preserves env).runClock newClock_allWellKept steps
    exact decision_followsBest (s := { runClock env steps with todo := todo })
      hkept hp hslave

end LinuxPtp.Ordinary
