import LinuxPtp.Ordinary.Decision

/-!
# Invariants of runs

An invariant of the clock is one of every turn, of every dispatch outside a
decision, and of the decision.
-/

namespace LinuxPtp.Ordinary

open Bmc Cells Port Wire

variable {env : Env} {p q : ℕ} {s s' : PtpClock} {linkFault : Prop}
variable {inv : PtpClock → Prop}

/-! ## The events of a port -/

def isRecommendation : PortEvent → Bool
  | .rsMaster | .rsGrandMaster | .rsSlave | .rsPassive => true
  | _ => false

/-- What `bc_event` can return. -/
def ofPort : PortEvent → Bool
  | .none | .stateDecisionEvent | .faultDetected | .faultCleared
  | .announceReceiptTimeoutExpires | .qualificationTimeoutExpires => true
  | _ => false

theorem ofPort_orFault (result : Bool × PtpClock) :
    ofPort (orFault result).1 := by
  rw [orFault]
  dsimp only
  split <;> rfl

theorem ofPort_orDecision (result : Bool × PtpClock) :
    ofPort (orDecision result).1 := by
  rw [orDecision]
  dsimp only
  split <;> rfl

theorem ofPort_handleMessage (m : Message) :
    ofPort (handleMessage env p m s).1 := by
  rw [handleMessage]
  cases m.type with
  | sync | followUp | delayResp | pdelayRespFollowUp => rfl
  | delayReq | pdelayReq | pdelayResp | signaling => exact ofPort_orFault _
  | announce | management => exact ofPort_orDecision _

theorem ofPort_bcEvent (fd : Fd) : ofPort (bcEvent env p fd s).1 := by
  cases fd with
  | announceTimer | syncRxTimer =>
    rw [bcEvent, receiptTimeout]
    split_ifs <;> dsimp only
    · split <;> rfl
    · rfl
  | delayTimer => exact ofPort_orFault _
  | qualificationTimer => rfl
  | mannoTimer => exact ofPort_orFault _
  | syncTxTimer => exact ofPort_orFault _
  | unicastSrvTimer | unicastReqTimer => exact ofPort_orFault _
  | rtnl =>
    rw [bcEvent, linkEvent]
    dsimp only
    split_ifs <;> rfl
  | event | general =>
    rw [bcEvent, receiveMessage]
    split
    · rfl
    · rfl
    · exact ofPort_handleMessage _

theorem not_isRecommendation_of_ofPort {event : PortEvent}
    (hevent : ofPort event) : ¬isRecommendation event := by
  cases event <;> simp_all [ofPort, isRecommendation]

theorem not_isRecommendation_of_ofServo {event : PortEvent}
    (hevent : ofServo event) : ¬isRecommendation event := by
  cases event <;> simp_all [ofServo, isRecommendation]

/-! ## Steps -/

/-- What there is to show of an invariant. -/
structure Preserves (env : Env) (inv : PtpClock → Prop) : Prop where
  turn : ∀ p linkFault s s', Turn env p linkFault s s' → inv s → inv s'
  dispatch : ∀ p event s, ¬isRecommendation event → inv s →
    inv (bcDispatch env p event false s)
  faultArmed : ∀ p armed s, inv s →
    inv (modifyPort p (fun port => { port with faultArmed := armed }) s)
  agenda : ∀ s todo sde, inv s → inv { s with todo := todo, sde := sde }
  decision : ∀ s, inv s → inv (handleStateDecisionEvent env s)

theorem clockFaultTimeout_eq (set : Bool) :
    ∃ armed, clockFaultTimeout env p set s =
      modifyPort p (fun port => { port with faultArmed := armed }) s := by
  rw [clockFaultTimeout]
  cases set
  · exact ⟨false, rfl⟩
  · exact ⟨_, rfl⟩

theorem turn_expire (fd : Fd) : Turn env p linkFault s (expire p fd s) := by
  rw [expire]
  split
  · exact .quiet (Kept.refl p s).setFda.toWithin (by simp [PtpPort.role])
  · exact .quiet (Within.refl p s) rfl

theorem turn_askDecision : Turn env p linkFault s (askDecision s) :=
  .aside ⟨rfl, fun _ => rfl⟩

namespace Preserves

theorem bcEvent (hinv : Preserves env inv) (fd : Fd) (hs : inv s) :
    inv (bcEvent env p fd (expire p fd s)).2 :=
  turns_keep (bcEvent_turns fd id)
    (fun _ _ _ _ hturn => hinv.turn p _ _ _ hturn)
    (hinv.turn p False _ _ (turn_expire fd) hs)

theorem portEvent (hinv : Preserves env inv) (fd : Fd) (hs : inv s) :
    inv (portEvent env p fd s) := by
  have hevent := @bcEvent env p s inv hinv fd hs
  rw [Ordinary.portEvent]
  refine hinv.dispatch p _ _ (not_isRecommendation_of_ofPort (ofPort_bcEvent fd)) ?_
  split_ifs
  · exact hinv.turn p False _ _ turn_askDecision hevent
  · exact hevent

theorem clockFaultTimeout (hinv : Preserves env inv) (set : Bool) (hs : inv s) :
    inv (clockFaultTimeout env p set s) := by
  obtain ⟨armed, harmed⟩ := @clockFaultTimeout_eq env p s set
  rw [harmed]
  exact hinv.faultArmed p armed s hs

theorem runTask (hinv : Preserves env inv) (task : Task) (hs : inv s) :
    inv (runTask env task s) := by
  cases task with
  | fd p fd touched =>
    have hevent := @portEvent env p s inv hinv fd hs
    rw [Ordinary.runTask]
    split
    · exact hinv.agenda _ _ _ (hinv.clockFaultTimeout true hevent)
    · exact hevent
  | fault p =>
    have hcleared := @clockFaultTimeout env p s inv hinv false hs
    rw [Ordinary.runTask]
    split
    · exact hinv.dispatch p _ _ (by decide) hcleared
    · exact hcleared
  | uds fd touched =>
    have hevent := @bcEvent env env.udsPort s inv hinv fd hs
    rw [Ordinary.runTask]
    dsimp only
    split
    · exact hinv.turn env.udsPort False _ _ turn_askDecision hevent
    · exact hevent
  | finish =>
    rw [Ordinary.runTask]
    split
    · exact hinv.agenda _ _ false (hinv.decision s hs)
    · exact hs

theorem step (hinv : Preserves env inv) (action : Step) (hs : inv s) :
    inv (step env s action) := by
  cases action with
  | poll ready =>
    rw [Ordinary.step]
    split
    · exact hinv.agenda s _ s.sde hs
    · exact hs
  | next =>
    rw [Ordinary.step]
    split
    · exact hs
    · exact hinv.runTask _ (hinv.agenda s _ s.sde hs)

theorem clockCreate (hinv : Preserves env inv) (hnew : inv (newClock env)) :
    inv (clockCreate env) := by
  rw [Ordinary.clockCreate]
  generalize List.range (env.nports + 1) = ports
  generalize newClock env = s at hnew
  induction ports generalizing s with
  | nil => exact hnew
  | cons p ports ih => exact ih _ (hinv.dispatch p _ s (by decide) hnew)

/-- An invariant of the new clock holds in every state of every run. -/
theorem runClock (hinv : Preserves env inv) (hnew : inv (newClock env))
    (steps : List Step) : inv (runClock env steps) :=
  Stepping.run_invariant (fun _ action hs => hinv.step action hs) steps
    (hinv.clockCreate hnew)

theorem and {inv' : PtpClock → Prop} (hinv : Preserves env inv)
    (hinv' : Preserves env inv') :
    Preserves env fun s => inv s ∧ inv' s where
  turn p _ _ _ hturn hs :=
    ⟨hinv.turn p _ _ _ hturn hs.1, hinv'.turn p _ _ _ hturn hs.2⟩
  dispatch p event s hevent hs :=
    ⟨hinv.dispatch p event s hevent hs.1, hinv'.dispatch p event s hevent hs.2⟩
  faultArmed p armed s hs :=
    ⟨hinv.faultArmed p armed s hs.1, hinv'.faultArmed p armed s hs.2⟩
  agenda s todo sde hs := ⟨hinv.agenda s todo sde hs.1, hinv'.agenda s todo sde hs.2⟩
  decision s hs := ⟨hinv.decision s hs.1, hinv'.decision s hs.2⟩

end Preserves

/-! ## Conditions on the tasks of a run -/

/-- A condition on the task that a step does, in the state that it is done in. -/
def OnTask (condition : Task → PtpClock → Prop) (s : PtpClock) : Step → Prop
  | .poll _ => True
  | .next =>
      match s.todo with
      | [] => True
      | task :: rest => condition task { s with todo := rest }

instance (condition : Task → PtpClock → Prop)
    [∀ task s, Decidable (condition task s)] (s : PtpClock) (action : Step) :
    Decidable (OnTask condition s action) :=
  match action with
  | .poll _ => inferInstanceAs (Decidable True)
  | .next => by
      rw [OnTask]
      exact match s.todo with
        | [] => inferInstanceAs (Decidable True)
        | task :: rest =>
            inferInstanceAs (Decidable (condition task { s with todo := rest }))

def MeetsTasks (env : Env) (condition : Task → PtpClock → Prop)
    (steps : List Step) : Prop :=
  Stepping.Meets (step env) (OnTask condition) steps (clockCreate env)

instance (condition : Task → PtpClock → Prop)
    [∀ task s, Decidable (condition task s)] (steps : List Step) :
    Decidable (MeetsTasks env condition steps) :=
  Stepping.decidableMeets ..

section

variable {base : PtpClock → Prop} {condition property : Task → PtpClock → Prop}

/-- What every task keeps where its condition is met, a step keeps. -/
theorem step_of_task (hagenda : ∀ s todo, inv s → inv { s with todo := todo })
    (htask : ∀ task s, condition task s → inv s → inv (runTask env task s))
    (action : Step) (haction : OnTask condition s action) (hs : inv s) :
    inv (step env s action) := by
  cases action with
  | poll ready =>
    rw [step]
    split
    · exact hagenda s _ hs
    · exact hs
  | next =>
    rw [step]
    rw [OnTask] at haction
    split
    · exact hs
    · rename_i htodo
      rw [htodo] at haction
      exact htask _ _ haction (hagenda s _ hs)

/-- What the creation of the clock establishes, and every task keeps where its
condition is met, holds in every state of the run. -/
theorem runClock_of_tasks (hcreate : inv (clockCreate env))
    (hagenda : ∀ s todo, inv s → inv { s with todo := todo })
    (htask : ∀ task s, condition task s → inv s → inv (runTask env task s))
    {steps : List Step} (hmeets : MeetsTasks env condition steps) :
    inv (runClock env steps) :=
  Stepping.Meets.invariant
    (fun _ action haction hs => step_of_task hagenda htask action haction hs)
    hmeets hcreate

/-- The same over an invariant that every run keeps. -/
theorem runClock_over (hbase : Preserves env base) (hnew : base (newClock env))
    (hcreate : inv (clockCreate env))
    (hagenda : ∀ s todo, inv s → inv { s with todo := todo })
    (htask : ∀ task s, condition task s → base s → inv s →
      inv (runTask env task s))
    {steps : List Step} (hmeets : MeetsTasks env condition steps) :
    inv (runClock env steps) := by
  refine (@runClock_of_tasks env (fun s => base s ∧ inv s) condition
    ⟨hbase.clockCreate hnew, hcreate⟩
    (fun s todo hs => ⟨hbase.agenda s todo s.sde hs.1, hagenda s todo hs.2⟩)
    (fun task s hcondition hs => ⟨hbase.runTask task hs.1, ?_⟩) steps hmeets).2
  exact htask task s hcondition hs.1 hs.2

/-- The runs that meet a condition can be told by another one that comes to the
same where the invariants hold. -/
theorem meetsTasks_congr (hbase : Preserves env base) (hnew : base (newClock env))
    (hcreate : inv (clockCreate env))
    (hagenda : ∀ s todo, inv s → inv { s with todo := todo })
    (htask : ∀ task s, condition task s → base s → inv s →
      inv (runTask env task s))
    (hiff : ∀ task s, base s → inv s → (property task s ↔ condition task s))
    (steps : List Step) :
    MeetsTasks env property steps ↔ MeetsTasks env condition steps := by
  have hrest : ∀ s todo, base s ∧ inv s →
      base { s with todo := todo } ∧ inv { s with todo := todo } :=
    fun s todo hs => ⟨hbase.agenda s todo s.sde hs.1, hagenda s todo hs.2⟩
  refine @Stepping.meets_congr _ _ _ _ (fun s => base s ∧ inv s) _ ?_ ?_ steps _
    ⟨hbase.clockCreate hnew, hcreate⟩
  · exact fun s action haction hs => step_of_task hrest
      (fun task s hcondition hs =>
        ⟨hbase.runTask task hs.1, htask task s hcondition hs.1 hs.2⟩)
      action haction hs
  · intro s action hs
    cases action with
    | poll ready => exact Iff.rfl
    | next =>
      rw [OnTask, OnTask]
      split
      · exact Iff.rfl
      · exact hiff _ _ (hrest s _ hs).1 (hrest s _ hs).2

end

end LinuxPtp.Ordinary
