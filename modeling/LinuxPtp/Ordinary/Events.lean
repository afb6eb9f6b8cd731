import LinuxPtp.Ordinary.BestRecord

/-!
# Messages and iterations

What a port makes of the message that it reads, and what an iteration of the main
loop leaves when it ends.
-/

namespace LinuxPtp.Ordinary

open Bmc Cells Port Wire
open Relation (ReflTransGen)

variable {env : Env} {p q : ℕ} {s s' : PtpClock} {inv : PtpClock → Prop}
variable {linkFault manages : Prop}

/-! ## Messages -/

theorem smallTurns_keep
    (hsmall : ∀ before after, SmallTurn env p linkFault manages before after →
      inv before → inv after)
    (hturns : ReflTransGen (SmallTurn env p linkFault manages) s s')
    (hinv : inv s) : inv s' := by
  induction hturns with
  | refl => exact hinv
  | tail _ hlast ih => exact hsmall _ _ hlast ih

/-- What an event keeps, if its small turns and the Announce that it reads do. -/
theorem bcEvent_keeps {fd : Fd}
    (hsmall : ∀ before after, SmallTurn env p (LinkFails env fd s)
      ((bcEvent env p fd s).1 = .stateDecisionEvent) before after →
      inv before → inv after)
    (hannounce : ∀ m s', fd.isSocket →
      readMessage env p s = (.accepted m, s') → m.type = .announce →
      inv s' → inv (noteAnnounce p (portMsgProAnnounce env p m s')).2)
    (hinv : inv s) : inv (bcEvent env p fd s).2 := by
  have hdoes : Does env p (LinkFails env fd s)
      ((bcEvent env p fd s).1 = .stateDecisionEvent)
      (fun m s' => fd.isSocket ∧ readMessage env p s = (.accepted m, s'))
      s (bcEvent env p fd s).2 :=
    .bcEvent fd (fun _ _ hsocket hread => ⟨hsocket, hread⟩) id id
  refine hdoes.keeps (fun s s' hhandled hinv => ?_) hinv
  cases hhandled with
  | effect heffect =>
    exact smallTurns_keep hsmall (smallTurns_of_effect heffect) hinv
  | announce htype _ hok => exact hannounce _ _ hok.1 hok.2 htype hinv
  | sync => exact smallTurns_keep hsmall (portMsgProSync_smallTurns _) hinv
  | followUp =>
    exact smallTurns_keep hsmall (portMsgProFollowUp_smallTurns _) hinv

/-- A condition on the messages that a task has a network port handle, in the
state in which it does. -/
def OnAccepted (env : Env) (condition : ℕ → Message → PtpClock → Prop)
    (task : Task) (s : PtpClock) : Prop :=
  match task with
  | .fd p fd _ =>
      fd.isSocket →
        match readMessage env p (expire p fd s) with
        | (.accepted m, s') => condition p m s'
        | _ => True
  | _ => True

instance (condition : ℕ → Message → PtpClock → Prop)
    [∀ p m s, Decidable (condition p m s)] (task : Task) :
    Decidable (OnAccepted env condition task s) :=
  match task with
  | .fd p fd _ => by
      rw [OnAccepted]
      exact match readMessage env p (expire p fd s) with
        | (.accepted m, s') =>
            inferInstanceAs (Decidable (_ → condition p m s'))
        | (.failed, _) => inferInstanceAs (Decidable (_ → True))
        | (.dropped, _) => inferInstanceAs (Decidable (_ → True))
  | .fault _ => inferInstanceAs (Decidable True)
  | .uds .. => inferInstanceAs (Decidable True)
  | .finish => inferInstanceAs (Decidable True)

theorem OnAccepted.condition {condition : ℕ → Message → PtpClock → Prop}
    {fd : Fd} {touched : ℕ} {m : Message}
    (haccepted : OnAccepted env condition (.fd p fd touched) s)
    (hsocket : fd.isSocket)
    (hread : readMessage env p (expire p fd s) = (.accepted m, s')) :
    condition p m s' := by
  have hcondition := haccepted hsocket
  rwa [hread] at hcondition

/-- The event of a socket is that of the message that is read from it. -/
theorem bcEvent_accepted {fd : Fd} {m : Message} (hsocket : fd.isSocket)
    (hread : readMessage env p s = (.accepted m, s')) :
    (bcEvent env p fd s).1 = (handleMessage env p m s').1 := by
  cases fd <;> first
    | (rw [bcEvent, receiveMessage, hread])
    | exact Bool.noConfusion hsocket

/-! ## Iterations -/

theorem turn_todo (hturn : Turn env p linkFault s s') : s'.todo = s.todo := by
  cases hturn with
  | quiet hwithin => exact hwithin.todo
  | link hwithin => exact hwithin.todo
  | aside haside => exact haside.todo
  | clearBest => exact clearBest_within.todo
  | settle | fault => exact (Kept.refl p s).bcDispatch.todo
  | insertAnnounce => exact (insertAnnounce_kept ..).todo
  | addRecord => rfl
  | reported => rfl

theorem turn_other (hturn : Turn env p linkFault s s') (hother : q ≠ p) :
    s'.ports q = s.ports q := by
  cases hturn with
  | quiet hwithin => exact hwithin.ports q hother
  | link hwithin => exact hwithin.ports q hother
  | aside haside => rw [haside.ports]
  | clearBest => exact clearBest_within.ports q hother
  | settle | fault => exact (Kept.refl p s).bcDispatch.ports q hother
  | insertAnnounce => exact (insertAnnounce_kept ..).ports q hother
  | addRecord => exact modifyPort_other _ hother
  | reported => exact modifyPort_other _ hother

theorem turn_sde (hturn : Turn env p linkFault s s') (hsde : s.sde) : s'.sde := by
  cases hturn with
  | quiet hwithin => exact hwithin.sde.trans hsde
  | link hwithin => exact hwithin.sde.trans hsde
  | aside haside => exact haside.sde hsde
  | clearBest => exact clearBest_within.sde.trans hsde
  | settle | fault => exact (Kept.refl p s).bcDispatch.sde.trans hsde
  | insertAnnounce => exact (insertAnnounce_kept ..).sde.trans hsde
  | addRecord => exact hsde
  | reported => exact hsde

/-- An event of a port leaves the others alone and takes back no decision. -/
theorem bcEvent_elsewhere (fd : Fd) :
    (∀ q, q ≠ p →
      (bcEvent env p fd (expire p fd s)).2.ports q = s.ports q) ∧
      (s.sde → (bcEvent env p fd (expire p fd s)).2.sde) := by
  have hturns : ReflTransGen (Turn env p True) (expire p fd s)
      (bcEvent env p fd (expire p fd s)).2 := bcEvent_turns fd fun _ => trivial
  have hexpire := @turn_expire env p s True fd
  exact @turns_keep env p _ _ _ (fun s' =>
    (∀ q, q ≠ p → s'.ports q = s.ports q) ∧ (s.sde → s'.sde)) hturns
    (fun _ _ _ _ hturn hinv =>
      ⟨fun q hother => (turn_other hturn hother).trans (hinv.1 q hother),
        fun hsde => turn_sde hturn (hinv.2 hsde)⟩)
    ⟨fun q hother => turn_other hexpire hother, turn_sde hexpire⟩

/-- So does its dispatch. -/
theorem portEvent_elsewhere (fd : Fd) :
    (∀ q, q ≠ p → (portEvent env p fd s).ports q = s.ports q) ∧
      (s.sde → (portEvent env p fd s).sde) := by
  obtain ⟨hothers, hsde⟩ := @bcEvent_elsewhere env p s fd
  obtain ⟨s', hs', -, hevent⟩ := @portEvent_eq env p s fd
  have hdispatch := (@Kept.bcDispatch env p s' s' (.refl p s')
    (bcEvent env p fd (expire p fd s)).1 false).toWithin
  rw [hevent]
  refine ⟨fun q hother => ?_, fun hasked => ?_⟩
  · rw [hdispatch.ports q hother]
    rcases hs' with rfl | rfl <;> exact hothers q hother
  · rw [hdispatch.sde]
    rcases hs' with rfl | rfl
    · exact hsde hasked
    · rfl

theorem bcEvent_todo (fd : Fd) :
    (bcEvent env p fd (expire p fd s)).2.todo = s.todo := by
  have hturns : ReflTransGen (Turn env p True) (expire p fd s)
      (bcEvent env p fd (expire p fd s)).2 := bcEvent_turns fd fun _ => trivial
  exact @turns_keep env p _ _ _ (fun s' => s'.todo = s.todo) hturns
    (fun _ _ _ _ hturn htodo => (turn_todo hturn).trans htodo)
    (turn_todo (@turn_expire env p s True fd))

theorem portEvent_todo (fd : Fd) : (portEvent env p fd s).todo = s.todo := by
  obtain ⟨s', hs', -, hevent⟩ := @portEvent_eq env p s fd
  rw [hevent, (Kept.refl p s').bcDispatch.todo]
  rcases hs' with rfl | rfl <;> exact bcEvent_todo fd

theorem handleStateDecisionEvent_todo :
    (handleStateDecisionEvent env s).todo = s.todo := by
  have hstart : (decisionStart env s).todo = s.todo :=
    @computeBest_keeps env s (fun s' => s'.todo = s.todo)
      (fun _ _ htodo => portComputeBest_within.todo.trans htodo)
      (List.range env.nports) none rfl
  rw [handleStateDecisionEvent_eq]
  exact @decidePorts_keeps env _ (fun s' => s'.todo = s.todo) _ _
    List.nodup_range
    (fun _ _ _ _ _ _ htodo => (decidePort_decides _).todo.trans htodo) hstart

/-- A task only takes tasks away, and never the last. -/
theorem runTask_todo (task : Task) :
    ∃ keep : Task → Bool, keep .finish ∧
      (runTask env task s).todo = s.todo.filter keep := by
  have hall : s.todo = s.todo.filter fun _ => true := by simp
  cases task with
  | fd p fd touched =>
    have htodo := @portEvent_todo env p s fd
    rw [runTask]
    split
    · obtain ⟨armed, harmed⟩ :=
        @clockFaultTimeout_eq env p (portEvent env p fd s) true
      rw [harmed, skipPort]
      exact ⟨_, rfl, congrArg (List.filter _) htodo⟩
    · exact ⟨_, rfl, htodo.trans hall⟩
  | fault p =>
    obtain ⟨armed, harmed⟩ := @clockFaultTimeout_eq env p s false
    rw [runTask, harmed]
    refine ⟨_, rfl, Eq.trans ?_ hall⟩
    split
    · exact (Kept.refl p _).bcDispatch.todo
    · rfl
  | uds fd touched =>
    have htodo := @bcEvent_todo env env.udsPort s fd
    rw [runTask]
    refine ⟨_, rfl, Eq.trans ?_ (htodo.trans hall)⟩
    dsimp only
    split <;> rfl
  | finish =>
    rw [runTask]
    refine ⟨_, rfl, Eq.trans ?_ hall⟩
    split
    · exact handleStateDecisionEvent_todo
    · rfl

/-- Either nothing remains to be done and no decision is asked for, or the end of
the iteration is still to come. -/
def Orderly (s : PtpClock) : Prop :=
  s.todo = [] ∧ s.sde = false ∨
    ∃ rest, s.todo = rest ++ [.finish] ∧ .finish ∉ rest

theorem pollTasks_orderly (ready : Ready) :
    pollTasks env ready s = [] ∨
      ∃ rest, pollTasks env ready s = rest ++ [.finish] ∧ .finish ∉ rest := by
  have hfinish : .finish ∉ (List.range env.nports).flatMap (portTasks ready s) ++
      udsTasks env ready s := by
    simp only [List.mem_append, List.mem_flatMap, not_or, not_exists]
    refine ⟨?_, by simp [udsTasks]⟩
    rintro p ⟨-, hmem⟩
    rw [portTasks, List.mem_append] at hmem
    rcases hmem with hmem | hmem
    · simp at hmem
    · split at hmem <;> simp at hmem
  rw [pollTasks]
  split
  · exact Or.inl rfl
  · rename_i first rest htasks
    rw [htasks] at hfinish
    exact Or.inr ⟨first :: rest, rfl, hfinish⟩

theorem step_orderly (action : Step) (horderly : Orderly s) :
    Orderly (step env s action) := by
  cases action with
  | poll ready =>
    rw [step]
    split
    · rename_i hidle
      rcases horderly with ⟨-, hsde⟩ | ⟨rest, hrest, -⟩
      · rcases @pollTasks_orderly env s ready with hnone | hsome
        · exact Or.inl ⟨hnone, hsde⟩
        · exact Or.inr hsome
      · simp [hidle] at hrest
    · exact horderly
  | next =>
    rw [step]
    split
    · exact horderly
    · rename_i task rest htodo
      rcases horderly with ⟨hnone, -⟩ | ⟨before, hbefore, hfinish⟩
      · simp [htodo] at hnone
      obtain ⟨keep, hkeep, hafter⟩ := @runTask_todo env { s with todo := rest } task
      rw [htodo] at hbefore
      cases before with
      | nil =>
        obtain ⟨rfl, rfl⟩ := List.cons.inj hbefore
        refine Or.inl ⟨hafter, ?_⟩
        rw [runTask]
        split
        · rfl
        · rename_i hsde
          simpa using hsde
      | cons task' before =>
        obtain ⟨rfl, rfl⟩ := List.cons.inj hbefore
        refine Or.inr ⟨before.filter keep, ?_, ?_⟩
        · rw [hafter]
          simp [hkeep]
        · exact fun hmem => hfinish (List.mem_cons_of_mem _ (List.mem_of_mem_filter hmem))

theorem clockCreate_orderly : Orderly (clockCreate env) := by
  rw [clockCreate]
  generalize List.range (env.nports + 1) = ports
  have hnew : Orderly (newClock env) := Or.inl ⟨rfl, rfl⟩
  generalize newClock env = s at hnew
  induction ports generalizing s with
  | nil => exact hnew
  | cons p ports ih =>
    have hkept := (@Kept.bcDispatch env p s s (.refl p s) .initializePort false)
    refine ih _ ?_
    rw [Orderly, hkept.todo, hkept.sde]
    exact hnew

/-- Where a decision is asked for, the end of the iteration is still to come. -/
theorem runClock_settled {steps : List Step} (hsde : (runClock env steps).sde) :
    .finish ∈ (runClock env steps).todo := by
  have horderly : Orderly (runClock env steps) :=
    Stepping.run_invariant (fun _ action => step_orderly action) steps
      clockCreate_orderly
  rcases horderly with ⟨-, hnone⟩ | ⟨rest, hrest, -⟩
  · exact Bool.noConfusion (hnone.symm.trans hsde)
  · rw [hrest]
    exact List.mem_append_right rest List.mem_cons_self

end LinuxPtp.Ordinary
