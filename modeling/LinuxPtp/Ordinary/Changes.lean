import LinuxPtp.Ordinary.Announces

/-!
# Changes of the master

Whether handling an Announce of the best master of a port tells that it says
something else of the grandmaster than the one the last decision was made on, and
what the decision that follows makes of the newest Announce.
-/

namespace LinuxPtp.Ordinary

open Bmc Cells Port Wire

variable {env : Env} {p calls : ℕ} {s s' : PtpClock} {m : Message}
variable {fc : ForeignClock} {newest : Announce}

/-! ## The answer to an Announce -/

/-- An Announce of the best master of a network port differs from the one used at
the last decision: then handling it returns nonzero, or that of an earlier one
since the decision has. -/
def ChangeReported (env : Env) (p : ℕ) (m : Message) (s : PtpClock) : Prop :=
  p < env.nports → m.type = .announce →
    ∀ fc ∈ bestRecord (s.ports p), msgSourceEqual m fc →
      ∀ before ∈ (s.ports p).decided, announceDiffers m.toAnnounce before →
        (portMsgProAnnounce env p m s).1 ∨ (s.ports p).reported

instance : Decidable (ChangeReported env p m s) :=
  inferInstanceAs (Decidable (_ → _ → ∀ fc ∈ _, _ → ∀ before ∈ _, _ → (_ ∨ _)))

/-- No two records of a port are of one sender. -/
theorem find?_source {records : List ForeignClock}
    (hkept : WellKept p calls records) (hfc : fc ∈ records)
    (hsource : msgSourceEqual m fc) :
    records.find? (msgSourceEqual m) = some fc := by
  cases hfound : records.find? (msgSourceEqual m) with
  | none => exact absurd hsource (List.find?_eq_none.mp hfound fc hfc)
  | some fc' =>
    have hfirst : msgSourceEqual m fc' := List.find?_some hfound
    have hsource' : m.sourcePortIdentity = fc'.dataset.sender :=
      of_decide_eq_true hfirst
    exact congrArg some (List.inj_on_of_nodup_map hkept.senders
      (List.mem_of_find?_eq_some hfound) hfc
      (hsource'.symm.trans (of_decide_eq_true hsource)))

theorem addForeignMaster_answer
    (hkept : WellKept p calls (s.ports p).foreignMasters)
    (hfc : fc ∈ (s.ports p).foreignMasters) (hsource : msgSourceEqual m fc) :
    (addForeignMaster env p m s).1 =
      ((keptMessages env fc s).length = foreignMasterThreshold - 1 ||
        differsFromLast m (keptMessages env fc s)) := by
  rw [addForeignMaster, find?_source hkept hfc hsource]

theorem updateCurrentMaster_answer (hfc : bestRecord (s.ports p) = some fc)
    (hsource : msgSourceEqual m fc) :
    (updateCurrentMaster env p m s).1 =
      differsFromLast m (keptMessages env fc (called s)) := by
  rw [updateCurrentMaster, hfc]
  dsimp only
  rw [hsource, if_neg (by decide)]
  split <;> rfl

/-- What handling an Announce of the best master returns.  A port that defers asks
for no decision when its record gets its second message. -/
theorem portMsgProAnnounce_answer
    (hkept : WellKept p calls (s.ports p).foreignMasters)
    (hidle : ¬portIsEnabled (s.ports p).state → (s.ports p).foreignMasters = [])
    (hfc : bestRecord (s.ports p) = some fc) (hsource : msgSourceEqual m fc) :
    (portMsgProAnnounce env p m s).1 ↔
      m.announce.stepsRemoved.toNat < 255 ∧
        (¬defers (s.ports p).state ∧
            (keptMessages env fc (pruningTime p s)).length =
              foreignMasterThreshold - 1 ∨
          differsFromLast m (keptMessages env fc (pruningTime p s))) := by
  have hmem := (mem_of_bestRecord hfc).1
  rw [portMsgProAnnounce, pruningTime]
  split
  · rename_i hsteps
    simp [not_lt.mpr hsteps]
  · rename_i hsteps
    rw [not_le] at hsteps
    cases hstate : (s.ports p).state with
    | initializing | faulty | disabled =>
      rw [hidle (by rw [hstate]; decide)] at hmem
      exact absurd hmem List.not_mem_nil
    | listening | preMaster | master | grandMaster =>
      dsimp only
      rw [addForeignMaster_answer hkept hmem hsource]
      simp [hsteps, defers]
    | passive | uncalibrated | slave =>
      dsimp only
      rw [updateCurrentMaster_answer hfc hsource]
      simp [hsteps, defers]

/-- A change is reported where it can be seen, and nowhere else. -/
theorem changeReported_iff
    (hkept : WellKept p calls (s.ports p).foreignMasters)
    (hidle : ¬portIsEnabled (s.ports p).state → (s.ports p).foreignMasters = [])
    (hreports : p < env.nports → (s.ports p).role.Reports) :
    ChangeReported env p m s ↔ Comparable env p m s := by
  constructor
  · intro hreported hp htype fc hfc hsource before hbefore hdiffers
    refine (hreported hp htype fc hfc hsource before hbefore hdiffers).imp_left ?_
    rw [portMsgProAnnounce_answer hkept hidle hfc hsource]
    rintro ⟨hsteps, hanswer⟩
    refine ⟨hsteps, fun hnone => ?_⟩
    rw [hnone] at hanswer
    rcases hanswer with ⟨-, hlength⟩ | hdiffers
    · simp [foreignMasterThreshold] at hlength
    · exact Bool.noConfusion hdiffers
  · intro hcomparable hp htype fc hfc hsource before hbefore hdiffers
    rcases hcomparable hp htype fc hfc hsource before hbefore hdiffers with
      ⟨hsteps, hnonempty⟩ | hreported
    · rw [portMsgProAnnounce_answer hkept hidle hfc hsource]
      obtain ⟨last, rest, hcons⟩ := List.exists_cons_of_ne_nil hnonempty
      have hhead : fc.messages.head? = some last := by
        rw [← head?_of_begins (fcPrune_begins ..) hnonempty]
        exact congrArg List.head? hcons
      rw [hcons]
      -- the Announce differs from the last one, or that one has been reported
      cases hlast : announceDiffers m.toAnnounce last with
      | true => exact Or.inl ⟨hsteps, Or.inr hlast⟩
      | false =>
        refine Or.inr (hreports hp fc hfc last hhead before hbefore ?_)
        by_contra hsame
        rw [Bool.not_eq_true] at hsame
        rw [announceDiffers_trans hlast hsame] at hdiffers
        exact Bool.noConfusion hdiffers
    · exact Or.inr hreported

/-! ## The decision -/

/-- What the examination of its records has left of a port in the first loop. -/
theorem computeBest_at {ports : List ℕ} (hnodup : ports.Nodup) (hp : p ∈ ports)
    (best : Option ForeignClock) :
    ∃ s', s'.ports p = s.ports p ∧
      (computeBest env ports best s).2.ports p =
        examinedPort (examination env p s') (s.ports p) := by
  induction ports generalizing best s with
  | nil => exact absurd hp List.not_mem_nil
  | cons q ports ih =>
    obtain ⟨hfirst, hrest⟩ := List.nodup_cons.mp hnodup
    rw [computeBest_cons]
    rcases List.mem_cons.mp hp with rfl | hp
    · exact ⟨s, rfl, (computeBest_other hfirst _).trans portComputeBest_same⟩
    · have hother : p ≠ q := fun heq => hfirst (heq ▸ hp)
      have hbefore := (@portComputeBest_within env q s).ports p hother
      obtain ⟨s', hsame, hat⟩ := @ih (portComputeBest env q s).2 hrest hp
        (betterRecord env best (portComputeBest env q s).1)
      rw [hbefore] at hsame hat
      exact ⟨s', hsame, hat⟩

/-- The datasets of the clock are those that an Announce gives it. -/
structure TakenFrom (newest : Announce) (s : PtpClock) : Prop where
  stepsRemoved : s.stepsRemoved = 1 + newest.stepsRemoved
  parentPortIdentity : s.parentPortIdentity = newest.sourcePortIdentity
  grandmasterIdentity : s.grandmasterIdentity = newest.grandmasterIdentity
  grandmasterClockQuality :
    s.grandmasterClockQuality = newest.grandmasterClockQuality
  grandmasterPriority1 : s.grandmasterPriority1 = newest.grandmasterPriority1
  grandmasterPriority2 : s.grandmasterPriority2 = newest.grandmasterPriority2
  tds : s.tds =
    ⟨newest.currentUtcOffset.toInt, newest.timeFlags, newest.timeSource⟩

theorem TakenFrom.of_within (htaken : TakenFrom newest s)
    (hwithin : Within p s s') : TakenFrom newest s' := by
  rw [← hwithin.clock] at htaken
  obtain ⟨hsteps, hparent, hidentity, hquality, hpriority1, hpriority2, htds⟩ := htaken
  exact ⟨hsteps, hparent, hidentity, hquality, hpriority1, hpriority2, htds⟩

/-- The port takes the newest Announce of its best record for the election, and
the clock takes it over if the port is to be SLAVE. -/
structure Recomputes (env : Env) (s : PtpClock) : Prop where
  elected : ∀ p < env.nports, ∀ best ∈ bestRecord ((decisionStart env s).ports p),
    ∃ fc ∈ (s.ports p).foreignMasters, fc.address = best.address ∧
      fc.messages.head? = best.messages.head? ∧
      ∃ newest ∈ fc.messages.head?,
        best.dataset = announceToDataset newest (s.ports p).toBmcPort
  followed : ∀ p < env.nports,
    bmcStateDecision env p (decisionTurn env p s) = .slave →
      ∃ best ∈ bestRecord ((decisionStart env s).ports p),
        ∃ newest ∈ best.messages.head?,
          TakenFrom newest (handleStateDecisionEvent env s)

/-- The best record of a port keeps the newest message, on which it is chosen. -/
theorem bestRecord_newest (hkept : AllWellKept s) (hp : p < env.nports)
    {best : ForeignClock}
    (hbest : best ∈ bestRecord ((decisionStart env s).ports p)) :
    ∃ fc ∈ (s.ports p).foreignMasters, fc.address = best.address ∧
      fc.messages.head? = best.messages.head? ∧
      ∃ newest ∈ fc.messages.head?,
        best.dataset = announceToDataset newest (s.ports p).toBmcPort := by
  obtain ⟨s', hsame, hat⟩ := @computeBest_at env p s _ List.nodup_range
    (List.mem_range.mpr hp) none
  have hafter : WellKept p _ ((decisionStart env s).ports p).foreignMasters :=
    decisionStart_allWellKept hkept p
  change (decisionStart env s).ports p = _ at hat
  rw [hat] at hbest hafter
  have hexamined := bestRecord_examined hafter hbest
  obtain ⟨hmem, hqualifies⟩ := (@portComputeBest_records env.bmc env.dscmp
    s'.calls (s'.ports p).toBmcPort).2 best hexamined
  obtain ⟨fc, hfc, hexamines⟩ := mem_examined hmem
  have hnonempty : best.messages ≠ [] := by
    intro hnil
    have hmessages := hqualifies.messages
    simp [hnil, foreignMasterThreshold] at hmessages
  have hhead := head?_of_begins hexamines.messages hnonempty
  rw [hsame] at hfc hqualifies
  refine ⟨fc, hfc, hexamines.address.symm, hhead.symm, ?_⟩
  rw [← hhead]
  exact hqualifies.dataset

theorem clockUpdateSlave_takenFrom (hbest : s.best = some fc)
    (hnewest : newest ∈ fc.messages.head?)
    (hsteps : fc.dataset.stepsRemoved = newest.stepsRemoved)
    (hsender : fc.dataset.sender = newest.sourcePortIdentity) :
    TakenFrom newest (clockUpdateSlave s) := by
  rw [clockUpdateSlave_eq hbest hnewest, hsteps, hsender]
  exact ⟨rfl, rfl, rfl, rfl, rfl, rfl, rfl⟩

theorem recomputes (hkept : AllWellKept s) : Recomputes env s where
  elected p hp best hbest := bestRecord_newest hkept hp hbest
  followed p hp hslave := by
    obtain ⟨best, hbest, rfl, hchosen⟩ := decisionTurn_best hkept hslave
    obtain ⟨newest, hnewest, hdataset⟩ := hchosen.qualifies.dataset
    have hrecord : bestRecord ((decisionStart env s).ports best.port) =
        some best := by
      rw [bestRecord, hchosen.best]
      exact findRecord_of_mem (decisionStart_allWellKept hkept best.port)
        hchosen.mem
    refine ⟨best, hrecord, newest, hnewest, ?_⟩
    refine decision_follows (fun _ _ _ hwithin htaken => htaken.of_within hwithin)
      hp hslave (clockUpdateSlave_takenFrom hbest hnewest ?_ ?_)
    · rw [hdataset, announceToDataset]
    · rw [hdataset, announceToDataset]

/-! ## Every run -/

/-- Every Announce of a best master that differs from the one used at the last
decision is reported, if none before it has been; a decision is asked for, and
made at the end of the iteration, which is still to come; and it is made on the
newest Announce. -/
structure ChangesReported (env : Env) (steps : List Step) : Prop where
  reported : MeetsTasks env (OnAccepted env (ChangeReported env)) steps
  asked : ∀ p < env.nports, ((runClock env steps).ports p).reported →
    (runClock env steps).sde ∧ .finish ∈ (runClock env steps).todo
  decided : ∀ todo, Recomputes env { runClock env steps with todo := todo }

/-- Handling a message begins with the records and the state that the port had,
and with what it has reported. -/
theorem handled_role {fd : Fd}
    (hread : readMessage env p (expire p fd s) = (.accepted m, s')) :
    (s'.ports p).role = (s.ports p).role := by
  have hports : s'.ports = (expire p fd s).ports := by
    rw [← @readMessage_ports env p (expire p fd s), hread]
  rw [hports, expire]
  split
  · simp [PtpPort.role]
  · rfl

/-- At every task of a run the two come to the same. -/
theorem onAccepted_changeReported_iff {task : Task} (hkept : AllWellKept s)
    (hidle : Idle s)
    (hreports : ∀ p < env.nports, (s.ports p).role.Reports) :
    OnAccepted env (ChangeReported env) task s ↔
      OnAccepted env (Comparable env) task s := by
  cases task with
  | fault | uds | finish => exact Iff.rfl
  | fd p fd touched =>
    refine imp_congr_right fun _ => ?_
    split
    · rename_i m s' hread
      have hrole := handled_role hread
      have hrecords := Role.records_eq hrole
      have hstate : (s'.ports p).state = (s.ports p).state :=
        congrArg Role.state hrole
      refine changeReported_iff (hrecords ▸ hkept p) ?_
        fun hp => hrole ▸ hreports p hp
      rw [hrecords, hstate]
      exact hidle p
    · exact Iff.rfl

/-- The changes of the best masters are reported, and the decisions made on them,
exactly in the runs in which every such Announce can be compared. -/
theorem runClock_changesReported_iff (env : Env) (steps : List Step) :
    ChangesReported env steps ↔
      MeetsTasks env (OnAccepted env (Comparable env)) steps := by
  have hbase := (@idle_preserves env).and allWellKept_preserves
  have hnew : Idle (newClock env) ∧ AllWellKept (newClock env) :=
    ⟨fun _ _ => rfl, newClock_allWellKept⟩
  have hagenda : ∀ s todo, AllReport env s → AllReport env { s with todo := todo } :=
    fun _ _ hreport => ⟨hreport.reports, hreport.asks⟩
  have htask : ∀ task s, OnAccepted env (Comparable env) task s →
      Idle s ∧ AllWellKept s → AllReport env s → AllReport env (runTask env task s) :=
    fun task s hcomparable hbase => runTask_allReport task hcomparable hbase.2
  have hiff := meetsTasks_congr hbase hnew clockCreate_allReport hagenda htask
    (fun task s hbase hreport =>
      onAccepted_changeReported_iff hbase.2 hbase.1 hreport.reports) steps
  refine ⟨fun hchanges => hiff.mp hchanges.reported, fun hcomparable => ?_⟩
  have hreport := runClock_over hbase hnew clockCreate_allReport hagenda htask hcomparable
  refine ⟨hiff.mpr hcomparable, fun p hp hreported => ?_, fun todo => ?_⟩
  · have hsde := hreport.asks p hp hreported
    exact ⟨hsde, runClock_settled hsde⟩
  · have hkept := (@allWellKept_preserves env).runClock newClock_allWellKept steps
    exact recomputes (s := { runClock env steps with todo := todo }) hkept

/-- The port has chosen its master, and hears it once more. -/
def fourAnnounces : List Step :=
  soloRound .general ++ soloRound .general ++ soloRound .general ++
    soloRound .general

def degradedAnnounce : Message :=
  { masterAnnounce with
    announce := ⟨37, 1, ⟨7, 0, 0⟩, 1, repeatedIdentity 2, 0, 0⟩ }

/-- After the third decision the clock reads another time, and hears that the class
of its master is another. -/
def degradedClock (seconds : ℤ) : Env :=
  { soloClock with
    bmc := ⟨.little, fun _ => 0, fun n => ⟨if n < 18 then 0 else seconds, 0⟩⟩
    receive := fun n =>
      .received (if n < 18 then masterAnnounce else degradedAnnounce) }

/-- One second later the change is seen, and the clock takes it over. -/
theorem degradedClock_changesReported :
    ChangesReported (degradedClock 1) fourAnnounces ∧
      (runClock (degradedClock 1) fourAnnounces).grandmasterClockQuality =
        ⟨7, 0, 0⟩ :=
  ⟨(runClock_changesReported_iff (degradedClock 1) fourAnnounces).mpr
    (by decide +kernel), by decide +kernel⟩

/-- After a thousand seconds all earlier messages are too old, and the change goes
unnoticed. -/
theorem degradedClock_not_changesReported :
    ¬ChangesReported (degradedClock 1000) fourAnnounces :=
  fun hchanges => absurd hchanges.reported (by decide +kernel)

end LinuxPtp.Ordinary
