import LinuxPtp.Ordinary.Events

/-!
# What a port reports of its master

As long as every Announce of the best master can be compared with an earlier one,
a port that keeps an Announce other than the one at the last decision has asked
for another decision.
-/

namespace LinuxPtp.Ordinary

open Bmc Cells Port Wire
open Relation (ReflTransGen)

variable {env : Env} {p q : ℕ} {s s' : PtpClock}
variable {linkFault manages switchFails : Prop}
variable {event : PortEvent} {mdiff : Bool} {m : Message}

/-! ## Comparison -/

theorem announceDiffers_eq_false {m n : Announce} :
    announceDiffers m n = false ↔
      m.grandmasterPriority1 = n.grandmasterPriority1 ∧
        m.grandmasterClockQuality = n.grandmasterClockQuality ∧
        m.grandmasterPriority2 = n.grandmasterPriority2 ∧
        m.grandmasterIdentity = n.grandmasterIdentity ∧
        m.stepsRemoved = n.stepsRemoved := by
  simp [announceDiffers, and_assoc]

theorem announceDiffers_self (m : Announce) : announceDiffers m m = false :=
  announceDiffers_eq_false.mpr ⟨rfl, rfl, rfl, rfl, rfl⟩

theorem announceDiffers_trans {l m n : Announce}
    (hfirst : announceDiffers l m = false)
    (hsecond : announceDiffers m n = false) : announceDiffers l n = false := by
  obtain ⟨hpriority1, hquality, hpriority2, hidentity, hsteps⟩ :=
    announceDiffers_eq_false.mp hfirst
  obtain ⟨hpriority1', hquality', hpriority2', hidentity', hsteps'⟩ :=
    announceDiffers_eq_false.mp hsecond
  exact announceDiffers_eq_false.mpr
    ⟨hpriority1.trans hpriority1', hquality.trans hquality',
      hpriority2.trans hpriority2', hidentity.trans hidentity',
      hsteps.trans hsteps'⟩

/-! ## The best record of a role -/

def Role.bestRecord (role : Role) : Option ForeignClock :=
  role.best.bind fun best => findRecord best role.bmc.foreignMasters

theorem findRecord_setRecord {address address' : ℕ}
    {messages : List Announce} (records : List ForeignClock) :
    findRecord address (setRecord address'
        (fun fc => { fc with messages := messages }) records) =
      (findRecord address records).map fun fc =>
        if fc.address = address' then { fc with messages := messages }
        else fc := by
  induction records with
  | nil => rfl
  | cons fc records ih =>
    have haddress : (if fc.address = address' then
        { fc with messages := messages } else fc).address = fc.address := by
      split <;> rfl
    rw [findRecord, findRecord] at ih ⊢
    rw [setRecord] at ih ⊢
    rw [List.map_cons, List.find?_cons, List.find?_cons, haddress]
    split
    · rfl
    · exact ih

theorem findRecord_of_mem {records : List ForeignClock} {calls : ℕ}
    (hkept : WellKept p calls records) {fc : ForeignClock} (hfc : fc ∈ records) :
    findRecord fc.address records = some fc := by
  cases hfound : findRecord fc.address records with
  | none =>
    have hnone := List.find?_eq_none.mp hfound fc hfc
    simp at hnone
  | some fc' =>
    obtain ⟨hfc', haddress⟩ := mem_of_findRecord hfound
    rw [hkept.eq_of_address hfc' hfc haddress]

theorem mem_bestRecord_setMessages {role : Role} {address : ℕ}
    {messages : List Announce} {fc' : ForeignClock}
    (hfc' : fc' ∈ (role.withRecords (setRecord address
      (fun fc => { fc with messages := messages })
      role.bmc.foreignMasters)).bestRecord) :
    ∃ fc ∈ role.bestRecord, fc' =
      if fc.address = address then { fc with messages := messages } else fc := by
  rw [Role.bestRecord, Role.withRecords] at hfc'
  rw [Role.bestRecord]
  cases hbest : role.best with
  | none =>
    rw [hbest] at hfc'
    exact absurd hfc' (Option.some_ne_none _).symm
  | some best =>
    rw [hbest, Option.bind_some, findRecord_setRecord] at hfc'
    obtain ⟨fc, hfc, hsame⟩ := Option.map_eq_some_iff.mp hfc'
    exact ⟨fc, hfc, hsame.symm⟩

theorem mem_bestRecord {role : Role} {fc : ForeignClock}
    (hfc : fc ∈ role.bestRecord) :
    fc ∈ role.bmc.foreignMasters ∧ role.best = some fc.address := by
  obtain ⟨best, hbest, hfound⟩ := Option.bind_eq_some_iff.mp hfc
  obtain ⟨hmem, haddress⟩ := mem_of_findRecord hfound
  exact ⟨hmem, hbest.trans (congrArg some haddress.symm)⟩

/-! ## Changes are reported -/

/-- If the newest message of the best record differs from the one at the last
decision, this has been reported. -/
def Role.Reports (role : Role) : Prop :=
  ∀ fc ∈ role.bestRecord, ∀ newest ∈ fc.messages.head?,
    ∀ before ∈ role.decided, announceDiffers newest before → role.reported

theorem Dispatched.reports {role role' : Role}
    (hdispatched : Dispatched env p event mdiff switchFails role role')
    (hreports : role.Reports) : role'.Reports := by
  cases hdispatched with
  | moved hmoved =>
    rw [hmoved.machine]
    exact hreports
  | dropped hdropped =>
    rcases hdropped.rest with hcleared | ⟨-, hsame⟩
    · rw [hcleared]
      exact fun fc hfc => nomatch hfc
    · rw [hsame]
      exact hreports

theorem bcDispatch_reported :
    ((bcDispatch env p event mdiff s).ports p).reported =
      (s.ports p).reported := by
  cases @bcDispatch_cases env p s event mdiff with
  | moved hmoved => exact congrArg Role.reported hmoved.machine
  | dropped hdropped =>
    rcases hdropped.rest with hcleared | ⟨-, hsame⟩
    · exact congrArg Role.reported hcleared
    · exact congrArg Role.reported hsame

theorem smallTurn_reports (hturn : SmallTurn env p linkFault manages s s')
    (hreports : (s.ports p).role.Reports) : (s'.ports p).role.Reports := by
  cases hturn with
  | quiet _ hrole => exact hrole ▸ hreports
  | link _ hrole =>
    rw [hrole]
    exact hreports
  | aside haside =>
    rw [haside.ports]
    exact hreports
  | clearBest =>
    rcases @clearBest_role p s with hsame | ⟨best, hbest, hcleared⟩
    · exact hsame ▸ hreports
    · rw [hcleared]
      intro fc hfc newest hnewest
      obtain ⟨fc', hfc', rfl⟩ := mem_bestRecord_setMessages hfc
      have haddress : fc'.address = best :=
        Option.some.inj ((mem_bestRecord hfc').2.symm.trans hbest)
      rw [if_pos haddress] at hnewest
      exact nomatch hnewest
  | settle | fault => exact (bcDispatch_cases _ _).reports hreports

/-! ## Announce -/

/-- The moment at which a record is pruned: a port that defers has set its timer
before. -/
def pruningTime (p : ℕ) (s : PtpClock) : PtpClock :=
  if defers (s.ports p).state then called s else s

/-- The condition on an Announce of the best master of a network port that says
something else than the one at the last decision: it is not dropped for its
number of steps, and the record keeps a message to compare it with; or a change
has been reported already. -/
def Comparable (env : Env) (p : ℕ) (m : Message) (s : PtpClock) : Prop :=
  p < env.nports → m.type = .announce →
    ∀ fc ∈ bestRecord (s.ports p), msgSourceEqual m fc →
      ∀ before ∈ (s.ports p).decided, announceDiffers m.toAnnounce before →
        (m.announce.stepsRemoved.toNat < 255 ∧
          keptMessages env fc (pruningTime p s) ≠ []) ∨ (s.ports p).reported

instance : Decidable (Comparable env p m s) :=
  inferInstanceAs (Decidable (_ → _ → ∀ fc ∈ _, _ → ∀ before ∈ _, _ → (_ ∨ _)))

theorem insertAnnounce_role (fc : ForeignClock) (m : Message) :
    ((insertAnnounce env p fc m s).ports p).role =
      (s.ports p).role.withRecords (setRecord fc.address
        (fun fc' => { fc' with
          messages := m.toAnnounce :: keptMessages env fc s })
        (s.ports p).foreignMasters) := by
  simp [insertAnnounce, msgGet, PtpPort.role, Role.withRecords]

theorem noteAnnounce_role (result : Bool × PtpClock) :
    ((noteAnnounce p result).2.ports p).role =
      { (result.2.ports p).role with
        reported := (result.2.ports p).reported || result.1 } := by
  simp [noteAnnounce, PtpPort.role]

/-- A message that is inserted and compared with the one before it. -/
theorem insertAnnounce_reports {fc : ForeignClock} {m : Message} {differs : Bool}
    (hkept : AllWellKept s) (hreports : (s.ports p).role.Reports)
    (hfc : fc ∈ (s.ports p).foreignMasters)
    (hdiffers : differsFromLast m (keptMessages env fc s) → differs)
    (hbest : fc ∈ bestRecord (s.ports p) → keptMessages env fc s ≠ [] ∨
      ∀ before ∈ (s.ports p).decided,
        announceDiffers m.toAnnounce before → (s.ports p).reported) :
    ((noteAnnounce p (differs, insertAnnounce env p fc m s)).2.ports
      p).role.Reports := by
  rw [noteAnnounce_role]
  dsimp only
  have hrole := @insertAnnounce_role env p s fc m
  have hreported : ((insertAnnounce env p fc m s).ports p).reported =
      (s.ports p).reported := congrArg Role.reported hrole
  rw [hreported, hrole]
  intro fc' hfc' newest hnewest before hbefore hchanged
  obtain ⟨best, hbestRecord, rfl⟩ :=
    @mem_bestRecord_setMessages (s.ports p).role fc.address
      (m.toAnnounce :: keptMessages env fc s) fc' hfc'
  dsimp only
  rw [Bool.or_eq_true]
  split_ifs at hnewest with haddress
  · obtain rfl : best = fc := (hkept p).eq_of_address
      (mem_bestRecord hbestRecord).1 hfc haddress
    obtain rfl : m.toAnnounce = newest := Option.some.inj hnewest
    rcases hbest hbestRecord with hnonempty | hreported
    · obtain ⟨last, rest, hcons⟩ := List.exists_cons_of_ne_nil hnonempty
      rw [hcons] at hdiffers
      cases hlast : announceDiffers m.toAnnounce last with
      | true => exact Or.inr (hdiffers hlast)
      | false =>
        have hhead : best.messages.head? = some last := by
          rw [← head?_of_begins (fcPrune_begins ..) hnonempty]
          exact congrArg List.head? hcons
        cases hold : announceDiffers last before with
        | true => exact Or.inl (hreports best hbestRecord last hhead before hbefore hold)
        | false =>
          rw [announceDiffers_trans hlast hold] at hchanged
          exact Bool.noConfusion hchanged
    · exact Or.inl (hreported before hbefore hchanged)
  · exact Or.inl (hreports best hbestRecord newest hnewest before hbefore hchanged)

theorem addRecord_role (m : Message) :
    ((addRecord p m s).ports p).role =
      (s.ports p).role.withRecords
        (⟨s.calls, p, [], freshDataset m.sourcePortIdentity⟩ ::
          (s.ports p).foreignMasters) := by
  simp [addRecord, PtpPort.role, Role.withRecords]

theorem Role.Reports.orFalse {role : Role} (hreports : role.Reports) :
    Role.Reports { role with reported := role.reported || false } := by
  rw [Bool.or_false]
  exact hreports

/-- A new record has no message. -/
theorem addRecord_reports {m : Message}
    (hreports : (s.ports p).role.Reports) :
    ((addRecord p m s).ports p).role.Reports := by
  rw [addRecord_role]
  intro fc hfc newest hnewest before hbefore
  rw [Role.bestRecord, Role.withRecords] at hfc
  obtain ⟨best, hbest, hfound⟩ := Option.bind_eq_some_iff.mp hfc
  rw [findRecord, List.find?_cons] at hfound
  split at hfound
  · obtain rfl := Option.some.inj hfound
    exact absurd hnewest (Option.some_ne_none _).symm
  · exact hreports fc (Option.bind_eq_some_iff.mpr ⟨best, hbest, hfound⟩)
      newest hnewest before hbefore

theorem addForeignMaster_reports (hkept : AllWellKept s)
    (hreports : (s.ports p).role.Reports)
    (hbest : ∀ fc ∈ bestRecord (s.ports p), msgSourceEqual m fc →
      keptMessages env fc s ≠ [] ∨ ∀ before ∈ (s.ports p).decided,
        announceDiffers m.toAnnounce before → (s.ports p).reported) :
    ((noteAnnounce p (addForeignMaster env p m s)).2.ports p).role.Reports := by
  rw [addForeignMaster]
  split
  · rw [noteAnnounce_role]
    refine Role.Reports.orFalse ?_
    dsimp only
    split
    · exact addRecord_reports hreports
    · exact hreports
  · rename_i fc hfound
    refine insertAnnounce_reports hkept hreports
      (List.mem_of_find?_eq_some hfound) ?_ fun hfc => ?_
    · intro hdiffers
      rw [hdiffers, Bool.or_true]
    · exact hbest fc hfc (List.find?_some hfound)

theorem updateCurrentMaster_reports (hkept : AllWellKept s)
    (hreports : (s.ports p).role.Reports)
    (hbest : ∀ fc ∈ bestRecord (s.ports p), msgSourceEqual m fc →
      keptMessages env fc (called s) ≠ [] ∨ ∀ before ∈ (s.ports p).decided,
        announceDiffers m.toAnnounce before → (s.ports p).reported) :
    ((noteAnnounce p (updateCurrentMaster env p m s)).2.ports
      p).role.Reports := by
  rw [updateCurrentMaster]
  cases hrecord : bestRecord (s.ports p) with
  | none =>
    rw [noteAnnounce_role]
    exact hreports.orFalse
  | some fc =>
    dsimp only
    split
    · rename_i hother
      refine addForeignMaster_reports hkept hreports fun fc' hfc' hsource => ?_
      obtain rfl := Option.some.inj (hrecord.symm.trans hfc')
      simp [hsource] at hother
    · rename_i hsource
      replace hbest := hbest fc hrecord (by simpa using hsource)
      generalize htimed : (if (s.ports p).state ≠ .passive then
        setTimeProperties m s else s) = timed
      have hports : timed.ports = s.ports := by
        rw [← htimed]
        split <;> rfl
      have hcalls : timed.calls = s.calls := by
        rw [← htimed]
        split <;> rfl
      have hrole : ((portSetAnnounceTmo env p timed).ports p).role =
          (s.ports p).role := by
        rw [portSetAnnounceTmo_role, hports]
      have hturn : Turn env p False timed (portSetAnnounceTmo env p timed) :=
        .quiet (Kept.refl p timed).portSetAnnounceTmo.toWithin
          portSetAnnounceTmo_role
      have htimer : AllWellKept (portSetAnnounceTmo env p timed) := by
        refine turn_allWellKept hturn fun q => ?_
        rw [hports, hcalls]
        exact hkept q
      have hmessages : keptMessages env fc (portSetAnnounceTmo env p timed) =
          keptMessages env fc (called s) := by
        rw [keptMessages, keptMessages, called, ← hcalls]
        rfl
      refine insertAnnounce_reports htimer (hrole ▸ hreports) ?_ id fun hfc => ?_
      · have hmem := (mem_of_bestRecord hrecord).1
        exact (Role.records_eq hrole).symm ▸ hmem
      · rw [hmessages]
        have hdecided := congrArg Role.decided hrole
        have hreported := congrArg Role.reported hrole
        dsimp only [PtpPort.role] at hdecided hreported
        rw [hdecided, hreported]
        exact hbest

theorem portMsgProAnnounce_reports (hkept : AllWellKept s)
    (hp : p < env.nports) (htype : m.type = .announce)
    (hreports : (s.ports p).role.Reports)
    (hcomparable : Comparable env p m s) :
    ((noteAnnounce p (portMsgProAnnounce env p m s)).2.ports p).role.Reports := by
  have hunchanged : ((noteAnnounce p (false, s)).2.ports p).role.Reports := by
    rw [noteAnnounce_role]
    exact hreports.orFalse
  rw [portMsgProAnnounce]
  split
  · exact hunchanged
  · rename_i hsteps
    have hbest : ∀ fc ∈ bestRecord (s.ports p), msgSourceEqual m fc →
        keptMessages env fc (pruningTime p s) ≠ [] ∨
          ∀ before ∈ (s.ports p).decided,
            announceDiffers m.toAnnounce before → (s.ports p).reported := by
      intro fc hfc hsource
      refine Classical.or_iff_not_imp_left.mpr fun hnone before hbefore hdiffers => ?_
      exact (hcomparable hp htype fc hfc hsource before hbefore
        hdiffers).resolve_left fun hkept => hnone hkept.2
    rw [pruningTime] at hbest
    cases hstate : (s.ports p).state with
    | initializing | faulty | disabled => exact hunchanged
    | listening | preMaster | master | grandMaster =>
      rw [hstate] at hbest
      exact addForeignMaster_reports hkept hreports hbest
    | passive | uncalibrated | slave =>
      rw [hstate] at hbest
      exact updateCurrentMaster_reports hkept hreports hbest

theorem noteAnnounce_turns (m : Message) :
    ReflTransGen (Turn env p linkFault) s
      (noteAnnounce p (portMsgProAnnounce env p m s)).2 :=
  (portMsgProAnnounce_turns m).tail (.reported _ _)

theorem noteAnnounce_allWellKept (hkept : AllWellKept s) :
    AllWellKept (noteAnnounce p (portMsgProAnnounce env p m s)).2 := by
  have hturns : ReflTransGen (Turn env p False) s
      (noteAnnounce p (portMsgProAnnounce env p m s)).2 := noteAnnounce_turns m
  exact turns_keep hturns (fun _ _ _ _ hturn => turn_allWellKept hturn) hkept

theorem noteAnnounce_sde {m : Message} (hsde : s.sde) :
    (noteAnnounce p (portMsgProAnnounce env p m s)).2.sde := by
  have hturns : ReflTransGen (Turn env p False) s
      (noteAnnounce p (portMsgProAnnounce env p m s)).2 := noteAnnounce_turns m
  exact @turns_keep env p _ _ _ (fun s => s.sde) hturns
    (fun _ _ _ _ hturn => turn_sde hturn) hsde

theorem smallTurn_reported (hturn : SmallTurn env p linkFault manages s s') :
    (s'.ports p).reported = (s.ports p).reported := by
  cases hturn with
  | quiet _ hrole => exact congrArg Role.reported hrole
  | link _ hrole => exact congrArg Role.reported hrole
  | aside haside => rw [haside.ports]
  | clearBest =>
    rcases @clearBest_role p s with hsame | ⟨best, -, hcleared⟩
    · exact congrArg Role.reported hsame
    · exact congrArg Role.reported hcleared
  | settle | fault => exact bcDispatch_reported

theorem addForeignMaster_reported (m : Message) :
    ((addForeignMaster env p m s).2.ports p).reported =
      (s.ports p).reported := by
  rw [addForeignMaster]
  split
  · dsimp only
    split
    · exact congrArg Role.reported (addRecord_role m)
    · rfl
  · exact congrArg Role.reported (insertAnnounce_role _ m)

/-- Handling an Announce leaves it to the caller to note what is reported. -/
theorem portMsgProAnnounce_reported (m : Message) :
    ((portMsgProAnnounce env p m s).2.ports p).reported =
      (s.ports p).reported := by
  rw [portMsgProAnnounce]
  split
  · rfl
  · cases (s.ports p).state with
    | initializing | faulty | disabled => rfl
    | listening | preMaster | master | grandMaster =>
      exact addForeignMaster_reported m
    | passive | uncalibrated | slave =>
      dsimp only
      rw [updateCurrentMaster]
      split
      · rfl
      · rename_i fc hfc
        split
        · exact addForeignMaster_reported m
        · refine (congrArg Role.reported (insertAnnounce_role fc m)).trans ?_
          refine (congrArg Role.reported portSetAnnounceTmo_role).trans ?_
          dsimp only [PtpPort.role]
          split <;> rfl

/-! ## Events and decisions -/

/-- The ports have reported what there is to report, and a decision is asked for
where one has. -/
structure AllReport (env : Env) (s : PtpClock) : Prop where
  reports : ∀ p < env.nports, (s.ports p).role.Reports
  asks : ∀ p < env.nports, (s.ports p).reported → s.sde

theorem handleMessage_announce {m : Message} (htype : m.type = .announce)
    (hreports : (portMsgProAnnounce env p m s).1) :
    (handleMessage env p m s).1 = .stateDecisionEvent := by
  rw [handleMessage, htype, orDecision, noteAnnounce]
  exact if_pos hreports

/-- What a port has reported after an event, before the decision is asked for. -/
theorem bcEvent_reports {fd : Fd} (hkept : AllWellKept s) (hp : p < env.nports)
    (hreports : (s.ports p).role.Reports)
    (hasks : (s.ports p).reported → s.sde)
    (hcomparable : ∀ m s', fd.isSocket →
      readMessage env p s = (.accepted m, s') → Comparable env p m s') :
    ((bcEvent env p fd s).2.ports p).role.Reports ∧
      (((bcEvent env p fd s).2.ports p).reported →
        (bcEvent env p fd s).2.sde ∨
          (bcEvent env p fd s).1 = .stateDecisionEvent) := by
  refine (@bcEvent_keeps env p s (fun s' => AllWellKept s' ∧
    (s'.ports p).role.Reports ∧ ((s'.ports p).reported → s'.sde ∨
      (bcEvent env p fd s).1 = .stateDecisionEvent)) fd ?_ ?_
    ⟨hkept, hreports, fun hreported => Or.inl (hasks hreported)⟩).2
  · rintro before after hturn ⟨hkept, hreports, hasks⟩
    refine ⟨turn_allWellKept hturn.turn hkept,
      smallTurn_reports hturn hreports, fun hreported => ?_⟩
    rw [smallTurn_reported hturn] at hreported
    exact (hasks hreported).imp (turn_sde hturn.turn) id
  · rintro m s' hsocket hread htype ⟨hkept, hreports, hasks⟩
    refine ⟨noteAnnounce_allWellKept hkept,
      portMsgProAnnounce_reports hkept hp htype hreports
        (hcomparable m s' hsocket hread), fun hreported => ?_⟩
    have hnoted : ((s'.ports p).reported || (portMsgProAnnounce env p m s').1)
        = true := by
      rw [← @portMsgProAnnounce_reported env p s' m]
      exact (congrArg Role.reported (noteAnnounce_role _)).symm.trans hreported
    rcases Bool.or_eq_true_iff.mp hnoted with hbefore | hnow
    · exact (hasks hbefore).imp noteAnnounce_sde id
    · rw [bcEvent_accepted hsocket hread]
      exact Or.inr (handleMessage_announce htype hnow)

/-- Only the port `p` needs a look where the others are left alone. -/
theorem AllReport.of_port (hreport : AllReport env s)
    (hothers : ∀ q, q ≠ p → s'.ports q = s.ports q) (hsde : s.sde → s'.sde)
    (hreports : p < env.nports → (s'.ports p).role.Reports)
    (hasks : p < env.nports → (s'.ports p).reported → s'.sde) :
    AllReport env s' where
  reports q hq := by
    by_cases hsame : q = p
    · subst hsame
      exact hreports hq
    · rw [hothers q hsame]
      exact hreport.reports q hq
  asks q hq hreported := by
    by_cases hsame : q = p
    · subst hsame
      exact hasks hq hreported
    · rw [hothers q hsame] at hreported
      exact hsde (hreport.asks q hq hreported)

theorem portEvent_allReport {fd : Fd} {touched : ℕ} (hkept : AllWellKept s)
    (hreport : AllReport env s)
    (hcomparable : OnAccepted env (Comparable env) (.fd p fd touched) s) :
    AllReport env (portEvent env p fd s) := by
  obtain ⟨hothers, hsde⟩ := @portEvent_elsewhere env p s fd
  obtain ⟨s', hs', hasked, hevent⟩ := @portEvent_eq env p s fd
  have hexpire := @turn_expire env p s False fd
  have hrole : ((expire p fd s).ports p).role = (s.ports p).role := by
    rw [expire]
    split
    · simp [PtpPort.role]
    · rfl
  have hreported := congrArg Role.reported hrole
  have hhandled := fun hp => @bcEvent_reports env p (expire p fd s) fd
    (turn_allWellKept hexpire hkept) hp (hrole ▸ hreport.reports p hp)
    (fun hreported' => turn_sde hexpire
      (hreport.asks p hp (hreported.symm.trans hreported')))
    (fun m s' hsocket hread => hcomparable.condition hsocket hread)
  have hports : s'.ports = (bcEvent env p fd (expire p fd s)).2.ports := by
    rcases hs' with rfl | rfl <;> rfl
  refine hreport.of_port hothers hsde (fun hp => ?_) fun hp hreported' => ?_
  · rw [hevent]
    refine (bcDispatch_cases _ _).reports ?_
    rw [hports]
    exact (hhandled hp).1
  · rw [hevent, bcDispatch_reported, hports] at hreported'
    rw [hevent, (Kept.refl p s').bcDispatch.sde]
    rcases (hhandled hp).2 hreported' with hbefore | hnow
    · rcases hs' with rfl | rfl
      · exact hbefore
      · rfl
    · exact hasked hnow

/-- The best record of a port after the examination of its records. -/
theorem bestRecord_examined {calls : ℕ} {port : PtpPort} {fc : ForeignClock}
    (hkept : WellKept p calls (examination env p s).records)
    (hfc : fc ∈ bestRecord (examinedPort (examination env p s) port)) :
    (examination env p s).best = some fc := by
  obtain ⟨address, hbest, hfound⟩ := Option.bind_eq_some_iff.mp hfc
  obtain ⟨best, hexamined, rfl⟩ := Option.map_eq_some_iff.mp hbest
  obtain ⟨hmem, -⟩ := (@portComputeBest_records env.bmc env.dscmp s.calls
    (s.ports p).toBmcPort).2 best hexamined
  obtain rfl : best = fc :=
    Option.some.inj ((findRecord_of_mem hkept hmem).symm.trans hfound)
  exact hexamined

/-- After the examination of its records a port has nothing to report. -/
theorem portComputeBest_reports (hkept : AllWellKept s) :
    ((portComputeBest env p s).2.ports p).role.Reports ∧
      ((portComputeBest env p s).2.ports p).reported = false := by
  have hafter := @portComputeBest_allWellKept env p s hkept p
  rw [portComputeBest_same] at hafter ⊢
  refine ⟨fun fc hfc newest hnewest before hbefore hdiffers => ?_, rfl⟩
  have hexamined := bestRecord_examined hafter hfc
  obtain ⟨best', hsame, hhead⟩ := Option.bind_eq_some_iff.mp hbefore
  obtain rfl : fc = best' := Option.some.inj (hexamined.symm.trans hsame)
  obtain rfl : newest = before := Option.some.inj (hnewest.symm.trans hhead)
  rw [announceDiffers_self] at hdiffers
  exact Bool.noConfusion hdiffers

theorem computeBest_reports (ports : List ℕ) (best : Option ForeignClock)
    (hkept : AllWellKept s) :
    ∀ p ∈ ports, ((computeBest env ports best s).2.ports p).role.Reports ∧
      ((computeBest env ports best s).2.ports p).reported = false := by
  induction ports generalizing best s with
  | nil => exact fun p hp => absurd hp List.not_mem_nil
  | cons q ports ih =>
    intro p hp
    rw [computeBest_cons]
    by_cases hrest : p ∈ ports
    · exact ih _ (portComputeBest_allWellKept hkept) p hrest
    · obtain rfl : p = q := (List.mem_cons.mp hp).resolve_right hrest
      rw [computeBest_other hrest]
      exact portComputeBest_reports hkept

/-- After a decision no port has anything to report. -/
theorem decision_reports (hkept : AllWellKept s) :
    ∀ p < env.nports,
      ((handleStateDecisionEvent env s).ports p).role.Reports ∧
        ((handleStateDecisionEvent env s).ports p).reported = false := by
  have hstart : ∀ p < env.nports,
      ((decisionStart env s).ports p).role.Reports ∧
        ((decisionStart env s).ports p).reported = false := fun p hp =>
    computeBest_reports (List.range env.nports) none hkept p
      (List.mem_range.mpr hp)
  intro p hp
  obtain ⟨s', hsame, -, hat⟩ := @decidePorts_at env p (decisionStart env s)
    (freshBest env s) _ List.nodup_range (List.mem_range.mpr hp)
  have hports := @recommendedUpdate_ports env s' (bmcStateDecision env p s')
  rw [handleStateDecisionEvent_eq, hat, decidePort_eq, bcDispatch_reported, hports,
    hsame]
  refine ⟨(bcDispatch_cases _ _).reports ?_, (hstart p hp).2⟩
  rw [hports, hsame]
  exact (hstart p hp).1

/-! ## Every run -/

theorem AllReport.faultArmed (hreport : AllReport env s) (p : ℕ) (armed : Bool) :
    AllReport env
      (modifyPort p (fun port => { port with faultArmed := armed }) s) := by
  refine hreport.of_port (fun q hother => modifyPort_other _ hother) id ?_ ?_
  · intro hp
    rw [modifyPort_same]
    exact hreport.reports p hp
  · intro hp
    rw [modifyPort_same]
    exact hreport.asks p hp

theorem runTask_allReport (task : Task) 
    (hcomparable : OnAccepted env (Comparable env) task s)
    (hkept : AllWellKept s) (hreport : AllReport env s) :
    AllReport env (runTask env task s) := by
  cases task with
  | fd p fd touched =>
    have hevent := portEvent_allReport hkept hreport hcomparable
    rw [runTask]
    split
    · obtain ⟨armed, harmed⟩ :=
        @clockFaultTimeout_eq env p (portEvent env p fd s) true
      have harmedReport := hevent.faultArmed p armed
      rw [harmed]
      exact ⟨harmedReport.reports, harmedReport.asks⟩
    · exact hevent
  | fault p =>
    obtain ⟨armed, harmed⟩ := @clockFaultTimeout_eq env p s false
    have hcleared := hreport.faultArmed p armed
    rw [runTask, harmed]
    split
    · have hkept := (@Kept.bcDispatch env p _ _ (.refl p (modifyPort p
        (fun port => { port with faultArmed := armed }) s)) .faultCleared false)
      refine hcleared.of_port hkept.ports (hkept.sde.trans ·) ?_ ?_
      · exact fun hp => (bcDispatch_cases _ _).reports (hcleared.reports p hp)
      · intro hp hreported
        rw [bcDispatch_reported] at hreported
        exact hkept.sde.trans (hcleared.asks p hp hreported)
    · exact hcleared
  | uds fd touched =>
    obtain ⟨hothers, hsde⟩ := @bcEvent_elsewhere env env.udsPort s fd
    have hevent : AllReport env
        (bcEvent env env.udsPort fd (expire env.udsPort fd s)).2 :=
      hreport.of_port hothers hsde (fun hp => absurd hp (lt_irrefl _))
        fun hp => absurd hp (lt_irrefl _)
    rw [runTask]
    dsimp only
    split
    · exact ⟨hevent.reports, fun _ _ _ => rfl⟩
    · exact hevent
  | finish =>
    rw [runTask]
    split
    · have hdecision := @decision_reports env s hkept
      refine ⟨fun p hp => (hdecision p hp).1, fun p hp hreported => ?_⟩
      exact absurd hreported (Bool.eq_false_iff.mp (hdecision p hp).2)
    · exact hreport

theorem clockCreate_allReport : AllReport env (clockCreate env) := by
  rw [clockCreate]
  generalize List.range (env.nports + 1) = ports
  have hnew : AllReport env (newClock env) :=
    ⟨fun _ _ _ hfc => absurd hfc (Option.some_ne_none _).symm, fun _ _ => Bool.noConfusion⟩
  generalize newClock env = s at hnew
  induction ports generalizing s with
  | nil => exact hnew
  | cons p ports ih =>
    have hkept := (@Kept.bcDispatch env p s s (.refl p s) .initializePort false)
    refine ih _ (hnew.of_port hkept.ports (hkept.sde.trans ·) ?_ ?_)
    · exact fun hp => (bcDispatch_cases _ _).reports (hnew.reports p hp)
    · intro hp hreported
      rw [bcDispatch_reported] at hreported
      exact hkept.sde.trans (hnew.asks p hp hreported)

end LinuxPtp.Ordinary
