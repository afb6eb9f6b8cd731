import LinuxPtp.Ordinary.Runs

/-!
# The records of the ports

Every port keeps its own records, each at an address and for a sender of its own,
with messages of that sender which may still be passed on.
-/

namespace LinuxPtp.Ordinary

open Bmc Cells Port Wire

variable {env : Env} {p q : ℕ} {s s' : PtpClock} {linkFault : Prop}

/-- The records are those of the port, and made before the given call. -/
structure WellKept (p calls : ℕ) (records : List ForeignClock) : Prop where
  port : ∀ fc ∈ records, fc.port = p
  made : ∀ fc ∈ records, fc.address < calls
  steps : ∀ fc ∈ records, ∀ m ∈ fc.messages, m.stepsRemoved.toNat < 255
  source : ∀ fc ∈ records, ∀ m ∈ fc.messages,
    m.sourcePortIdentity = fc.dataset.sender
  addresses : (records.map ForeignClock.address).Nodup
  senders : (records.map fun fc => fc.dataset.sender).Nodup

def AllWellKept (s : PtpClock) : Prop :=
  ∀ p, WellKept p s.calls (s.ports p).foreignMasters

/-! ## Updates of the records -/

theorem mem_setRecord {address : ℕ} {f : ForeignClock → ForeignClock}
    {records : List ForeignClock} {fc' : ForeignClock} :
    fc' ∈ setRecord address f records ↔
      ∃ fc ∈ records, (if fc.address = address then f fc else fc) = fc' := by
  rw [setRecord, List.mem_map]

/-- An update that keeps what a record is of keeps it of all records. -/
theorem map_setRecord {β : Type} (g : ForeignClock → β) {address : ℕ}
    {f : ForeignClock → ForeignClock} (hf : ∀ fc, g (f fc) = g fc)
    (records : List ForeignClock) :
    (setRecord address f records).map g = records.map g := by
  rw [setRecord, List.map_map]
  refine List.map_congr_left fun fc _ => ?_
  simp only [Function.comp_apply]
  split
  · exact hf fc
  · rfl

namespace WellKept

variable {calls : ℕ} {records : List ForeignClock}

theorem nil : WellKept p calls [] :=
  ⟨by simp, by simp, by simp, by simp, .nil, .nil⟩

theorem later {calls' : ℕ} (hkept : WellKept p calls records)
    (hcalls : calls ≤ calls') : WellKept p calls' records :=
  { hkept with made := fun fc hfc => (hkept.made fc hfc).trans_le hcalls }

/-- A record is replaced by one with other messages of its sender. -/
theorem setMessages (hkept : WellKept p calls records) {address : ℕ}
    {messages : List Announce}
    (hsteps : ∀ m ∈ messages, m.stepsRemoved.toNat < 255)
    (hsource : ∀ fc ∈ records, fc.address = address →
      ∀ m ∈ messages, m.sourcePortIdentity = fc.dataset.sender) :
    WellKept p calls
      (setRecord address (fun fc => { fc with messages := messages })
        records) where
  port fc' hfc' := by
    obtain ⟨fc, hfc, rfl⟩ := mem_setRecord.mp hfc'
    split <;> exact hkept.port fc hfc
  made fc' hfc' := by
    obtain ⟨fc, hfc, rfl⟩ := mem_setRecord.mp hfc'
    split <;> exact hkept.made fc hfc
  steps fc' hfc' := by
    obtain ⟨fc, hfc, rfl⟩ := mem_setRecord.mp hfc'
    split
    · exact hsteps
    · exact hkept.steps fc hfc
  source fc' hfc' := by
    obtain ⟨fc, hfc, rfl⟩ := mem_setRecord.mp hfc'
    split
    · rename_i haddress
      exact hsource fc hfc haddress
    · exact hkept.source fc hfc
  addresses := by
    have hsame := @map_setRecord _ ForeignClock.address address
      (fun fc => { fc with messages := messages }) (fun _ => rfl) records
    exact hsame ▸ hkept.addresses
  senders := by
    have hsame := @map_setRecord _ (fun fc => fc.dataset.sender) address
      (fun fc => { fc with messages := messages }) (fun _ => rfl) records
    exact hsame ▸ hkept.senders

/-- Two records of a port at one address are the same. -/
theorem eq_of_address (hkept : WellKept p calls records) {fc fc' : ForeignClock}
    (hfc : fc ∈ records) (hfc' : fc' ∈ records)
    (haddress : fc.address = fc'.address) : fc = fc' :=
  List.inj_on_of_nodup_map hkept.addresses hfc hfc' haddress

theorem cons (hkept : WellKept p calls records) {sender : PortIdentity}
    (hnew : ∀ fc ∈ records, sender ≠ fc.dataset.sender) :
    WellKept p (calls + 1)
      (⟨calls, p, [], freshDataset sender⟩ :: records) where
  port fc hfc := by
    rcases List.mem_cons.mp hfc with rfl | hfc
    exacts [rfl, hkept.port fc hfc]
  made fc hfc := by
    rcases List.mem_cons.mp hfc with rfl | hfc
    exacts [Nat.lt_succ_self calls, (hkept.made fc hfc).trans (Nat.lt_succ_self _)]
  steps fc hfc := by
    rcases List.mem_cons.mp hfc with rfl | hfc
    exacts [by simp, hkept.steps fc hfc]
  source fc hfc := by
    rcases List.mem_cons.mp hfc with rfl | hfc
    exacts [by simp, hkept.source fc hfc]
  addresses := by
    rw [List.map_cons, List.nodup_cons, List.mem_map]
    refine ⟨?_, hkept.addresses⟩
    rintro ⟨fc, hfc, haddress⟩
    exact (hkept.made fc hfc).ne haddress
  senders := by
    rw [List.map_cons, List.nodup_cons, List.mem_map]
    refine ⟨?_, hkept.senders⟩
    rintro ⟨fc, hfc, hsender⟩
    exact hnew fc hfc hsender.symm

/-- The election keeps the addresses and the senders. -/
theorem examined (hkept : WellKept p calls records) {port : BmcPort}
    {records' : List ForeignClock}
    (hrecords : List.Forall₂ (Examines port) records records') :
    WellKept p calls records' := by
  have hsender : ∀ fc ∈ records, ∀ fc', Examines port fc fc' →
      fc'.dataset.sender = fc.dataset.sender := by
    intro fc hfc fc' hexamines
    rcases hexamines.dataset with hsame | ⟨newest, hnewest, hdataset⟩
    · rw [hsame]
    · rw [hdataset]
      exact hkept.source fc hfc newest (List.mem_of_mem_head? hnewest)
  have hback := fun fc' hfc' => @exists_of_examines port _ _ hrecords fc' hfc'
  have haddresses := map_of_examines ForeignClock.address hrecords
    fun _ _ _ hexamines => hexamines.address
  have hsenders := map_of_examines (fun fc => fc.dataset.sender) hrecords hsender
  refine ⟨?_, ?_, ?_, ?_, haddresses ▸ hkept.addresses, hsenders ▸ hkept.senders⟩
  · intro fc' hfc'
    obtain ⟨fc, hfc, hexamines⟩ := hback fc' hfc'
    exact hexamines.port.trans (hkept.port fc hfc)
  · intro fc' hfc'
    obtain ⟨fc, hfc, hexamines⟩ := hback fc' hfc'
    exact hexamines.address.trans_lt (hkept.made fc hfc)
  · intro fc' hfc' m hm
    obtain ⟨fc, hfc, hexamines⟩ := hback fc' hfc'
    exact hkept.steps fc hfc m (hexamines.messages.subset hm)
  · intro fc' hfc' m hm
    obtain ⟨fc, hfc, hexamines⟩ := hback fc' hfc'
    rw [hsender fc hfc fc' hexamines]
    exact hkept.source fc hfc m (hexamines.messages.subset hm)

end WellKept

/-! ## Every run -/

theorem mem_of_findRecord {address : ℕ} {records : List ForeignClock}
    {fc : ForeignClock} (hfound : findRecord address records = some fc) :
    fc ∈ records ∧ fc.address = address := by
  rw [findRecord] at hfound
  exact ⟨List.mem_of_find?_eq_some hfound, by
    simpa using List.find?_some hfound⟩

def Role.withRecords (role : Role) (records : List ForeignClock) : Role :=
  { role with bmc := { role.bmc with foreignMasters := records } }

/-- The role of a port whose best record is cleared. -/
theorem clearBest_role :
    ((clearBest p s).ports p).role = (s.ports p).role ∨
      ∃ best ∈ (s.ports p).best, ((clearBest p s).ports p).role =
        (s.ports p).role.withRecords (setRecord best
          (fun fc => { fc with messages := [] }) (s.ports p).foreignMasters) := by
  rw [clearBest]
  split
  · exact Or.inl rfl
  · rename_i best hbest
    rw [fcClear]
    split
    · exact Or.inl rfl
    · exact Or.inr ⟨best, hbest, by simp [PtpPort.role, Role.withRecords]⟩

theorem clearBest_state :
    ((clearBest p s).ports p).state = (s.ports p).state := by
  rcases @clearBest_role p s with hsame | ⟨best, -, hcleared⟩
  · exact congrArg Role.state hsame
  · exact congrArg Role.state hcleared

theorem Role.records_eq {port port' : PtpPort} (hrole : port'.role = port.role) :
    port'.foreignMasters = port.foreignMasters :=
  congrArg (fun role => role.bmc.foreignMasters) hrole

/-- What is done to the port `p` alone keeps the records of the others. -/
theorem AllWellKept.of_within (hkept : AllWellKept s) (hwithin : Within p s s')
    (hport : WellKept p s'.calls (s'.ports p).foreignMasters) :
    AllWellKept s' := by
  intro q
  by_cases hsame : q = p
  · exact hsame ▸ hport
  · rw [hwithin.ports q hsame]
    exact (hkept q).later hwithin.calls

theorem bcDispatch_records (event : PortEvent) (mdiff : Bool) :
    ((bcDispatch env p event mdiff s).ports p).foreignMasters =
        (s.ports p).foreignMasters ∨
      ((bcDispatch env p event mdiff s).ports p).foreignMasters = [] := by
  have hrecords := fun role role' (hrole : role' = role) =>
    congrArg (fun role : Role => role.bmc.foreignMasters) hrole
  cases @bcDispatch_cases env p s event mdiff with
  | moved hmoved => exact Or.inl (hrecords _ _ hmoved.machine)
  | dropped hdropped =>
    rcases hdropped.rest with hcleared | ⟨-, hsame⟩
    · exact Or.inr (hrecords _ _ hcleared)
    · exact Or.inl (hrecords _ _ hsame)

theorem bcDispatch_allWellKept (event : PortEvent) (mdiff : Bool)
    (hkept : AllWellKept s) : AllWellKept (bcDispatch env p event mdiff s) := by
  have hwithin := (@Kept.bcDispatch env p s s (.refl p s) event mdiff).toWithin
  refine hkept.of_within hwithin ?_
  rcases @bcDispatch_records env p s event mdiff with hsame | hnone
  · rw [hsame]
    exact (hkept p).later hwithin.calls
  · rw [hnone]
    exact .nil

theorem turn_allWellKept (hturn : Turn env p linkFault s s') (hkept : AllWellKept s) :
    AllWellKept s' := by
  cases hturn with
  | quiet hwithin hrole =>
    refine hkept.of_within hwithin ?_
    rw [Role.records_eq hrole]
    exact (hkept p).later hwithin.calls
  | link hwithin hrole =>
    refine hkept.of_within hwithin ?_
    rw [show (s'.ports p).foreignMasters = (s.ports p).foreignMasters from
      congrArg (fun role : Role => role.bmc.foreignMasters) hrole]
    exact (hkept p).later hwithin.calls
  | aside haside =>
    intro q
    rw [haside.ports, haside.calls]
    exact hkept q
  | clearBest =>
    refine hkept.of_within clearBest_within ?_
    have hlater := (hkept p).later (@clearBest_within p s).calls
    rcases @clearBest_role p s with hsame | ⟨best, -, hcleared⟩
    · rw [Role.records_eq hsame]
      exact hlater
    · have hrecords := congrArg (fun role => role.bmc.foreignMasters) hcleared
      exact hrecords ▸ hlater.setMessages (by simp) (by simp)
  | settle => exact bcDispatch_allWellKept _ _ hkept
  | fault => exact bcDispatch_allWellKept _ _ hkept
  | @insertAnnounce _ fc m hfc hsource hsteps =>
    have hwithin := (@insertAnnounce_kept env p s fc m).toWithin
    refine hkept.of_within hwithin ?_
    have hlater := (hkept p).later hwithin.calls
    have hbegins : keptMessages env fc s <+: fc.messages :=
      fcPrune_begins ..
    rw [insertAnnounce, modifyPort_same, msgGet]
    dsimp only
    rw [msgPutAll_ports]
    refine hlater.setMessages ?_ ?_
    · intro n hn
      rcases List.mem_cons.mp hn with rfl | hn
      exacts [hsteps, (hkept p).steps fc hfc n (hbegins.subset hn)]
    · intro fc' hfc' haddress n hn
      obtain rfl := (hkept p).eq_of_address hfc' hfc haddress
      rcases List.mem_cons.mp hn with rfl | hn
      · exact of_decide_eq_true hsource
      · exact (hkept p).source _ hfc n (hbegins.subset hn)
  | @addRecord _ m _ hnew =>
    refine hkept.of_within (Within.refl p s).called.modifyPort ?_
    rw [addRecord, modifyPort_same]
    exact (hkept p).cons fun fc hfc hsender =>
      hnew fc hfc (decide_eq_true hsender)
  | reported =>
    refine hkept.of_within (Within.refl p s).modifyPort ?_
    rw [modifyPort_same]
    exact hkept p

theorem portComputeBest_allWellKept (hkept : AllWellKept s) :
    AllWellKept (portComputeBest env p s).2 := by
  refine hkept.of_within portComputeBest_within ?_
  rw [portComputeBest_same]
  have hrecords := (@portComputeBest_records env.bmc env.dscmp s.calls
    (s.ports p).toBmcPort).1
  exact ((hkept p).examined hrecords).later portComputeBest_within.calls

theorem decisionStart_allWellKept (hkept : AllWellKept s) :
    AllWellKept (decisionStart env s) := by
  have hloop := @computeBest_keeps env s _
    (fun p s => @portComputeBest_allWellKept env p s)
    (List.range env.nports) none hkept
  exact hloop

theorem decidePort_allWellKept (fresh : Bool) (hkept : AllWellKept s) :
    AllWellKept (decidePort env fresh p s) := by
  rw [decidePort_eq]
  refine bcDispatch_allWellKept _ _ fun q => ?_
  rw [recommendedUpdate_ports]
  exact (hkept q).later (@recommendedUpdate_decides env p s _).calls

theorem allWellKept_preserves : Preserves env AllWellKept where
  turn _ _ _ _ := turn_allWellKept
  dispatch _ event _ _ := bcDispatch_allWellKept event false
  faultArmed p armed s hkept := by
    refine hkept.of_within (Within.refl p s).modifyPort ?_
    rw [modifyPort_same]
    exact hkept p
  agenda _ _ _ hkept := hkept
  decision s hkept := by
    rw [handleStateDecisionEvent_eq]
    exact decidePorts_keeps _ List.nodup_range
      (fun _ _ _ _ _ _ => decidePort_allWellKept _)
      (decisionStart_allWellKept hkept)

theorem newClock_allWellKept : AllWellKept (newClock env) :=
  fun _ => .nil

theorem AllWellKept.own (hkept : AllWellKept s) : OwnRecords s :=
  fun p => (hkept p).port

end LinuxPtp.Ordinary
