import LinuxPtp.Bmc.Records
import LinuxPtp.Ordinary.Turns

/-!
# The state decision, step by step

The first loop elects the best record of each port and of the clock; the second
dispatches to each port the event that `bmc_state_decision` recommends.
-/

namespace LinuxPtp.Ordinary

open Bmc Cells Port Wire

variable {env : Env} {p q : ℕ} {s s' s'' : PtpClock}

/-! ## The first loop -/

def examinedPort (examined : Examined) (port : PtpPort) : PtpPort :=
  { port with
    foreignMasters := examined.records
    best := examined.best.map ForeignClock.address
    decided := examined.best.bind fun fc => fc.messages.head?
    reported := false }

def examination (env : Env) (p : ℕ) (s : PtpClock) : Examined :=
  Bmc.portComputeBest env.bmc env.dscmp s.calls (s.ports p).toBmcPort

@[simp]
theorem portComputeBest_same :
    (portComputeBest env p s).2.ports p =
      examinedPort (examination env p s) (s.ports p) := by
  simp [portComputeBest, examinedPort, examination]

/-- The examination of a port leaves the rest of the clock alone. -/
theorem portComputeBest_within : Within p s (portComputeBest env p s).2 := by
  have hreadings := @portComputeBest_readings_le env.bmc env.dscmp s.calls
    (s.ports p).toBmcPort
  refine ⟨fun q hother => ?_, ?_, ?_⟩
  · rw [portComputeBest]
    dsimp only
    rw [modifyPort_other _ hother, msgPutAll_ports]
  · rw [portComputeBest]
    dsimp only
    rw [msgPutAll_eq]
    exact hreadings
  · rw [portComputeBest]
    dsimp only
    rw [msgPutAll_eq]
    rfl

/-- The record is the best of its port, which still has it. -/
structure Chosen (s : PtpClock) (fc : ForeignClock) : Prop where
  best : (s.ports fc.port).best = some fc.address
  mem : fc ∈ (s.ports fc.port).foreignMasters
  qualifies : Qualifies (s.ports fc.port).toBmcPort fc

/-- Every record knows the port that keeps it. -/
def OwnRecords (s : PtpClock) : Prop :=
  ∀ p, ∀ fc ∈ (s.ports p).foreignMasters, fc.port = p

/-- Every record after the examination was there before. -/
theorem mem_examined {fc' : ForeignClock}
    (hmem : fc' ∈ (examination env p s).records) :
    ∃ fc ∈ (s.ports p).foreignMasters, Examines (s.ports p).toBmcPort fc fc' := by
  have hrecords := (@portComputeBest_records env.bmc env.dscmp s.calls
    (s.ports p).toBmcPort).1
  exact exists_of_examines hrecords hmem

/-- Records stay with their port. -/
theorem portComputeBest_own (hown : OwnRecords s) :
    OwnRecords (portComputeBest env p s).2 := by
  intro q fc' hmem
  by_cases hsame : q = p
  · subst hsame
    rw [portComputeBest_same] at hmem
    obtain ⟨fc, hfc, hexamines⟩ := mem_examined hmem
    exact hexamines.port.trans (hown q fc hfc)
  · rw [portComputeBest_within.ports q hsame] at hmem
    exact hown q fc' hmem

/-- The record that the examination gives is one of the port. -/
theorem portComputeBest_chosen (hown : OwnRecords s) {fc : ForeignClock}
    (hbest : (portComputeBest env p s).1 = some fc) :
    fc.port = p ∧ Chosen (portComputeBest env p s).2 fc := by
  obtain ⟨hmem, hqualifies⟩ := (@portComputeBest_records env.bmc env.dscmp
    s.calls (s.ports p).toBmcPort).2 fc hbest
  have hport : fc.port = p := by
    obtain ⟨fc₀, hfc₀, hexamines⟩ := mem_examined hmem
    exact hexamines.port.trans (hown p fc₀ hfc₀)
  subst hport
  refine ⟨rfl, ?_, ?_, ?_⟩
  · rw [portComputeBest_same, examinedPort]
    exact congrArg (Option.map ForeignClock.address) hbest
  · rw [portComputeBest_same]
    exact hmem
  · rw [portComputeBest_same]
    exact ⟨hqualifies.messages, hqualifies.dataset⟩

/-- The better of the best record so far and that of the next port. -/
def betterRecord (env : Env) (best fc : Option ForeignClock) :
    Option ForeignClock :=
  match fc with
  | none => best
  | some fc =>
      if ∀ held ∈ best, 0 < env.dscmp (some fc.dataset) (some held.dataset)
      then some fc
      else best

/-- One round of the first loop. -/
theorem computeBest_cons (ports : List ℕ) (best : Option ForeignClock) :
    computeBest env (p :: ports) best s =
      computeBest env ports (betterRecord env best (portComputeBest env p s).1)
        (portComputeBest env p s).2 := rfl

theorem betterRecord_cases (best fc : Option ForeignClock) :
    betterRecord env best fc = best ∨ betterRecord env best fc = fc := by
  cases fc with
  | none => exact Or.inl rfl
  | some fc => exact (ite_eq_or_eq ..).symm

/-- What every examination keeps, the loop keeps. -/
theorem computeBest_keeps {inv : PtpClock → Prop}
    (hport : ∀ p s, inv s → inv (portComputeBest env p s).2) (ports : List ℕ)
    (best : Option ForeignClock) (hinv : inv s) :
    inv (computeBest env ports best s).2 := by
  induction ports generalizing best s with
  | nil => exact hinv
  | cons p ports ih => exact ih _ (hport p s hinv)

/-- What happens to other ports does not matter to the best record of this one. -/
theorem Chosen.other {fc : ForeignClock} (hchosen : Chosen s fc)
    (hsame : s'.ports fc.port = s.ports fc.port) : Chosen s' fc :=
  ⟨hsame ▸ hchosen.best, hsame ▸ hchosen.mem, hsame ▸ hchosen.qualifies⟩

/-- The best record of the clock is the best of its port. -/
theorem computeBest_chosen (ports : List ℕ) (hnodup : ports.Nodup)
    (best : Option ForeignClock) (hown : OwnRecords s)
    (hbest : ∀ fc ∈ best, fc.port ∉ ports ∧ Chosen s fc) :
    ∀ fc ∈ (computeBest env ports best s).1,
      Chosen (computeBest env ports best s).2 fc := by
  induction ports generalizing best s with
  | nil => exact fun fc hfc => (hbest fc hfc).2
  | cons p ports ih =>
    obtain ⟨hfirst, hrest⟩ := List.nodup_cons.mp hnodup
    rw [computeBest_cons]
    refine ih hrest _ (portComputeBest_own hown) fun fc hfc => ?_
    have hold : ∀ fc ∈ best,
        fc.port ∉ ports ∧ Chosen (portComputeBest env p s).2 fc := by
      intro fc hfc
      obtain ⟨hport, hchosen⟩ := hbest fc hfc
      rw [List.mem_cons, not_or] at hport
      exact ⟨hport.2, hchosen.other (portComputeBest_within.ports _ hport.1)⟩
    rcases betterRecord_cases best (portComputeBest env p s).1 with hsame | hnew
    · exact hold fc (hsame ▸ hfc)
    · rw [hnew] at hfc
      obtain ⟨hport, hchosen⟩ := portComputeBest_chosen hown hfc
      exact ⟨hport ▸ hfirst, hchosen⟩

/-- The best record is of one of the ports that are examined. -/
theorem computeBest_port (ports : List ℕ) (best : Option ForeignClock)
    (hown : OwnRecords s) :
    ∀ fc ∈ (computeBest env ports best s).1, fc ∈ best ∨ fc.port ∈ ports := by
  induction ports generalizing best s with
  | nil => exact fun fc hfc => Or.inl hfc
  | cons p ports ih =>
    rw [computeBest_cons]
    intro fc hfc
    rcases ih _ (portComputeBest_own hown) fc hfc with hbetter | hport
    · rcases betterRecord_cases best (portComputeBest env p s).1 with
        hsame | hnew
      · exact Or.inl (hsame ▸ hbetter)
      · rw [hnew] at hbetter
        exact Or.inr (List.mem_cons.mpr
          (Or.inl (portComputeBest_chosen hown hbetter).1))
    · exact Or.inr (List.mem_cons_of_mem p hport)

theorem computeBest_calls (ports : List ℕ) (best : Option ForeignClock) :
    s.calls ≤ (computeBest env ports best s).2.calls := by
  induction ports generalizing best s with
  | nil => exact le_rfl
  | cons p ports ih => exact portComputeBest_within.calls.trans (ih _)

/-! ## Between the loops -/

def decisionStart (env : Env) (s : PtpClock) : PtpClock :=
  let (best, s) := computeBest env (List.range env.nports) none s
  { s with
    best := best
    bestId := (best.map fun fc => fc.dataset.identity).getD env.clockIdentity }

def freshBest (env : Env) (s : PtpClock) : Bool :=
  (decisionStart env s).bestId ≠
    (computeBest env (List.range env.nports) none s).2.bestId

/-- A decision in its two loops. -/
theorem handleStateDecisionEvent_eq :
    handleStateDecisionEvent env s =
      decidePorts env (freshBest env s) (List.range env.nports)
        (decisionStart env s) := rfl

/-- The second loop begins with a best record that its port has. -/
theorem decisionStart_chosen (hown : OwnRecords s) :
    ∀ fc ∈ (decisionStart env s).best, Chosen (decisionStart env s) fc := by
  intro fc hfc
  have hchosen := computeBest_chosen (List.range env.nports) List.nodup_range
    none hown (by simp) fc hfc
  exact ⟨hchosen.best, hchosen.mem, hchosen.qualifies⟩

/-- It is one of a network port. -/
theorem decisionStart_port (hown : OwnRecords s) :
    ∀ fc ∈ (decisionStart env s).best, fc.port < env.nports := by
  intro fc hfc
  rcases computeBest_port (List.range env.nports) none hown fc hfc with
    hnone | hport
  · simp at hnone
  · exact List.mem_range.mp hport

theorem decisionStart_calls : s.calls ≤ (decisionStart env s).calls :=
  computeBest_calls (List.range env.nports) none

/-! ## The second loop -/

def recommendedEvent : PortState → PortEvent
  | .listening => .none
  | .grandMaster => .rsGrandMaster
  | .master => .rsMaster
  | .passive => .rsPassive
  | .slave => .rsSlave
  | _ => .faultDetected

def recommendedUpdate (env : Env) : PortState → PtpClock → PtpClock
  | .grandMaster => clockUpdateGrandmaster env
  | .slave => clockUpdateSlave
  | _ => id

/-- The second loop updates the clock and then dispatches. -/
theorem decidePort_eq (fresh : Bool) :
    decidePort env fresh p s =
      bcDispatch env p (recommendedEvent (bmcStateDecision env p s)) fresh
        (recommendedUpdate env (bmcStateDecision env p s) s) := by
  rw [decidePort]
  cases bmcStateDecision env p s <;> rfl

/-- The decision for a port changes the port, and what the clock knows of its
parent and of time. -/
structure Decides (p : ℕ) (s s' : PtpClock) : Prop where
  ports : ∀ q, q ≠ p → s'.ports q = s.ports q
  calls : s.calls ≤ s'.calls
  clock : { s' with
    ports := s.ports, utcOffset := s.utcOffset
    parentPortIdentity := s.parentPortIdentity
    grandmasterIdentity := s.grandmasterIdentity
    grandmasterClockQuality := s.grandmasterClockQuality
    grandmasterPriority1 := s.grandmasterPriority1
    grandmasterPriority2 := s.grandmasterPriority2
    stepsRemoved := s.stepsRemoved
    tds := s.tds, cells := s.cells, calls := s.calls } = s

namespace Decides

section

variable (hdecides : Decides p s s')

include hdecides

theorem best : s'.best = s.best := (congrArg PtpClock.best hdecides.clock :)

theorem todo : s'.todo = s.todo := (congrArg PtpClock.todo hdecides.clock :)

theorem held : s'.held = s.held := (congrArg PtpClock.held hdecides.clock :)

theorem sde : s'.sde = s.sde := (congrArg PtpClock.sde hdecides.clock :)

theorem clockQuality : s'.clockQuality = s.clockQuality :=
  (congrArg PtpClock.clockQuality hdecides.clock :)

theorem delaySamples : s'.delaySamples = s.delaySamples :=
  (congrArg PtpClock.delaySamples hdecides.clock :)

theorem peerSamples : s'.peerSamples = s.peerSamples :=
  (congrArg PtpClock.peerSamples hdecides.clock :)

theorem clockDefaultDs : clockDefaultDs env s' = clockDefaultDs env s :=
  (congrArg (Ordinary.clockDefaultDs env) hdecides.clock :)

end

end Decides

theorem recommendedUpdate_ports (state : PortState) :
    (recommendedUpdate env state s).ports = s.ports := by
  cases state <;> try rfl
  rw [recommendedUpdate, clockUpdateSlave]
  split
  · rfl
  · split <;> rfl

/-- The update is of what the clock knows of its parent and of time. -/
theorem recommendedUpdate_decides (state : PortState) :
    Decides p s (recommendedUpdate env state s) := by
  cases state <;> try exact ⟨fun _ _ => rfl, le_rfl, rfl⟩
  rw [recommendedUpdate, clockUpdateSlave]
  split
  · exact ⟨fun _ _ => rfl, le_rfl, rfl⟩
  · split <;> exact ⟨fun _ _ => rfl, le_rfl, rfl⟩

theorem Kept.decides (hkept : Kept p s s') : Decides p s s' where
  ports := hkept.ports
  calls := hkept.calls
  clock := by
    rw [hkept.held]
    exact congrArg (fun clock : PtpClock => { clock with
      utcOffset := s.utcOffset, parentPortIdentity := s.parentPortIdentity
      grandmasterIdentity := s.grandmasterIdentity
      grandmasterClockQuality := s.grandmasterClockQuality
      grandmasterPriority1 := s.grandmasterPriority1
      grandmasterPriority2 := s.grandmasterPriority2
      stepsRemoved := s.stepsRemoved, tds := s.tds }) hkept.clock

theorem Decides.trans (hfirst : Decides p s s') (hsecond : Decides p s' s'') :
    Decides p s s'' where
  ports q hother := (hsecond.ports q hother).trans (hfirst.ports q hother)
  calls := hfirst.calls.trans hsecond.calls
  clock := by
    have hclock := hfirst.clock
    rw [← hsecond.clock] at hclock
    exact hclock

/-- The decision for one port does no more. -/
theorem decidePort_decides (fresh : Bool) :
    Decides p s (decidePort env fresh p s) := by
  rw [decidePort_eq]
  exact (recommendedUpdate_decides _).trans (Kept.refl p _).bcDispatch.decides

theorem decidePorts_calls {fresh : Bool} (ports : List ℕ) :
    s.calls ≤ (decidePorts env fresh ports s).calls := by
  induction ports generalizing s with
  | nil => exact le_rfl
  | cons p ports ih => exact (decidePort_decides fresh).calls.trans ih

/-- What the decision for each port keeps, given that the earlier decisions have
left that port and the best record alone, the loop keeps.  The calls of a
decision lie within those of the loop. -/
theorem decidePorts_keeps_within {inv : PtpClock → Prop} {fresh : Bool}
    (ports : List ℕ) (hnodup : ports.Nodup)
    (hport : ∀ p ∈ ports, ∀ s', s'.ports p = s.ports p → s'.best = s.best →
      clockDefaultDs env s' = clockDefaultDs env s → s.calls ≤ s'.calls →
      (decidePort env fresh p s').calls ≤ (decidePorts env fresh ports s).calls →
      inv s' → inv (decidePort env fresh p s'))
    (hinv : inv s) : inv (decidePorts env fresh ports s) := by
  induction ports generalizing s with
  | nil => exact hinv
  | cons p ports ih =>
    obtain ⟨hfirst, hrest⟩ := List.nodup_cons.mp hnodup
    have hdecides := @decidePort_decides env p s fresh
    refine ih hrest (fun q hq s' hsame hbest hdefault hcalls hlater hinv => ?_)
      (hport p List.mem_cons_self s rfl rfl rfl le_rfl
        (decidePorts_calls ports) hinv)
    have hother : q ≠ p := fun heq => hfirst (heq ▸ hq)
    exact hport q (List.mem_cons_of_mem p hq) s'
      (hsame.trans (hdecides.ports q hother)) (hbest.trans hdecides.best)
      (hdefault.trans hdecides.clockDefaultDs) (hdecides.calls.trans hcalls)
      hlater hinv

theorem decidePorts_keeps {inv : PtpClock → Prop} {fresh : Bool}
    (ports : List ℕ) (hnodup : ports.Nodup)
    (hport : ∀ p ∈ ports, ∀ s', s'.ports p = s.ports p → s'.best = s.best →
      clockDefaultDs env s' = clockDefaultDs env s → inv s' →
      inv (decidePort env fresh p s'))
    (hinv : inv s) : inv (decidePorts env fresh ports s) :=
  decidePorts_keeps_within ports hnodup
    (fun p hp s' hsame hbest hdefault _ _ => hport p hp s' hsame hbest hdefault)
    hinv

/-- Ports that are not in the list stay as they are. -/
theorem decidePorts_other {fresh : Bool} {ports : List ℕ} (hother : q ∉ ports) :
    (decidePorts env fresh ports s).ports q = s.ports q := by
  induction ports generalizing s with
  | nil => rfl
  | cons p ports ih =>
    rw [List.mem_cons, not_or] at hother
    exact (ih hother.2).trans ((decidePort_decides fresh).ports q hother.1)

/-- The second loop does not touch the best record of the clock. -/
theorem decidePorts_best {fresh : Bool} {ports : List ℕ} :
    (decidePorts env fresh ports s).best = s.best := by
  induction ports generalizing s with
  | nil => rfl
  | cons p ports ih => exact ih.trans (decidePort_decides fresh).best

end LinuxPtp.Ordinary
