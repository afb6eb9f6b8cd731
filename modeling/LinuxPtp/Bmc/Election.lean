import LinuxPtp.Bmc.ForeignMaster
import LinuxPtp.Bmc.Standard

/-!
# The election of the best master

The records that qualify are the candidates.  Neither the order of the records
of a port nor that of the ports decides the election, except among records that
compare equal.
-/

namespace LinuxPtp.Bmc

open ByteOrder Ranking Wire

/-! ## Candidates -/

/-- The record as the election sees it at the given time, where it counts: its
two newest messages are current. -/
def qualified (host : BmcHost) (now : Timespec) (p : BmcPort)
    (fc : ForeignClock) : Option ForeignClock :=
  match fc.messages with
  | [] => none
  | newest :: _ =>
      let messages := fcPrune host now fc.messages
      if messages.length < foreignMasterThreshold then none
      else some
        { fc with
          messages := messages
          dataset := announceToDataset newest p }

/-- The candidates among the records from a clock reading on, and the reading
that follows them. -/
def candidates (host : BmcHost) (p : BmcPort) :
    ℕ → List ForeignClock → List ForeignClock × ℕ
  | readings, [] => ([], readings)
  | readings, fc :: rest =>
      if fc.messages = [] then candidates host p readings rest
      else
        let later := candidates host p (readings + 1) rest
        ((qualified host (host.monotonic readings) p fc).toList ++ later.1,
          later.2)

def portCandidates (host : BmcHost) (readings : ℕ) (p : BmcPort) :
    List ForeignClock × ℕ :=
  if p.masterOnly then ([], readings)
  else candidates host p readings p.foreignMasters

def clockCandidates (host : BmcHost) : ℕ → List BmcPort → List ForeignClock
  | _, [] => []
  | readings, p :: rest =>
      (portCandidates host readings p).1 ++
        clockCandidates host (portCandidates host readings p).2 rest

def byDataset (compare : Option Dataset → Option Dataset → ℤ)
    (a b : ForeignClock) : ℤ :=
  compare (some a.dataset) (some b.dataset)

/-! ## One record -/

variable {host : BmcHost} {compare : Option Dataset → Option Dataset → ℤ}

/-- The examination of a record is a duel with the best so far. -/
theorem examine_best (p : BmcPort) (e : Examined) (fc : ForeignClock) :
    (examine host compare p e fc).best =
      duel (byDataset compare) e.best
        (qualified host (host.monotonic e.readings) p fc) := by
  cases hmessages : fc.messages with
  | nil => simp [examine, qualified, hmessages, duel]
  | cons newest older =>
    simp only [examine, qualified, hmessages]
    by_cases hfew : (fcPrune host (host.monotonic e.readings)
        (newest :: older)).length < foreignMasterThreshold
    · rw [if_pos hfew, if_pos hfew]
      rfl
    · rw [if_neg hfew, if_neg hfew]
      by_cases hbeats : ∀ best ∈ e.best,
          0 < compare (some (announceToDataset newest p)) (some best.dataset)
      · rw [if_pos hbeats]
        exact (if_pos hbeats).symm
      · rw [if_neg hbeats]
        exact (if_neg hbeats).symm

/-- A record without messages needs no reading of the clock. -/
theorem examine_readings (p : BmcPort) (e : Examined) (fc : ForeignClock) :
    (examine host compare p e fc).readings =
      if fc.messages = [] then e.readings else e.readings + 1 := by
  cases hmessages : fc.messages with
  | nil => simp [examine, hmessages]
  | cons newest older =>
    rw [if_neg (List.cons_ne_nil newest older)]
    simp only [examine, hmessages]
    split_ifs <;> rfl

/-! ## All records of a port -/

variable {members : Set ForeignClock}

theorem qualified_of_nil (now : Timespec) (p : BmcPort) {fc : ForeignClock}
    (hmessages : fc.messages = []) : qualified host now p fc = none := by
  simp [qualified, hmessages]

theorem candidates_cons (p : BmcPort) (readings : ℕ) (fc : ForeignClock)
    (records : List ForeignClock) :
    candidates host p readings (fc :: records) =
      ((qualified host (host.monotonic readings) p fc).toList ++
          (candidates host p (if fc.messages = [] then readings
            else readings + 1) records).1,
        (candidates host p (if fc.messages = [] then readings
          else readings + 1) records).2) := by
  by_cases hmessages : fc.messages = []
  · simp [candidates, hmessages, qualified_of_nil _ p hmessages]
  · simp [candidates, hmessages]

/-- The examined records hold the election of the candidates among them. -/
theorem foldl_examine (hranks : Ranks (byDataset compare) members) (p : BmcPort)
    (records seen : List ForeignClock) (e : Examined)
    (hseen : ∀ a ∈ seen, a ∈ members)
    (hrecords : ∀ a ∈ (candidates host p e.readings records).1, a ∈ members)
    (helects : Elects (byDataset compare) seen e.best) :
    Elects (byDataset compare)
        (seen ++ (candidates host p e.readings records).1)
        (records.foldl (examine host compare p) e).best ∧
      (records.foldl (examine host compare p) e).readings =
        (candidates host p e.readings records).2 := by
  induction records generalizing seen e with
  | nil => simpa [candidates] using helects
  | cons fc records ih =>
    rw [candidates_cons] at hrecords ⊢
    have hnext : ∀ a ∈ (qualified host (host.monotonic e.readings) p fc).toList,
        a ∈ members := fun a ha => hrecords a (List.mem_append_left _ ha)
    have hsingle : Elects (byDataset compare)
        (qualified host (host.monotonic e.readings) p fc).toList
        (qualified host (host.monotonic e.readings) p fc) := by
      cases hqualified : qualified host (host.monotonic e.readings) p fc with
      | none => exact Elects.nil
      | some a => exact Elects.single hranks (hnext a (by simp [hqualified]))
    have hmet := Elects.duel hranks hseen hnext helects hsingle
    rw [← examine_best p e fc] at hmet
    rw [← @examine_readings host compare p e fc] at hrecords ⊢
    rw [← List.append_assoc, List.foldl_cons]
    refine ih _ _ ?_ (fun a ha => hrecords a (List.mem_append_right _ ha)) hmet
    intro a ha
    rcases List.mem_append.mp ha with hin | hin
    exacts [hseen a hin, hnext a hin]

/-- `port_compute_best` chooses a candidate that no other beats. -/
theorem portComputeBest_elects (hranks : Ranks (byDataset compare) members)
    (readings : ℕ) (p : BmcPort)
    (hmembers : ∀ a ∈ (portCandidates host readings p).1, a ∈ members) :
    Elects (byDataset compare) (portCandidates host readings p).1
        (portComputeBest host compare readings p).best ∧
      (portComputeBest host compare readings p).readings =
        (portCandidates host readings p).2 := by
  rw [portComputeBest, portCandidates] at *
  split_ifs at hmembers ⊢ with hmasterOnly
  · exact ⟨Elects.nil, rfl⟩
  · exact foldl_examine hranks p p.foreignMasters [] ⟨[], none, [], readings⟩
      (by simp) hmembers Elects.nil

/-! ## All ports of a clock -/

/-- The ports send their best into another one. -/
theorem electFrom_best (e : Elected) (p : BmcPort) :
    (electFrom host compare e p).best =
      duel (byDataset compare) e.best
        (portComputeBest host compare e.readings p).best := by
  rw [electFrom]
  cases (portComputeBest host compare e.readings p).best with
  | none => rfl
  | some fc =>
    by_cases hbeats : ∀ best ∈ e.best,
        0 < compare (some fc.dataset) (some best.dataset)
    · exact (if_pos hbeats).trans (if_pos hbeats).symm
    · exact (if_neg hbeats).trans (if_neg hbeats).symm

/-- In the end the best of all candidates is left. -/
theorem foldl_electFrom (hranks : Ranks (byDataset compare) members)
    (ports : List BmcPort) (seen : List ForeignClock) (e : Elected)
    (hseen : ∀ a ∈ seen, a ∈ members)
    (hports : ∀ a ∈ clockCandidates host e.readings ports, a ∈ members)
    (helects : Elects (byDataset compare) seen e.best) :
    Elects (byDataset compare) (seen ++ clockCandidates host e.readings ports)
      (ports.foldl (electFrom host compare) e).best := by
  induction ports generalizing seen e with
  | nil => simpa [clockCandidates] using helects
  | cons p ports ih =>
    rw [clockCandidates] at hports ⊢
    have hport : ∀ a ∈ (portCandidates host e.readings p).1, a ∈ members :=
      fun a ha => hports a (List.mem_append_left _ ha)
    obtain ⟨hbest, hreadings⟩ :=
      portComputeBest_elects hranks e.readings p hport
    have hmet := Elects.duel hranks hseen hport helects hbest
    rw [← electFrom_best] at hmet
    have hnext : (electFrom host compare e p).readings =
        (portCandidates host e.readings p).2 := hreadings
    rw [← hnext] at hports ⊢
    rw [← List.append_assoc, List.foldl_cons]
    refine ih _ _ ?_ (fun a ha => hports a (List.mem_append_right _ ha)) hmet
    intro a ha
    rcases List.mem_append.mp ha with hin | hin
    exacts [hseen a hin, hport a hin]

/-- The clock chooses a candidate that no candidate of any port beats. -/
theorem electBest_elects (hranks : Ranks (byDataset compare) members)
    (readings : ℕ) (ports : List BmcPort)
    (hmembers : ∀ a ∈ clockCandidates host readings ports, a ∈ members) :
    Elects (byDataset compare) (clockCandidates host readings ports)
      (electBest host compare readings ports).best :=
  foldl_electFrom hranks ports [] ⟨none, [], readings⟩ (by simp) hmembers
    Elects.nil

/-! ## The order of records and ports -/

/-- A record that keeps enough messages keeps the newest ones. -/
theorem fcPrune_eq_take {now : Timespec} {messages : List Announce}
    (hkept : foreignMasterThreshold ≤ (fcPrune host now messages).length) :
    fcPrune host now messages = messages.take foreignMasterThreshold := by
  have hprefix := List.rdropWhile_prefix (fun m => !msgCurrent host now m)
    (messages.take foreignMasterThreshold)
  refine hprefix.eq_of_length_le ?_
  exact (List.length_take_le _ _).trans hkept

/-- When a record qualifies at two times, it enters both elections alike. -/
theorem qualified_congr {p : BmcPort} {now later : Timespec} {fc : ForeignClock}
    (hboth : (qualified host now p fc).isSome ↔
      (qualified host later p fc).isSome) :
    qualified host now p fc = qualified host later p fc := by
  cases hmessages : fc.messages with
  | nil => rw [qualified_of_nil _ p hmessages, qualified_of_nil _ p hmessages]
  | cons newest older =>
    simp only [qualified, hmessages] at hboth ⊢
    split_ifs at hboth ⊢ with hfew hfew' hfew'
    · rfl
    · simp at hboth
    · simp at hboth
    · rw [fcPrune_eq_take (not_lt.mp hfew), fcPrune_eq_take (not_lt.mp hfew')]

/-- No record begins or ceases to qualify between the given clock readings. -/
def Steady (host : BmcHost) (window : Set ℕ) (p : BmcPort) : Prop :=
  ∀ fc ∈ p.foreignMasters, ∀ j ∈ window, ∀ k ∈ window,
    ((qualified host (host.monotonic j) p fc).isSome ↔
      (qualified host (host.monotonic k) p fc).isSome)

def Covers (window : Set ℕ) (readings count : ℕ) : Prop :=
  ∀ i < count, readings + i ∈ window

theorem Covers.later {window : Set ℕ} {readings count : ℕ} {later rest : ℕ}
    (hcovers : Covers window readings count) (hlater : readings ≤ later)
    (hrest : later + rest ≤ readings + count) : Covers window later rest := by
  intro i hi
  have hin := hcovers (later - readings + i) (by omega)
  rwa [show readings + (later - readings + i) = later + i by omega] at hin

/-- The record is a candidate at some reading of the window. -/
def CandidateIn (host : BmcHost) (window : Set ℕ) (p : BmcPort)
    (records : List ForeignClock) (a : ForeignClock) : Prop :=
  ∃ fc ∈ records, ∃ k ∈ window, qualified host (host.monotonic k) p fc = some a

/-- In a steady window the candidates do not depend on the readings. -/
theorem mem_candidates {window : Set ℕ} {p : BmcPort}
    {records : List ForeignClock}
    (hsteady : Steady host window { p with foreignMasters := records })
    (readings : ℕ) (hcovers : Covers window readings records.length)
    (a : ForeignClock) :
    a ∈ (candidates host p readings records).1 ↔
      CandidateIn host window p records a := by
  induction records generalizing readings with
  | nil => simp [candidates, CandidateIn]
  | cons fc records ih =>
    have hnow : readings ∈ window := hcovers 0 (by simp)
    have hlater : Covers window
        (if fc.messages = [] then readings else readings + 1)
        records.length :=
      hcovers.later (by split_ifs <;> omega)
        (by rw [List.length_cons]; split_ifs <;> omega)
    have hfirst : qualified host (host.monotonic readings) p fc = some a ↔
        ∃ k ∈ window, qualified host (host.monotonic k) p fc = some a := by
      refine ⟨fun hin => ⟨readings, hnow, hin⟩, fun ⟨k, hk, hin⟩ => ?_⟩
      rw [← hin]
      exact qualified_congr (hsteady fc List.mem_cons_self readings hnow k hk)
    rw [candidates_cons, List.mem_append, Option.mem_toList,
      hfirst, ih (fun other hother =>
        hsteady other (List.mem_cons_of_mem fc hother)) _ hlater]
    simp [CandidateIn]

theorem candidates_readings (p : BmcPort) (readings : ℕ)
    (records : List ForeignClock) :
    readings ≤ (candidates host p readings records).2 ∧
      (candidates host p readings records).2 ≤ readings + records.length := by
  induction records generalizing readings with
  | nil => simp [candidates]
  | cons fc records ih =>
    have hrest := ih (if fc.messages = [] then readings else readings + 1)
    rw [candidates_cons, List.length_cons]
    split_ifs at hrest ⊢ <;> omega

theorem portCandidates_readings (p : BmcPort) (readings : ℕ) :
    readings ≤ (portCandidates host readings p).2 ∧
      (portCandidates host readings p).2 ≤
        readings + p.foreignMasters.length := by
  rw [portCandidates]
  split
  · simp
  · exact candidates_readings p readings p.foreignMasters

/-- The record is a candidate of the port at some reading of the window. -/
def PortCandidate (host : BmcHost) (window : Set ℕ) (p : BmcPort)
    (a : ForeignClock) : Prop :=
  ¬p.masterOnly ∧ CandidateIn host window p p.foreignMasters a

/-- Nor do those of a port, -/
theorem mem_portCandidates {window : Set ℕ} {p : BmcPort}
    (hsteady : Steady host window p) (readings : ℕ)
    (hcovers : Covers window readings p.foreignMasters.length)
    (a : ForeignClock) :
    a ∈ (portCandidates host readings p).1 ↔ PortCandidate host window p a := by
  rw [portCandidates, PortCandidate]
  split_ifs with hmasterOnly
  · simp [hmasterOnly]
  · rw [mem_candidates hsteady readings hcovers]
    simp [hmasterOnly]

def recordCount (ports : List BmcPort) : ℕ :=
  (ports.map fun p => p.foreignMasters.length).sum

/-- nor those of all ports. -/
theorem mem_clockCandidates {window : Set ℕ} {ports : List BmcPort}
    (hsteady : ∀ p ∈ ports, Steady host window p) (readings : ℕ)
    (hcovers : Covers window readings (recordCount ports)) (a : ForeignClock) :
    a ∈ clockCandidates host readings ports ↔
      ∃ p ∈ ports, PortCandidate host window p a := by
  induction ports generalizing readings with
  | nil => simp [clockCandidates]
  | cons p ports ih =>
    have hreadings := @portCandidates_readings host p readings
    have hcount : recordCount (p :: ports) =
        p.foreignMasters.length + recordCount ports := by
      simp [recordCount]
    rw [clockCandidates, List.mem_append,
      mem_portCandidates (hsteady p List.mem_cons_self) readings
        (hcovers.later le_rfl (by omega)),
      ih (fun other hother => hsteady other (List.mem_cons_of_mem p hother)) _
        (hcovers.later hreadings.1 (by omega))]
    simp

def Reordered (p q : BmcPort) : Prop :=
  ∃ records, p.foreignMasters.Perm records ∧
    q = { p with foreignMasters := records }

/-- The same ports in another order, each with its records in another order. -/
def Shuffled (ports ports' : List BmcPort) : Prop :=
  ∃ between, List.Forall₂ Reordered ports between ∧ between.Perm ports'

theorem Reordered.length_eq {p q : BmcPort} (hreordered : Reordered p q) :
    p.foreignMasters.length = q.foreignMasters.length := by
  obtain ⟨records, hperm, rfl⟩ := hreordered
  exact hperm.length_eq

/-- The order of the records does not matter for that. -/
theorem Reordered.steady {window : Set ℕ} {p q : BmcPort}
    (hreordered : Reordered p q) (hsteady : Steady host window p) :
    Steady host window q := by
  obtain ⟨records, hperm, rfl⟩ := hreordered
  exact fun fc hfc => hsteady fc (hperm.mem_iff.mpr hfc)

/-- Nor does it change the candidates. -/
theorem Reordered.portCandidate {window : Set ℕ} {p q : BmcPort}
    (hreordered : Reordered p q) (a : ForeignClock) :
    PortCandidate host window p a ↔ PortCandidate host window q a := by
  obtain ⟨records, hperm, rfl⟩ := hreordered
  simp only [PortCandidate, CandidateIn, hperm.mem_iff]
  rfl

/-- Reordering the records of every port changes neither what is steady nor
who is a candidate. -/
theorem forall₂_reordered {window : Set ℕ} {ports between : List BmcPort}
    (hreordered : List.Forall₂ Reordered ports between)
    (hsteady : ∀ p ∈ ports, Steady host window p) :
    (∀ q ∈ between, Steady host window q) ∧
      recordCount ports = recordCount between ∧
      ∀ a, (∃ p ∈ ports, PortCandidate host window p a) ↔
        ∃ q ∈ between, PortCandidate host window q a := by
  induction hreordered with
  | nil => simp [recordCount]
  | @cons p q ports between hfirst hrest ih =>
    obtain ⟨hsteady', hcount, hsame⟩ := ih fun other hother =>
      hsteady other (List.mem_cons_of_mem p hother)
    refine ⟨?_, ?_, fun a => ?_⟩
    · intro other hother
      rcases List.mem_cons.mp hother with rfl | hother
      exacts [hfirst.steady (hsteady p List.mem_cons_self), hsteady' other hother]
    · simp only [recordCount, List.map_cons, List.sum_cons] at hcount ⊢
      rw [hfirst.length_eq, hcount]
    · simp only [List.mem_cons, exists_eq_or_imp]
      rw [hfirst.portCandidate a, hsame a]

/-- So the order of the ports does not, either. -/
theorem Shuffled.mem_clockCandidates {window : Set ℕ}
    {ports ports' : List BmcPort} (hshuffled : Shuffled ports ports')
    (hsteady : ∀ p ∈ ports, Steady host window p) {j k : ℕ}
    (hj : Covers window j (recordCount ports))
    (hk : Covers window k (recordCount ports)) (a : ForeignClock) :
    a ∈ clockCandidates host j ports ↔ a ∈ clockCandidates host k ports' := by
  obtain ⟨between, hreordered, hperm⟩ := hshuffled
  obtain ⟨hbetween, hcount, hsame⟩ := forall₂_reordered hreordered hsteady
  have hcount' : recordCount ports = recordCount ports' :=
    hcount.trans (hperm.map _).sum_eq
  have hsteady' : ∀ q ∈ ports', Steady host window q := fun q hq =>
    hbetween q (hperm.mem_iff.mpr hq)
  rw [Bmc.mem_clockCandidates hsteady j hj,
    Bmc.mem_clockCandidates hsteady' k (hcount' ▸ hk), hsame]
  simp only [hperm.mem_iff]

/-! ## The election is consistent -/

/-- What the profile takes for granted of the datasets it compares. -/
def DatasetComparison.Admits :
    DatasetComparison → Set Dataset → Prop
  | .ieee1588, datasets => Comparable datasets
  | .g8275, datasets => ∀ ds ∈ datasets, Filtered ds

theorem DatasetComparison.ranks (comparison : DatasetComparison)
    (endian : Endian) {datasets : Set Dataset}
    (hadmits : comparison.Admits datasets) :
    Ranks (comparison.dscmp endian) {a | ∀ ds ∈ a, ds ∈ datasets} := by
  cases comparison with
  | ieee1588 => exact dscmp_ranks endian hadmits
  | g8275 => exact telecomDscmp_ranks endian hadmits

/-- Records rank as their datasets. -/
theorem byDataset_ranks {datasets : Set Dataset}
    (hranks : Ranks compare {a | ∀ ds ∈ a, ds ∈ datasets}) :
    Ranks (byDataset compare) {fc | fc.dataset ∈ datasets} where
  swap a ha b hb :=
    hranks.swap (some a.dataset) (by simpa using ha) (some b.dataset)
      (by simpa using hb)
  trans a ha b hb c hc :=
    hranks.trans (some a.dataset) (by simpa using ha) (some b.dataset)
      (by simpa using hb) (some c.dataset) (by simpa using hc)

/-- Two elections choose alike: both nobody, or records that compare equal. -/
def ChoosesAlike (compare : Option Dataset → Option Dataset → ℤ)
    (left right : Option ForeignClock) : Prop :=
  (left = none ↔ right = none) ∧
    ∀ a ∈ left, ∀ b ∈ right, byDataset compare a b = 0

/-- The comparison orders the datasets, and every election among them chooses a
record that no other beats, the order of records and ports deciding only among
records that compare equal. -/
structure ConsistentElection (comparison : DatasetComparison) (endian : Endian)
    (datasets : Set Dataset) : Prop where
  swap : ∀ a b, (∀ ds ∈ a, ds ∈ datasets) → (∀ ds ∈ b, ds ∈ datasets) →
    comparison.dscmp endian b a = -comparison.dscmp endian a b
  trans : ∀ a b c, (∀ ds ∈ a, ds ∈ datasets) → (∀ ds ∈ b, ds ∈ datasets) →
    (∀ ds ∈ c, ds ∈ datasets) →
    (0 ≤ comparison.dscmp endian a b → 0 ≤ comparison.dscmp endian b c →
      0 ≤ comparison.dscmp endian a c) ∧
    (0 < comparison.dscmp endian a b → 0 < comparison.dscmp endian b c →
      0 < comparison.dscmp endian a c)
  equal : comparison = .ieee1588 → ∀ a ∈ datasets, ∀ b ∈ datasets,
    comparison.dscmp endian (some a) (some b) = 0 →
      a.identity = b.identity ∧ a.stepsRemoved = b.stepsRemoved ∧
        a.sender = b.sender ∧ a.receiver.portNumber = b.receiver.portNumber
  port : ∀ (host : BmcHost) (readings : ℕ) (p : BmcPort),
    (∀ fc ∈ (portCandidates host readings p).1, fc.dataset ∈ datasets) →
    Elects (byDataset (comparison.dscmp endian))
      (portCandidates host readings p).1
      (portComputeBest host (comparison.dscmp endian) readings p).best
  clock : ∀ (host : BmcHost) (readings : ℕ) (ports : List BmcPort),
    (∀ fc ∈ clockCandidates host readings ports, fc.dataset ∈ datasets) →
    Elects (byDataset (comparison.dscmp endian))
      (clockCandidates host readings ports)
      (electBest host (comparison.dscmp endian) readings ports).best
  portOrder : ∀ (host : BmcHost) (window : Set ℕ) (j k : ℕ) (p q : BmcPort),
    Reordered p q → Steady host window p →
    Covers window j p.foreignMasters.length →
    Covers window k p.foreignMasters.length →
    (∀ fc ∈ (portCandidates host j p).1, fc.dataset ∈ datasets) →
    ChoosesAlike (comparison.dscmp endian)
      (portComputeBest host (comparison.dscmp endian) j p).best
      (portComputeBest host (comparison.dscmp endian) k q).best
  clockOrder : ∀ (host : BmcHost) (window : Set ℕ) (j k : ℕ)
    (ports ports' : List BmcPort), Shuffled ports ports' →
    (∀ p ∈ ports, Steady host window p) →
    Covers window j (recordCount ports) → Covers window k (recordCount ports) →
    (∀ fc ∈ clockCandidates host j ports, fc.dataset ∈ datasets) →
    ChoosesAlike (comparison.dscmp endian)
      (electBest host (comparison.dscmp endian) j ports).best
      (electBest host (comparison.dscmp endian) k ports').best

theorem election_consistent (comparison : DatasetComparison) (endian : Endian)
    (datasets : Set Dataset) (hadmits : comparison.Admits datasets) :
    ConsistentElection comparison endian datasets := by
  have hranks := comparison.ranks endian hadmits
  have hrecords := byDataset_ranks hranks
  have hport := fun host readings p hin =>
    (@portComputeBest_elects host _ _ hrecords readings p hin).1
  have hclock := fun host readings ports hin =>
    @electBest_elects host _ _ hrecords readings ports hin
  exact {
    swap := fun a b ha hb => hranks.swap a ha b hb
    trans := fun a b c ha hb hc =>
      ⟨hranks.trans a ha b hb c hc, hranks.trans_strict ha hb hc⟩
    equal := by
      rintro rfl a ha b hb
      exact dscmpOf_eq_zero endian (hadmits.filtered a ha)
        (hadmits.filtered b hb) (hadmits.attributes a ha b hb)
    port := hport
    clock := hclock
    portOrder := fun host window j k p q hreordered hsteady hj hk hin => by
      have hsame : ∀ a, a ∈ (portCandidates host j p).1 ↔
          a ∈ (portCandidates host k q).1 := fun a => by
        rw [mem_portCandidates hsteady j hj, hreordered.portCandidate,
          mem_portCandidates (hreordered.steady hsteady) k
            (hreordered.length_eq ▸ hk)]
      exact Elects.alike hrecords hin hsame (hport host j p hin)
        (hport host k q fun fc hfc => hin fc ((hsame fc).mpr hfc))
    clockOrder := fun host window j k ports ports' hshuffled hsteady hj hk hin => by
      have hsame := hshuffled.mem_clockCandidates hsteady hj hk
      exact Elects.alike hrecords hin hsame (hclock host j ports hin)
        (hclock host k ports' fun fc hfc => hin fc ((hsame fc).mpr hfc)) }

theorem election_consistent_heardThrough :
    ConsistentElection .ieee1588 .little
      {heardThrough 1, heardThrough 256} := by
  refine election_consistent .ieee1588 .little _ ⟨?_, ?_⟩
  · rintro ds (rfl | rfl) <;> rw [Filtered] <;> decide
  · rintro a (rfl | rfl) b (rfl | rfl) <;> exact fun _ => ⟨rfl, rfl, rfl⟩

end LinuxPtp.Bmc
