import LinuxPtp.Bmc.Election

/-!
# What the election leaves of the records

The election prunes the records, gives them the dataset of their newest message
and clears those that lose, but it neither adds nor drops a record.
-/

namespace LinuxPtp.Bmc

open ByteOrder Ranking Wire

variable {host : BmcHost} {compare : Option Dataset → Option Dataset → ℤ}

/-- The record after the election: pruned, or cleared, at the same address. -/
structure Examines (p : BmcPort) (fc fc' : ForeignClock) : Prop where
  address : fc'.address = fc.address
  port : fc'.port = fc.port
  messages : fc'.messages <+: fc.messages
  dataset : fc'.dataset = fc.dataset ∨
    ∃ newest ∈ fc.messages.head?, fc'.dataset = announceToDataset newest p

theorem Examines.refl (p : BmcPort) (fc : ForeignClock) : Examines p fc fc :=
  ⟨rfl, rfl, List.prefix_rfl, Or.inl rfl⟩

/-- A record that is chosen has two messages, and the dataset of the newest. -/
structure Qualifies (p : BmcPort) (fc : ForeignClock) : Prop where
  messages : foreignMasterThreshold ≤ fc.messages.length
  dataset : ∃ newest ∈ fc.messages.head?,
    fc.dataset = announceToDataset newest p

theorem fcPrune_begins (now : Timespec) (messages : List Announce) :
    fcPrune host now messages <+: messages := by
  have htake := List.take_prefix foreignMasterThreshold messages
  refine List.IsPrefix.trans ?_ htake
  exact List.rdropWhile_prefix ..

theorem head?_of_begins {kept messages : List Announce} (hkept : kept <+: messages)
    (hnonempty : kept ≠ []) : kept.head? = messages.head? := by
  obtain ⟨rest, rfl⟩ := hkept
  rw [List.head?_append_of_ne_nil _ hnonempty]

/-- What the examination of one record adds. -/
theorem examine_adds (p : BmcPort) (e : Examined) (fc : ForeignClock) :
    ∃ fc', (examine host compare p e fc).records = e.records ++ [fc'] ∧
      Examines p fc fc' ∧
      ((examine host compare p e fc).best = e.best ∨
        (examine host compare p e fc).best = some fc' ∧ Qualifies p fc') := by
  cases hmessages : fc.messages with
  | nil =>
    refine ⟨fc, ?_, ⟨rfl, rfl, List.prefix_rfl, Or.inl rfl⟩, Or.inl ?_⟩ <;>
      simp only [examine, hmessages]
  | cons newest older =>
    have hprune := @fcPrune_begins host (host.monotonic e.readings) fc.messages
    have hexamines : ∀ messages, messages <+: fc.messages →
        Examines p fc { fc with
          messages := messages, dataset := announceToDataset newest p } :=
      fun messages hbegins =>
        ⟨rfl, rfl, hbegins, Or.inr ⟨newest, by simp [hmessages], rfl⟩⟩
    simp only [examine, hmessages]
    rw [hmessages] at hprune hexamines
    split_ifs with hfew hbeats
    · exact ⟨_, rfl, hexamines _ hprune, Or.inl rfl⟩
    · refine ⟨_, rfl, hexamines _ hprune, Or.inr ⟨rfl, not_lt.mp hfew, ?_⟩⟩
      have hnonempty : fcPrune host (host.monotonic e.readings)
          (newest :: older) ≠ [] := by
        rintro hnil
        rw [hnil] at hfew
        simp [foreignMasterThreshold] at hfew
      exact ⟨newest, by rw [head?_of_begins hprune hnonempty]; rfl, rfl⟩
    · exact ⟨_, rfl, hexamines _ List.nil_prefix, Or.inl rfl⟩

/-- The examined records answer to the given ones, and the best is among them. -/
theorem foldl_examine_records (p : BmcPort) (records : List ForeignClock)
    (e : Examined) {seen : List ForeignClock}
    (hseen : List.Forall₂ (Examines p) seen e.records)
    (hbest : ∀ fc ∈ e.best, fc ∈ e.records ∧ Qualifies p fc) :
    List.Forall₂ (Examines p) (seen ++ records)
        (records.foldl (examine host compare p) e).records ∧
      ∀ fc ∈ (records.foldl (examine host compare p) e).best,
        fc ∈ (records.foldl (examine host compare p) e).records ∧
          Qualifies p fc := by
  induction records generalizing seen e with
  | nil => simpa using ⟨hseen, hbest⟩
  | cons fc records ih =>
    obtain ⟨fc', hrecords, hexamines, hchosen⟩ :=
      @examine_adds host compare p e fc
    rw [List.foldl_cons, ← List.singleton_append, ← List.append_assoc]
    refine ih _ ?_ ?_
    · rw [hrecords]
      exact List.rel_append hseen (.cons hexamines .nil)
    · intro best hmem
      rw [hrecords]
      rcases hchosen with hsame | ⟨hnew, hqualifies⟩
      · obtain ⟨hin, hqualifies⟩ := hbest best (hsame ▸ hmem)
        exact ⟨List.mem_append_left _ hin, hqualifies⟩
      · obtain rfl := Option.some.inj (hnew.symm.trans hmem)
        exact ⟨by simp, hqualifies⟩

theorem portComputeBest_records (readings : ℕ) (p : BmcPort) :
    List.Forall₂ (Examines p) p.foreignMasters
        (portComputeBest host compare readings p).records ∧
      ∀ fc ∈ (portComputeBest host compare readings p).best,
        fc ∈ (portComputeBest host compare readings p).records ∧
          Qualifies p fc := by
  rw [portComputeBest]
  split
  · exact ⟨List.forall₂_same.mpr fun fc _ => .refl p fc, by simp⟩
  · exact foldl_examine_records p p.foreignMasters ⟨[], none, [], readings⟩
      .nil (by simp)

/-- Every record after the election comes from one before it. -/
theorem exists_of_examines {p : BmcPort} {records records' : List ForeignClock}
    (hrecords : List.Forall₂ (Examines p) records records') {fc' : ForeignClock}
    (hmem : fc' ∈ records') : ∃ fc ∈ records, Examines p fc fc' := by
  induction hrecords with
  | nil => simp at hmem
  | cons hfirst _ ih =>
    rcases List.mem_cons.mp hmem with rfl | hmem
    · exact ⟨_, List.mem_cons_self, hfirst⟩
    · obtain ⟨fc, hfc, hexamines⟩ := ih hmem
      exact ⟨fc, List.mem_cons_of_mem _ hfc, hexamines⟩

/-- What the election keeps of each record, it keeps of the list. -/
theorem map_of_examines {β : Type} (g : ForeignClock → β) {p : BmcPort}
    {records records' : List ForeignClock}
    (hrecords : List.Forall₂ (Examines p) records records')
    (hg : ∀ fc ∈ records, ∀ fc', Examines p fc fc' → g fc' = g fc) :
    records'.map g = records.map g := by
  induction hrecords with
  | nil => rfl
  | cons hfirst _ ih =>
    rw [List.map_cons, List.map_cons, hg _ List.mem_cons_self _ hfirst,
      ih fun fc hfc => hg fc (List.mem_cons_of_mem _ hfc)]

theorem portComputeBest_readings_le (readings : ℕ) (p : BmcPort) :
    readings ≤ (portComputeBest host compare readings p).readings := by
  have hfold : ∀ (records : List ForeignClock) (e : Examined),
      e.readings ≤ (records.foldl (examine host compare p) e).readings := by
    intro records
    induction records with
    | nil => exact fun e => le_rfl
    | cons fc records ih =>
      intro e
      refine le_trans ?_ (ih _)
      rw [examine_readings]
      split <;> omega
  rw [portComputeBest]
  split
  · exact le_rfl
  · exact hfold _ ⟨[], none, [], readings⟩

end LinuxPtp.Bmc
