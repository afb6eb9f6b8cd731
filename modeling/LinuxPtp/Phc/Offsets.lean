import LinuxPtp.Phc.Readings

/-!
# The quickest reading

The samples are kept in the order of their intervals, a new one before those it is level
with, so that the first is the latest of the quickest.  `psysReadPhc` keeps the earliest
of the quickest.  Both tell the same delay, and where one reading is quickest the same
offset, unless the sum of the two readings of the system clock overflows.
-/

namespace LinuxPtp.Phc

open LinuxPtp.Filter (FitsInt64 entries entries_succ entries_update length_entries)

/-! ## Insertion into a sorted list -/

section Insertion

variable {α : Type*} (r : α → α → Prop) [DecidableRel r]

theorem orderedInsert_last {a : α} {l : List α} (hlast : ∀ b ∈ l, ¬r a b) :
    l.orderedInsert r a = l ++ [a] := by
  induction l with
  | nil => rfl
  | cons b l ih =>
    obtain ⟨hb, hl⟩ := List.forall_mem_cons.mp hlast
    rw [List.orderedInsert_of_not_le r l hb, ih hl, List.cons_append]

theorem orderedInsert_concat {a b : α} (hle : r a b) (l : List α) :
    (l ++ [b]).orderedInsert r a = l.orderedInsert r a ++ [b] := by
  induction l with
  | nil => rw [List.nil_append, List.orderedInsert_cons, if_pos hle]; rfl
  | cons c l ih =>
    by_cases hc : r a c
    · rw [List.cons_append, List.orderedInsert_cons, if_pos hc, List.orderedInsert_cons,
        if_pos hc]
      rfl
    · rw [List.cons_append, List.orderedInsert_of_not_le r _ hc, ih,
        List.orderedInsert_of_not_le r _ hc, List.cons_append]

/-- The first of a sorted list is the one that is before all others, and before those it
is level with. -/
theorem head_insertionSort {before after : List α} {x : α}
    (hbefore : ∀ b ∈ before, ¬r b x) (hafter : ∀ a ∈ after, r x a) :
    ((before ++ x :: after).insertionSort r).head? = some x := by
  induction before with
  | nil =>
    rw [List.nil_append, List.insertionSort_cons]
    cases hsorted : after.insertionSort r with
    | nil => rfl
    | cons a rest =>
      have hmem : a ∈ after := by
        rw [← List.mem_insertionSort r, hsorted]
        exact List.mem_cons_self ..
      rw [List.orderedInsert_cons, if_pos (hafter a hmem)]
      rfl
  | cons b before ih =>
    obtain ⟨hb, hrest⟩ := List.forall_mem_cons.mp hbefore
    rw [List.cons_append, List.insertionSort_cons]
    cases hsorted : (before ++ x :: after).insertionSort r with
    | nil => rw [hsorted] at ih; exact absurd (ih hrest) (by simp)
    | cons c rest =>
      have hc := ih hrest
      rw [hsorted, List.head?_cons, Option.some_inj] at hc
      subst hc
      rw [List.orderedInsert_of_not_le r _ hb]
      rfl

end Insertion

/-! ## The sorted samples -/

/-- The order the samples are kept in. -/
def Quicker (a b : Sample) : Prop := a.interval.toInt ≤ b.interval.toInt

instance : DecidableRel Quicker := fun _ _ => inferInstanceAs (Decidable (_ ≤ _))

instance : Std.Total Quicker := ⟨fun _ _ => le_total _ _⟩
instance : IsTrans Sample Quicker := ⟨fun _ _ _ => le_trans⟩

theorem insertionSort_above (sample : Sample) (samples : ℕ → Sample) {i j : ℕ}
    (hj : i < j) : insertionSort sample i samples j = samples j := by
  induction i generalizing samples with
  | zero => exact Function.update_of_ne hj.ne' _ _
  | succ i ih =>
    rw [insertionSort]
    split
    · exact Function.update_of_ne hj.ne' _ _
    · rw [ih _ (by omega), Function.update_of_ne (by omega)]

/-- The loop puts the sample into its place. -/
theorem entries_insertionSort {sample : Sample} {i : ℕ} {samples : ℕ → Sample}
    (hsorted : (entries samples i).Pairwise Quicker) :
    entries (insertionSort sample i samples) (i + 1) =
      (entries samples i).orderedInsert Quicker sample := by
  induction i generalizing samples with
  | zero => simp [insertionSort, entries]
  | succ i ih =>
    have hcells : entries samples (i + 1) = entries samples i ++ [samples i] :=
      entries_succ _ _
    rw [hcells] at hsorted ⊢
    obtain ⟨hfirst, -, hlast⟩ := List.pairwise_append.mp hsorted
    rw [insertionSort]
    split
    case isTrue hlt =>
      rw [Int64.lt_iff_toInt_lt] at hlt
      have hbelow : ∀ other ∈ entries samples i ++ [samples i],
          ¬Quicker sample other := by
        intro other hother
        rcases List.mem_append.mp hother with hother | hother
        · have := hlast other hother _ (List.mem_singleton_self _)
          unfold Quicker at this ⊢
          omega
        · rw [List.mem_singleton.mp hother, Quicker]
          omega
      rw [entries_succ _ (i + 1), entries_update _ le_rfl, Function.update_self, hcells,
        orderedInsert_last Quicker hbelow]
    case isFalse hge =>
      rw [Int64.lt_iff_toInt_lt, not_lt] at hge
      have hsame : entries (Function.update samples (i + 1) (samples i)) i =
          entries samples i := entries_update _ (Nat.le_succ i) _
      rw [entries_succ _ (i + 1), insertionSort_above _ _ (Nat.lt_succ_self i),
        Function.update_self, ih (by rwa [hsame]), hsame,
        orderedInsert_concat Quicker hge]

variable (pct : ℕ → ClockTime) (samples : ℕ → Sample)

def latestFirst (n : ℕ) : List Sample :=
  ((List.range n).map fun i => sampleOf (readingAt pct i)).reverse

theorem latestFirst_succ (n : ℕ) :
    latestFirst pct (n + 1) = sampleOf (readingAt pct n) :: latestFirst pct n := by
  simp [latestFirst, List.range_succ]

theorem entries_sysoffSamples (n : ℕ) :
    entries (sysoffSamples pct samples n) n =
      (latestFirst pct n).insertionSort Quicker := by
  induction n with
  | zero => rfl
  | succ n ih =>
    rw [sysoffSamples, entries_insertionSort, ih, latestFirst_succ,
      List.insertionSort_cons]
    rw [ih]
    exact List.pairwise_insertionSort Quicker _

/-- No entry behind the readings is written. -/
theorem sysoffSamples_above {n i : ℕ} (hi : n ≤ i) :
    sysoffSamples pct samples n i = samples i := by
  induction n with
  | zero => rfl
  | succ n ih => rw [sysoffSamples, insertionSort_above _ _ (by omega), ih (by omega)]

/-! ## The arithmetic of a reading -/

section Arithmetic

variable {r : Reading}

theorem readInterval_eq (r : Reading) : readInterval r = (sampleOf r).interval := by
  simp only [readInterval, sampleOf, pctns]
  grind

theorem interval_toInt (hordered : r.Ordered) :
    (sampleOf r).interval.toInt = r.duration := by
  obtain ⟨hzero, hle⟩ := hordered
  have hbound := (pctns r.after).toInt_lt
  simp only [Reading.t1, Reading.t2] at hzero hle
  simp only [sampleOf, Int64.toInt_sub, Reading.duration, Reading.t1, Reading.t2]
  exact Int.bmod_eq_of_le (by omega) (by omega)

/-- Half of a sum that may have wrapped. -/
theorem half_bmod {t1 t2 : ℤ} (hzero : 0 ≤ t1) (hle : t1 ≤ t2) (hbound : t2 < 2 ^ 63) :
    (((t2 + t1).bmod (2 ^ 64)).tdiv 2).bmod (2 ^ 64) =
      if t1 + t2 < 2 ^ 63 then (t1 + t2) / 2 else (t1 + t2 + 1) / 2 - 2 ^ 63 := by
  split
  case isTrue hsum =>
    rw [@Int.bmod_eq_of_le (t2 + t1) _ (by omega) (by omega),
      Int.tdiv_eq_ediv_of_nonneg (by omega), Int.bmod_eq_of_le (by omega) (by omega),
      add_comm]
  case isFalse hsum =>
    have hwrap : (t2 + t1).bmod (2 ^ 64) = -(2 ^ 64 - t1 - t2) := by
      rw [Int.bmod_def]
      omega
    rw [hwrap, Int.neg_tdiv, Int.tdiv_eq_ediv_of_nonneg (by omega),
      Int.bmod_eq_of_le (by omega) (by omega)]
    omega

/-- Half of the sum of the readings of the system clock, in 64 bits. -/
theorem half_sum_toInt (hordered : r.Ordered) :
    ((pctns r.after + pctns r.before) / 2).toInt =
      if r.t1 + r.t2 < 2 ^ 63 then (r.t1 + r.t2) / 2
      else (r.t1 + r.t2 + 1) / 2 - 2 ^ 63 := by
  rw [Int64.toInt_div, Int64.toInt_add]
  exact half_bmod hordered.1 hordered.2 (pctns r.after).toInt_lt

/-- The offset of a sample is that of the reading unless the sum, or the offset itself,
is too large for 64 bits. -/
theorem offset_toInt_iff (hordered : r.Ordered) :
    (sampleOf r).offset.toInt = r.midpointOffset ↔
      r.t1 + r.t2 < 2 ^ 63 ∧ FitsInt64 r.midpointOffset := by
  have hhalf := half_sum_toInt hordered
  have hzero := hordered.1
  have hle := hordered.2
  have hbound : r.t2 < 2 ^ 63 := (pctns r.after).toInt_lt
  simp only [sampleOf, Int64.toInt_sub, Reading.midpointOffset, FitsInt64, hhalf]
  rw [show (pctns r.clock).toInt = r.tp from rfl, Int.bmod_def]
  split <;> omega

/-- The two formulas agree where the sum does not overflow. -/
theorem readOnce_offset (hordered : r.Ordered) (hsum : r.t1 + r.t2 < 2 ^ 63) :
    (r.before.sec - r.clock.sec) * 1000000000 + r.before.nsec64 - r.clock.nsec64 +
      readInterval r / 2 = (sampleOf r).offset := by
  have hmid : (pctns r.after + pctns r.before) / 2 =
      pctns r.before + (sampleOf r).interval / 2 := by
    have hhalf := half_sum_toInt hordered
    rw [if_pos hsum] at hhalf
    have hinterval := interval_toInt hordered
    have hzero := hordered.1
    have hle := hordered.2
    have hbound : r.t2 < 2 ^ 63 := (pctns r.after).toInt_lt
    unfold Reading.duration at hinterval
    have hhalfInterval : ((sampleOf r).interval / 2).toInt = (r.t2 - r.t1) / 2 := by
      rw [Int64.toInt_div, hinterval, show (2 : Int64).toInt = 2 from rfl,
        Int.tdiv_eq_ediv_of_nonneg (by omega), Int.bmod_eq_of_le (by omega) (by omega)]
    rw [← Int64.toInt_inj, hhalf, Int64.toInt_add, hhalfInterval,
      show (pctns r.before).toInt = r.t1 from rfl,
      Int.bmod_eq_of_le (by omega) (by omega)]
    omega
  rw [readInterval_eq, show (sampleOf r).offset =
    (pctns r.after + pctns r.before) / 2 - pctns r.clock from rfl, hmid]
  simp only [pctns]
  grind

end Arithmetic

/-! ## The reading chosen by `sysoff_estimate` -/

structure LatestQuickest (n k : ℕ) : Prop where
  taken : k < n
  quickest : ∀ i < n, (readingAt pct k).duration ≤ (readingAt pct i).duration
  latest : ∀ i < n, k < i → (readingAt pct k).duration < (readingAt pct i).duration

theorem exists_latestQuickest {n : ℕ} (hsome : 0 < n) : ∃ k, LatestQuickest pct n k := by
  induction n with
  | zero => exact absurd hsome (lt_irrefl 0)
  | succ n ih =>
    rcases Nat.eq_zero_or_pos n with rfl | hpos
    · refine ⟨0, Nat.zero_lt_one, fun i hi => ?_, fun i hi hlt => ?_⟩
      · rw [Nat.lt_one_iff.mp hi]
      · omega
    · obtain ⟨k, hk⟩ := ih hpos
      rcases lt_or_ge (readingAt pct k).duration (readingAt pct n).duration with hlt | hge
      · refine ⟨k, Nat.lt_succ_of_lt hk.taken, fun i hi => ?_, fun i hi hki => ?_⟩
        · rcases Nat.lt_succ_iff_lt_or_eq.mp hi with hi | rfl
          · exact hk.quickest i hi
          · exact hlt.le
        · rcases Nat.lt_succ_iff_lt_or_eq.mp hi with hi | rfl
          · exact hk.latest i hi hki
          · exact hlt
      · refine ⟨n, Nat.lt_succ_self n, fun i hi => ?_, fun i hi hni => ?_⟩
        · rcases Nat.lt_succ_iff_lt_or_eq.mp hi with hi | rfl
          · exact hge.trans (hk.quickest i hi)
          · exact le_rfl
        · omega

theorem LatestQuickest.unique {n k k' : ℕ} (hk : LatestQuickest pct n k)
    (hk' : LatestQuickest pct n k') : k = k' := by
  rcases Nat.lt_trichotomy k k' with hlt | heq | hgt
  · have := hk.latest k' hk'.taken hlt
    have := hk'.quickest k hk.taken
    omega
  · exact heq
  · have := hk'.latest k hk.taken hgt
    have := hk.quickest k' hk'.taken
    omega

/-- Where a reading stands among all. -/
theorem latestFirst_split (k m : ℕ) :
    latestFirst pct (k + (m + 1)) =
      ((List.range m).map fun i => sampleOf (readingAt pct (k + (i + 1)))).reverse ++
        sampleOf (readingAt pct k) :: latestFirst pct k := by
  simp [latestFirst, List.range_add, List.range_succ_eq_map, Function.comp_def]

variable {pct} in
/-- The first sample is the latest of the quickest. -/
theorem LatestQuickest.sysoffSamples_zero {n k : ℕ} (hk : LatestQuickest pct n k)
    (hordered : ∀ i < n, (readingAt pct i).Ordered) :
    sysoffSamples pct samples n 0 = sampleOf (readingAt pct k) := by
  obtain ⟨m, rfl⟩ : ∃ m, n = k + (m + 1) := ⟨n - k - 1, by have := hk.taken; omega⟩
  have hinterval : ∀ i < k + (m + 1), (sampleOf (readingAt pct i)).interval.toInt =
      (readingAt pct i).duration := fun i hi => interval_toInt (hordered i hi)
  have hhead : (entries (sysoffSamples pct samples (k + (m + 1))) (k + (m + 1))).head? =
      some (sampleOf (readingAt pct k)) := by
    rw [entries_sysoffSamples, latestFirst_split]
    refine head_insertionSort Quicker ?_ ?_
    · simp only [List.mem_reverse, List.mem_map, List.mem_range, forall_exists_index,
        and_imp, forall_apply_eq_imp_iff₂, Quicker]
      intro i hi
      have := hk.latest (k + (i + 1)) (by omega) (by omega)
      rw [hinterval _ (by omega), hinterval _ (by omega)]
      omega
    · simp only [latestFirst, List.mem_reverse, List.mem_map, List.mem_range,
        forall_exists_index, and_imp, forall_apply_eq_imp_iff₂, Quicker]
      intro i hi
      have := hk.quickest i (by omega)
      rw [hinterval _ (by omega), hinterval _ (by omega)]
      omega
  rw [entries, ← Nat.add_assoc, List.range_succ_eq_map, List.map_cons, List.head?_cons]
    at hhead
  exact Option.some.inj hhead

/-! ## The reading chosen by `psysReadPhc` -/

def estimateOf (r : Reading) : Estimate where
  offset := (r.before.sec - r.clock.sec) * 1000000000 + r.before.nsec64 -
    r.clock.nsec64 + readInterval r / 2
  ts := (r.after.sec * 1000000000 + r.after.nsec64).toUInt64
  delay := readInterval r

theorem readOnce_eq (best : Estimate) (r : Reading) :
    readOnce best r = if readInterval r < best.delay then estimateOf r else best := rfl

theorem readLoop_some (readings : List Reading) (best : Estimate) :
    readLoop (readings.map some) best =
      (some (readings.foldl readOnce best), readings.foldl readOnce best) := by
  induction readings generalizing best with
  | nil => rfl
  | cons r readings ih => exact ih (readOnce best r)

theorem psysReadPhc_some (readings : List Reading) (out : Estimate) :
    psysReadPhc (readings.map some) out =
      (1, readings.foldl readOnce { out with delay := int64Max }) := by
  rw [psysReadPhc, readLoop_some]

/-- The loop ends with the shortest interval, and with what it began with or with a
reading. -/
theorem foldl_readOnce (readings : List Reading) (best : Estimate) :
    (∀ r ∈ readings,
        (readings.foldl readOnce best).delay.toInt ≤ (readInterval r).toInt) ∧
      (readings.foldl readOnce best).delay.toInt ≤ best.delay.toInt ∧
      (readings.foldl readOnce best = best ∨
        ∃ r ∈ readings, readings.foldl readOnce best = estimateOf r) := by
  induction readings generalizing best with
  | nil => exact ⟨by simp, le_rfl, .inl rfl⟩
  | cons r readings ih =>
    rw [List.foldl_cons]
    obtain ⟨hall, hbest, hfrom⟩ := ih (readOnce best r)
    rw [readOnce_eq] at hall hbest hfrom ⊢
    split at hbest
    case isTrue hlt =>
      rw [if_pos hlt] at hall hfrom ⊢
      rw [Int64.lt_iff_toInt_lt] at hlt
      refine ⟨List.forall_mem_cons.mpr ⟨hbest, hall⟩, hbest.trans hlt.le, .inr ?_⟩
      rcases hfrom with heq | ⟨r', hmem, heq⟩
      · exact ⟨r, List.mem_cons_self .., heq⟩
      · exact ⟨r', List.mem_cons_of_mem _ hmem, heq⟩
    case isFalse hge =>
      rw [if_neg hge] at hall hfrom ⊢
      rw [Int64.lt_iff_toInt_lt, not_lt] at hge
      refine ⟨List.forall_mem_cons.mpr ⟨hbest.trans hge, hall⟩, hbest, ?_⟩
      exact hfrom.imp_right fun ⟨r', hmem, heq⟩ => ⟨r', List.mem_cons_of_mem _ hmem, heq⟩

/-! ## The two measurements -/

def readings (n : ℕ) : List Reading :=
  (List.range n).map (readingAt pct)

def OnlyQuickest (n k : ℕ) : Prop :=
  k < n ∧ ∀ i < n, i ≠ k → (readingAt pct k).duration < (readingAt pct i).duration

/-- What is expected of the two functions on the same readings. -/
structure Agrees (n : ℕ) : Prop where
  perm : (entries (sysoffEstimate pct n samples).2 n).Perm
    ((readings pct n).map sampleOf)
  sorted : (entries (sysoffEstimate pct n samples).2 n).Pairwise Quicker
  kept : ∀ i, ptpMaxSamples ≤ i → (sysoffEstimate pct n samples).2 i = samples i
  latest : ∀ k, LatestQuickest pct n k →
    (sysoffEstimate pct n samples).1.delay.toInt = (readingAt pct k).duration ∧
      (sysoffEstimate pct n samples).1.offset.toInt = (readingAt pct k).midpointOffset
  read : ∀ out, (psysReadPhc ((readings pct n).map some) out).1 = 1 ∧
    (psysReadPhc ((readings pct n).map some) out).2.delay =
      (sysoffEstimate pct n samples).1.delay
  same : ∀ out k, OnlyQuickest pct n k →
    (psysReadPhc ((readings pct n).map some) out).2.offset =
      (sysoffEstimate pct n samples).1.offset

/-- The reading can be turned into an offset with 64 bits. -/
structure Measurable (r : Reading) : Prop where
  sum_lt : r.t1 + r.t2 < 2 ^ 63
  offset_fits : FitsInt64 r.midpointOffset
  duration_lt : r.duration < 2 ^ 63 - 1

variable {pct} {n k : ℕ}

theorem OnlyQuickest.latestQuickest (honly : OnlyQuickest pct n k) :
    LatestQuickest pct n k where
  taken := honly.1
  quickest := fun i hi => by
    rcases eq_or_ne i k with rfl | hne
    · exact le_rfl
    · exact (honly.2 i hi hne).le
  latest := fun i hi hlt => honly.2 i hi hlt.ne'

theorem readInterval_toInt {r : Reading} (hordered : r.Ordered) :
    (readInterval r).toInt = r.duration := by
  rw [readInterval_eq, interval_toInt hordered]

theorem mem_readings {r : Reading} :
    r ∈ readings pct n ↔ ∃ i < n, readingAt pct i = r := by
  simp [readings]

/-- `psysReadPhc` finds the shortest interval. -/
theorem psysReadPhc_delay (hordered : ∀ i < n, (readingAt pct i).Ordered)
    (hk : LatestQuickest pct n k) (out : Estimate) :
    (psysReadPhc ((readings pct n).map some) out).2.delay =
      (sampleOf (readingAt pct k)).interval := by
  rw [psysReadPhc_some, ← Int64.toInt_inj, interval_toInt (hordered k hk.taken)]
  obtain ⟨hall, hmax, hfrom⟩ := foldl_readOnce (readings pct n)
    { out with delay := int64Max }
  have hle := hall _ (mem_readings.mpr ⟨k, hk.taken, rfl⟩)
  rw [readInterval_toInt (hordered k hk.taken)] at hle
  refine le_antisymm hle ?_
  rcases hfrom with heq | ⟨r, hmem, heq⟩
  · have hbound := (readInterval (readingAt pct k)).toInt_lt
    rw [readInterval_toInt (hordered k hk.taken)] at hbound
    rw [heq]
    change _ ≤ int64Max.toInt
    rw [show int64Max.toInt = 2 ^ 63 - 1 from rfl]
    omega
  · obtain ⟨i, hi, rfl⟩ := mem_readings.mp hmem
    rw [heq]
    change _ ≤ (readInterval (readingAt pct i)).toInt
    rw [readInterval_toInt (hordered i hi)]
    exact hk.quickest i hi

/-- `psysReadPhc` finds the only quickest reading. -/
theorem psysReadPhc_only (hordered : ∀ i < n, (readingAt pct i).Ordered)
    (honly : OnlyQuickest pct n k) (hshort : (readingAt pct k).duration < 2 ^ 63 - 1)
    (out : Estimate) :
    (psysReadPhc ((readings pct n).map some) out).2 = estimateOf (readingAt pct k) := by
  rw [psysReadPhc_some]
  obtain ⟨hall, -, hfrom⟩ := foldl_readOnce (readings pct n)
    { out with delay := int64Max }
  have hle := hall _ (mem_readings.mpr ⟨k, honly.1, rfl⟩)
  rw [readInterval_toInt (hordered k honly.1)] at hle
  rcases hfrom with heq | ⟨r, hmem, heq⟩
  · rw [heq, show int64Max.toInt = 2 ^ 63 - 1 from rfl] at hle
    omega
  · obtain ⟨i, hi, rfl⟩ := mem_readings.mp hmem
    rcases eq_or_ne i k with rfl | hne
    · exact heq
    · rw [heq] at hle
      change (readInterval (readingAt pct i)).toInt ≤ _ at hle
      rw [readInterval_toInt (hordered i hi)] at hle
      have := honly.2 i hi hne
      omega

/-- A reading that takes all the time there is is the only one. -/
theorem eq_one_of_endless (hordered : ∀ i < n, (readingAt pct i).Ordered)
    (hk : LatestQuickest pct n k)
    (hendless : 2 ^ 63 - 1 ≤ (readingAt pct k).duration) : n = 1 := by
  by_contra hnot
  have hmany : 1 < n := by have := hk.taken; omega
  have hwhole : ∀ i < n, (readingAt pct i).t1 = 0 ∧ (readingAt pct i).t2 = 2 ^ 63 - 1 := by
    intro i hi
    have hzero := (hordered i hi).1
    have hlong := hk.quickest i hi
    have hbound : (readingAt pct i).t2 < 2 ^ 63 := (pctns _).toInt_lt
    unfold Reading.duration at hlong hendless
    omega
  have hnext : (readingAt pct 1).t1 = (readingAt pct 0).t2 := rfl
  have := (hwhole 0 (by omega)).2
  have := (hwhole 1 hmany).1
  omega

/-- On the same readings the kernel's measurement is the offset of the latest of the
quickest, and `psysReadPhc` tells the same delay, and the same offset where one is
quickest, if and only if the latest of the quickest can be measured. -/
theorem sysoffEstimate_agrees_iff (hsome : 0 < n) (hmax : n ≤ ptpMaxSamples)
    (hordered : ∀ i < n, (readingAt pct i).Ordered) :
    Agrees pct samples n ↔
      ∀ k, LatestQuickest pct n k → Measurable (readingAt pct k) := by
  obtain ⟨k, hk⟩ := exists_latestQuickest pct hsome
  have hsample := hk.sysoffSamples_zero samples hordered
  have hk_ordered := hordered k hk.taken
  have hoffset : (sysoffEstimate pct n samples).1.offset =
      (sampleOf (readingAt pct k)).offset := congrArg Sample.offset hsample
  have hdelay : (sysoffEstimate pct n samples).1.delay =
      (sampleOf (readingAt pct k)).interval := congrArg Sample.interval hsample
  constructor
  · intro hagrees k' hk'
    obtain rfl := hk'.unique pct hk
    obtain ⟨hsum, hfits⟩ := (offset_toInt_iff hk_ordered).mp
      (hoffset ▸ (hagrees.latest _ hk').2)
    refine ⟨hsum, hfits, lt_of_not_ge fun hendless => ?_⟩
    obtain rfl := eq_one_of_endless hordered hk' hendless
    obtain rfl := Nat.lt_one_iff.mp hk'.taken
    have hsame := hagrees.same
      ⟨(sysoffEstimate pct 1 samples).1.offset + 1, 0, 0⟩ 0
      ⟨Nat.zero_lt_one, fun i hi hne => absurd (Nat.lt_one_iff.mp hi) hne⟩
    have hnever : ¬readInterval (readingAt pct 0) < int64Max := by
      rw [Int64.lt_iff_toInt_lt, readInterval_toInt hk_ordered,
        show int64Max.toInt = 2 ^ 63 - 1 from rfl]
      omega
    rw [psysReadPhc_some, show readings pct 1 = [readingAt pct 0] from rfl,
      List.foldl_cons, List.foldl_nil, readOnce_eq, if_neg hnever] at hsame
    exact absurd hsame (by grind)
  · intro hmeasurable
    obtain ⟨hsum, hfits, hshort⟩ := hmeasurable k hk
    refine ⟨?_, ?_, ?_, ?_, ?_, ?_⟩
    · change (entries (sysoffSamples pct samples n) n).Perm _
      rw [entries_sysoffSamples]
      refine (List.perm_insertionSort _ _).trans ((List.reverse_perm _).trans ?_)
      rw [readings, List.map_map]
      exact .refl _
    · change (entries (sysoffSamples pct samples n) n).Pairwise _
      rw [entries_sysoffSamples]
      exact List.pairwise_insertionSort Quicker _
    · intro i hi
      exact sysoffSamples_above pct samples (hmax.trans hi)
    · intro k' hk'
      obtain rfl := hk'.unique pct hk
      rw [hoffset, hdelay]
      exact ⟨interval_toInt hk_ordered, (offset_toInt_iff hk_ordered).mpr ⟨hsum, hfits⟩⟩
    · intro out
      refine ⟨congrArg Prod.fst (psysReadPhc_some _ out), ?_⟩
      rw [psysReadPhc_delay hordered hk, hdelay]
    · intro out k' honly
      obtain rfl := honly.latestQuickest.unique pct hk
      rw [psysReadPhc_only hordered honly hshort, hoffset]
      exact readOnce_offset hk_ordered hsum

def quickSecond (i : ℕ) : ClockTime :=
  ⟨10, [100, 50, 250, 90, 300].getD i 0⟩

theorem sysoffEstimate_agrees_quickSecond : Agrees quickSecond (fun _ => ⟨0, 0, 0⟩) 2 := by
  refine (@sysoffEstimate_agrees_iff quickSecond (fun _ => ⟨0, 0, 0⟩) 2 (by decide)
    (by decide) ?_).mpr ?_
  · intro i hi
    interval_cases i <;> exact ⟨by decide, by decide⟩
  · intro k hk
    have hlt := hk.taken
    interval_cases k <;> exact ⟨by decide, by decide, by decide⟩

/-- A reading in a year in which the sum of two times is too large for 64 bits. -/
def lateReading (_ : ℕ) : ClockTime := ⟨4611686018, 427387904⟩

theorem lateReading_not_agrees : ¬Agrees lateReading (fun _ => ⟨0, 0, 0⟩) 1 := by
  intro hagrees
  have honly : LatestQuickest lateReading 1 0 :=
    ⟨Nat.zero_lt_one, fun _ _ => le_rfl, fun i hi hlt => by omega⟩
  exact absurd (hagrees.latest 0 honly).2 (by decide)

end LinuxPtp.Phc
