import LinuxPtp.Filter.Average
import LinuxPtp.Filter.Median

/-!
# Time stamp processing

Four time stamps of a Sync and a Delay_Req, or of a peer delay measurement, become a path
delay and an offset.  The delay may be taken as measured or from a filter, which keeps its
samples over a reset of the time stamps alone.
-/

namespace LinuxPtp.Filter

/-! ## Filters behind one interface -/

inductive FilterType
  | movingAverage
  | movingMedian
  deriving DecidableEq, Repr

/-- `struct PtpFilter` as `filter_create` makes it. -/
inductive DelayFilter
  | movingAverage (m : Mave)
  | movingMedian (m : Mmedian)

def filterCreate (type : FilterType) (length : Int32) : Option DelayFilter :=
  match type with
  | .movingAverage => some (.movingAverage (maveCreate length))
  | .movingMedian => (mmedianCreate length).map .movingMedian

def filterSample : DelayFilter → Int64 → Int64 × DelayFilter
  | .movingAverage m, sample =>
      let (value, m) := maveAccumulate m sample
      (value, .movingAverage m)
  | .movingMedian m, sample =>
      let (value, m) := mmedianSample m sample
      (value, .movingMedian m)

def filterReset : DelayFilter → DelayFilter
  | .movingAverage m => .movingAverage (maveReset m)
  | .movingMedian m => .movingMedian (mmedianReset m)

/-! ## The processor -/

inductive TsprocMode
  | filter
  | raw
  | filterWeight
  | rawWeight
  deriving DecidableEq, Repr

/-- `struct TimestampProcess`.  The rate ratio stands for the product with it; none where
it is 1.0. -/
structure TimestampProcess where
  mode : TsprocMode
  t1 : Int64
  t2 : Int64
  t3 : Int64
  t4 : Int64
  clockRateRatio : Option (Int64 → Int64)
  filteredDelay : Int64
  filteredDelayValid : Bool
  delayFilter : DelayFilter

/-- The weight of an offset: one, or the quotient of the two delays where it is less. -/
inductive Weight
  | one
  | quotient (filteredDelay rawDelay : Int64)
  deriving DecidableEq, Repr

def isWeighting : TsprocMode → Bool
  | .filter | .raw => false
  | .filterWeight | .rawWeight => true

def tsprocCreate (mode : TsprocMode) (delayFilter : FilterType) (filterLength : Int32) :
    Option TimestampProcess :=
  (filterCreate delayFilter filterLength).map fun delayFilter =>
    ⟨mode, 0, 0, 0, 0, none, 0, false, delayFilter⟩

def tsprocDownTs (remoteTs localTs : Int64) (tsp : TimestampProcess) : TimestampProcess :=
  { tsp with t1 := remoteTs, t2 := localTs }

def tsprocUpTs (localTs remoteTs : Int64) (tsp : TimestampProcess) : TimestampProcess :=
  { tsp with t3 := localTs, t4 := remoteTs }

def getRawDelay (tsp : TimestampProcess) : Int64 :=
  let t23 := tsp.t2 - tsp.t3
  let t23 :=
    match tsp.clockRateRatio with
    | none => t23
    | some scale => scale t23
  let t41 := tsp.t4 - tsp.t1
  tmvDiv (t23 + t41) 2

/-- `tsproc_update_delay`: what it returns, and what is behind its pointer where that is
not null. -/
def tsprocUpdateDelay (tsp : TimestampProcess) (delay : Option Int64) :
    ℤ × Option Int64 × TimestampProcess :=
  if tsp.t2 = 0 ∨ tsp.t3 = 0 then (-1, delay, tsp)
  else
    let rawDelay := getRawDelay tsp
    let (filteredDelay, delayFilter) := filterSample tsp.delayFilter rawDelay
    let reported :=
      match tsp.mode with
      | .filter | .filterWeight => filteredDelay
      | .raw | .rawWeight => rawDelay
    (0, delay.map fun _ => reported,
      { tsp with
        filteredDelay := filteredDelay
        filteredDelayValid := true
        delayFilter := delayFilter })

/-- `delay` and `raw_delay` of `tsproc_update_offset`; none where one is missing. -/
def chosenDelays (tsp : TimestampProcess) : Option (Int64 × Int64) :=
  match tsp.mode with
  | .filter => if !tsp.filteredDelayValid then none else some (tsp.filteredDelay, 0)
  | .raw | .rawWeight =>
      if tsp.t3 = 0 then none else some (getRawDelay tsp, getRawDelay tsp)
  | .filterWeight =>
      if tsp.t3 = 0 ∨ !tsp.filteredDelayValid then none
      else some (tsp.filteredDelay, getRawDelay tsp)

/-- `tsproc_update_offset`: what it returns, and what is behind its pointers, the second
of which may be null.  The processor stays as it is. -/
def tsprocUpdateOffset (tsp : TimestampProcess) (offset : Int64) (weight : Option Weight) :
    ℤ × Int64 × Option Weight :=
  if tsp.t1 = 0 ∨ tsp.t2 = 0 then (-1, offset, weight)
  else
    match chosenDelays tsp with
    | none => (-1, offset, weight)
    | some (delay, rawDelay) =>
        (0, tsp.t2 - tsp.t1 - delay,
          weight.map fun _ =>
            if isWeighting tsp.mode ∧ 0 < tsp.filteredDelay ∧ 0 < rawDelay then
              .quotient tsp.filteredDelay rawDelay
            else .one)

def tsprocReset (tsp : TimestampProcess) (full : Bool) : TimestampProcess :=
  let tsp := { tsp with t1 := 0, t2 := 0, t3 := 0, t4 := 0 }
  if full then
    { tsp with
      clockRateRatio := none
      delayFilter := filterReset tsp.delayFilter
      filteredDelayValid := false }
  else tsp

inductive TsprocCall
  | downTs (remoteTs localTs : Int64)
  | upTs (localTs remoteTs : Int64)
  | updateDelay (delay : Option Int64)
  | updateOffset (offset : Int64) (weight : Option Weight)
  | reset (full : Bool)
  deriving DecidableEq, Repr

def TimestampProcess.call (tsp : TimestampProcess) : TsprocCall → TimestampProcess
  | .downTs remoteTs localTs => tsprocDownTs remoteTs localTs tsp
  | .upTs localTs remoteTs => tsprocUpTs localTs remoteTs tsp
  | .updateDelay delay => (tsprocUpdateDelay tsp delay).2.2
  | .updateOffset _ _ => tsp
  | .reset full => tsprocReset tsp full

def TimestampProcess.run (tsp : TimestampProcess) (calls : List TsprocCall) :
    TimestampProcess :=
  calls.foldl TimestampProcess.call tsp

/-! ## What an update needs -/

/-- What an update may miss: a time stamp, or the filtered delay. -/
inductive Datum
  | t1
  | t2
  | t3
  | filteredDelay
  deriving DecidableEq, Repr

/-- A time stamp of zero is missing, and so is a filtered delay that is not valid. -/
def TimestampProcess.Lacks (tsp : TimestampProcess) : Datum → Prop
  | .t1 => tsp.t1 = 0
  | .t2 => tsp.t2 = 0
  | .t3 => tsp.t3 = 0
  | .filteredDelay => tsp.filteredDelayValid = false

instance (tsp : TimestampProcess) : DecidablePred tsp.Lacks
  | .t1 | .t2 | .t3 => inferInstanceAs (Decidable (_ = _))
  | .filteredDelay => inferInstanceAs (Decidable (_ = _))

def TimestampProcess.Misses (tsp : TimestampProcess) (needs : List Datum) : Prop :=
  ∃ datum ∈ needs, tsp.Lacks datum

instance (tsp : TimestampProcess) (needs : List Datum) : Decidable (tsp.Misses needs) :=
  List.decidableBEx tsp.Lacks needs

def delayNeeds : List Datum := [.t2, .t3]

/-- The offset takes a delay off, which a raw mode measures and a filtering one has
filtered; its weight needs both. -/
def offsetNeeds : TsprocMode → List Datum
  | .filter => [.t1, .t2, .filteredDelay]
  | .raw | .rawWeight => [.t1, .t2, .t3]
  | .filterWeight => [.t1, .t2, .t3, .filteredDelay]

section

variable {tsp : TimestampProcess}

theorem misses_delayNeeds : tsp.Misses delayNeeds ↔ tsp.t2 = 0 ∨ tsp.t3 = 0 := by
  simp [TimestampProcess.Misses, delayNeeds, TimestampProcess.Lacks]

theorem misses_offsetNeeds : tsp.Misses (offsetNeeds tsp.mode) ↔
    (tsp.t1 = 0 ∨ tsp.t2 = 0) ∨ chosenDelays tsp = none := by
  cases hmode : tsp.mode <;>
    simp [TimestampProcess.Misses, offsetNeeds, TimestampProcess.Lacks, chosenDelays, hmode,
      or_assoc]
  -- both the time stamp and the filtered delay are looked at
  grind

theorem call_mode (call : TsprocCall) : (tsp.call call).mode = tsp.mode := by
  cases call with
  | downTs => rfl
  | upTs => rfl
  | updateDelay delay =>
    change (tsprocUpdateDelay tsp delay).2.2.mode = tsp.mode
    rw [tsprocUpdateDelay]
    split <;> rfl
  | updateOffset => rfl
  | reset full => cases full <;> rfl

/-- No call changes the mode. -/
theorem run_mode (calls : List TsprocCall) : (tsp.run calls).mode = tsp.mode := by
  induction calls generalizing tsp with
  | nil => rfl
  | cons call rest ih => exact ih.trans (call_mode call)

end

/-! ## A constant history -/

section

variable {d : Int64} {n len : ℕ}

theorem window_replicate : Ring.window len (List.replicate n d) =
    List.replicate (min n len) d := by
  rw [Ring.window, List.drop_replicate, List.length_replicate]
  congr 1
  omega

theorem windowSum_replicate :
    windowSum len (List.replicate n d) = (min n len : ℕ) * d.toInt := by
  rw [windowSum, window_replicate, List.map_replicate, List.sum_replicate, nsmul_eq_mul]

theorem truncatedMean_replicate {value : ℤ} (hpos : 0 < n) :
    truncatedMean (List.replicate n value) = value := by
  rw [truncatedMean, List.sum_replicate, List.length_replicate, nsmul_eq_mul,
    Int.mul_tdiv_cancel_left _ (by omega)]

theorem tmvDiv_double (hdouble : FitsInt64 (2 * d.toInt)) : tmvDiv (d + d) 2 = d := by
  rw [two_mul] at hdouble
  rw [← Int64.toInt_inj, toInt_tmvDiv _ (by decide), toInt_add hdouble, ← two_mul]
  exact Int.mul_tdiv_cancel_left _ (by decide)

/-- The mean of a constant is the constant. -/
theorem maveAccumulate_constant {m : Mave} (hhas : m.Has (List.replicate n d))
    (hint : m.len < 2 ^ 31) (hfits : FitsInt64 ((min (n + 1) m.len : ℕ) * d.toInt)) :
    (maveAccumulate m d).1 = d := by
  have hpos := hhas.len_pos
  have hhistory : List.replicate n d ++ [d] = List.replicate (n + 1) d :=
    List.replicate_succ'.symm
  have hmean := @Mave.Has.mean_eq m _ hhas hint d
    (by rwa [hhistory, windowSum_replicate])
  rw [hhistory, window_replicate, List.map_replicate,
    truncatedMean_replicate (by omega)] at hmean
  exact Int64.toInt_inj.mp hmean

/-- The median of a constant is the constant. -/
theorem mmedianSample_constant {m : Mmedian} (hhas : m.Has (List.replicate n d))
    (hdouble : FitsInt64 (2 * d.toInt)) : (mmedianSample m d).1 = d := by
  have hnext := mmedianSample_has hhas d
  rw [← List.replicate_succ'] at hnext
  have hpos := hnext.len_pos
  have hcnt := hnext.cnt_eq
  rw [List.length_replicate] at hcnt
  have hplace : ∀ i < (mmedianSample m d).2.cnt,
      (mmedianSample m d).2.samples ((mmedianSample m d).2.order i) = d := by
    intro i hi
    have hvalue := hnext.value_eq hi
    have hsorted : (List.replicate (min (n + 1) (mmedianSample m d).2.len)
        d.toInt).insertionSort (· ≤ ·) =
          List.replicate (min (n + 1) (mmedianSample m d).2.len) d.toInt :=
      List.perm_replicate.mp (List.perm_insertionSort _ _)
    rw [window_replicate, List.map_replicate, hsorted,
      List.getD_replicate _ (by omega)] at hvalue
    exact (Int64.toInt_inj.mp hvalue).symm
  change (mmedianSample m d).2.middle = d
  rw [Mmedian.middle]
  split
  · exact hplace _ (by omega)
  · rw [hplace _ (by omega), hplace _ (by omega), tmvDiv_double hdouble]

theorem fitsInt64_mul_of_le {k : ℕ} (hle : k ≤ n) (hfits : FitsInt64 (n * d.toInt)) :
    FitsInt64 (k * d.toInt) := by
  obtain ⟨hlow, hhigh⟩ := hfits
  have hcast : (k : ℤ) ≤ n := by exact_mod_cast hle
  rcases le_or_gt 0 d.toInt with hnonneg | hneg
  · have hproduct := mul_le_mul_of_nonneg_right hcast hnonneg
    have hpositive : 0 ≤ (k : ℤ) * d.toInt := by positivity
    exact ⟨by omega, by omega⟩
  · have hproduct := mul_le_mul_of_nonpos_right hcast hneg.le
    have hnonpos : (k : ℤ) * d.toInt ≤ 0 :=
      mul_nonpos_of_nonneg_of_nonpos (by positivity) hneg.le
    exact ⟨by omega, by omega⟩

end

/-! ## The path -/

/-- The measurements are those of a path with this delay both ways, to a clock with this
offset. -/
def Measures (d o : Int64) : TsprocCall → Prop
  | .downTs t1 t2 => t2 = t1 + d + o
  | .upTs t3 t4 => t4 = t3 + d - o
  | .updateDelay _ | .updateOffset _ _ | .reset _ => True

instance (d o : Int64) : (call : TsprocCall) → Decidable (Measures d o call)
  | .downTs _ _ | .upTs _ _ => inferInstanceAs (Decidable (_ = _))
  | .updateDelay _ | .updateOffset _ _ | .reset _ => inferInstanceAs (Decidable True)

/-- The filter is of this type and length and has this history. -/
def DelayFilter.Has (type : FilterType) (length : ℕ) (history : List Int64) :
    DelayFilter → Prop
  | .movingAverage m => type = .movingAverage ∧ m.len = length ∧ m.Has history
  | .movingMedian m => type = .movingMedian ∧ m.len = length ∧ m.Has history

/-- The sum that an average keeps of so many samples fits. -/
def SumFits (type : FilterType) (length n : ℕ) (d : Int64) : Prop :=
  type = .movingAverage → FitsInt64 ((min n length : ℕ) * d.toInt)

section

variable {d o : Int64} {type : FilterType} {length n : ℕ} {filter : DelayFilter}
variable {history : List Int64}

theorem filterCreate_has {filterLength : Int32} (hlength : 1 ≤ filterLength)
    (hcreate : filterCreate type filterLength = some filter) :
    filter.Has type filterLength.toInt.toNat [] := by
  cases type with
  | movingAverage =>
    obtain rfl := Option.some.inj hcreate
    exact ⟨rfl, rfl, maveCreate_has hlength⟩
  | movingMedian =>
    obtain ⟨m, hm, rfl⟩ := Option.map_eq_some_iff.mp hcreate
    obtain ⟨hhas, hlen⟩ := mmedianCreate_has hm
    exact ⟨rfl, hlen, hhas⟩

theorem filterReset_has (hhas : filter.Has type length history) :
    (filterReset filter).Has type length [] := by
  cases filter with
  | movingAverage m => exact ⟨hhas.1, hhas.2.1, maveReset_has hhas.2.2⟩
  | movingMedian m => exact ⟨hhas.1, hhas.2.1, mmedianReset_has hhas.2.2⟩

/-- One more sample of a constant is reported as it is and kept. -/
theorem filterSample_constant
    (hhas : filter.Has type length (List.replicate n d))
    (hint : length < 2 ^ 31) (hdouble : FitsInt64 (2 * d.toInt))
    (hsum : SumFits type length (n + 1) d) :
    (filterSample filter d).1 = d ∧
      (filterSample filter d).2.Has type length (List.replicate (n + 1) d) := by
  rw [List.replicate_succ']
  cases filter with
  | movingAverage m =>
    obtain ⟨rfl, rfl, hhas⟩ := hhas
    exact ⟨maveAccumulate_constant hhas hint (hsum rfl), rfl, rfl,
      maveAccumulate_has hhas d⟩
  | movingMedian m =>
    obtain ⟨rfl, rfl, hhas⟩ := hhas
    exact ⟨mmedianSample_constant hhas hdouble, rfl, rfl, mmedianSample_has hhas d⟩

end

/-! ## What the processor knows -/

/-- After at most so many samples of the delay: the pairs of time stamps are measurements
of the path, and the filtered delay, where it is valid, is the delay. -/
structure TimestampProcess.Exact (d o : Int64) (type : FilterType) (length n : ℕ)
    (tsp : TimestampProcess) : Prop where
  down : tsp.t2 ≠ 0 → tsp.t2 = tsp.t1 + d + o
  up : tsp.t3 ≠ 0 → tsp.t4 = tsp.t3 + d - o
  ratio : tsp.clockRateRatio = none
  history : ∃ samples ≤ n, tsp.delayFilter.Has type length (List.replicate samples d)
  filtered : tsp.filteredDelayValid = true → tsp.filteredDelay = d

section

variable {d o : Int64} {type : FilterType} {length n : ℕ} {tsp : TimestampProcess}

theorem TimestampProcess.Exact.rawDelay (hexact : tsp.Exact d o type length n)
    (hdouble : FitsInt64 (2 * d.toInt)) (hdown : tsp.t2 ≠ 0) (hup : tsp.t3 ≠ 0) :
    getRawDelay tsp = d := by
  rw [getRawDelay, hexact.ratio]
  simp only
  rw [hexact.down hdown, hexact.up hup,
    show tsp.t1 + d + o - tsp.t3 + (tsp.t3 + d - o - tsp.t1) = d + d by grind,
    tmvDiv_double hdouble]

theorem SumFits.mono {k : ℕ} (hsum : SumFits type length n d) (hle : k ≤ n) :
    SumFits type length k d :=
  fun htype => fitsInt64_mul_of_le (by omega) (hsum htype)

theorem TimestampProcess.Exact.later {m : ℕ} (hexact : tsp.Exact d o type length n)
    (hle : n ≤ m) : tsp.Exact d o type length m := by
  obtain ⟨samples, hsamples, hhas⟩ := hexact.history
  exact { hexact with history := ⟨samples, hsamples.trans hle, hhas⟩ }

/-- An update of the delay that misses nothing reports the delay. -/
theorem tsprocUpdateDelay_exact (hexact : tsp.Exact d o type length n)
    (hint : length < 2 ^ 31) (hdouble : FitsInt64 (2 * d.toInt))
    (hsum : SumFits type length (n + 1) d) (delay : Option Int64)
    (hmisses : ¬ tsp.Misses delayNeeds) :
    (tsprocUpdateDelay tsp delay).1 = 0 ∧
      (tsprocUpdateDelay tsp delay).2.1 = delay.map (fun _ => d) ∧
      (tsprocUpdateDelay tsp delay).2.2.Exact d o type length (n + 1) := by
  have hstamps : ¬ (tsp.t2 = 0 ∨ tsp.t3 = 0) := mt misses_delayNeeds.mpr hmisses
  obtain ⟨hdown, hup⟩ := not_or.mp hstamps
  obtain ⟨samples, hsamples, hhas⟩ := hexact.history
  have hraw := hexact.rawDelay hdouble hdown hup
  obtain ⟨hvalue, hhas'⟩ := filterSample_constant hhas hint hdouble
    (hsum.mono (Nat.succ_le_succ hsamples))
  rw [tsprocUpdateDelay, if_neg hstamps]
  refine ⟨rfl, ?_, hexact.down, hexact.up, hexact.ratio,
    ⟨samples + 1, Nat.succ_le_succ hsamples, ?_⟩, fun _ => ?_⟩
  · simp only [hraw, hvalue]
    cases tsp.mode <;> rfl
  · simpa only [hraw] using hhas'
  · simp only [hraw, hvalue]

/-- An update of the delay that misses a time stamp changes nothing. -/
theorem tsprocUpdateDelay_missing (hmisses : tsp.Misses delayNeeds) (delay : Option Int64) :
    tsprocUpdateDelay tsp delay = (-1, delay, tsp) := by
  rw [tsprocUpdateDelay, if_pos (misses_delayNeeds.mp hmisses)]

/-- In every mode the delay that is taken off is the delay of the path. -/
theorem TimestampProcess.Exact.chosenDelay (hexact : tsp.Exact d o type length n)
    (hdouble : FitsInt64 (2 * d.toInt)) (hdown : tsp.t2 ≠ 0) {delays : Int64 × Int64}
    (hchosen : chosenDelays tsp = some delays) : delays.1 = d := by
  cases hmode : tsp.mode with
  | filter =>
    simp only [chosenDelays, hmode, Option.ite_none_left_eq_some, Option.some.injEq]
      at hchosen
    obtain ⟨hvalid, rfl⟩ := hchosen
    exact hexact.filtered (by simpa using hvalid)
  | raw =>
    simp only [chosenDelays, hmode, Option.ite_none_left_eq_some, Option.some.injEq]
      at hchosen
    obtain ⟨hup, rfl⟩ := hchosen
    exact hexact.rawDelay hdouble hdown hup
  | rawWeight =>
    simp only [chosenDelays, hmode, Option.ite_none_left_eq_some, Option.some.injEq]
      at hchosen
    obtain ⟨hup, rfl⟩ := hchosen
    exact hexact.rawDelay hdouble hdown hup
  | filterWeight =>
    simp only [chosenDelays, hmode, Option.ite_none_left_eq_some, Option.some.injEq]
      at hchosen
    obtain ⟨hmissing, rfl⟩ := hchosen
    exact hexact.filtered (by simpa using (not_or.mp hmissing).2)

/-- An update of the offset that misses nothing reports the offset. -/
theorem tsprocUpdateOffset_exact (hexact : tsp.Exact d o type length n)
    (hdouble : FitsInt64 (2 * d.toInt)) (offset : Int64) (weight : Option Weight)
    (hmisses : ¬ tsp.Misses (offsetNeeds tsp.mode)) :
    (tsprocUpdateOffset tsp offset weight).1 = 0 ∧
      (tsprocUpdateOffset tsp offset weight).2.1 = o := by
  obtain ⟨hstamps, hchosen⟩ := not_or.mp (mt misses_offsetNeeds.mpr hmisses)
  obtain ⟨delays, hchosen⟩ := Option.ne_none_iff_exists'.mp hchosen
  have hdown := (not_or.mp hstamps).2
  have hdelay := hexact.chosenDelay hdouble hdown hchosen
  rw [tsprocUpdateOffset, if_neg hstamps, hchosen]
  refine ⟨rfl, ?_⟩
  simp only [hdelay, hexact.down hdown]
  grind

/-- An update of the offset that misses a time stamp or the filtered delay changes
nothing. -/
theorem tsprocUpdateOffset_missing (hmisses : tsp.Misses (offsetNeeds tsp.mode))
    (offset : Int64) (weight : Option Weight) :
    tsprocUpdateOffset tsp offset weight = (-1, offset, weight) := by
  rw [tsprocUpdateOffset]
  rcases misses_offsetNeeds.mp hmisses with hstamps | hchosen
  · rw [if_pos hstamps]
  · rw [hchosen, ite_self]

/-- A call keeps what the processor knows. -/
theorem call_exact {call : TsprocCall} (hmeasures : Measures d o call)
    (hexact : tsp.Exact d o type length n) (hint : length < 2 ^ 31)
    (hdouble : FitsInt64 (2 * d.toInt)) (hsum : SumFits type length (n + 1) d) :
    (tsp.call call).Exact d o type length (n + 1) := by
  have hlater := hexact.later (Nat.le_succ n)
  cases call with
  | downTs t1 t2 => exact { hlater with down := fun _ => hmeasures }
  | upTs t3 t4 => exact { hlater with up := fun _ => hmeasures }
  | updateDelay delay =>
    by_cases hmisses : tsp.Misses delayNeeds
    · rw [TimestampProcess.call, tsprocUpdateDelay_missing hmisses]
      exact hlater
    · exact (tsprocUpdateDelay_exact hexact hint hdouble hsum delay hmisses).2.2
  | updateOffset => exact hlater
  | reset full =>
    obtain ⟨samples, -, hhas⟩ := hexact.history
    cases full with
    | false =>
      exact { hlater with
        down := fun hdown => absurd rfl hdown
        up := fun hup => absurd rfl hup }
    | true =>
      exact ⟨fun hdown => absurd rfl hdown, fun hup => absurd rfl hup, rfl,
        ⟨0, Nat.zero_le _, filterReset_has hhas⟩,
        fun hvalid => absurd hvalid Bool.false_ne_true⟩

/-- After any calls whose measurements are those of the path. -/
theorem run_exact {calls : List TsprocCall}
    (hmeasures : ∀ call ∈ calls, Measures d o call)
    (hexact : tsp.Exact d o type length n) (hint : length < 2 ^ 31)
    (hdouble : FitsInt64 (2 * d.toInt))
    (hsum : SumFits type length (n + calls.length) d) :
    (tsp.run calls).Exact d o type length (n + calls.length) := by
  induction calls generalizing tsp n with
  | nil => exact hexact
  | cons call rest ih =>
    obtain ⟨hcall, hrest⟩ := List.forall_mem_cons.mp hmeasures
    have hlength : n + (call :: rest).length = n + 1 + rest.length := by
      rw [List.length_cons]
      omega
    rw [hlength] at hsum ⊢
    exact ih hrest
      (call_exact hcall hexact hint hdouble (hsum.mono (by omega))) hsum

/-- On a path with a constant delay both ways, to a clock with a constant offset, whatever
the mode, the filter and the calls before: an update returns minus one exactly where it
misses a time stamp or the filtered delay, and then changes nothing; it returns zero
otherwise, and then reports the delay or the offset exactly. -/
theorem tsproc_exact {mode : TsprocMode} {filterLength : Int32} {calls : List TsprocCall}
    (hlength : 1 ≤ filterLength)
    (hcreate : tsprocCreate mode type filterLength = some tsp)
    (hmeasures : ∀ call ∈ calls, Measures d o call)
    (hdouble : FitsInt64 (2 * d.toInt))
    (hsum : SumFits type filterLength.toInt.toNat (calls.length + 1) d)
    (delay : Option Int64) (offset : Int64) (weight : Option Weight) :
    (((tsprocUpdateDelay (tsp.run calls) delay).1 = -1 ↔
          (tsp.run calls).Misses delayNeeds) ∧
        ((tsp.run calls).Misses delayNeeds →
          tsprocUpdateDelay (tsp.run calls) delay = (-1, delay, tsp.run calls)) ∧
        (¬ (tsp.run calls).Misses delayNeeds →
          (tsprocUpdateDelay (tsp.run calls) delay).1 = 0 ∧
            (tsprocUpdateDelay (tsp.run calls) delay).2.1 = delay.map (fun _ => d))) ∧
      ((tsprocUpdateOffset (tsp.run calls) offset weight).1 = -1 ↔
          (tsp.run calls).Misses (offsetNeeds mode)) ∧
        ((tsp.run calls).Misses (offsetNeeds mode) →
          tsprocUpdateOffset (tsp.run calls) offset weight = (-1, offset, weight)) ∧
        (¬ (tsp.run calls).Misses (offsetNeeds mode) →
          (tsprocUpdateOffset (tsp.run calls) offset weight).1 = 0 ∧
            (tsprocUpdateOffset (tsp.run calls) offset weight).2.1 = o) := by
  obtain ⟨filter, hfilter, rfl⟩ := Option.map_eq_some_iff.mp hcreate
  have hint : filterLength.toInt.toNat < 2 ^ 31 := by
    have := filterLength.toInt_lt
    omega
  have hstart : TimestampProcess.Exact d o type filterLength.toInt.toNat 0
      ⟨mode, 0, 0, 0, 0, none, 0, false, filter⟩ :=
    ⟨fun hdown => absurd rfl hdown, fun hup => absurd rfl hup, rfl,
      ⟨0, le_rfl, filterCreate_has hlength hfilter⟩,
      fun hvalid => absurd hvalid Bool.false_ne_true⟩
  have hexact := run_exact hmeasures hstart hint hdouble (hsum.mono (by omega))
  rw [Nat.zero_add] at hexact
  have hdelay := tsprocUpdateDelay_exact hexact hint hdouble hsum delay
  have hoffset := tsprocUpdateOffset_exact hexact hdouble offset weight
  rw [run_mode] at hoffset
  have hmissing := @tsprocUpdateOffset_missing
    (TimestampProcess.run ⟨mode, 0, 0, 0, 0, none, 0, false, filter⟩ calls)
  rw [run_mode] at hmissing
  refine ⟨⟨⟨fun hcode => ?_, fun hmisses => ?_⟩,
      fun hmisses => tsprocUpdateDelay_missing hmisses delay,
      fun hmisses => ⟨(hdelay hmisses).1, (hdelay hmisses).2.1⟩⟩,
    ⟨fun hcode => ?_, fun hmisses => ?_⟩,
    fun hmisses => hmissing hmisses offset weight, hoffset⟩
  · by_contra hmisses
    rw [(hdelay hmisses).1] at hcode
    exact absurd hcode (by decide)
  · rw [tsprocUpdateDelay_missing hmisses]
  · by_contra hmisses
    rw [(hoffset hmisses).1] at hcode
    exact absurd hcode (by decide)
  · rw [hmissing hmisses]

/-- A delay of 7 and an offset of 100, with a partial reset between two exchanges. -/
def exchanges : List TsprocCall :=
  [.downTs 1000 1107, .upTs 1200 1107, .updateDelay (some 0), .reset false,
    .downTs 2000 2107, .updateOffset 0 none, .upTs 2200 2107]

theorem tsproc_exact_exchanges : ∃ tsp,
    tsprocCreate .filterWeight .movingAverage 4 = some tsp ∧
      (tsprocUpdateDelay (tsp.run exchanges) (some 0)).1 = 0 ∧
      (tsprocUpdateDelay (tsp.run exchanges) (some 0)).2.1 = some 7 ∧
      (tsprocUpdateOffset (tsp.run exchanges) 0 (some .one)).1 = 0 ∧
      (tsprocUpdateOffset (tsp.run exchanges) 0 (some .one)).2.1 = 100 := by
  have hexact := @tsproc_exact 7 100 .movingAverage _ .filterWeight 4 exchanges (by decide)
    rfl (by decide) (by decide) (fun _ => by decide) (some 0) 0 (some .one)
  obtain ⟨hcode, hdelay⟩ := hexact.1.2.2 (by decide)
  obtain ⟨hcode', hoffset⟩ := hexact.2.2.2 (by decide)
  exact ⟨_, rfl, hcode, hdelay, hcode', hoffset⟩

end

end LinuxPtp.Filter
