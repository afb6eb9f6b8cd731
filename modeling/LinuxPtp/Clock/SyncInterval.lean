import LinuxPtp.Lib.CheckedInt

/-!
# Adapting to the Sync interval

The logarithm of the Sync interval comes from the master.  It decides over how many
samples the frequency is estimated and the statistics are taken, and the servo is told
the interval itself.
-/

namespace LinuxPtp.Clock

open CheckedInt

def intBits : ℤ := 32

/-- Of `struct PtpClock` and its servo, what has to do with the Sync interval. -/
structure SyncIntervals where
  freqEstInterval : ℤ
  statsInterval : ℤ
  festMaxCount : ℤ
  statsMaxCount : ℤ
  servoInterval : ℚ
  deriving DecidableEq, Repr

def sampleCount (configured n : ℤ) : Option ℤ := do
  let shift ← sub 32 configured n
  shiftLeft 32 1
    (if shift < 0 then 0 else if intBits ≤ shift then intBits - 1 else shift)

/-- The interval in seconds; the quotient is that of floating-point numbers. -/
def secondsOfLog (n : ℤ) : Option ℚ :=
  if n < 0 then do
    let amount ← neg 32 n
    let divisor ← shiftLeft 32 1 amount
    pure (1 / (divisor : ℚ))
  else do
    let seconds ← shiftLeft 32 1 n
    pure (seconds : ℚ)

def clockSyncInterval (c : SyncIntervals) (n : ℤ) : Option SyncIntervals := do
  let festMaxCount ← sampleCount c.freqEstInterval n
  let statsMaxCount ← sampleCount c.statsInterval n
  let servoInterval ← secondsOfLog n
  pure { c with
    festMaxCount := festMaxCount
    statsMaxCount := statsMaxCount
    servoInterval := servoInterval }

/-! ## The documented window -/

/-- How many samples an interval stands for. -/
def windowOf (configured n : ℤ) : ℤ := 2 ^ (min 31 (max 0 (configured - n))).toNat

/-- The sample counts are those of the intervals, and the servo is told the interval. -/
def Adapts (c : SyncIntervals) (n : ℤ) : Prop :=
  clockSyncInterval c n = some { c with
    festMaxCount := windowOf c.freqEstInterval n
    statsMaxCount := windowOf c.statsInterval n
    servoInterval := (2 : ℚ) ^ n } ∧ (0 : ℚ) < 2 ^ n

theorem sampleCount_eq_some_iff {configured n count : ℤ} :
    sampleCount configured n = some count ↔
      (-2 ^ 31 ≤ configured - n ∧ configured - n ≤ 30) ∧
        count = windowOf configured n := by
  simp only [sampleCount, sub, Option.bind_eq_bind, Option.bind_eq_some_iff,
    checked_eq_some_iff, InRange]
  constructor
  · rintro ⟨shift, ⟨hrange, rfl⟩, hshift⟩
    obtain ⟨hbelow, rfl⟩ := (shiftLeft_one_eq_some_iff (by decide)).mp hshift
    unfold intBits at hbelow ⊢
    split at hbelow
    case isTrue hneg =>
      refine ⟨by omega, ?_⟩
      rw [if_pos hneg, windowOf, show min 31 (max 0 (configured - n)) = 0 by omega]
    case isFalse hneg =>
      split at hbelow
      case isTrue hlarge => omega
      case isFalse hlarge =>
        refine ⟨by omega, ?_⟩
        rw [if_neg hneg, if_neg hlarge, windowOf,
          show min 31 (max 0 (configured - n)) = configured - n by omega]
  · rintro ⟨hrange, rfl⟩
    refine ⟨configured - n, ⟨by omega, rfl⟩, ?_⟩
    unfold intBits
    rw [shiftLeft_one_eq_some_iff (by decide)]
    split
    case isTrue hneg =>
      refine ⟨by omega, ?_⟩
      rw [windowOf, show min 31 (max 0 (configured - n)) = 0 by omega]
    case isFalse hneg =>
      rw [if_neg (by omega)]
      refine ⟨by omega, ?_⟩
      rw [windowOf, show min 31 (max 0 (configured - n)) = configured - n by omega]

theorem secondsOfLog_eq_some_iff {n : ℤ} (hbyte : -128 ≤ n) {seconds : ℚ} :
    secondsOfLog n = some seconds ↔ (-30 ≤ n ∧ n ≤ 30) ∧ seconds = 2 ^ n := by
  rw [secondsOfLog]
  split
  case isTrue hneg =>
    have hpow : ((2 ^ (-n).toNat : ℤ) : ℚ) = (2 : ℚ) ^ (-n) := by
      conv_rhs => rw [← Int.toNat_of_nonneg (show 0 ≤ -n by omega)]
      rw [zpow_natCast]
      push_cast
      rfl
    have hinv : 1 / ((2 ^ (-n).toNat : ℤ) : ℚ) = (2 : ℚ) ^ n := by
      rw [hpow, zpow_neg, one_div, inv_inv]
    rw [neg, checked_of_inRange (show InRange 32 (-n) from ⟨by omega, by omega⟩)]
    simp only [Option.bind_eq_bind, Option.bind_some, Option.bind_eq_some_iff,
      shiftLeft_one_eq_some_iff (show 0 < 32 by decide), Option.pure_def, Option.some_inj]
    constructor
    · rintro ⟨divisor, ⟨hbelow, rfl⟩, rfl⟩
      exact ⟨by omega, hinv⟩
    · rintro ⟨hrange, rfl⟩
      exact ⟨_, ⟨by omega, rfl⟩, hinv⟩
  case isFalse hneg =>
    have hpow : ((2 ^ n.toNat : ℤ) : ℚ) = (2 : ℚ) ^ n := by
      conv_rhs => rw [← Int.toNat_of_nonneg (show 0 ≤ n by omega)]
      rw [zpow_natCast]
      push_cast
      rfl
    simp only [Option.bind_eq_bind, Option.bind_eq_some_iff,
      shiftLeft_one_eq_some_iff (show 0 < 32 by decide), Option.pure_def, Option.some_inj]
    constructor
    · rintro ⟨value, ⟨hbelow, rfl⟩, rfl⟩
      exact ⟨by omega, hpow⟩
    · rintro ⟨hrange, rfl⟩
      exact ⟨_, ⟨by omega, rfl⟩, hpow⟩

/-- For every Sync interval that a message or a grant can carry, and every setting, the
counts are those documented and the interval of the servo is 2ⁿ seconds if and only if
no shift reaches the sign of an `int` and no difference overflows. -/
theorem clockSyncInterval_adapts_iff (c : SyncIntervals) (n : Int8)
    (hfreq : 0 ≤ c.freqEstInterval) :
    Adapts c n.toInt ↔
      (-30 ≤ n.toInt ∧ n.toInt ≤ 30) ∧ c.freqEstInterval - n.toInt ≤ 30 ∧
        -2 ^ 31 ≤ c.statsInterval - n.toInt ∧ c.statsInterval - n.toInt ≤ 30 := by
  have hbyte := n.le_toInt
  have hlt := n.toInt_lt
  generalize n.toInt = n at hbyte hlt
  constructor
  · rintro ⟨hadapts, -⟩
    simp only [clockSyncInterval, Option.bind_eq_bind, Option.bind_eq_some_iff] at hadapts
    obtain ⟨fest, hfest, stats, hstats, seconds, hseconds, -⟩ := hadapts
    have h₁ := (sampleCount_eq_some_iff.mp hfest).1
    have h₂ := (sampleCount_eq_some_iff.mp hstats).1
    have h₃ := ((secondsOfLog_eq_some_iff hbyte).mp hseconds).1
    exact ⟨h₃, h₁.2, h₂.1, h₂.2⟩
  · rintro ⟨hsmall, hfest, hge, hstats⟩
    refine ⟨?_, by positivity⟩
    rw [clockSyncInterval, sampleCount_eq_some_iff.mpr ⟨⟨by omega, hfest⟩, rfl⟩,
      sampleCount_eq_some_iff.mpr ⟨⟨hge, hstats⟩, rfl⟩,
      (secondsOfLog_eq_some_iff hbyte).mpr ⟨hsmall, rfl⟩]
    rfl

/-- The settings of the default configuration. -/
def defaultIntervals : SyncIntervals := ⟨1, 0, 0, 0, 1⟩

theorem clockSyncInterval_adapts_default : Adapts defaultIntervals (-3) :=
  (clockSyncInterval_adapts_iff defaultIntervals (-3) (by decide)).mpr (by decide)

theorem clockSyncInterval_not_adapts : ¬Adapts defaultIntervals (-31) := by
  rintro ⟨hadapts, -⟩
  exact absurd hadapts (by decide +kernel)

end LinuxPtp.Clock
