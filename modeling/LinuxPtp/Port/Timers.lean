import LinuxPtp.Lib.CheckedInt
import LinuxPtp.Bmc.ForeignMaster

/-!
# Timer intervals

The timers of a port run for a multiple of a power of two seconds.  The logarithm comes
from the configuration, from a Delay_Resp or from a grant, and may be any byte.  A timer
that is set to zero does not expire.
-/

namespace LinuxPtp.Port

open Bmc CheckedInt Wire

/-! ## The computations -/

def nsPerSec : ℤ := 10 ^ 9

/-- The loop that takes whole seconds out of the nanoseconds. -/
def carrySeconds (time : Timespec) : Timespec :=
  if nsPerSec ≤ time.tvNsec then
    carrySeconds ⟨time.tvSec + 1, time.tvNsec - nsPerSec⟩
  else time
termination_by time.tvNsec.toNat
decreasing_by
  unfold nsPerSec at *
  omega

/-- What `set_tmo_log` puts in `it_value`. -/
def setTmoLog (scale : UInt32) (logSeconds : ℤ) : Option Timespec :=
  if logSeconds < 0 then do
    let rounds ← mul 32 logSeconds (-1)
    let ns := (fun ns : ℕ => ns / 2)^[(rounds - 1).toNat]
      (scale.toNat * 500000000 % 2 ^ 64)
    pure (carrySeconds ⟨0, (ns : ℤ).bmod (2 ^ 64)⟩)
  else do
    let factor ← shiftLeft 32 1 logSeconds
    pure ⟨(scale * UInt32.ofInt factor).toNat, 0⟩

/-- `min_ns` and `span_ns` of `set_tmo_random`, before the conversion to `uint64_t`. -/
def scaledNs (value logSeconds : ℤ) : Option ℤ := do
  let ns ← mul 64 value nsPerSec
  if 0 ≤ logSeconds then shiftLeft 64 ns logSeconds
  else do
    let amount ← neg 32 logSeconds
    shiftRight 64 ns amount

/-- `random() % (1 << 15) + 1`. -/
def drawn (random : ℕ) : ℕ :=
  random % 2 ^ 15 + 1

/-- `value_ns` of `set_tmo_random`. -/
def valueNs (minNs spanNs random : ℕ) : ℕ :=
  (minNs + spanNs * drawn random % 2 ^ 64 / 2 ^ 15) % 2 ^ 64

/-- What `set_tmo_random` puts in `it_value`. -/
def setTmoRandom (min span logSeconds : ℤ) (random : ℕ) : Option Timespec := do
  let minNs ← scaledNs min logSeconds
  let spanNs ← scaledNs span logSeconds
  let value := valueNs (minNs % 2 ^ 64).toNat (spanNs % 2 ^ 64).toNat random
  pure ⟨value / 10 ^ 9, value % 10 ^ 9⟩

/-! ## The purpose -/

def Normalised (time : Timespec) : Prop :=
  0 ≤ time.tvNsec ∧ time.tvNsec < nsPerSec

/-- The timer is armed for ⌊scale · 2ⁿ⌋ seconds, to the nanosecond. -/
def ArmsLog (scale : UInt32) (n : ℤ) : Prop :=
  ∃ time, setTmoLog scale n = some time ∧ time ≠ ⟨0, 0⟩ ∧ Normalised time ∧
    nanoseconds time = ⌊(scale.toNat : ℚ) * 2 ^ n * 10 ^ 9⌋

/-- The unsigned operations of `set_tmo_random` do not wrap either. -/
def NoWrap (min span n : ℤ) (random : ℕ) : Prop :=
  ∃ minNs spanNs, scaledNs min n = some minNs ∧ scaledNs span n = some spanNs ∧
    spanNs * drawn random < 2 ^ 64 ∧ minNs + spanNs * drawn random / 2 ^ 15 < 2 ^ 64

/-- Whatever is drawn, the timer is armed for a time from min · 2ⁿ to
(min + span) · 2ⁿ seconds. -/
def ArmsRandom (min span n : ℤ) : Prop :=
  ∀ random, NoWrap min span n random ∧
    ∃ time, setTmoRandom min span n random = some time ∧ time ≠ ⟨0, 0⟩ ∧
      Normalised time ∧
      (min : ℚ) * 2 ^ n * 10 ^ 9 ≤ nanoseconds time ∧
      (nanoseconds time : ℚ) ≤ ((min : ℚ) + span) * 2 ^ n * 10 ^ 9

/-- ⌊value · 2ⁿ⌋ seconds in nanoseconds. -/
def scaled (value n : ℤ) : ℤ :=
  if 0 ≤ n then value * nsPerSec * 2 ^ n.toNat else value * nsPerSec / 2 ^ (-n).toNat

/-! ## Scaling -/

section

variable {value n : ℤ}

theorem floor_scaled : ⌊(value : ℚ) * 2 ^ n * 10 ^ 9⌋ = scaled value n := by
  rw [scaled, nsPerSec]
  split
  case isTrue hn =>
    have hcast : (value : ℚ) * 2 ^ n * 10 ^ 9 =
        ((value * 10 ^ 9 * 2 ^ n.toNat : ℤ) : ℚ) := by
      conv_lhs => rw [← Int.toNat_of_nonneg hn, zpow_natCast]
      push_cast
      ring
    rw [hcast, Int.floor_intCast]
  case isFalse hn =>
    have hcast : (value : ℚ) * 2 ^ n * 10 ^ 9 =
        ((value * 10 ^ 9 : ℤ) : ℚ) / ((2 ^ (-n).toNat : ℕ) : ℚ) := by
      have hpow : (2 : ℚ) ^ n = ((2 ^ (-n).toNat : ℕ) : ℚ)⁻¹ := by
        conv_lhs => rw [← neg_neg n, ← Int.toNat_of_nonneg (show 0 ≤ -n by omega)]
        rw [zpow_neg, zpow_natCast]
        push_cast
        rfl
      rw [hpow, div_eq_mul_inv]
      push_cast
      ring
    rw [hcast, Rat.floor_intCast_div_natCast]
    push_cast
    rfl

theorem scaled_le : (scaled value n : ℚ) ≤ (value : ℚ) * 2 ^ n * 10 ^ 9 := by
  rw [← floor_scaled]
  exact Int.floor_le _

theorem lt_scaled_add_one :
    (value : ℚ) * 2 ^ n * 10 ^ 9 < (scaled value n : ℚ) + 1 := by
  rw [← floor_scaled]
  exact Int.lt_floor_add_one _

theorem scaled_lt_iff {bound : ℤ} :
    scaled value n < bound ↔ (value : ℚ) * 2 ^ n * 10 ^ 9 < bound := by
  rw [← floor_scaled, Int.floor_lt]

theorem le_scaled_iff {bound : ℤ} :
    bound ≤ scaled value n ↔ (bound : ℚ) ≤ (value : ℚ) * 2 ^ n * 10 ^ 9 := by
  rw [← floor_scaled, Int.le_floor]

theorem scaled_nonneg (hvalue : 0 ≤ value) : 0 ≤ scaled value n := by
  unfold scaled nsPerSec
  split <;> positivity

theorem scaled_of_nonneg (hn : 0 ≤ n) :
    scaled value n = value * nsPerSec * 2 ^ n.toNat :=
  if_pos hn

theorem scaled_of_neg (hn : n < 0) :
    scaled value n = value * nsPerSec / 2 ^ (-n).toNat :=
  if_neg (by omega)

theorem lt_of_scaled_lt (hpos : 0 < value) (hfits : scaled value n < 2 ^ 49) :
    n < 64 := by
  by_contra hlarge
  have hpow : (2 : ℤ) ^ 64 ≤ 2 ^ n.toNat :=
    pow_le_pow_right₀ (by decide) (show 64 ≤ n.toNat by omega)
  have hproduct : 1 * 2 ^ 64 ≤ value * nsPerSec * 2 ^ n.toNat :=
    mul_le_mul (by unfold nsPerSec; omega) hpow (by decide)
      (mul_nonneg hpos.le (by decide))
  rw [scaled_of_nonneg (by omega)] at hfits
  omega

theorem scaled_natCast_of_neg {value : ℕ} (hn : n < 0) :
    scaled value n = (value * 10 ^ 9 / 2 ^ (-n).toNat : ℕ) := by
  rw [scaled_of_neg hn, nsPerSec]
  push_cast
  rfl

/-- The product of an `int` and `NS_PER_SEC` has room. -/
theorem inRange_mul_nsPerSec (hnonneg : 0 ≤ value) (hlt : value < 2 ^ 31) :
    InRange 64 (value * nsPerSec) := by
  unfold InRange nsPerSec
  constructor <;> omega

theorem scaledNs_eq_some_iff {result : ℤ} (hnonneg : 0 ≤ value) (hlt : value < 2 ^ 31)
    (hbyte : -128 ≤ n ∧ n < 128) :
    scaledNs value n = some result ↔
      ((-64 < n ∧ n < 64) ∧ scaled value n < 2 ^ 63) ∧ result = scaled value n := by
  have hproduct := inRange_mul_nsPerSec hnonneg hlt
  have hfactor : 0 ≤ value * nsPerSec := mul_nonneg hnonneg (by decide)
  have hpositive := @scaled_nonneg value n hnonneg
  rw [scaledNs, mul, checked_of_inRange hproduct, Option.bind_eq_bind, Option.bind_some]
  split
  case isTrue hn =>
    rw [scaled_of_nonneg hn] at hpositive ⊢
    rw [shiftLeft]
    by_cases hsmall : n < 64
    · rw [if_pos ⟨hn, hsmall, hfactor⟩, checked_eq_some_iff, InRange]
      constructor
      · rintro ⟨⟨-, hfits⟩, hresult⟩
        exact ⟨⟨⟨by omega, hsmall⟩, hfits⟩, hresult⟩
      · rintro ⟨⟨-, hfits⟩, hresult⟩
        exact ⟨⟨by omega, hfits⟩, hresult⟩
    · rw [if_neg (by tauto)]
      exact iff_of_false (Option.some_ne_none _).symm (by tauto)
  case isFalse hn =>
    have hle : scaled value n ≤ value * nsPerSec := by
      rw [scaled_of_neg (by omega)]
      exact Int.ediv_le_self _ hfactor
    have hfits : scaled value n < 2 ^ 63 := hle.trans_lt hproduct.2
    rw [neg, checked_of_inRange (show InRange 32 (-n) from ⟨by omega, by omega⟩),
      Option.bind_some, shiftRight]
    by_cases hsmall : -n < 64
    · rw [if_pos ⟨by omega, hsmall⟩, scaled_of_neg (by omega), Option.some_inj, eq_comm]
      rw [scaled_of_neg (by omega)] at hfits
      exact ⟨fun hresult => ⟨⟨⟨by omega, by omega⟩, hfits⟩, hresult⟩, And.right⟩
    · rw [if_neg (by tauto)]
      exact iff_of_false (Option.some_ne_none _).symm (by omega)

end

/-! ## Whole seconds -/

section

variable {time : Timespec}

theorem Normalised.eq_zero_iff (hnormal : Normalised time) :
    time = ⟨0, 0⟩ ↔ nanoseconds time = 0 := by
  obtain ⟨hnonneg, hlt⟩ := hnormal
  unfold nsPerSec at hlt
  unfold nanoseconds
  constructor
  · rintro rfl
    rfl
  · intro hzero
    obtain ⟨sec, nsec⟩ := time
    simp only at hnonneg hlt hzero
    obtain rfl : nsec = 0 := by omega
    obtain rfl : sec = 0 := by omega
    rfl

theorem carrySeconds_spec (hnonneg : 0 ≤ time.tvNsec) :
    Normalised (carrySeconds time) ∧
      nanoseconds (carrySeconds time) = nanoseconds time := by
  induction time using carrySeconds.induct with
  | case1 time hlarge ih =>
    rw [carrySeconds, if_pos hlarge]
    obtain ⟨hnormal, hsame⟩ := ih (by simpa using hlarge)
    refine ⟨hnormal, hsame.trans ?_⟩
    unfold nanoseconds nsPerSec
    ring
  | case2 time hsmall =>
    rw [carrySeconds, if_neg hsmall]
    exact ⟨⟨hnonneg, by omega⟩, rfl⟩

/-- Quotient and remainder make a normalised time. -/
theorem split_spec (value : ℕ) :
    Normalised ⟨value / 10 ^ 9, value % 10 ^ 9⟩ ∧
      nanoseconds ⟨value / 10 ^ 9, value % 10 ^ 9⟩ = value := by
  unfold Normalised nanoseconds nsPerSec
  simp only
  omega

end

/-! ## set_tmo_log -/

section

variable {scale : UInt32} {n : ℤ}

theorem halve_iterate (rounds value : ℕ) :
    (fun ns : ℕ => ns / 2)^[rounds] value = value / 2 ^ rounds := by
  induction rounds with
  | zero => simp
  | succ rounds ih =>
    rw [Function.iterate_succ_apply', ih, Nat.div_div_eq_div_mul, pow_succ]

theorem setTmoLog_of_nonneg (hn : 0 ≤ n) {time : Timespec} :
    setTmoLog scale n = some time ↔
      n ≤ 30 ∧ time = ⟨(scale.toNat * 2 ^ n.toNat % 2 ^ 32 : ℕ), 0⟩ := by
  rw [setTmoLog, if_neg (by omega), Option.bind_eq_bind]
  by_cases hsmall : n ≤ 30
  · have hfactor : (2 : ℕ) ^ n.toNat < 2 ^ 32 :=
      Nat.pow_lt_pow_right (by decide) (by omega)
    have hword : (UInt32.ofInt (2 ^ n.toNat)).toNat = 2 ^ n.toNat := by
      have hcast : (2 : ℤ) ^ n.toNat = ((2 ^ n.toNat : ℕ) : ℤ) := by
        push_cast
        rfl
      rw [hcast, UInt32.ofInt, Int.emod_eq_of_lt (by positivity) (by exact_mod_cast hfactor),
        Int.toNat_natCast, UInt32.toNat_ofNat', Nat.mod_eq_of_lt hfactor]
    rw [shiftLeft_one (by decide) ⟨hn, by omega⟩, Option.bind_some, UInt32.toNat_mul, hword]
    simp [hsmall, eq_comm]
  · have hnone : shiftLeft 32 1 n = none := by
      rw [Option.eq_none_iff_forall_ne_some]
      intro factor hfactor
      have := ((shiftLeft_one_eq_some_iff (by decide)).mp hfactor).1
      omega
    rw [hnone]
    simp [hsmall]

theorem armsLog_of_nonneg (hscale : 0 < scale) (hn : 0 ≤ n) :
    ArmsLog scale n ↔ n ≤ 30 ∧ scale.toNat * 2 ^ n.toNat < 2 ^ 32 := by
  have hpositive : 0 < scale.toNat * 2 ^ n.toNat :=
    mul_pos (UInt32.lt_iff_toNat_lt.mp hscale) (by positivity)
  have hfloor : ⌊(scale.toNat : ℚ) * 2 ^ n * 10 ^ 9⌋ =
      (scale.toNat * 2 ^ n.toNat : ℕ) * 10 ^ 9 := by
    have := @floor_scaled scale.toNat n
    rw [scaled_of_nonneg hn, nsPerSec] at this
    push_cast at this ⊢
    rw [this]
    ring
  rw [ArmsLog, hfloor]
  simp only [setTmoLog_of_nonneg hn, and_assoc, exists_and_left, exists_eq_left]
  generalize scale.toNat * 2 ^ n.toNat = seconds at hpositive
  refine and_congr_right fun hsmall => ?_
  have hnormal : Normalised ⟨(seconds % 2 ^ 32 : ℕ), 0⟩ :=
    ⟨le_rfl, show (0 : ℤ) < 10 ^ 9 by decide⟩
  rw [ne_eq, hnormal.eq_zero_iff]
  unfold nanoseconds
  constructor
  · rintro ⟨-, -, hexact⟩
    simp only at hexact
    omega
  · intro hfits
    rw [Nat.mod_eq_of_lt hfits] at hnormal ⊢
    exact ⟨by simp only; omega, hnormal, add_zero _⟩

/-- With a negative logarithm nothing overflows. -/
theorem setTmoLog_of_neg (hn : n < 0) (hbyte : -128 ≤ n) :
    setTmoLog scale n = some (carrySeconds ⟨0, scaled scale.toNat n⟩) := by
  have hscale := scale.toNat_lt
  have hproduct : scale.toNat * 500000000 < 2 ^ 64 := by omega
  have hhalves : scale.toNat * 500000000 / 2 ^ (-n - 1).toNat =
      scale.toNat * 10 ^ 9 / 2 ^ (-n).toNat := by
    have hdouble : scale.toNat * 10 ^ 9 = scale.toNat * 500000000 * 2 := by ring
    rw [hdouble, show (-n).toNat = (-n - 1).toNat + 1 by omega, pow_succ,
      Nat.mul_div_mul_right _ _ (by decide)]
  have hle : scale.toNat * 10 ^ 9 / 2 ^ (-n).toNat ≤ scale.toNat * 10 ^ 9 :=
    Nat.div_le_self _ _
  have hword : ∀ ns : ℕ, ns < 2 ^ 63 → (ns : ℤ).bmod (2 ^ 64) = ns :=
    fun ns hns => Int.bmod_eq_of_le (by omega) (by omega)
  rw [setTmoLog, if_pos hn, mul,
    checked_of_inRange (show InRange 32 (n * -1) from ⟨by omega, by omega⟩),
    Option.bind_eq_bind, Option.bind_some, mul_neg_one, halve_iterate,
    Nat.mod_eq_of_lt hproduct, hhalves, scaled_natCast_of_neg hn]
  simp only [hword (scale.toNat * 10 ^ 9 / 2 ^ (-n).toNat) (by omega), Option.pure_def]

theorem armsLog_of_neg (hn : n < 0) (hbyte : -128 ≤ n) :
    ArmsLog scale n ↔ 2 ^ (-n).toNat ≤ scale.toNat * 10 ^ 9 := by
  have hnonneg : 0 ≤ scaled scale.toNat n := scaled_nonneg (Int.natCast_nonneg _)
  obtain ⟨hnormal, hsame⟩ := @carrySeconds_spec ⟨0, scaled scale.toNat n⟩ hnonneg
  have hvalue : nanoseconds (carrySeconds ⟨0, scaled scale.toNat n⟩) =
      scaled scale.toNat n := by
    rw [hsame, nanoseconds]
    ring
  have hfloor : ⌊(scale.toNat : ℚ) * 2 ^ n * 10 ^ 9⌋ = scaled scale.toNat n :=
    @floor_scaled scale.toNat n
  have hpos : scaled scale.toNat n ≠ 0 ↔ 2 ^ (-n).toNat ≤ scale.toNat * 10 ^ 9 := by
    rw [scaled_natCast_of_neg hn, Ne, Int.natCast_eq_zero, Nat.div_eq_zero_iff_lt (by positivity), not_lt]
  rw [ArmsLog, setTmoLog_of_neg hn hbyte, hfloor, ← hpos]
  constructor
  · rintro ⟨time, hresult, hne, -, hexact⟩
    rw [Option.some_inj] at hresult
    subst hresult
    rwa [ne_eq, hnormal.eq_zero_iff, hvalue] at hne
  · intro hne
    refine ⟨_, rfl, ?_, hnormal, hvalue⟩
    rwa [ne_eq, hnormal.eq_zero_iff, hvalue]

end

/-! ## set_tmo_random -/

section

variable {min span n minNs spanNs : ℤ} {random : ℕ}

theorem drawn_bounds : 1 ≤ drawn random ∧ drawn random ≤ 2 ^ 15 := by
  unfold drawn
  omega

theorem setTmoRandom_spec (hmin : scaledNs min n = some minNs)
    (hspan : scaledNs span n = some spanNs) (hminNs : 0 ≤ minNs) (hspanNs : 0 ≤ spanNs)
    (hproduct : spanNs * drawn random < 2 ^ 64)
    (hsum : minNs + spanNs * drawn random / 2 ^ 15 < 2 ^ 64) :
    ∃ time, setTmoRandom min span n random = some time ∧ Normalised time ∧
      nanoseconds time = minNs + spanNs * drawn random / 2 ^ 15 := by
  lift minNs to ℕ using hminNs
  lift spanNs to ℕ using hspanNs
  norm_cast at hproduct hsum
  have hvalue : valueNs minNs spanNs random = minNs + spanNs * drawn random / 2 ^ 15 := by
    rw [valueNs, Nat.mod_eq_of_lt hproduct, Nat.mod_eq_of_lt hsum]
  have hnarrow : minNs < 2 ^ 64 ∧ spanNs < 2 ^ 64 :=
    ⟨by omega, (Nat.le_mul_of_pos_right _ drawn_bounds.1).trans_lt hproduct⟩
  have hword : ∀ value : ℕ, value < 2 ^ 64 → ((value : ℤ) % 2 ^ 64).toNat = value := by
    intro value hlt
    omega
  obtain ⟨hnormal, hsame⟩ := split_spec (valueNs minNs spanNs random)
  refine ⟨_, ?_, hnormal, ?_⟩
  · rw [setTmoRandom, hmin, hspan]
    simp only [Option.bind_eq_bind, Option.bind_some, hword _ hnarrow.1, hword _ hnarrow.2,
      Option.pure_def]
  · rw [hsame, hvalue]
    push_cast
    rfl

/-- With a span of less than 2¹⁵ ns the least draw adds nothing. -/
theorem quotient_of_small (hsmall : spanNs < 2 ^ 15) (hnonneg : 0 ≤ spanNs) :
    spanNs * drawn 0 / 2 ^ 15 = 0 := by
  rw [show drawn 0 = 1 from rfl, Nat.cast_one, mul_one]
  omega

theorem quotient_le (hnonneg : 0 ≤ spanNs) :
    0 ≤ spanNs * drawn random / 2 ^ 15 ∧ spanNs * drawn random / 2 ^ 15 ≤ spanNs := by
  have hle : spanNs * drawn random ≤ spanNs * 2 ^ 15 :=
    mul_le_mul_of_nonneg_left (by exact_mod_cast drawn_bounds.2) hnonneg
  have hpositive : 0 ≤ spanNs * drawn random := by positivity
  omega

theorem one_le_quotient (hlarge : 2 ^ 15 ≤ spanNs) :
    1 ≤ spanNs * drawn random / 2 ^ 15 := by
  have hle : spanNs * 1 ≤ spanNs * drawn random :=
    mul_le_mul_of_nonneg_left (by exact_mod_cast drawn_bounds.1) (by omega)
  omega

/-- A span that every draw reaches, or a minimum that is a whole number, keeps the value
from below. -/
theorem armed_lower
    (hcover : 2 ^ 15 ≤ (span : ℚ) * 2 ^ n * 10 ^ 9 ∨
      0 < min ∧ ∃ whole : ℤ, (min : ℚ) * 2 ^ n * 10 ^ 9 = whole)
    (hmin : 0 ≤ min) (hspan : 0 ≤ span) :
    0 < scaled min n + scaled span n * drawn random / 2 ^ 15 ∧
      (min : ℚ) * 2 ^ n * 10 ^ 9 ≤
        (scaled min n + scaled span n * drawn random / 2 ^ 15 : ℤ) := by
  have hX := @scaled_nonneg _ n hmin
  obtain ⟨hquotient, -⟩ := @quotient_le _ random (@scaled_nonneg _ n hspan)
  rcases hcover with hlarge | ⟨hpos, whole, hwhole⟩
  · have hone := @one_le_quotient _ random (le_scaled_iff.mpr (by exact_mod_cast hlarge))
    refine ⟨by omega, lt_scaled_add_one.le.trans ?_⟩
    exact_mod_cast (show scaled min n + 1 ≤ _ by omega)
  · have hexact : scaled min n = whole := by
      rw [← floor_scaled, hwhole, Int.floor_intCast]
    have hwholePos : 0 < whole := by
      have hrat : (0 : ℚ) < whole := by
        rw [← hwhole]
        positivity
      exact_mod_cast hrat
    refine ⟨by omega, ?_⟩
    rw [hwhole]
    exact_mod_cast (show whole ≤ _ by omega)

theorem armsRandom_iff (hmin : 0 ≤ min ∧ min < 2 ^ 31) (hspan : 0 < span ∧ span < 2 ^ 31)
    (hbyte : -128 ≤ n ∧ n < 128) :
    ArmsRandom min span n ↔
      -64 < n ∧ (min : ℚ) * 2 ^ n * 10 ^ 9 < 2 ^ 63 ∧
        (span : ℚ) * 2 ^ n * 10 ^ 9 < 2 ^ 49 ∧
        (2 ^ 15 ≤ (span : ℚ) * 2 ^ n * 10 ^ 9 ∨
          0 < min ∧ ∃ whole : ℤ, (min : ℚ) * 2 ^ n * 10 ^ 9 = whole) := by
  have hX := @scaled_nonneg _ n hmin.1
  have hY := @scaled_nonneg _ n hspan.1.le
  constructor
  · intro harms
    obtain ⟨⟨minNs, spanNs, hminNs, hspanNs, hproduct, -⟩, -⟩ := harms (2 ^ 15 - 1)
    obtain ⟨⟨⟨hlow, -⟩, hminFits⟩, rfl⟩ :=
      (scaledNs_eq_some_iff hmin.1 hmin.2 hbyte).mp hminNs
    obtain ⟨-, rfl⟩ := (scaledNs_eq_some_iff hspan.1.le hspan.2 hbyte).mp hspanNs
    have hspanFits : scaled span n < 2 ^ 49 := by
      rw [show drawn (2 ^ 15 - 1) = 2 ^ 15 from rfl] at hproduct
      push_cast at hproduct
      omega
    refine ⟨hlow, by exact_mod_cast scaled_lt_iff.mp hminFits,
      by exact_mod_cast scaled_lt_iff.mp hspanFits, ?_⟩
    rcases lt_or_ge (scaled span n) (2 ^ 15) with hsmall | hlarge
    · obtain ⟨⟨_, _, hminNs', hspanNs', hproduct', hsum'⟩, time, htime, hne, hnormal,
        hlower, -⟩ := harms 0
      rw [hminNs, Option.some_inj] at hminNs'
      rw [hspanNs, Option.some_inj] at hspanNs'
      subst hminNs' hspanNs'
      obtain ⟨time', htime', -, hvalue⟩ :=
        setTmoRandom_spec hminNs hspanNs hX hY hproduct' hsum'
      rw [htime, Option.some_inj] at htime'
      subst htime'
      rw [quotient_of_small hsmall hY, add_zero] at hvalue
      rw [hvalue] at hlower
      refine Or.inr ⟨hmin.1.lt_of_ne fun hzero => hne ?_, _,
        le_antisymm hlower scaled_le⟩
      rw [hnormal.eq_zero_iff, hvalue, ← hzero]
      unfold scaled
      simp
    · exact Or.inl (by exact_mod_cast le_scaled_iff.mp hlarge)
  · rintro ⟨hlow, hminFits, hspanFits, hcover⟩ random
    replace hminFits : scaled min n < 2 ^ 63 :=
      scaled_lt_iff.mpr (by exact_mod_cast hminFits)
    replace hspanFits : scaled span n < 2 ^ 49 :=
      scaled_lt_iff.mpr (by exact_mod_cast hspanFits)
    have hhigh : n < 64 := lt_of_scaled_lt hspan.1 hspanFits
    have hminNs := (scaledNs_eq_some_iff hmin.1 hmin.2 hbyte).mpr
      ⟨⟨⟨hlow, hhigh⟩, hminFits⟩, rfl⟩
    have hspanNs := (scaledNs_eq_some_iff hspan.1.le hspan.2 hbyte).mpr
      ⟨⟨⟨hlow, hhigh⟩, by omega⟩, rfl⟩
    obtain ⟨hquotient, hquotientLe⟩ := @quotient_le _ random hY
    have hproduct : scaled span n * drawn random < 2 ^ 64 := by
      have := mul_le_mul_of_nonneg_left
        (show (drawn random : ℤ) ≤ 2 ^ 15 by exact_mod_cast drawn_bounds.2) hY
      omega
    have hsum : scaled min n + scaled span n * drawn random / 2 ^ 15 < 2 ^ 64 := by omega
    obtain ⟨time, htime, hnormal, hvalue⟩ :=
      setTmoRandom_spec hminNs hspanNs hX hY hproduct hsum
    obtain ⟨hpositive, hlower⟩ := @armed_lower _ _ _ random hcover hmin.1 hspan.1.le
    refine ⟨⟨_, _, hminNs, hspanNs, hproduct, hsum⟩, time, htime, ?_, hnormal, ?_, ?_⟩
    · rw [ne_eq, hnormal.eq_zero_iff, hvalue]
      exact hpositive.ne'
    · rwa [hvalue]
    · have hle : nanoseconds time ≤ scaled min n + scaled span n := by omega
      have hminLe := @scaled_le min n
      have hspanLe := @scaled_le span n
      have hleRat : (nanoseconds time : ℚ) ≤ scaled min n + scaled span n := by
        exact_mod_cast hle
      linarith

end

/-- For every argument and every byte as logarithm, when the two functions arm the timer
as documented. -/
theorem timers_arm_iff (scale : UInt32) (min span : Int32) (n : Int8) (hscale : 0 < scale)
    (hmin : 0 ≤ min.toInt) (hspan : 0 < span.toInt) :
    (ArmsLog scale n.toInt ↔
      (0 ≤ n.toInt → n.toInt ≤ 30 ∧ scale.toNat * 2 ^ n.toInt.toNat < 2 ^ 32) ∧
        (n.toInt < 0 → 2 ^ (-n.toInt).toNat ≤ scale.toNat * 10 ^ 9)) ∧
    (ArmsRandom min.toInt span.toInt n.toInt ↔
      -64 < n.toInt ∧ (min.toInt : ℚ) * 2 ^ n.toInt * 10 ^ 9 < 2 ^ 63 ∧
        (span.toInt : ℚ) * 2 ^ n.toInt * 10 ^ 9 < 2 ^ 49 ∧
        (2 ^ 15 ≤ (span.toInt : ℚ) * 2 ^ n.toInt * 10 ^ 9 ∨
          0 < min.toInt ∧
            ∃ whole : ℤ, (min.toInt : ℚ) * 2 ^ n.toInt * 10 ^ 9 = whole)) := by
  have hbyte : -128 ≤ n.toInt ∧ n.toInt < 128 := ⟨n.le_toInt, n.toInt_lt⟩
  refine ⟨?_, armsRandom_iff ⟨hmin, min.toInt_lt⟩ ⟨hspan, span.toInt_lt⟩ hbyte⟩
  rcases lt_or_ge n.toInt 0 with hneg | hnonneg
  · rw [armsLog_of_neg hneg hbyte.1]
    exact ⟨fun hfits => ⟨fun hn => absurd hn (not_le.mpr hneg), fun _ => hfits⟩,
      fun hcond => hcond.2 hneg⟩
  · rw [armsLog_of_nonneg hscale hnonneg]
    exact ⟨fun hfits => ⟨fun _ => hfits, fun hn => absurd hn (not_lt.mpr hnonneg)⟩,
      fun hcond => hcond.1 hnonneg⟩

/-- The announce timer of the default configuration. -/
theorem timers_arm_announce : ArmsLog 1 1 ∧ ArmsRandom 3 1 1 := by
  have harm := timers_arm_iff 1 3 1 1 (by decide) (by decide) (by decide)
  refine ⟨harm.1.mpr (by decide), harm.2.mpr ⟨by decide, ?_, ?_, Or.inl ?_⟩⟩
  all_goals
    simp only [show Int8.toInt 1 = 1 from rfl, show Int32.toInt 1 = 1 from rfl,
      show Int32.toInt 3 = 3 from rfl]
    norm_num

/-- With 2⁻³⁰ seconds a timer is disarmed, and with 2⁻¹⁶ the delay timer by the least
draw. -/
theorem timers_not_arm : ¬ArmsLog 1 (-30) ∧ ¬ArmsRandom 0 2 (-16) := by
  refine ⟨?_, fun harms => ?_⟩
  · rw [armsLog_of_neg (by decide) (by decide)]
    decide
  · obtain ⟨-, time, htime, hne, -⟩ := harms 0
    rw [show setTmoRandom 0 2 (-16) 0 = some ⟨0, 0⟩ by decide, Option.some_inj] at htime
    exact hne htime.symm

end LinuxPtp.Port
