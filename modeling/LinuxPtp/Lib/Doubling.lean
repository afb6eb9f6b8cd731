import LinuxPtp.Lib.CheckedInt

/-!
# Doubling up to a bound

A signed number is doubled until it reaches a bound.  From a power of two this ends at
the least one that is large enough, or in an overflow.
-/

namespace CheckedInt

/-- Doubling until a bound is reached.  `fuel` is never short where it is at least the
width: then a product overflows first. -/
def doubleUntil (double : ℤ → Option ℤ) : ℕ → ℤ → ℤ → Option ℤ
  | 0, _, _ => none
  | fuel + 1, value, bound =>
      if value < bound then (double value).bind fun next =>
        doubleUntil double fuel next bound
      else some value

/-- A function that doubles the powers of two. -/
def Doubles (width : ℕ) (double : ℤ → Option ℤ) : Prop :=
  ∀ k : ℕ, double (2 ^ k) = checked width (2 ^ (k + 1))

section

variable {width fuel k bound n : ℕ} {value : ℤ} {double : ℤ → Option ℤ}

theorem doubles_mul : Doubles width fun value => mul width value 2 := by
  intro k
  show mul width (2 ^ k) 2 = _
  rw [mul, pow_succ]

theorem doubles_shiftLeft (hwidth : 1 < width) :
    Doubles width fun value => shiftLeft width value 1 := by
  intro k
  have hamount : (0 : ℤ) ≤ 1 ∧ (1 : ℤ) < width ∧ (0 : ℤ) ≤ 2 ^ k :=
    ⟨by decide, by exact_mod_cast hwidth, by positivity⟩
  show shiftLeft width (2 ^ k) 1 = _
  rw [shiftLeft, if_pos hamount, Int.toNat_one, pow_one, pow_succ]

/-- A power of two fits below the sign. -/
theorem checked_two_pow :
    checked width (2 ^ k) = if k < width - 1 then some (2 ^ k) else none := by
  have hlow : -2 ^ (width - 1) ≤ (2 : ℤ) ^ k :=
    (neg_nonpos.mpr (by positivity)).trans (by positivity)
  rw [checked]
  refine if_congr ⟨fun hrange => ?_, fun hless => ⟨hlow, ?_⟩⟩ rfl rfl
  · exact two_pow_lt_iff.mp hrange.2
  · exact two_pow_lt_iff.mpr hless

/-- The least power of two that reaches the bound, if it fits. -/
theorem doubleUntil_eq (hdouble : Doubles width double) (hk : k < width - 1)
    (hfuel : width - 1 ≤ fuel + k) :
    doubleUntil double fuel (2 ^ k) bound =
      if Nat.clog 2 bound < width - 1 then some (2 ^ max k (Nat.clog 2 bound))
      else none := by
  induction fuel generalizing k with
  | zero => exact absurd hk (by omega)
  | succ fuel ih =>
    have hbelow : (2 : ℤ) ^ k < bound ↔ k < Nat.clog 2 bound := by
      rw [Nat.lt_clog_iff_pow_lt one_lt_two]
      norm_cast
    rw [doubleUntil, hdouble, checked_two_pow]
    by_cases hless : k < Nat.clog 2 bound
    · rw [if_pos (hbelow.mpr hless)]
      by_cases hfits : k + 1 < width - 1
      · rw [if_pos hfits, Option.bind_some, ih hfits (by omega),
          max_eq_right (Nat.succ_le_of_lt hless), max_eq_right hless.le]
      · rw [if_neg hfits, Option.bind_none, if_neg (by omega)]
    · rw [if_neg (mt hbelow.mp hless), if_pos (by omega),
        max_eq_left (Nat.le_of_not_lt hless)]

/-- Counting on by one, and then by some more. -/
theorem add_one_bind (hvalue : 0 ≤ value) :
    ((add width value 1).bind fun next => checked width (next + n)) =
      checked width (value + (n + 1 : ℕ)) := by
  have hsum : value + 1 + n = value + (n + 1 : ℕ) := by
    push_cast
    ring
  rw [add]
  cases hnext : checked width (value + 1) with
  | some next =>
    rw [(checked_eq_some_iff.mp hnext).2, Option.bind_some, hsum]
  | none =>
    refine (checked_eq_none_iff.mpr fun hrange => ?_).symm
    refine checked_eq_none_iff.mp hnext ⟨?_, ?_⟩
    · exact (neg_nonpos.mpr (by positivity)).trans (by omega)
    · exact lt_of_le_of_lt (by push_cast; omega) hrange.2

end

end CheckedInt
