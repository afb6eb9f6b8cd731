import Mathlib

/-!
# Signed arithmetic that may overflow

A signed operation has a result only where this fits the type, and a shift only where its
amount is less than the width of the type.  Elsewhere the language leaves the program
without a meaning, and the operations here return `none`.
-/

namespace CheckedInt

def InRange (width : ℕ) (value : ℤ) : Prop :=
  -2 ^ (width - 1) ≤ value ∧ value < 2 ^ (width - 1)

instance (width : ℕ) (value : ℤ) : Decidable (InRange width value) :=
  inferInstanceAs (Decidable (_ ∧ _))

def checked (width : ℕ) (value : ℤ) : Option ℤ :=
  if InRange width value then some value else none

def add (width : ℕ) (a b : ℤ) : Option ℤ := checked width (a + b)

def sub (width : ℕ) (a b : ℤ) : Option ℤ := checked width (a - b)

def mul (width : ℕ) (a b : ℤ) : Option ℤ := checked width (a * b)

def neg (width : ℕ) (a : ℤ) : Option ℤ := checked width (-a)

def div (width : ℕ) (a b : ℤ) : Option ℤ :=
  if b = 0 then none else checked width (a.tdiv b)

def shiftLeft (width : ℕ) (a amount : ℤ) : Option ℤ :=
  if 0 ≤ amount ∧ amount < width ∧ 0 ≤ a then checked width (a * 2 ^ amount.toNat)
  else none

def shiftRight (width : ℕ) (a amount : ℤ) : Option ℤ :=
  if 0 ≤ amount ∧ amount < width then some (a / 2 ^ amount.toNat) else none

section

variable {width : ℕ} {a b value amount : ℤ}

theorem checked_of_inRange (hrange : InRange width value) :
    checked width value = some value :=
  if_pos hrange

theorem checked_eq_some_iff {result : ℤ} :
    checked width value = some result ↔ InRange width value ∧ result = value := by
  rw [checked]
  split
  case isTrue hrange => simp [hrange, eq_comm]
  case isFalse hrange => simp [hrange]

theorem checked_eq_none_iff : checked width value = none ↔ ¬InRange width value := by
  rw [checked]
  split
  case isTrue hrange => simp [hrange]
  case isFalse hrange => simp [hrange]

theorem two_pow_lt_iff {n m : ℕ} : (2 : ℤ) ^ n < 2 ^ m ↔ n < m :=
  pow_lt_pow_iff_right₀ (by decide)

/-- A bit can be set below the sign. -/
theorem shiftLeft_one_eq_some_iff {result : ℤ} (hwidth : 0 < width) :
    shiftLeft width 1 amount = some result ↔
      (0 ≤ amount ∧ amount < width - 1) ∧ result = 2 ^ amount.toNat := by
  have hpow : (0 : ℤ) < 2 ^ (width - 1) := by positivity
  have hbit : (0 : ℤ) < 2 ^ amount.toNat := by positivity
  rw [shiftLeft]
  split
  case isTrue hamount =>
    rw [checked_eq_some_iff, InRange, one_mul, two_pow_lt_iff]
    constructor
    · rintro ⟨⟨-, hlt⟩, hresult⟩
      exact ⟨⟨hamount.1, by omega⟩, hresult⟩
    · rintro ⟨hbelow, hresult⟩
      exact ⟨⟨by omega, by omega⟩, hresult⟩
  case isFalse hamount =>
    constructor
    · exact fun hnone => nomatch hnone
    · rintro ⟨hbelow, -⟩
      exact absurd ⟨hbelow.1, by omega, by decide⟩ hamount

theorem shiftLeft_one (hwidth : 0 < width) (hbelow : 0 ≤ amount ∧ amount < width - 1) :
    shiftLeft width 1 amount = some (2 ^ amount.toNat) :=
  (shiftLeft_one_eq_some_iff hwidth).mpr ⟨hbelow, rfl⟩

end

end CheckedInt
