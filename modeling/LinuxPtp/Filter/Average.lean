import LinuxPtp.Filter.Interface

/-!
# The moving average

`struct mave` of `ptpTimestampProc.c`: a sum kept up to date by taking off the value
that is written over and adding the new one.

The sum is kept in 64 bits and comes round, as in the compiled code: a difference that
leaves the range is made good by the value that is added next, so that only the sums of
whole windows have to fit.  Ageing, timers, synchronization intervals and the priority
queue are not so forgiving.  There a value that has left its range is compared, shifted
or used for an index, and the models have no result from then on.
-/

namespace LinuxPtp.Filter

open Ring

def FitsInt64 (value : ℤ) : Prop :=
  -2 ^ 63 ≤ value ∧ value < 2 ^ 63

instance (value : ℤ) : Decidable (FitsInt64 value) :=
  inferInstanceAs (Decidable (_ ∧ _))

/-- `tmv_div`: C's division, of a number of nanoseconds by an `int`. -/
def tmvDiv (ns : Int64) (divisor : ℕ) : Int64 :=
  ns / Int64.ofNat divisor

/-- `struct mave`; `val` is its array of `len` values. -/
structure Mave where
  cnt : ℕ
  len : ℕ
  index : ℕ
  sum : Int64
  val : ℕ → Int64

def maveAccumulate (m : Mave) (val : Int64) : Int64 × Mave :=
  let sum := m.sum - m.val m.index + val
  let cnt := if m.cnt < m.len then m.cnt + 1 else m.cnt
  (tmvDiv sum cnt,
    { m with
      cnt := cnt
      index := (1 + m.index) % m.len
      sum := sum
      val := Function.update m.val m.index val })

def maveReset (m : Mave) : Mave :=
  { m with
    cnt := 0
    index := 0
    sum := 0
    val := fun i => if i < m.len then 0 else m.val i }

/-- `_maveCreate`, with the memory for it. -/
def maveCreate (length : Int32) : Mave where
  cnt := 0
  len := length.toInt.toNat
  index := 0
  sum := 0
  val := fun _ => 0

def mave : PtpFilter Mave where
  sample := maveAccumulate
  reset := maveReset

/-! ## What the filter has of the samples -/

/-- The sum of the last samples, in the integers. -/
def windowSum (len : ℕ) (history : List Int64) : ℤ :=
  ((window len history).map Int64.toInt).sum

/-- The filter after the samples of a history. -/
structure Mave.Has (m : Mave) (history : List Int64) : Prop where
  len_pos : 0 < m.len
  cnt_eq : m.cnt = min history.length m.len
  index_eq : m.index = history.length % m.len
  held : Holds m.val m.len history
  unfilled : ∀ i, history.length ≤ i → i < m.len → m.val i = 0
  sum_eq : m.sum = Int64.ofInt (windowSum m.len history)

/-- What the sum loses and gains with a sample. -/
theorem Mave.Has.sum_sample {m : Mave} {history : List Int64} (hhas : m.Has history)
    (value : Int64) :
    windowSum m.len (history ++ [value]) =
      windowSum m.len history - (m.val m.index).toInt + value.toInt := by
  rcases Nat.lt_or_ge history.length m.len with hfew | hfull
  · have hindex : m.index = history.length := by
      rw [hhas.index_eq, Nat.mod_eq_of_lt hfew]
    rw [windowSum, windowSum, window_of_le hfew.le,
      window_of_le (by rw [List.length_append]; exact hfew), hindex,
      hhas.unfilled _ le_rfl hfew, List.map_append, List.sum_append]
    simp
  · rw [windowSum, windowSum, window_concat_full hhas.len_pos hfull,
      hhas.held.oldest hhas.len_pos hfull, ← hhas.index_eq]
    simp only [List.map_append, List.sum_append, List.map_cons, List.sum_cons,
      List.map_nil, List.sum_nil]
    ring

theorem maveAccumulate_has {m : Mave} {history : List Int64} (hhas : m.Has history)
    (value : Int64) :
    (maveAccumulate m value).2.Has (history ++ [value]) where
  len_pos := hhas.len_pos
  cnt_eq := by
    have hcnt := hhas.cnt_eq
    simp only [maveAccumulate, List.length_append, List.length_singleton]
    split <;> omega
  index_eq := by
    simp only [maveAccumulate, hhas.index_eq, List.length_append, List.length_singleton]
    rw [Nat.add_mod_mod, Nat.add_comm]
  held := by
    simp only [maveAccumulate, hhas.index_eq]
    exact hhas.held.concat value
  unfilled := by
    intro i hlast hlen
    rw [List.length_append, List.length_singleton] at hlast
    have hindex : i ≠ m.index := by
      have := Nat.mod_le history.length m.len
      have := hhas.index_eq
      omega
    simp only [maveAccumulate]
    rw [Function.update_of_ne hindex]
    exact hhas.unfilled i (by omega) hlen
  sum_eq := by
    simp only [maveAccumulate]
    rw [hhas.sum_sample, Int64.ofInt_add, Int64.ofInt_sub, Int64.ofInt_toInt,
      Int64.ofInt_toInt, hhas.sum_eq]

theorem maveReset_has {m : Mave} {history : List Int64} (hhas : m.Has history) :
    (maveReset m).Has [] where
  len_pos := hhas.len_pos
  cnt_eq := by simp [maveReset]
  index_eq := by simp [maveReset]
  held := holds_nil _ _
  unfilled := fun i _ hlen => if_pos hlen
  sum_eq := by simp [maveReset, windowSum, window]

theorem maveCreate_has {length : Int32} (hlength : 1 ≤ length) :
    (maveCreate length).Has [] where
  len_pos := by
    rw [Int32.le_iff_toInt_le] at hlength
    simp only [maveCreate]
    have : (1 : Int32).toInt = 1 := rfl
    omega
  cnt_eq := by simp [maveCreate]
  index_eq := by simp [maveCreate]
  held := holds_nil _ _
  unfilled := fun _ _ _ => rfl
  sum_eq := by simp [maveCreate, windowSum, window]

theorem mave_run_has {length : Int32} (hlength : 1 ≤ length) (calls : List Call) :
    (mave.run (maveCreate length) calls).Has (sinceReset calls) :=
  @PtpFilter.run_keeps _ mave Mave.Has
    (fun _ _ value hhas => maveAccumulate_has hhas value)
    (fun _ _ hhas => maveReset_has hhas) _ (maveCreate_has hlength) calls

theorem mave_run_len (length : Int32) (calls : List Call) :
    (mave.run (maveCreate length) calls).len = length.toInt.toNat := by
  induction calls using List.reverseRecOn with
  | nil => rfl
  | append_singleton calls last ih =>
    rw [PtpFilter.run, List.foldl_append]
    cases last <;> exact ih

/-! ## The mean of the window -/

theorem toInt_ofInt {value : ℤ} (hfits : FitsInt64 value) :
    (Int64.ofInt value).toInt = value :=
  Int64.toInt_ofInt_of_le hfits.1 hfits.2

theorem toInt_add {a b : Int64} (hfits : FitsInt64 (a.toInt + b.toInt)) :
    (a + b).toInt = a.toInt + b.toInt := by
  rw [← toInt_ofInt hfits, Int64.ofInt_add, Int64.ofInt_toInt, Int64.ofInt_toInt]

theorem toInt_tmvDiv (ns : Int64) {divisor : ℕ} (hint : divisor < 2 ^ 31) :
    (tmvDiv ns divisor).toInt = ns.toInt.tdiv divisor := by
  have hdivisor : (Int64.ofNat divisor).toInt = divisor :=
    Int64.toInt_ofNat_of_lt (by omega)
  have hnot : Int64.ofNat divisor ≠ -1 := by
    intro heq
    rw [heq, show (-1 : Int64).toInt = -1 from rfl] at hdivisor
    omega
  rw [tmvDiv, Int64.toInt_div_of_ne_right _ _ hnot, hdivisor]

def truncatedMean (values : List ℤ) : ℤ :=
  values.sum.tdiv values.length

/-- A sample returns the mean of the window that it makes, where its sum fits. -/
theorem Mave.Has.mean_eq {m : Mave} {history : List Int64} (hhas : m.Has history)
    (hint : m.len < 2 ^ 31) {value : Int64}
    (hfits : FitsInt64 (windowSum m.len (history ++ [value]))) :
    (maveAccumulate m value).1.toInt =
      truncatedMean ((window m.len (history ++ [value])).map Int64.toInt) := by
  have hnext := maveAccumulate_has hhas value
  have hcnt := hnext.cnt_eq
  have hsum := hnext.sum_eq
  rw [show (maveAccumulate m value).2.len = m.len from rfl] at hcnt hsum
  calc (maveAccumulate m value).1.toInt
      = (tmvDiv (maveAccumulate m value).2.sum (maveAccumulate m value).2.cnt).toInt := rfl
    _ = (windowSum m.len (history ++ [value])).tdiv
          ((min (history ++ [value]).length m.len : ℕ) : ℤ) := by
        rw [toInt_tmvDiv _ (by omega), hsum, hcnt, toInt_ofInt hfits]
    _ = truncatedMean ((window m.len (history ++ [value])).map Int64.toInt) := by
        rw [truncatedMean, List.length_map, length_window]
        rfl

/-- The sum kept is that of the last samples since the last reset, and the value
returned after a sample is their mean, wherever their sum is a 64-bit number. -/
theorem mave_mean {length : Int32} (hlength : 1 ≤ length) (calls : List Call)
    (value : Int64) :
    (FitsInt64 (windowSum length.toInt.toNat (sinceReset calls)) →
      (mave.run (maveCreate length) calls).sum.toInt =
        windowSum length.toInt.toNat (sinceReset calls)) ∧
    (FitsInt64 (windowSum length.toInt.toNat (sinceReset calls ++ [value])) →
      (mave.sample (mave.run (maveCreate length) calls) value).1.toInt =
        truncatedMean ((window length.toInt.toNat
          (sinceReset calls ++ [value])).map Int64.toInt)) := by
  have hhas := mave_run_has hlength calls
  have hlen := mave_run_len length calls
  have hint : (mave.run (maveCreate length) calls).len < 2 ^ 31 := by
    have := length.toInt_lt
    omega
  rw [← hlen]
  exact ⟨fun hfits => by rw [hhas.sum_eq, toInt_ofInt hfits], hhas.mean_eq hint⟩

/-- Two cells, a reset on the way, and a value written over. -/
theorem mave_mean_wrapped :
    (mave.run (maveCreate 2) [.sample 9, .reset, .sample 5, .sample (-8)]).sum.toInt
        = -3 ∧
      (mave.sample (mave.run (maveCreate 2)
        [.sample 9, .reset, .sample 5, .sample (-8)]) 3).1.toInt = -2 :=
  ⟨((@mave_mean 2 (by decide) [.sample 9, .reset, .sample 5, .sample (-8)] 3).1
      (by decide)).trans (by decide),
    ((@mave_mean 2 (by decide) [.sample 9, .reset, .sample 5, .sample (-8)] 3).2
      (by decide)).trans (by decide)⟩

end LinuxPtp.Filter
