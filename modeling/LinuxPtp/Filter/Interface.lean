import LinuxPtp.Lib.Ring

/-!
# Filters

The calls of `struct PtpFilter`: samples and resets, in any order.  What a filter is
for depends on the samples since the last reset only.
-/

namespace LinuxPtp.Filter

/-- `struct PtpFilter`, on filters of one type. -/
structure PtpFilter (σ : Type) where
  sample : σ → Int64 → Int64 × σ
  reset : σ → σ

inductive Call where
  | sample (value : Int64)
  | reset
deriving DecidableEq, Repr

namespace PtpFilter

variable {σ : Type} (ops : PtpFilter σ)

def call (filter : σ) : Call → σ
  | .sample value => (ops.sample filter value).2
  | .reset => ops.reset filter

def run (filter : σ) (calls : List Call) : σ :=
  calls.foldl ops.call filter

end PtpFilter

/-- What a call does to the samples since the last reset. -/
def Call.record (history : List Int64) : Call → List Int64
  | .sample value => history ++ [value]
  | .reset => []

def sinceReset (calls : List Call) : List Int64 :=
  calls.foldl Call.record []

@[simp]
theorem sinceReset_concat_sample (calls : List Call) (value : Int64) :
    sinceReset (calls ++ [.sample value]) = sinceReset calls ++ [value] := by
  rw [sinceReset, List.foldl_append]
  rfl

@[simp]
theorem sinceReset_concat_reset (calls : List Call) :
    sinceReset (calls ++ [.reset]) = [] := by
  rw [sinceReset, List.foldl_append]
  rfl

/-- A relation to the samples since the last reset that each call keeps holds after
any calls. -/
theorem PtpFilter.run_keeps {σ : Type} {ops : PtpFilter σ}
    {holds : σ → List Int64 → Prop}
    (hsample : ∀ filter history value, holds filter history →
      holds (ops.sample filter value).2 (history ++ [value]))
    (hreset : ∀ filter history, holds filter history → holds (ops.reset filter) [])
    {filter : σ} (hstart : holds filter []) (calls : List Call) :
    holds (ops.run filter calls) (sinceReset calls) := by
  induction calls using List.reverseRecOn with
  | nil => exact hstart
  | append_singleton calls last ih =>
    rw [run, List.foldl_append]
    cases last with
    | sample value =>
      rw [sinceReset_concat_sample]
      exact hsample _ _ value ih
    | reset =>
      rw [sinceReset_concat_reset]
      exact hreset _ _ ih

end LinuxPtp.Filter
