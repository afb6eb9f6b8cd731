import LinuxPtp.Filter.Median

/-!
# Offsets between two clocks

A clock is read between two readings of the system clock, several times over, and the
quickest reading tells the offset.  `sysoff_estimate` sorts the readings that the kernel
has taken; `psysReadPhc` takes them itself and keeps the best so far.
-/

namespace LinuxPtp.Phc

/-! ## Readings -/

/-- `struct ptp_clock_time`, and `struct timespec` as a clock is read into it. -/
structure ClockTime where
  sec : Int64
  nsec : UInt32
  deriving DecidableEq, Repr

/-- `t->nsec` in the arithmetic of 64 bits. -/
def ClockTime.nsec64 (t : ClockTime) : Int64 :=
  t.nsec.toUInt64.toInt64

def pctns (t : ClockTime) : Int64 :=
  t.sec * 1000000000 + t.nsec64

structure Reading where
  before : ClockTime
  clock : ClockTime
  after : ClockTime
  deriving DecidableEq, Repr

namespace Reading

variable (r : Reading)

def t1 : ℤ := (pctns r.before).toInt
def tp : ℤ := (pctns r.clock).toInt
def t2 : ℤ := (pctns r.after).toInt

def duration : ℤ := r.t2 - r.t1

def midpointOffset : ℤ := (r.t1 + r.t2) / 2 - r.tp

def Ordered : Prop := 0 ≤ r.t1 ∧ r.t1 ≤ r.t2

end Reading

/-! ## `sysoff_estimate` -/

def ptpMaxSamples : ℕ := 25

/-- An entry of `samples`. -/
structure Sample where
  interval : Int64
  offset : Int64
  timestamp : UInt64
  deriving DecidableEq, Repr

/-- `insertion_sort`; the loop goes on at index `i - 1`. -/
def insertionSort (sample : Sample) : ℕ → (ℕ → Sample) → ℕ → Sample
  | 0, samples => Function.update samples 0 sample
  | i + 1, samples =>
      if (samples i).interval < sample.interval then
        Function.update samples (i + 1) sample
      else insertionSort sample i (Function.update samples (i + 1) (samples i))

def readingAt (pct : ℕ → ClockTime) (i : ℕ) : Reading :=
  ⟨pct (2 * i), pct (2 * i + 1), pct (2 * i + 2)⟩

def sampleOf (r : Reading) : Sample :=
  let t1 := pctns r.before
  let tp := pctns r.clock
  let t2 := pctns r.after
  { interval := t2 - t1
    offset := (t2 + t1) / 2 - tp
    timestamp := ((t2 + t1) / 2).toUInt64 }

def sysoffSamples (pct : ℕ → ClockTime) (samples : ℕ → Sample) : ℕ → ℕ → Sample
  | 0 => samples
  | n + 1 =>
      insertionSort (sampleOf (readingAt pct n)) n (sysoffSamples pct samples n)

/-- What the two functions tell their callers. -/
structure Estimate where
  offset : Int64
  ts : UInt64
  delay : Int64
  deriving DecidableEq, Repr

/-- `sysoff_estimate`; the array is left over from the last call. -/
def sysoffEstimate (pct : ℕ → ClockTime) (nSamples : ℕ) (samples : ℕ → Sample) :
    Estimate × (ℕ → Sample) :=
  let samples := sysoffSamples pct samples nSamples
  (⟨(samples 0).offset, (samples 0).timestamp, (samples 0).interval⟩, samples)

/-! ## `psysReadPhc` -/

def int64Max : Int64 := 9223372036854775807

/-- The interval that `psysReadPhc` computes of a reading. -/
def readInterval (r : Reading) : Int64 :=
  (r.after.sec - r.before.sec) * 1000000000 + r.after.nsec64 - r.before.nsec64

/-- The body of the loop; `best` has the best interval in its delay. -/
def readOnce (best : Estimate) (r : Reading) : Estimate :=
  let interval := readInterval r
  if interval < best.delay then
    { offset := (r.before.sec - r.clock.sec) * 1000000000 + r.before.nsec64 -
        r.clock.nsec64 + interval / 2
      ts := (r.after.sec * 1000000000 + r.after.nsec64).toUInt64
      delay := interval }
  else best

/-- The loop stops when a clock cannot be read. -/
def readLoop : List (Option Reading) → Estimate → Option Estimate × Estimate
  | [], best => (some best, best)
  | none :: _, best => (none, best)
  | some r :: rest, best => readLoop rest (readOnce best r)

/-- `psysReadPhc`, from what is in the variables of the caller: the return value, and
what is in them afterwards. -/
def psysReadPhc (readings : List (Option Reading)) (out : Estimate) : ℤ × Estimate :=
  match readLoop readings { out with delay := int64Max } with
  | (none, best) => (0, { best with delay := out.delay })
  | (some best, _) => (1, best)

end LinuxPtp.Phc
