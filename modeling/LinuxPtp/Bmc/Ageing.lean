import LinuxPtp.Lib.CheckedInt
import LinuxPtp.Bmc.ForeignMaster

/-!
# How long an Announce counts

An Announce counts for four of its intervals.  The interval is a power of two that comes
with the message, and `msg_current` computes the time with shifts of an `int`.  Here the
computation is followed step by step, and has no result where a step has none.
-/

namespace LinuxPtp.Bmc

open CheckedInt Wire

/-! ## The computation -/

def nsec2sec : ℤ := 10 ^ 9

/-- `tmo` of `msg_current`. -/
def announceTmo (logMessageInterval : ℤ) : Option ℤ :=
  if logMessageInterval < -63 then some 0
  else if logMessageInterval > 31 then some (2 ^ 63 - 1)
  else if logMessageInterval < 0 then do
    let four ← mul 64 4 nsec2sec
    let amount ← neg 32 logMessageInterval
    let divisor ← shiftLeft 32 1 amount
    div 64 four divisor
  else do
    let interval ← shiftLeft 32 1 logMessageInterval
    let four ← mul 64 4 interval
    mul 64 four nsec2sec

/-- `tv_sec * NSEC2SEC + tv_nsec`. -/
def timespecNs (time : Timespec) : Option ℤ := do
  let seconds ← mul 64 time.tvSec nsec2sec
  add 64 seconds time.tvNsec

/-- `msg_current`, where it has a meaning. -/
def msgCurrentChecked (now : Timespec) (m : Announce) : Option Bool := do
  let t1 ← timespecNs m.hostTime
  let t2 ← timespecNs now
  let tmo ← announceTmo m.logMessageInterval.toInt
  let age ← sub 64 t2 t1
  pure (age < tmo)

/-- The second loop of `fc_prune`, on the messages from the oldest on. -/
def dropStale (now : Timespec) : List Announce → Option (List Announce)
  | [] => some []
  | oldest :: rest =>
      (msgCurrentChecked now oldest).bind fun current =>
        if current then some (oldest :: rest) else dropStale now rest

/-- `fc_prune`, where it has a meaning. -/
def fcPruneChecked (now : Timespec) (messages : List Announce) :
    Option (List Announce) :=
  (dropStale now (messages.take foreignMasterThreshold).reverse).map List.reverse

/-! ## The purpose -/

/-- Four times 2ⁿ seconds in whole nanoseconds; above 31 there is no limit. -/
def fourIntervals (n : ℤ) : Option ℤ :=
  if 31 < n then none
  else if 0 ≤ n then some (4 * 2 ^ n.toNat * nsec2sec)
  else some (4 * nsec2sec / 2 ^ (-n).toNat)

def fresh (now : Timespec) (m : Announce) : Bool :=
  match fourIntervals m.logMessageInterval.toInt with
  | none => true
  | some time => decide (nanoseconds now - nanoseconds m.hostTime < time)

structure IsReading (time : Timespec) : Prop where
  sec_nonneg : 0 ≤ time.tvSec
  nsec_nonneg : 0 ≤ time.tvNsec
  nsec_lt : time.tvNsec < 10 ^ 9
  fits : nanoseconds time < 2 ^ 63

instance (time : Timespec) : Decidable (IsReading time) :=
  decidable_of_iff
    (0 ≤ time.tvSec ∧ 0 ≤ time.tvNsec ∧ time.tvNsec < 10 ^ 9 ∧ nanoseconds time < 2 ^ 63)
    ⟨fun ⟨h₁, h₂, h₃, h₄⟩ => ⟨h₁, h₂, h₃, h₄⟩, fun h => ⟨h.1, h.2, h.3, h.4⟩⟩

/-- Every message is current as long as it is fresh, and of the two newest pruning keeps
exactly those that are. -/
def AgesExactly (now : Timespec) (messages : List Announce) : Prop :=
  (∀ m ∈ messages, msgCurrentChecked now m = some (fresh now m)) ∧
    fcPruneChecked now messages =
      some ((messages.take foreignMasterThreshold).filter (fresh now))

/-- The interval is one with which the computation goes through. -/
def Ageable (now : Timespec) (m : Announce) : Prop :=
  m.logMessageInterval.toInt ≤ -64 ∨
    (-30 ≤ m.logMessageInterval.toInt ∧ m.logMessageInterval.toInt ≤ 30) ∨
    (32 ≤ m.logMessageInterval.toInt ∧
      nanoseconds now - nanoseconds m.hostTime < 2 ^ 63 - 1)

instance (now : Timespec) (m : Announce) : Decidable (Ageable now m) :=
  inferInstanceAs (Decidable (_ ∨ _))

/-! ## One message -/

section

variable {now : Timespec} {m : Announce} {n : ℤ}

theorem timespecNs_eq {time : Timespec} (hreading : IsReading time) :
    timespecNs time = some (nanoseconds time) := by
  obtain ⟨hsec, hnsec, -, hfits⟩ := hreading
  unfold nanoseconds at hfits
  have hseconds : InRange 64 (time.tvSec * nsec2sec) := by
    unfold InRange nsec2sec
    constructor <;> omega
  have hsum : InRange 64 (time.tvSec * nsec2sec + time.tvNsec) := by
    unfold InRange nsec2sec
    constructor <;> omega
  simp only [timespecNs, mul, add, checked_of_inRange hseconds, Option.bind_eq_bind,
    Option.bind_some, checked_of_inRange hsum]
  rfl

/-- A product of a small factor and `NSEC2SEC` fits. -/
theorem inRange_mul_nsec2sec {a : ℤ} (hnonneg : 0 ≤ a) (hle : a ≤ 2 ^ 32) :
    InRange 64 (a * nsec2sec) := by
  have hfactor : (0 : ℤ) ≤ nsec2sec := by decide
  have hproduct : a * nsec2sec ≤ 2 ^ 32 * nsec2sec :=
    mul_le_mul_of_nonneg_right hle hfactor
  have hlow : (-2 ^ (64 - 1) : ℤ) ≤ 0 := by decide
  have hhigh : (2 ^ 32 * nsec2sec : ℤ) < 2 ^ (64 - 1) := by decide
  exact ⟨hlow.trans (mul_nonneg hnonneg hfactor), hproduct.trans_lt hhigh⟩

/-- A positive logarithm that does not reach the sign. -/
theorem announceTmo_pos (hn : 0 ≤ n) (hle : n ≤ 30) :
    announceTmo n = some (4 * 2 ^ n.toNat * nsec2sec) := by
  have hpos : (0 : ℤ) < 2 ^ n.toNat := by positivity
  have hpow : (2 : ℤ) ^ n.toNat ≤ 2 ^ 30 :=
    pow_le_pow_right₀ (by decide) (show n.toNat ≤ 30 by omega)
  have hfour : InRange 64 (4 * 2 ^ n.toNat) := ⟨by omega, by omega⟩
  have hproduct : InRange 64 (4 * 2 ^ n.toNat * nsec2sec) :=
    inRange_mul_nsec2sec (by omega) (by omega)
  rw [announceTmo, if_neg (by omega), if_neg (by omega), if_neg (by omega),
    shiftLeft_one (by decide) ⟨hn, by omega⟩, Option.bind_eq_bind, Option.bind_some,
    mul, checked_of_inRange hfour, Option.bind_some, mul, checked_of_inRange hproduct]

/-- A negative logarithm that does not reach the sign. -/
theorem announceTmo_neg (hn : n < 0) (hge : -30 ≤ n) :
    announceTmo n = some (4 * nsec2sec / 2 ^ (-n).toNat) := by
  have hpos : (0 : ℤ) < 2 ^ (-n).toNat := by positivity
  have hquotient : InRange 64 (4 * nsec2sec / 2 ^ (-n).toNat) := by
    have hnonneg : (0 : ℤ) ≤ 4 * nsec2sec / 2 ^ (-n).toNat :=
      Int.ediv_nonneg (by decide) hpos.le
    have hle : 4 * nsec2sec / 2 ^ (-n).toNat ≤ 4 * nsec2sec :=
      Int.ediv_le_self _ (by decide)
    have hlow : (-2 ^ (64 - 1) : ℤ) ≤ 0 := by decide
    have hhigh : (4 * nsec2sec : ℤ) < 2 ^ (64 - 1) := by decide
    exact ⟨hlow.trans hnonneg, hle.trans_lt hhigh⟩
  rw [announceTmo, if_neg (by omega), if_neg (by omega), if_pos hn, mul,
    checked_of_inRange (show InRange 64 (4 * nsec2sec) by decide), Option.bind_eq_bind,
    Option.bind_some, neg,
    checked_of_inRange (show InRange 32 (-n) from ⟨by omega, by omega⟩),
    Option.bind_some, @shiftLeft_one 32 (-n) (by decide) ⟨by omega, by omega⟩,
    Option.bind_some, div, if_neg hpos.ne',
    Int.tdiv_eq_ediv_of_nonneg (show 0 ≤ 4 * nsec2sec by decide),
    checked_of_inRange hquotient]

/-- The shift reaches the sign, or its amount the width. -/
theorem announceTmo_none (hn : -63 ≤ n ∧ n ≤ -31 ∨ n = 31) : announceTmo n = none := by
  rw [announceTmo, if_neg (by omega), if_neg (by omega)]
  have hshift : ∀ amount : ℤ, 31 ≤ amount → shiftLeft 32 1 amount = none := by
    intro amount hlarge
    rw [Option.eq_none_iff_forall_ne_some]
    intro result hresult
    have := ((shiftLeft_one_eq_some_iff (by decide)).mp hresult).1
    omega
  rcases hn with hn | rfl
  · rw [if_pos (by omega)]
    simp only [mul, neg, Option.bind_eq_bind,
      checked_of_inRange (show InRange 64 (4 * nsec2sec) by decide), Option.bind_some,
      checked_of_inRange (show InRange 32 (-n) from ⟨by omega, by omega⟩),
      hshift (-n) (by omega), Option.bind_none]
  · rw [if_neg (by decide), hshift 31 le_rfl]
    rfl

theorem msgCurrentChecked_eq (hnow : IsReading now) (hhost : IsReading m.hostTime)
    (hle : nanoseconds m.hostTime ≤ nanoseconds now) :
    msgCurrentChecked now m = (announceTmo m.logMessageInterval.toInt).map fun tmo =>
      decide (nanoseconds now - nanoseconds m.hostTime < tmo) := by
  have hzero : 0 ≤ nanoseconds m.hostTime := by
    have := hhost.sec_nonneg
    have := hhost.nsec_nonneg
    unfold nanoseconds
    omega
  have hage : InRange 64 (nanoseconds now - nanoseconds m.hostTime) := by
    have := hnow.fits
    unfold InRange
    omega
  rw [msgCurrentChecked, timespecNs_eq hhost, timespecNs_eq hnow]
  simp only [Option.bind_eq_bind, Option.bind_some, sub, checked_of_inRange hage]
  cases announceTmo m.logMessageInterval.toInt <;> rfl

/-- Beyond the nanosecond nothing is left of the interval. -/
theorem fourIntervals_tiny (hn : n ≤ -64) : fourIntervals n = some 0 := by
  have hpow : (2 : ℤ) ^ 64 ≤ 2 ^ (-n).toNat :=
    pow_le_pow_right₀ (by decide) (show 64 ≤ (-n).toNat by omega)
  have hsmall : (4 * nsec2sec : ℤ) < 2 ^ 64 := by decide
  rw [fourIntervals, if_neg (by omega), if_neg (by omega),
    Int.ediv_eq_zero_of_lt (by decide) (hsmall.trans_le hpow)]

theorem announceTmo_eq_fourIntervals (hn : n ≤ -64 ∨ -30 ≤ n ∧ n ≤ 30) :
    announceTmo n = fourIntervals n := by
  rcases hn with hn | ⟨hge, hle⟩
  · rw [fourIntervals_tiny hn, announceTmo, if_pos (by omega)]
  · rcases lt_or_ge n 0 with hneg | hnonneg
    · rw [announceTmo_neg hneg hge, fourIntervals, if_neg (by omega), if_neg (by omega)]
    · rw [announceTmo_pos hnonneg hle, fourIntervals, if_neg (by omega), if_pos hnonneg]

theorem fresh_of_fourIntervals {time : ℤ}
    (htime : fourIntervals m.logMessageInterval.toInt = some time) :
    fresh now m = decide (nanoseconds now - nanoseconds m.hostTime < time) := by
  rw [fresh, htime]

theorem fourIntervals_isSome (hn : n ≤ 31) : ∃ time, fourIntervals n = some time := by
  rw [fourIntervals, if_neg (by omega)]
  split <;> exact ⟨_, rfl⟩

theorem fresh_of_large (hlarge : 31 < m.logMessageInterval.toInt) :
    fresh now m = true := by
  rw [fresh, fourIntervals, if_pos hlarge]

/-- The computation finds what it should for the intervals that it can shift by. -/
theorem msgCurrentChecked_eq_fresh_iff (hnow : IsReading now)
    (hhost : IsReading m.hostTime)
    (hle : nanoseconds m.hostTime ≤ nanoseconds now) :
    msgCurrentChecked now m = some (fresh now m) ↔ Ageable now m := by
  rw [msgCurrentChecked_eq hnow hhost hle, Ageable]
  generalize hn : m.logMessageInterval.toInt = n
  by_cases hexact : n ≤ -64 ∨ -30 ≤ n ∧ n ≤ 30
  · obtain ⟨time, htime⟩ := @fourIntervals_isSome n (by omega)
    rw [announceTmo_eq_fourIntervals hexact, htime,
      fresh_of_fourIntervals (by rw [hn, htime])]
    exact iff_of_true rfl (by tauto)
  by_cases hlarge : 31 < n
  · have htmo : announceTmo n = some (2 ^ 63 - 1) := by
      rw [announceTmo, if_neg (by omega), if_pos hlarge]
    rw [htmo, fresh_of_large (by omega), Option.map_some, Option.some_inj,
      decide_eq_true_iff]
    omega
  · rw [announceTmo_none (by omega)]
    exact iff_of_false (by simp) (by omega)

/-- Where the computation goes through it does not depend on the machine. -/
theorem msgCurrent_eq_fresh (host : BmcHost) (hageable : Ageable now m) :
    msgCurrent host now m = fresh now m := by
  by_cases hlarge : 31 < m.logMessageInterval.toInt
  · rw [fresh_of_large hlarge, msgCurrent, announceLifetime, if_neg (by omega),
      if_pos hlarge]
  have hlifetime : announceLifetime host m.logMessageInterval.toInt =
      fourIntervals m.logMessageInterval.toInt := by
    rcases hageable with hn | ⟨hge, hle⟩ | ⟨hn, -⟩
    · rw [fourIntervals_tiny hn, announceLifetime, if_pos (by omega)]
    · rw [announceLifetime, fourIntervals, if_neg (by omega), if_neg hlarge, if_neg hlarge]
      split
      · rw [if_neg (by omega), intShift, if_pos (by omega),
          Int.tdiv_eq_ediv_of_nonneg (by decide)]
        rfl
      · rw [if_pos (by omega), intShift, if_pos (by omega)]
        rfl
    · omega
  cases htime : fourIntervals m.logMessageInterval.toInt with
  | none => simp only [msgCurrent, fresh, hlifetime, htime]
  | some time => simp only [msgCurrent, fresh, hlifetime, htime]

end

/-! ## The messages of a record -/

section

variable {now : Timespec} {messages : List Announce}

theorem dropStale_eq {current : Announce → Bool}
    (hcurrent : ∀ m ∈ messages, msgCurrentChecked now m = some (current m)) :
    dropStale now messages = some (messages.dropWhile fun m => !current m) := by
  induction messages with
  | nil => rfl
  | cons oldest rest ih =>
    obtain ⟨holdest, hrest⟩ := List.forall_mem_cons.mp hcurrent
    rw [dropStale, holdest, Option.bind_some, List.dropWhile_cons]
    cases current oldest with
    | true => rfl
    | false => exact ih hrest

theorem fcPruneChecked_eq {current : Announce → Bool}
    (hcurrent : ∀ m ∈ messages, msgCurrentChecked now m = some (current m)) :
    fcPruneChecked now messages =
      some ((messages.take foreignMasterThreshold).rdropWhile fun m => !current m) := by
  have hkept : ∀ m ∈ (messages.take foreignMasterThreshold).reverse,
      msgCurrentChecked now m = some (current m) :=
    fun m hm => hcurrent m (List.mem_of_mem_take (List.mem_reverse.mp hm))
  rw [fcPruneChecked, dropStale_eq hkept]
  rfl

/-- Dropping from the end leaves what holds exactly where nothing that holds stands
behind something that does not. -/
theorem rdropWhile_eq_filter_iff {α : Type*} {p : α → Bool} {l : List α} :
    (l.rdropWhile fun a => !p a) = l.filter p ↔
      l.Pairwise fun a b => p b = true → p a = true := by
  induction l using List.reverseRecOn with
  | nil => simp
  | append_singleton l x ih =>
    rw [List.rdropWhile_concat, List.filter_append, List.pairwise_append]
    cases hx : p x with
    | false => simp [hx, ih]
    | true =>
      have hall : l = l.filter p ↔ ∀ a ∈ l, p a = true := by
        rw [eq_comm, List.filter_eq_self]
      simp only [hx, Bool.not_true, Bool.false_eq_true, if_false, List.filter_cons_of_pos,
        List.filter_nil, List.append_left_inj, hall, List.pairwise_singleton, true_and,
        List.mem_singleton, forall_eq, forall_const]
      exact ⟨fun h => ⟨List.pairwise_of_forall_mem_list fun a ha _ _ _ => h a ha, h⟩,
        And.right⟩

/-- Ageing is exact for the intervals that the computation can shift by, and pruning where
besides no message is stale before an older one. -/
theorem agesExactly_iff (hnow : IsReading now)
    (hhost : ∀ m ∈ messages, IsReading m.hostTime)
    (hle : ∀ m ∈ messages, nanoseconds m.hostTime ≤ nanoseconds now) :
    AgesExactly now messages ↔
      (∀ m ∈ messages, Ageable now m) ∧
        (messages.take foreignMasterThreshold).Pairwise fun newer older =>
          fresh now older = true → fresh now newer = true := by
  have heach : (∀ m ∈ messages, msgCurrentChecked now m = some (fresh now m)) ↔
      ∀ m ∈ messages, Ageable now m :=
    forall₂_congr fun m hm =>
      msgCurrentChecked_eq_fresh_iff hnow (hhost m hm) (hle m hm)
  rw [AgesExactly, ← heach]
  refine and_congr_right fun hcurrent => ?_
  rw [fcPruneChecked_eq hcurrent, Option.some_inj, rdropWhile_eq_filter_iff]

def fifthSecond (logMessageInterval : Int8) : Announce where
  cell := 0
  sourcePortIdentity := ⟨⟨#v[0x00, 0x1b, 0x19, 0xff, 0xfe, 0, 0, 1]⟩, 1⟩
  timeFlags := 0
  logMessageInterval := logMessageInterval
  hostTime := ⟨5, 0⟩
  currentUtcOffset := 37
  grandmasterPriority1 := 128
  grandmasterClockQuality := ⟨248, 0xfe, 0xffff⟩
  grandmasterPriority2 := 128
  grandmasterIdentity := ⟨#v[0x00, 0x1b, 0x19, 0xff, 0xfe, 0, 0, 1]⟩
  stepsRemoved := 0
  timeSource := 0xa0

/-- The messages of a master that is heard after four silent seconds. -/
def sparseMessages : List Announce :=
  [fifthSecond 0, { fifthSecond 0 with hostTime := ⟨1, 0⟩ },
    { fifthSecond 0 with hostTime := ⟨0, 500⟩ }]

/-- The older ones are more than four intervals old, and only the newest stays. -/
theorem agesExactly_sparseMessages :
    AgesExactly ⟨6, 500⟩ sparseMessages ∧
      fcPruneChecked ⟨6, 500⟩ sparseMessages = some [fifthSecond 0] :=
  ⟨(agesExactly_iff (by decide) (by decide) (by decide)).mpr (by decide), by decide⟩

theorem not_agesExactly_fifthSecond :
    IsReading ⟨5, 0⟩ ∧ ¬AgesExactly ⟨5, 0⟩ [fifthSecond 31] := by
  refine ⟨by decide, fun hages => ?_⟩
  exact absurd (hages.1 (fifthSecond 31) (by decide)) (by decide)

/-- Where the computation goes through, every machine prunes so. -/
theorem fcPruneChecked_eq_fcPrune (host : BmcHost) (hnow : IsReading now)
    (hhost : ∀ m ∈ messages, IsReading m.hostTime)
    (hle : ∀ m ∈ messages, nanoseconds m.hostTime ≤ nanoseconds now)
    (hageable : ∀ m ∈ messages, Ageable now m) :
    fcPruneChecked now messages = some (fcPrune host now messages) := by
  refine fcPruneChecked_eq fun m hm => ?_
  rw [msgCurrent_eq_fresh host (hageable m hm)]
  exact (msgCurrentChecked_eq_fresh_iff hnow (hhost m hm) (hle m hm)).mpr (hageable m hm)

end

end LinuxPtp.Bmc
