import Mathlib

/-!
# Leap seconds

A source announces a leap second in the hours before midnight, and some time around
midnight withdraws the announcement and moves its offset to UTC.  `leap_second_status`
corrects what the source says too early or too late: the system clock leaps at midnight,
and once.
-/

namespace LinuxPtp.Clock

/-! ## The functions -/

def nsPerSec : ℕ := 10 ^ 9

def nsPerHour : ℕ := 3600 * nsPerSec

def nsPerDay : ℕ := 24 * nsPerHour

/-- The last second before midnight. -/
def isUtcAmbiguous (ts : ℕ) : Bool :=
  nsPerDay - ts % nsPerDay ≤ nsPerSec

/-- What `leap_second_status` returns, and what it leaves in its two arguments. -/
structure LeapStatus where
  status : ℤ
  leap : ℤ
  utcOffset : ℤ
  deriving DecidableEq, Repr

def leapSecondStatus (ts : ℕ) (leapSet leap utcOffset : ℤ) : LeapStatus :=
  let status :=
    if 6 * nsPerHour < ts % nsPerDay then if leapSet = 0 then leap else leapSet
    else if leapSet ≠ 0 then 0 else leapSet
  if leap = 0 ∧ status ≠ 0 then ⟨status, status, utcOffset - status⟩
  else if leap ≠ 0 ∧ status = 0 then ⟨status, status, utcOffset + leap⟩
  else ⟨status, leap, utcOffset⟩

/-- The results for successive samples of a source, each fed back with the next. -/
def feed (source : ℕ → ℤ × ℤ) : ℤ → List ℕ → List LeapStatus
  | _, [] => []
  | leapSet, ts :: rest =>
      let result := leapSecondStatus ts leapSet (source ts).1 (source ts).2
      result :: feed source result.status rest

/-- Which of the two ways the clock is told that it leaps, and its offset to TAI. -/
inductive UtcCall
  | sysclkSetLeap (leap : ℤ)
  | servoLeap (leap : ℤ)
  | sysclkSetTaiOffset (offset : ℤ)
  deriving DecidableEq, Repr

/-- The part that `clock_utc_correct` and `_psysClockHandleLeap` share; none where the
update is suspended. -/
def handleLeap (kernelLeap : Bool) (ts : ℕ) (leapSet leap utcOffset : ℤ) :
    Option (LeapStatus × List UtcCall) :=
  if isUtcAmbiguous ts then none
  else
    let result := leapSecondStatus ts leapSet leap utcOffset
    let call := if kernelLeap then .sysclkSetLeap result.status else .servoLeap result.status
    some (result, if leapSet ≠ result.status then [call] else [])

/-- What `clock_utc_correct` reads and does not write. -/
structure UtcClock where
  utcTimescale : Bool
  realtime : Bool
  kernelLeap : Bool
  servoUnlocked : Bool
  flags : UInt8
  utcOffset : ℤ
  deriving DecidableEq, Repr

/-- What `clock_utc_correct` writes. -/
structure UtcState where
  leapSet : ℤ
  utcOffsetSet : ℤ
  masterOffset : Int64
  deriving DecidableEq, Repr

namespace UtcClock

def leap61 : UInt8 := 1

def leap59 : UInt8 := 2

def utcOffValid : UInt8 := 4

def ptpTimescale : UInt8 := 8

def timeTraceable : UInt8 := 16

def has (c : UtcClock) (flag : UInt8) : Bool := c.flags &&& flag ≠ 0

def leap (c : UtcClock) : ℤ :=
  if c.has leap61 then 1 else if c.has leap59 then -1 else 0

/-- `ts`: the time of the sample, or the one to which the clock will be stepped. -/
def time (c : UtcClock) (ingress : Int64) (s : UtcState) : UInt64 :=
  if c.servoUnlocked then
    let ts := (ingress - s.masterOffset).toUInt64
    if c.has ptpTimescale then ts - (Int64.ofInt (c.utcOffset * nsPerSec)).toUInt64 else ts
  else ingress.toUInt64

/-- `clock_utc_correct` behind the leap second. -/
def setOffset (c : UtcClock) (utcOffset : ℤ) (s : UtcState) : UtcState × List UtcCall :=
  let set : Bool := c.has utcOffValid && c.has timeTraceable &&
    s.utcOffsetSet ≠ utcOffset && c.realtime
  let s := if set then { s with utcOffsetSet := utcOffset } else s
  let s :=
    if c.has ptpTimescale then
      { s with masterOffset := s.masterOffset + Int64.ofInt (utcOffset * nsPerSec) }
    else s
  (s, if set then [.sysclkSetTaiOffset utcOffset] else [])

end UtcClock

/-- `clock_utc_correct`, and what it tells the clock; none where it returns -1. -/
def clockUtcCorrect (c : UtcClock) (ingress : Int64) (s : UtcState) :
    Option (UtcState × List UtcCall) :=
  if !c.utcTimescale then some (s, [])
  else if (c.leap ≠ 0 ∨ s.leapSet ≠ 0) ∧ c.realtime then
    (handleLeap c.kernelLeap (c.time ingress s).toNat s.leapSet c.leap c.utcOffset).map
      fun (result, calls) =>
        let (s, others) := c.setOffset result.utcOffset { s with leapSet := result.status }
        (s, calls ++ others)
  else some (c.setOffset c.utcOffset s)

/-! ## The purpose -/

/-- A leap second of the given sign at midnight.  Its announcement comes at most twelve
hours before, and goes with the change of the offset at most six hours after. -/
structure LeapSecond where
  midnight : ℕ
  sign : ℤ
  offset : ℤ
  announced : ℕ
  withdrawn : ℕ
  day : nsPerDay ∣ midnight
  leaps : sign = 1 ∨ sign = -1
  notEarly : midnight ≤ announced + 12 * nsPerHour
  notLate : withdrawn ≤ midnight + 6 * nsPerHour

namespace LeapSecond

variable (leap : LeapSecond)

/-- The flag and the offset that the source shows. -/
def shown (ts : ℕ) : ℤ × ℤ :=
  (if leap.announced ≤ ts ∧ ts < leap.withdrawn then leap.sign else 0,
    if ts < leap.withdrawn then leap.offset else leap.offset + leap.sign)

def corrected (ts : ℕ) : LeapStatus :=
  let pending := if leap.announced ≤ ts ∧ ts < leap.midnight then leap.sign else 0
  ⟨pending, pending, if ts < leap.midnight then leap.offset else leap.offset + leap.sign⟩

end LeapSecond

def entries (value : ℤ) : ℤ → List ℤ → ℕ
  | _, [] => 0
  | before, now :: rest =>
      (if now = value ∧ before ≠ value then 1 else 0) + entries value now rest

/-! ## The caller -/

/-- Outside the last second of a day a clock that runs in UTC feeds the status back, and
corrects by the offset that goes with it. -/
theorem clockUtcCorrect_eq {c : UtcClock} {ingress : Int64} {s : UtcState}
    (hutc : c.utcTimescale) (hrealtime : c.realtime)
    (hclear : ¬isUtcAmbiguous (c.time ingress s).toNat) :
    let result :=
      leapSecondStatus (c.time ingress s).toNat s.leapSet c.leap c.utcOffset
    (clockUtcCorrect c ingress s).map Prod.fst =
      some (c.setOffset result.utcOffset { s with leapSet := result.status }).1 := by
  intro result
  by_cases hleap : c.leap ≠ 0 ∨ s.leapSet ≠ 0
  · rw [clockUtcCorrect, if_neg (by simp [hutc]), if_pos ⟨hleap, hrealtime⟩, handleLeap,
      if_neg hclear]
    rfl
  · obtain ⟨hnone, hunset⟩ := not_or.mp hleap
    rw [not_not] at hnone hunset
    have hresult : result = ⟨0, 0, c.utcOffset⟩ := by
      simp [result, leapSecondStatus, hnone, hunset]
    rw [clockUtcCorrect, if_neg (by simp [hutc]), if_neg (by tauto), hresult, ← hunset]
    rfl

/-! ## One sample -/

section

variable {leap : LeapSecond} {ts : ℕ}

theorem late_of_before (hannounced : leap.announced ≤ ts) (hbefore : ts < leap.midnight) :
    6 * nsPerHour < ts % nsPerDay := by
  obtain ⟨days, hdays⟩ := leap.day
  have hnotEarly := leap.notEarly
  unfold nsPerDay nsPerHour nsPerSec at *
  omega

theorem early_of_after (hafter : leap.midnight ≤ ts)
    (hsoon : ts ≤ leap.midnight + 6 * nsPerHour) : ¬6 * nsPerHour < ts % nsPerDay := by
  obtain ⟨days, hdays⟩ := leap.day
  unfold nsPerDay nsPerHour nsPerSec at *
  omega

theorem LeapSecond.sign_ne_zero : leap.sign ≠ 0 := by
  have := leap.leaps
  omega

/-- Before the announcement nothing is pending. -/
theorem status_unannounced (hunannounced : ts < leap.announced)
    (hbefore : ts < leap.midnight) (hshown : ts < leap.withdrawn) :
    leapSecondStatus ts 0 (leap.shown ts).1 (leap.shown ts).2 = leap.corrected ts := by
  simp [leapSecondStatus, LeapSecond.shown, LeapSecond.corrected, hbefore, hshown,
    show ¬leap.announced ≤ ts by omega]

/-- The announcement is taken up while it is shown before midnight. -/
theorem status_taken (hannounced : leap.announced ≤ ts) (hbefore : ts < leap.midnight)
    (hshown : ts < leap.withdrawn) :
    leapSecondStatus ts 0 (leap.shown ts).1 (leap.shown ts).2 = leap.corrected ts := by
  simp [leapSecondStatus, LeapSecond.shown, LeapSecond.corrected, hannounced, hbefore,
    hshown, late_of_before hannounced hbefore, leap.sign_ne_zero]

/-- Once taken up it is kept until midnight, also where it is withdrawn too early. -/
theorem status_kept (hannounced : leap.announced ≤ ts) (hbefore : ts < leap.midnight) :
    leapSecondStatus ts leap.sign (leap.shown ts).1 (leap.shown ts).2 =
      leap.corrected ts := by
  have hlate := late_of_before hannounced hbefore
  by_cases hshown : ts < leap.withdrawn
  · simp [leapSecondStatus, LeapSecond.shown, LeapSecond.corrected, hannounced, hbefore,
      hshown, hlate, leap.sign_ne_zero]
  · simp [leapSecondStatus, LeapSecond.shown, LeapSecond.corrected, hannounced, hbefore,
      hshown, hlate, leap.sign_ne_zero]

/-- It is over at the first sample after midnight, also where it is withdrawn too late. -/
theorem status_over (hannounced : leap.announced ≤ ts) (hafter : leap.midnight ≤ ts)
    (hsoon : ts ≤ leap.midnight + 6 * nsPerHour) (leapSet : ℤ) :
    leapSecondStatus ts leapSet (leap.shown ts).1 (leap.shown ts).2 =
      leap.corrected ts := by
  have hearly := early_of_after hafter hsoon
  have hmidnight : ¬ts < leap.midnight := not_lt.mpr hafter
  by_cases hshown : ts < leap.withdrawn
  · simp [leapSecondStatus, LeapSecond.shown, LeapSecond.corrected, hannounced, hmidnight,
      hshown, hearly, leap.sign_ne_zero]
  · simp [leapSecondStatus, LeapSecond.shown, LeapSecond.corrected, hmidnight, hshown, hearly]

/-- Hours later the source has withdrawn it. -/
theorem status_after (hafter : leap.midnight + 6 * nsPerHour < ts) :
    leapSecondStatus ts 0 (leap.shown ts).1 (leap.shown ts).2 = leap.corrected ts := by
  have hwithdrawn : ¬ts < leap.withdrawn := by
    have := leap.notLate
    omega
  have hmidnight : ¬ts < leap.midnight := by omega
  simp [leapSecondStatus, LeapSecond.shown, LeapSecond.corrected, hwithdrawn, hmidnight]

theorem pending_before (hannounced : leap.announced ≤ ts) (hbefore : ts < leap.midnight) :
    (leap.corrected ts).status = leap.sign :=
  if_pos ⟨hannounced, hbefore⟩

theorem pending_unannounced (hunannounced : ts < leap.announced) :
    (leap.corrected ts).status = 0 :=
  if_neg (by omega)

theorem pending_after (hafter : leap.midnight ≤ ts) : (leap.corrected ts).status = 0 :=
  if_neg (by omega)

end

/-! ## Runs of samples -/

/-- From a status on the results are right, and the sign and zero are entered so often. -/
structure LeapSecond.Followed (leap : LeapSecond) (before : ℤ) (samples : List ℕ)
    (signs zeros : ℕ) : Prop where
  results : feed leap.shown before samples = samples.map leap.corrected
  signs : entries leap.sign before (samples.map fun ts => (leap.corrected ts).status) = signs
  zeros : entries 0 before (samples.map fun ts => (leap.corrected ts).status) = zeros

section

variable {leap : LeapSecond} {before : ℤ} {ts : ℕ} {samples : List ℕ} {signs zeros : ℕ}

theorem LeapSecond.Followed.cons {now : ℤ}
    (hstatus : leapSecondStatus ts before (leap.shown ts).1 (leap.shown ts).2 =
      leap.corrected ts)
    (hnow : (leap.corrected ts).status = now)
    (hrest : leap.Followed now samples signs zeros) :
    leap.Followed before (ts :: samples)
      ((if now = leap.sign ∧ before ≠ leap.sign then 1 else 0) + signs)
      ((if now = 0 ∧ before ≠ 0 then 1 else 0) + zeros) where
  results := by rw [feed, hstatus, hnow, hrest.results, List.map_cons]
  signs := by rw [List.map_cons, entries, hnow, hrest.signs]
  zeros := by rw [List.map_cons, entries, hnow, hrest.zeros]

/-- After midnight nothing happens any more. -/
theorem followed_after (hannounced : ∀ ts ∈ samples, leap.announced ≤ ts)
    (hafter : ∀ ts ∈ samples, leap.midnight ≤ ts) : leap.Followed 0 samples 0 0 := by
  induction samples with
  | nil => exact ⟨rfl, rfl, rfl⟩
  | cons ts rest ih =>
    obtain ⟨hannouncedTs, hannouncedRest⟩ := List.forall_mem_cons.mp hannounced
    obtain ⟨hafterTs, hafterRest⟩ := List.forall_mem_cons.mp hafter
    have hstatus : leapSecondStatus ts 0 (leap.shown ts).1 (leap.shown ts).2 =
        leap.corrected ts := by
      rcases le_or_gt ts (leap.midnight + 6 * nsPerHour) with hsoon | hlater
      · exact status_over hannouncedTs hafterTs hsoon 0
      · exact status_after hlater
    have hcons := LeapSecond.Followed.cons hstatus (pending_after hafterTs)
      (ih hannouncedRest hafterRest)
    simpa [leap.sign_ne_zero.symm] using hcons

/-- Once the sign is taken up, the leap is over at the first sample after midnight. -/
theorem followed_pending (hsorted : samples.Pairwise (· ≤ ·))
    (hannounced : ∀ ts ∈ samples, leap.announced ≤ ts)
    (hsoon : ∃ ts ∈ samples, leap.midnight ≤ ts ∧ ts ≤ leap.midnight + 6 * nsPerHour) :
    leap.Followed leap.sign samples 0 1 := by
  induction samples with
  | nil => simp at hsoon
  | cons ts rest ih =>
    obtain ⟨hannouncedTs, hannouncedRest⟩ := List.forall_mem_cons.mp hannounced
    obtain ⟨hfirst, hsortedRest⟩ := List.pairwise_cons.mp hsorted
    obtain ⟨soon, hmem, hsoonAfter, hsoonLe⟩ := hsoon
    rcases lt_or_ge ts leap.midnight with hbefore | hafter
    · have hmemRest : soon ∈ rest := (List.mem_cons.mp hmem).resolve_left (by omega)
      have hcons := LeapSecond.Followed.cons (status_kept hannouncedTs hbefore)
        (pending_before hannouncedTs hbefore)
        (ih hsortedRest hannouncedRest ⟨soon, hmemRest, hsoonAfter, hsoonLe⟩)
      simpa [leap.sign_ne_zero] using hcons
    · have hle : ts ≤ soon := by
        rcases List.mem_cons.mp hmem with rfl | hmemRest
        · exact le_rfl
        · exact hfirst soon hmemRest
      have hcons := LeapSecond.Followed.cons
        (status_over hannouncedTs hafter (hle.trans hsoonLe) leap.sign)
        (pending_after hafter)
        (followed_after hannouncedRest fun later hlater => hafter.trans (hfirst later hlater))
      simpa [leap.sign_ne_zero, leap.sign_ne_zero.symm] using hcons

/-- From before the announcement on the leap is followed where a sample finds it
announced. -/
theorem followed_start (hsorted : samples.Pairwise (· ≤ ·))
    (hseen : ∃ ts ∈ samples, leap.announced ≤ ts ∧ ts < leap.midnight ∧ ts < leap.withdrawn)
    (hsoon : ∃ ts ∈ samples, leap.midnight ≤ ts ∧ ts ≤ leap.midnight + 6 * nsPerHour) :
    leap.Followed 0 samples 1 1 := by
  induction samples with
  | nil => simp at hseen
  | cons ts rest ih =>
    obtain ⟨hfirst, hsortedRest⟩ := List.pairwise_cons.mp hsorted
    obtain ⟨seen, hmem, hseenAnnounced, hseenBefore, hseenShown⟩ := hseen
    have hle : ts ≤ seen := by
      rcases List.mem_cons.mp hmem with rfl | hmemRest
      · exact le_rfl
      · exact hfirst seen hmemRest
    have hsoonRest : ∃ ts ∈ rest,
        leap.midnight ≤ ts ∧ ts ≤ leap.midnight + 6 * nsPerHour := by
      obtain ⟨soon, hmemSoon, hsoonAfter, hsoonLe⟩ := hsoon
      exact ⟨soon, (List.mem_cons.mp hmemSoon).resolve_left (by omega), hsoonAfter, hsoonLe⟩
    rcases lt_or_ge ts leap.announced with hunannounced | hannounced
    · have hmemRest : seen ∈ rest := (List.mem_cons.mp hmem).resolve_left (by omega)
      have hcons := LeapSecond.Followed.cons
        (status_unannounced hunannounced (by omega) (by omega))
        (pending_unannounced hunannounced)
        (ih hsortedRest ⟨seen, hmemRest, hseenAnnounced, hseenBefore, hseenShown⟩ hsoonRest)
      simpa [leap.sign_ne_zero.symm] using hcons
    · have hcons := LeapSecond.Followed.cons
        (status_taken hannounced (by omega) (by omega))
        (pending_before hannounced (by omega))
        (followed_pending hsortedRest
          (fun later hlater => hannounced.trans (hfirst later hlater)) hsoonRest)
      simpa [leap.sign_ne_zero, leap.sign_ne_zero.symm] using hcons

/-- A leap second is applied exactly once: whatever the samples, the corrected offset
changes at midnight, and the status goes to the sign once and back to zero once. -/
theorem leapSecond_once (hsorted : samples.Pairwise (· ≤ ·))
    (hseen : ∃ ts ∈ samples, leap.announced ≤ ts ∧ ts < leap.midnight ∧ ts < leap.withdrawn)
    (hsoon : ∃ ts ∈ samples, leap.midnight ≤ ts ∧ ts ≤ leap.midnight + 6 * nsPerHour) :
    (feed leap.shown 0 samples).map LeapStatus.utcOffset =
        samples.map (fun ts =>
          if ts < leap.midnight then leap.offset else leap.offset + leap.sign) ∧
      entries leap.sign 0 ((feed leap.shown 0 samples).map LeapStatus.status) = 1 ∧
      entries 0 0 ((feed leap.shown 0 samples).map LeapStatus.status) = 1 := by
  have hfollowed := followed_start hsorted hseen hsoon
  rw [hfollowed.results, List.map_map, List.map_map]
  exact ⟨rfl, hfollowed.signs, hfollowed.zeros⟩

end

/-- An inserted second at the first midnight, announced six hours before and withdrawn two
seconds after. -/
def firstMidnight : LeapSecond where
  midnight := nsPerDay
  sign := 1
  offset := 36
  announced := 18 * nsPerHour
  withdrawn := nsPerDay + 2 * nsPerSec
  day := dvd_rfl
  leaps := Or.inl rfl
  notEarly := by decide
  notLate := by decide

theorem leapSecond_once_firstMidnight :
    let samples := [nsPerHour, 20 * nsPerHour, nsPerDay + nsPerSec, nsPerDay + nsPerHour]
    (feed firstMidnight.shown 0 samples).map LeapStatus.utcOffset =
        samples.map (fun ts =>
          if ts < firstMidnight.midnight then firstMidnight.offset
          else firstMidnight.offset + firstMidnight.sign) ∧
      entries firstMidnight.sign 0
        ((feed firstMidnight.shown 0 samples).map LeapStatus.status) = 1 ∧
      entries 0 0 ((feed firstMidnight.shown 0 samples).map LeapStatus.status) = 1 :=
  leapSecond_once (by decide) (by decide) (by decide)

end LinuxPtp.Clock
