import LinuxPtp.Unicast.Grants

/-!
# Progress of the timer

The loop of the timer serves the intervals that are due and puts them back for later.  It
comes to an end where the time between two transmissions is not zero, and a request may
ask for a rate with which it is.
-/

namespace LinuxPtp.Unicast

open Bmc CheckedInt Clock Function Port Stepping Wire

variable {Address : Type}

/-- The time from one transmission to the next. -/
def Advances (incr : Timespec) : Prop :=
  Normalised incr ∧ 0 < nanoseconds incr

/-- The timeout of one interval becomes later, nothing else changes. -/
def Postpones (i : ℕ) (service service' : Service Address) : Prop :=
  service'.intervals = service.intervals ∧
    before (service.node i).tmo (service'.node i).tmo ∧
    ∀ j, j ≠ i → service'.node j = service.node j

/-- Every interval advances, every round of the loop retires a due interval or postpones
it, and the loop comes to an end. -/
structure Progresses (wideShift : ℕ → ℤ) (service : Service Address) : Prop where
  increments : ∀ i ∈ service.intervals,
    (service.node i).incr = logToTimespec wideShift (service.node i).logPeriod ∧
      Advances (service.node i).incr
  rounds : ∀ master now host, timerRound master now host service = some .ended ∨
    ∃ i ∈ service.intervals, before (service.node i).tmo now ∧ ∃ failed service',
      timerRound master now host service = some (.goesOn failed service') ∧
        (service'.intervals = service.intervals.erase i ∨ Postpones i service service')
  ends : ∀ master now, ∃ rounds, ∀ hosts settime, rounds ≤ hosts.length →
    ∃ value service', serviceTimer master now hosts settime service =
      some (some value, service')

/-- A request for messages that the service sends asks for 2⁻²⁹ to 2³⁰ seconds. -/
def Paced : Event Address → Prop
  | .request _ _ req =>
      (req.messageType >>> 4).toNat = announce ∨ (req.messageType >>> 4).toNat = sync →
        -29 ≤ req.logInterMessagePeriod.toInt ∧ req.logInterMessagePeriod.toInt ≤ 30
  | _ => True

/-! ## The increments -/

section

variable {logPeriod : ℤ}

/-- A fraction of a second. -/
theorem logToTimespec_of_neg (wideShift : ℕ → ℤ) (hneg : logPeriod < 0) :
    logToTimespec wideShift logPeriod =
      ⟨0, (500000000 / 2 ^ (-logPeriod - 1).toNat : ℕ)⟩ := by
  rw [logToTimespec, if_pos hneg, halve_iterate]

/-- A power of two in seconds, as far as an `int` can be shifted. -/
theorem logToTimespec_of_nonneg (wideShift : ℕ → ℤ) (hnonneg : 0 ≤ logPeriod)
    (hle : logPeriod ≤ 30) :
    logToTimespec wideShift logPeriod = ⟨2 ^ logPeriod.toNat, 0⟩ := by
  rw [logToTimespec, if_neg (by omega), shiftLeft_one (by decide) ⟨hnonneg, by omega⟩,
    Option.getD_some]

/-- Beyond that the machine decides. -/
theorem logToTimespec_of_wide (wideShift : ℕ → ℤ) (hwide : 30 < logPeriod) :
    logToTimespec wideShift logPeriod = ⟨wideShift logPeriod.toNat, 0⟩ := by
  have hnone : shiftLeft 32 1 logPeriod = none := by
    rw [Option.eq_none_iff_forall_ne_some]
    intro factor hfactor
    have := ((shiftLeft_one_eq_some_iff (by decide)).mp hfactor).1
    omega
  rw [logToTimespec, if_neg (by omega), hnone, Option.getD_none]

/-- On every machine there is time between two transmissions, from 2⁻²⁹ seconds to 2³⁰. -/
theorem logToTimespec_advances_iff :
    (∀ wideShift, Advances (logToTimespec wideShift logPeriod)) ↔
      -29 ≤ logPeriod ∧ logPeriod ≤ 30 := by
  rcases lt_or_ge logPeriod 0 with hneg | hnonneg
  · have hle : 500000000 / 2 ^ (-logPeriod - 1).toNat ≤ 500000000 := Nat.div_le_self ..
    have hpos : 0 < 500000000 / 2 ^ (-logPeriod - 1).toNat ↔ -29 ≤ logPeriod := by
      rw [Nat.div_pos_iff]
      constructor
      · rintro ⟨-, hbit⟩
        by_contra hshort
        have := Nat.pow_le_pow_right (show 0 < 2 by decide)
          (show 29 ≤ (-logPeriod - 1).toNat by omega)
        omega
      · intro hlong
        have := Nat.pow_le_pow_right (show 0 < 2 by decide)
          (show (-logPeriod - 1).toNat ≤ 28 by omega)
        exact ⟨by positivity, by omega⟩
    simp only [logToTimespec_of_neg _ hneg, forall_const, Advances, Normalised, nanoseconds,
      Port.nsPerSec]
    omega
  · rcases le_or_gt logPeriod 30 with hle | hwide
    · have hpow : (0 : ℤ) < 2 ^ logPeriod.toNat := by positivity
      simp only [logToTimespec_of_nonneg _ hnonneg hle, forall_const, Advances, Normalised,
        nanoseconds, Port.nsPerSec]
      omega
    · refine iff_of_false (fun hadvances => ?_) (by omega)
      have hzero := (hadvances fun _ => 0).2
      rw [logToTimespec_of_wide _ hwide] at hzero
      exact absurd hzero (by decide)

end

/-! ## Intervals that advance -/

/-- The timeout is a time, and the increment is that of the rate. -/
structure Clocked (wideShift : ℕ → ℤ) (interval : Interval Address) : Prop where
  tmo : Normalised interval.tmo
  incr : interval.incr = logToTimespec wideShift interval.logPeriod

/-- The increment advances besides. -/
structure Timely (wideShift : ℕ → ℤ) (interval : Interval Address) : Prop extends
    Clocked wideShift interval where
  advances : Advances interval.incr

section

variable {wideShift : ℕ → ℤ} {interval : Interval Address}

theorem Clocked.incr_nonneg (hclocked : Clocked wideShift interval) :
    0 ≤ interval.incr.tvNsec := by
  rw [hclocked.incr, logToTimespec]
  split
  · exact Int.natCast_nonneg _
  · exact le_rfl

/-- An interval that is due again is due one period later. -/
theorem Clocked.increment (hclocked : Clocked wideShift interval) :
    Clocked wideShift (intervalIncrement interval) ∧
      nanoseconds (intervalIncrement interval).tmo =
        nanoseconds interval.tmo + nanoseconds interval.incr := by
  obtain ⟨hnormal, hsame⟩ := @carrySeconds_spec
    ⟨interval.tmo.tvSec + interval.incr.tvSec, interval.tmo.tvNsec + interval.incr.tvNsec⟩
    (add_nonneg hclocked.tmo.1 hclocked.incr_nonneg)
  refine ⟨⟨hnormal, hclocked.incr⟩, ?_⟩
  rw [intervalIncrement, hsame]
  unfold nanoseconds
  ring

theorem stable_clocked : Stable (@Clocked Address wideShift) where
  clients a b hsame hclocked := by
    rw [hsame]
    exact ⟨hclocked.tmo, hclocked.incr⟩
  increment a hclocked := hclocked.increment.1

theorem stable_timely : Stable (@Timely Address wideShift) where
  clients a b hsame htimely := by
    rw [hsame]
    exact ⟨⟨htimely.tmo, htimely.incr⟩, htimely.advances⟩
  increment a htimely := ⟨htimely.increment.1, htimely.advances⟩

theorem clocked_initializeInterval (clock : Option Reading) (logPeriod : ℤ) :
    Clocked wideShift (@initializeInterval Address wideShift clock logPeriod) := by
  refine ⟨(carrySeconds_spec ?_).1, rfl⟩
  cases clock with
  | none => decide
  | some now =>
    have := now.property.1
    simp only [Option.elim_some]
    omega

theorem starts_clocked (event : Event Address) :
    Starts wideShift (Clocked wideShift) event := by
  cases event with
  | request host sender req =>
    rintro interval ⟨-, clock, hsame⟩
    exact stable_clocked.clients _ _ hsame (clocked_initializeInterval clock _)
  | cancel => trivial
  | timer => trivial
  | becomes => trivial

/-- Where every request has a period, intervals have one. -/
theorem starts_timely {event : Event Address} (hpaced : Paced event) :
    Starts wideShift (Timely wideShift) event := by
  cases event with
  | request host sender req =>
    rintro interval ⟨hmtype, clock, hsame⟩
    exact stable_timely.clients _ _ hsame ⟨clocked_initializeInterval clock _,
      logToTimespec_advances_iff.mpr (hpaced hmtype) wideShift⟩
  | cancel => trivial
  | timer => trivial
  | becomes => trivial

/-- Normalised times are compared as their nanoseconds. -/
theorem before_iff_nanoseconds {a b : Timespec} (ha : Normalised a) (hb : Normalised b) :
    before a b ↔ nanoseconds a < nanoseconds b := by
  unfold Normalised Port.nsPerSec at *
  unfold before nanoseconds
  omega

end

/-! ## The loop -/

def dueTime (now : Timespec) (interval : Interval Address) : ℕ :=
  ((now.tvSec + 1) * 10 ^ 9 - nanoseconds interval.tmo).toNat

/-- What the rounds of the loop use up: every interval and the times they are due. -/
def work (now : Timespec) (service : Service Address) : ℕ :=
  (service.intervals.map fun i => 1 + dueTime now (service.node i)).sum

section

variable {addreq : Address → Address → Bool} {wideShift : ℕ → ℤ}
  {service service' : Service Address} {now : Timespec} {i : ℕ}
  {clients : List (Client Address)}

/-- Every round that serves an interval leaves less to be done. -/
theorem dueTime_lt (htimely : Timely wideShift (service.node i))
    (hdue : before (service.node i).tmo now) :
    dueTime now (intervalIncrement { service.node i with clients }) <
      dueTime now (service.node i) := by
  have hedited : Timely wideShift { service.node i with clients } :=
    stable_timely.clients _ _ rfl htimely
  have hlater := hedited.increment.2
  have hnormal := htimely.tmo
  have hadvances := htimely.advances.2
  unfold Normalised Port.nsPerSec at hnormal
  unfold before at hdue
  unfold dueTime
  unfold nanoseconds at *
  dsimp only at hlater ⊢
  omega

/-- What is served uses up work: the interval is gone, or it is put back for later. -/
theorem Served.progress (hserved : Served clients i service service')
    (hnodup : service.intervals.Nodup) (hi : i ∈ service.intervals)
    (hdue : before (service.node i).tmo now) (htimely : Timely wideShift (service.node i)) :
    work now service' < work now service ∧
      (service'.intervals = service.intervals.erase i ∨ Postpones i service service') := by
  have hwork := List.sum_map_erase (fun j => 1 + dueTime now (service.node j)) hi
  rcases hserved with ⟨-, hintervals, hnode⟩ | ⟨-, hintervals, hnode⟩
  · refine ⟨?_, Or.inl hintervals⟩
    rw [work, work, hintervals, hnode]
    omega
  have hself : service'.node i = intervalIncrement { service.node i with clients } := by
    rw [hnode, update_self]
  have hother : ∀ j, j ≠ i → service'.node j = service.node j := fun j hj => by
    rw [hnode, update_of_ne hj]
  refine ⟨?_, Or.inr ⟨hintervals, ?_, hother⟩⟩
  · have hwork' := List.sum_map_erase (fun j => 1 + dueTime now (service'.node j)) hi
    have hrest : (service.intervals.erase i).map (fun j => 1 + dueTime now (service'.node j)) =
        (service.intervals.erase i).map fun j => 1 + dueTime now (service.node j) :=
      List.map_congr_left fun j hj => by rw [hother j (hnodup.mem_erase_iff.mp hj).1]
    have hless := @dueTime_lt _ wideShift service now i clients htimely hdue
    rw [hrest, hself] at hwork'
    rw [work, work, hintervals]
    omega
  · have hedited : Timely wideShift { service.node i with clients } :=
      stable_timely.clients _ _ rfl htimely
    obtain ⟨hincremented, hlater⟩ := hedited.increment
    have hadvances := htimely.advances.2
    rw [hself, before_iff_nanoseconds htimely.tmo hincremented.tmo, hlater]
    exact lt_add_of_pos_right _ hadvances

/-- A loop with more rounds than work ends. -/
theorem timerLoop_ends (hkept : Kept addreq service)
    (htimely : ∀ j ∈ service.intervals, Timely wideShift (service.node j)) (master : Bool)
    {hosts : List (RoundHost Address)} (hrounds : work now service < hosts.length)
    (failed : Bool) :
    ∃ failed' service', timerLoop master now hosts failed service =
      some (true, failed', service') ∧ Kept addreq service' := by
  induction hosts generalizing service failed with
  | nil => exact absurd hrounds (Nat.not_lt_zero _)
  | cons host hosts ih =>
    rw [List.length_cons] at hrounds
    rw [timerLoop]
    rcases timerRound_spec hkept master now host with
      ⟨hround, -⟩ | ⟨i, hi, hdue, fails, service', hround, hkept', hserved⟩
    · rw [hround]
      exact ⟨failed, service, rfl, hkept⟩
    · have hless := (hserved.progress hkept.nodup hi hdue (htimely i hi)).1
      rw [hround]
      exact ih hkept' (hserved.forall stable_timely hi htimely) (by omega) (failed || fails)

/-- Where every interval advances the timer makes progress. -/
theorem progresses_of_timely (hkept : Kept addreq service)
    (htimely : ∀ j ∈ service.intervals, Timely wideShift (service.node j)) :
    Progresses wideShift service where
  increments i hi := ⟨(htimely i hi).incr, (htimely i hi).advances⟩
  rounds master now host := by
    rcases timerRound_spec hkept master now host with
      ⟨hround, -⟩ | ⟨i, hi, hdue, failed, service', hround, -, hserved⟩
    · exact Or.inl hround
    · exact Or.inr ⟨i, hi, hdue, failed, service', hround,
        (hserved.progress hkept.nodup hi hdue (htimely i hi)).2⟩
  ends master now := by
    refine ⟨work now service + 1, fun hosts settime hrounds => ?_⟩
    obtain ⟨failed, service', hloop, hkept'⟩ :=
      timerLoop_ends hkept htimely master (Nat.lt_of_succ_le hrounds) false
    obtain ⟨fails, timer, harm, -⟩ := reArmTimer_kept hkept' settime
    rw [serviceTimer, hloop]
    simp only [Option.bind_eq_bind, Option.bind_some, if_pos, harm]
    exact ⟨_, _, rfl⟩

end

/-- On a port with any transport, after any events with rates that advance, the timer makes
progress. -/
theorem serviceRun_progresses (type : TransportType) (wideShift : ℕ → ℤ) (state : PortState)
    {events : List (Event SocketAddress)} (hpaced : ∀ event ∈ events, Paced event) :
    ∃ state' service, run (serviceStep (addreq type) wideShift) events (initialPort state) =
        some ⟨state', some service⟩ ∧ Progresses wideShift service := by
  obtain ⟨state', service, hrun, hkept, htimely⟩ := run_kept (addreq_compares type)
    stable_timely state fun event hmem => starts_timely (hpaced event hmem)
  exact ⟨state', service, hrun, progresses_of_timely hkept htimely⟩

/-- An Announce every 2⁻²⁹ seconds for a minute, asked for twice.  Both requests make a
record where no address is equal to itself. -/
theorem serviceRun_progresses_request :
    ∃ state' service, run (serviceStep (addreq .udpIpv6) fun _ => 0)
        [.request someHost netSender ⟨0xB0, -29, 60⟩,
          .request someHost netSender ⟨0xB0, -29, 60⟩] (initialPort .slave) =
            some ⟨state', some service⟩ ∧ Progresses (fun _ => 0) service :=
  serviceRun_progresses .udpIpv6 _ _ fun event hmem => by
    obtain rfl | hmem := List.mem_cons.mp hmem
    · exact fun _ => by decide
    · obtain rfl := List.mem_singleton.mp hmem
      exact fun _ => by decide

/-! ## Intervals that do not advance -/

section

variable {addreq : Address → Address → Bool} {wideShift : ℕ → ℤ}
  {service service' : Service Address} {now : Timespec} {i : ℕ}

/-- The interval is due, has a client and does not advance. -/
structure Stalled (now : Timespec) (interval : Interval Address) : Prop where
  clients : interval.clients ≠ []
  incr : interval.incr = ⟨0, 0⟩
  tmo : Normalised interval.tmo
  due : before interval.tmo now

/-- An interval without a period is due for ever. -/
theorem intervalIncrement_of_zero {interval : Interval Address}
    (hincr : interval.incr = ⟨0, 0⟩) (htmo : Normalised interval.tmo) :
    intervalIncrement interval = interval := by
  have hsame : carrySeconds ⟨interval.tmo.tvSec + interval.incr.tvSec,
      interval.tmo.tvNsec + interval.incr.tvNsec⟩ = interval.tmo := by
    rw [hincr, add_zero, add_zero, carrySeconds, if_neg (not_le.mpr htmo.2)]
  rw [intervalIncrement, hsame]

/-- A round that sends nothing leaves a stalled interval as it is. -/
theorem Served.stalled {host : RoundHost Address} {j : ℕ}
    (hserved : Served (serveClients false host (service.node j).clients).2 j service service')
    (hi : i ∈ service.intervals) (hstalled : Stalled now (service.node i)) :
    i ∈ service'.intervals ∧ service'.node i = service.node i := by
  have hclients : (serveClients false host (service.node j).clients).2 =
      (service.node j).clients := rfl
  rw [hclients] at hserved
  by_cases hij : i = j
  · subst hij
    rcases hserved with ⟨hnil, -⟩ | ⟨-, hintervals, hnode⟩
    · exact absurd hnil hstalled.clients
    · rw [hintervals, hnode, update_self]
      exact ⟨hi, intervalIncrement_of_zero hstalled.incr hstalled.tmo⟩
  · rcases hserved with ⟨-, hintervals, hnode⟩ | ⟨-, hintervals, hnode⟩
    · rw [hintervals, hnode]
      exact ⟨(List.mem_erase_of_ne hij).mpr hi, rfl⟩
    · rw [hintervals, hnode, update_of_ne hij]
      exact ⟨hi, rfl⟩

/-- With a stalled interval the loop goes on for as many rounds as there are, where no
message is sent. -/
theorem timerLoop_stalled (hkept : Kept addreq service) (hi : i ∈ service.intervals)
    (hstalled : Stalled now (service.node i)) (hosts : List (RoundHost Address))
    (failed : Bool) :
    ∃ failed' service', timerLoop false now hosts failed service =
      some (false, failed', service') := by
  induction hosts generalizing service failed with
  | nil => exact ⟨failed, service, rfl⟩
  | cons host hosts ih =>
    rw [timerLoop]
    rcases timerRound_spec hkept false now host with
      ⟨-, hnone⟩ | ⟨j, -, -, fails, service', hround, hkept', hserved⟩
    · exact absurd hstalled.due (hnone i hi)
    · obtain ⟨hi', hsame⟩ := hserved.stalled hi hstalled
      rw [hround]
      exact ih hkept' hi' (hsame ▸ hstalled) (failed || fails)

/-- A rate beyond 2⁻²⁹ seconds has no time between two transmissions. -/
theorem logToTimespec_of_short {logPeriod : ℤ} (hshort : logPeriod ≤ -30) :
    logToTimespec wideShift logPeriod = ⟨0, 0⟩ := by
  have hpow := Nat.pow_le_pow_right (show 0 < 2 by decide)
    (show 29 ≤ (-logPeriod - 1).toNat by omega)
  rw [logToTimespec_of_neg wideShift (by omega), Nat.div_eq_of_lt (by omega)]
  rfl

/-- From some time on the timer of a port that is not a master does not return. -/
theorem not_progresses_of_short (hkept : Kept addreq service) (hi : i ∈ service.intervals)
    (hclocked : Clocked wideShift (service.node i))
    (hclients : (service.node i).clients ≠ [])
    (hshort : (service.node i).logPeriod ≤ -30) : ¬Progresses wideShift service := by
  intro hprogress
  let now : Timespec := ⟨(service.node i).tmo.tvSec + 1, 0⟩
  have hstalled : Stalled now (service.node i) :=
    ⟨hclients, hclocked.incr.trans (logToTimespec_of_short hshort), hclocked.tmo,
      Or.inl (lt_add_one _)⟩
  obtain ⟨rounds, hends⟩ := hprogress.ends false now
  obtain ⟨value, last, htimer⟩ := hends
    (List.replicate rounds ⟨none, fun _ _ => false, none⟩) true (by rw [List.length_replicate])
  obtain ⟨failed, last', hloop⟩ := timerLoop_stalled hkept hi hstalled
    (List.replicate rounds ⟨none, fun _ _ => false, none⟩) false
  rw [serviceTimer, hloop] at htimer
  cases (Prod.mk.inj (Option.some.inj htimer)).1

/-- Whatever has happened before, once such a rate is granted the timer does not progress. -/
theorem not_progresses_of_granted (hequiv : Equivalence fun a b => addreq a b)
    {state : PortState} {events : List (Event Address)} {host : RequestHost}
    {sender : Sender Address} {req : RequestUnicastXmit}
    (hmtype : (req.messageType >>> 4).toNat = announce ∨ (req.messageType >>> 4).toNat = sync)
    (hshort : req.logInterMessagePeriod.toInt ≤ -30)
    (hrun : run (serviceStep addreq wideShift) events (initialPort state) =
      some ⟨state, some service⟩)
    (hadd : serviceAdd addreq wideShift host sender req service = some (.granted, service')) :
    run (serviceStep addreq wideShift) (events ++ [.request host sender req])
        (initialPort state) = some ⟨state, some service'⟩ ∧
      ¬Progresses wideShift service' := by
  have hrun' : run (serviceStep addreq wideShift) (events ++ [.request host sender req])
      (initialPort state) = some ⟨state, some service'⟩ := by
    rw [run_append, hrun, run_cons, run_nil, serviceStep, Option.bind_some, serve,
      unicastServiceAdd]
    simp only [hadd, Option.map_some]
  have hall : ∀ events : List (Event Address), PortKept addreq (Clocked wideShift)
      (run (serviceStep addreq wideShift) events (initialPort state)) := fun events =>
    run_kept (.of_equivalence hequiv) stable_clocked state fun event _ => starts_clocked event
  obtain ⟨_, _, hsame, hkept, -⟩ := hall events
  obtain ⟨_, _, hsame', hkept', hclocked⟩ := hall (events ++ [.request host sender req])
  rw [hrun] at hsame
  rw [hrun'] at hsame'
  cases hsame
  cases hsame'
  obtain ⟨i, hi, hperiod, client, hmem, -⟩ := serviceAdd_granted hequiv hkept hmtype hadd
  exact ⟨hrun', not_progresses_of_short hkept' hi (hclocked i hi)
    (List.ne_nil_of_mem hmem) (hperiod ▸ hshort)⟩

end

def shortRequest : RequestUnicastXmit := ⟨0xB0, -30, 60⟩

theorem not_progresses_shortRequest :
    ∃ service, run (serviceStep (addreq .udpIpv4) fun _ => 0)
        [.request someHost netSender shortRequest] (initialPort .slave) =
          some ⟨.slave, some service⟩ ∧ ¬Progresses (fun _ => 0) service := by
  have hgranted : ((unicastServiceInitialize : Option (Service SocketAddress)).bind
      fun start => serviceAdd (addreq .udpIpv4) (fun _ => 0) someHost netSender
        shortRequest start).map Prod.fst = some .granted := by decide +kernel
  obtain ⟨⟨answer, service⟩, hadd, hanswer⟩ := Option.map_eq_some_iff.mp hgranted
  obtain rfl : answer = .granted := hanswer
  obtain ⟨start, hstart, hadd⟩ := Option.bind_eq_some_iff.mp hadd
  have hinitial : run (serviceStep (addreq .udpIpv4) fun _ => 0) []
      (initialPort .slave) = some ⟨.slave, some start⟩ := by
    rw [run_nil, initialPort, hstart, Option.map_some]
  exact ⟨service, not_progresses_of_granted (addreq_equivalence rfl) (Or.inl (by decide))
    (by decide) hinitial hadd⟩

end LinuxPtp.Unicast
