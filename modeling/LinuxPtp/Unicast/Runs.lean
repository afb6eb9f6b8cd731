import LinuxPtp.Unicast.Invariant

/-!
# Runs of the service

From a port that has just been initialized, any requests, cancels and rounds of the timer
leave the service in order, whatever the machine answers.  What new intervals have and
keep through edits and increments, all intervals have.
-/

namespace LinuxPtp.Unicast

open Port Stepping Wire

variable {Address : Type} (addreq : Address → Address → Bool) (wideShift : ℕ → ℤ)

def initialPort (state : PortState) : Option (ServicePort Address) :=
  unicastServiceInitialize.map fun service => ⟨state, some service⟩

/-- An interval keeps this when its clients change and when it is put back. -/
structure Stable (property : Interval Address → Prop) : Prop where
  clients : ∀ a b, SameTimes a b → property a → property b
  increment : ∀ a, property a → property (intervalIncrement a)

/-- An interval that the event may start has this. -/
def Starts (property : Interval Address → Prop) : Event Address → Prop
  | .request _ _ req => ∀ interval, StartsFor wideShift req interval → property interval
  | _ => True

/-- The service of the port is kept, and every interval has this. -/
def PortKept (property : Interval Address → Prop) (p : Option (ServicePort Address)) : Prop :=
  ∃ state service, p = some ⟨state, some service⟩ ∧ Kept addreq service ∧
    ∀ i ∈ service.intervals, property (service.node i)

section

variable {addreq} {wideShift} {property : Interval Address → Prop}
  {service service' : Service Address} {now : Timespec}

theorem Continues.forall {starts : Interval Address → Prop}
    (hcontinues : Continues starts service service') (hstable : Stable property)
    (hstarts : ∀ interval, starts interval → property interval)
    (hall : ∀ i ∈ service.intervals, property (service.node i)) :
    ∀ i ∈ service'.intervals, property (service'.node i) := by
  intro i hi
  rcases hcontinues i hi with ⟨hold, hsame⟩ | hnew
  · exact hstable.clients _ _ hsame (hall i hold)
  · exact hstarts _ hnew

theorem Served.forall {clients : List (Client Address)} {i : ℕ}
    (hserved : Served clients i service service') (hstable : Stable property)
    (hi : i ∈ service.intervals)
    (hall : ∀ j ∈ service.intervals, property (service.node j)) :
    ∀ j ∈ service'.intervals, property (service'.node j) := by
  intro j hj
  rcases hserved with ⟨-, hintervals, hnode⟩ | ⟨-, hintervals, hnode⟩
  · rw [hintervals] at hj
    rw [hnode]
    exact hall j (List.mem_of_mem_erase hj)
  · rw [hintervals] at hj
    by_cases hji : j = i
    · subst hji
      rw [hnode, Function.update_self]
      exact hstable.increment _ (hstable.clients _ _ rfl (hall j hj))
    · rw [hnode, Function.update_of_ne hji]
      exact hall j hj

theorem Rounds.forall (hrounds : Rounds addreq now service service')
    (hstable : Stable property) (hall : ∀ i ∈ service.intervals, property (service.node i)) :
    ∀ i ∈ service'.intervals, property (service'.node i) := by
  induction hrounds with
  | refl => exact hall
  | tail _ hround ih =>
    obtain ⟨-, i, hi, -, clients, hserved⟩ := hround
    exact hserved.forall hstable hi ih

/-- An event leaves the service in order. -/
theorem serve_kept (hcompares : Compares addreq) (hstable : Stable property)
    (state : PortState) (hkept : Kept addreq service)
    (hall : ∀ i ∈ service.intervals, property (service.node i)) {event : Event Address}
    (hstarts : Starts wideShift property event) :
    PortKept addreq property (serve addreq wideShift ⟨state, some service⟩ event) := by
  cases event with
  | request host sender req =>
    obtain ⟨answer, service', hadd, hkept', hcontinues⟩ :=
      serviceAdd_kept hcompares hkept wideShift host sender req
    refine ⟨state, service', ?_, hkept', hcontinues.forall hstable hstarts hall⟩
    rw [serve, unicastServiceAdd]
    simp only [hadd, Option.map_some]
  | cancel address flags =>
    obtain ⟨hkept', hcontinues⟩ := serviceRemove_kept hkept address flags
    exact ⟨state, _, rfl, hkept', hcontinues.forall hstable (fun _ => False.elim) hall⟩
  | timer now hosts settime =>
    obtain ⟨value, service', timer, htimer, hkept', hrounds⟩ :=
      serviceTimer_kept hkept (isMaster state) now hosts settime
    refine ⟨state, _, ?_, hkept', hrounds.forall hstable hall⟩
    rw [serve, unicastServiceTimer]
    simp only [htimer, Option.map_some]
  | becomes state' => exact ⟨state', service, rfl, hkept, hall⟩

theorem initialPort_kept (state : PortState) :
    PortKept addreq property (initialPort state) := by
  have hnone : ∀ {property : ℕ → Prop}, ∀ i ∈ ([] : List ℕ), property i :=
    fun i hi => absurd hi List.not_mem_nil
  refine ⟨state, _, rfl, ⟨⟨List.Pairwise.nil, rfl, ?_, hnone, hnone, hnone⟩, hnone, hnone,
    show queueLen ≤ 510 by decide⟩, hnone⟩
  exact @pqueueCreate_valid _ _ 0 queueLen (by decide) (by decide)

/-- Any events leave the service in order. -/
theorem run_kept (hcompares : Compares addreq) (hstable : Stable property)
    (state : PortState) {events : List (Event Address)}
    (hstarts : ∀ event ∈ events, Starts wideShift property event) :
    PortKept addreq property (run (serviceStep addreq wideShift) events (initialPort state)) := by
  have hstep : ∀ p event, Starts wideShift property event → PortKept addreq property p →
      PortKept addreq property (serviceStep addreq wideShift p event) := by
    rintro _ event hstarts ⟨state, service, rfl, hkept, hall⟩
    exact serve_kept hcompares hstable state hkept hall hstarts
  exact (meets_of_forall hstarts _).invariant hstep (initialPort_kept state)

/-- After any requests, cancels and rounds of the timer, whatever the machine has answered,
the service is in order. -/
theorem serviceRun_sound (hequiv : Equivalence fun a b => addreq a b) (wideShift : ℕ → ℤ)
    (state : PortState) (events : List (Event Address)) :
    ∃ state' service, run (serviceStep addreq wideShift) events (initialPort state) =
        some ⟨state', some service⟩ ∧ Sound addreq service := by
  have hstable : Stable fun _ : Interval Address => True :=
    ⟨fun _ _ _ _ => trivial, fun _ _ => trivial⟩
  obtain ⟨state', service, hrun, hkept, -⟩ :=
    @run_kept _ addreq wideShift _ (.of_equivalence hequiv) hstable state events fun event _ => by
      cases event with
      | request => exact fun _ _ => trivial
      | cancel => trivial
      | timer => trivial
      | becomes => trivial
  exact ⟨state', service, hrun, hkept.toSound⟩

end

def someHost : RequestHost :=
  let reading : Reading := ⟨⟨100, 0⟩, le_rfl, show (0 : ℤ) < 10 ^ 9 by decide⟩
  ⟨some reading, true, true, some reading, none, true⟩

def someSender : Sender ℕ := ⟨⟨⟨Vector.replicate 8 0⟩, 1⟩, 7⟩

def netSender : Sender SocketAddress :=
  ⟨⟨⟨Vector.replicate 8 0⟩, 1⟩, ⟨Vector.replicate 128 7⟩⟩

theorem equivalence_decide : Equivalence fun a b : ℕ => decide (a = b) = true := by
  simpa only [decide_eq_true_eq] using eq_equivalence

/-- Announce messages at one rate, then at another, and a round of the timer. -/
theorem serviceRun_sound_renewed :
    ∃ state' service, run (serviceStep (fun a b : ℕ => decide (a = b)) fun _ => 0)
        [.request someHost someSender ⟨0xB0, 1, 60⟩,
          .request someHost someSender ⟨0xB0, 0, 60⟩,
          .timer ⟨101, 0⟩ [⟨none, fun _ _ => true, none⟩] true]
        (initialPort .master) = some ⟨state', some service⟩ ∧
      Sound (fun a b : ℕ => decide (a = b)) service :=
  serviceRun_sound equivalence_decide _ _ _

end LinuxPtp.Unicast
