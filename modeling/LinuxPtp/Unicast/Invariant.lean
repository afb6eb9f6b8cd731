import LinuxPtp.Unicast.Search

/-!
# The representation of the service

The list and the queue hold the same intervals, the queue in the order of their timeouts;
the rates of the intervals differ, and a contract stands in one of them.  Every request,
cancel and round of the timer keeps this, whatever the machine answers.
-/

namespace LinuxPtp.Unicast

open Function KeyedList Port Wire

variable {Address : Type} (addreq : Address → Address → Bool)

/-- What holds of the service between two calls. -/
structure Sound (service : Service Address) : Prop where
  periods : Unique (fun i => (service.node i).logPeriod) service.intervals
  same : service.queue.held = service.intervals
  heap : service.queue.Valid (compareTimeout service.node)
  addresses : ∀ i ∈ service.intervals,
    (service.node i).clients.Pairwise fun a b => ¬addreq a.addr b.addr
  contracts : ∀ i ∈ service.intervals, ∀ j ∈ service.intervals, ∀ address mtype,
    Contracted addreq (service.node i).clients address mtype →
      Contracted addreq (service.node j).clients address mtype → i = j
  types : ∀ i ∈ service.intervals, ∀ client ∈ (service.node i).clients,
    client.messageTypes ≠ 0

/-- The bounds on the representation that its operations need as well. -/
structure Kept (service : Service Address) : Prop extends Sound addreq service where
  fresh : ∀ i ∈ service.intervals, i < service.next
  bytes : ∀ i ∈ service.intervals,
    -128 ≤ (service.node i).logPeriod ∧ (service.node i).logPeriod < 128
  small : service.queue.max ≤ 510

/-! ## The order of the timeouts -/

section

def before (a b : Timespec) : Prop :=
  a.tvSec < b.tvSec ∨ a.tvSec = b.tvSec ∧ a.tvNsec < b.tvNsec

theorem timespecCompare_pos_iff {a b : Timespec} : 0 < timespecCompare a b ↔ before a b := by
  unfold timespecCompare before
  split_ifs <;> omega

theorem timespecCompare_neg_iff {a b : Timespec} : timespecCompare a b < 0 ↔ before b a := by
  unfold timespecCompare before
  split_ifs <;> omega

theorem totalPreorder_compareTimeout (node : ℕ → Interval Address) :
    TotalPreorder (compareTimeout node) := by
  unfold compareTimeout
  refine ⟨fun a b => ?_, fun a b c => ?_⟩
  · rw [timespecCompare_neg_iff, timespecCompare_pos_iff]
  · simp only [← not_lt, timespecCompare_pos_iff, before]
    omega

end

/-! ## Edits of the clients -/

section

variable {addreq} {service service' : Service Address} {node : ℕ → Interval Address}
  {granted : Address → ℕ → Prop} {target : Option ℕ}

theorem Sound.nodup (hsound : Sound addreq service) : service.intervals.Nodup :=
  List.Nodup.of_map _ hsound.periods

/-- The queue holds the intervals of the list. -/
theorem Sound.mem_held (hsound : Sound addreq service) {i : ℕ} :
    i ∈ service.queue.held ↔ i ∈ service.intervals := by
  rw [hsound.same, Multiset.mem_coe]

theorem Sound.wellKept (hsound : Sound addreq service) {i : ℕ}
    (hi : i ∈ service.intervals) : WellKept addreq (service.node i).clients :=
  ⟨hsound.addresses i hi, hsound.types i hi⟩

/-- There are as many rates as bytes. -/
theorem length_le_of_bytes {periods : List ℤ} (hnodup : periods.Nodup)
    (hbytes : ∀ period ∈ periods, -128 ≤ period ∧ period < 128) : periods.length ≤ 256 := by
  have hsubset : periods.toFinset ⊆ Finset.Ico (-128) 128 := fun period hmem =>
    Finset.mem_Ico.mpr (hbytes period (List.mem_toFinset.mp hmem))
  have hcard := Finset.card_le_card hsubset
  rwa [List.toFinset_card_of_nodup hnodup, Int.card_Ico] at hcard

theorem Kept.length_le (hkept : Kept addreq service) : service.intervals.length ≤ 256 := by
  have hlength := length_le_of_bytes hkept.periods (List.forall_mem_map.mpr hkept.bytes)
  rwa [List.length_map] at hlength

/-- Where a rate has no interval there is room for one. -/
theorem Kept.length_lt (hkept : Kept addreq service) {period : ℤ}
    (hbyte : -128 ≤ period ∧ period < 128)
    (habsent : ∀ i ∈ service.intervals, (service.node i).logPeriod ≠ period) :
    service.intervals.length ≤ 255 := by
  have hnodup : (period :: service.intervals.map fun i => (service.node i).logPeriod).Nodup :=
    List.nodup_cons.mpr ⟨fun hmem => by
      obtain ⟨i, hi, hperiod⟩ := List.mem_map.mp hmem
      exact habsent i hi hperiod, hkept.periods⟩
  have hlength := length_le_of_bytes hnodup
    (List.forall_mem_cons.mpr ⟨hbyte, List.forall_mem_map.mpr hkept.bytes⟩)
  rw [List.length_cons, List.length_map] at hlength
  omega

theorem Sound.len_eq (hsound : Sound addreq service) :
    service.queue.len = service.intervals.length := by
  have hcard := @card_held _ service.queue
  rw [hsound.same, Multiset.coe_card] at hcard
  have := hsound.heap.len_nonneg
  omega

/-- Edits of the clients keep the representation. -/
theorem Kept.edits (hkept : Kept addreq service)
    (hedits : Edits addreq granted target service.intervals service.node node) :
    Kept addreq { service with node } := by
  have hframe := hedits.frame
  have hperiod : ∀ i ∈ service.intervals,
      (node i).logPeriod = (service.node i).logPeriod := fun i hi => by rw [hframe i hi]
  have htmo : ∀ i ∈ service.intervals, (node i).tmo = (service.node i).tmo :=
    fun i hi => by rw [hframe i hi]
  have hwell := fun i hi => hedits.wellKept i hi (hkept.wellKept hi)
  constructor
  case toSound =>
    constructor
    case periods =>
      have hsame := List.map_congr_left hperiod
      rw [KeyedList.Unique, hsame]
      exact hkept.periods
    case same => exact hkept.same
    case heap =>
      refine hkept.heap.congr fun a ha b hb => ?_
      rw [compareTimeout, compareTimeout, htmo a (hkept.mem_held.mp ha),
        htmo b (hkept.mem_held.mp hb)]
    case addresses => exact fun i hi => (hwell i hi).addresses
    case types => exact fun i hi => (hwell i hi).types
    case contracts =>
      intro i hi j hj address mtype hfirst hsecond
      by_cases hgranted : granted address mtype
      · have htarget : ∀ k ∈ service.intervals,
            Contracted addreq (node k).clients address mtype → target = some k :=
          fun k hk hcontracted => by_contra fun hne =>
            hedits.cleared k hk hne address mtype hgranted hcontracted
        exact Option.some.inj ((htarget i hi hfirst).symm.trans (htarget j hj hsecond))
      · have hold := fun k hk hcontracted =>
          (hedits.contracts k hk address mtype hcontracted).resolve_right
            fun hnew => hgranted hnew.2
        exact hkept.contracts i hi j hj address mtype (hold i hi hfirst) (hold j hj hsecond)
  case fresh => exact hkept.fresh
  case bytes => exact fun i hi => by rw [hperiod i hi]; exact hkept.bytes i hi
  case small => exact hkept.small

/-- A new interval without clients. -/
theorem Kept.cons (hkept : Kept addreq service) {interval : Interval Address}
    (hintervals : service'.intervals = service.next :: service.intervals)
    (hnext : service'.next = service.next + 1)
    (hother : ∀ i ∈ service.intervals, service'.node i = service.node i)
    (hself : service'.node service.next = interval) (hclients : interval.clients = [])
    (hbyte : -128 ≤ interval.logPeriod ∧ interval.logPeriod < 128)
    (habsent : ∀ i ∈ service.intervals, (service.node i).logPeriod ≠ interval.logPeriod)
    (hheap : service'.queue.Valid (compareTimeout service'.node))
    (hheld : service'.queue.held = service.next ::ₘ service.queue.held)
    (hsmall : service'.queue.max ≤ 510) : Kept addreq service' := by
  subst hself
  constructor
  case toSound =>
    constructor
    case periods =>
      rw [hintervals]
      refine unique_cons.mpr ⟨fun i hi => ?_, ?_⟩
      · rw [hother i hi]
        exact habsent i hi
      · have hsame := List.map_congr_left fun i hi =>
          congrArg Interval.logPeriod (hother i hi)
        rw [KeyedList.Unique, hsame]
        exact hkept.periods
    case same => rw [hheld, hintervals, hkept.same, Multiset.cons_coe]
    case heap => exact hheap
    case addresses =>
      rw [hintervals]
      refine List.forall_mem_cons.mpr ⟨?_, fun i hi => ?_⟩
      · rw [hclients]
        exact List.Pairwise.nil
      · rw [hother i hi]
        exact hkept.addresses i hi
    case types =>
      rw [hintervals]
      refine List.forall_mem_cons.mpr ⟨?_, fun i hi => ?_⟩
      · rw [hclients]
        exact fun client hmem => absurd hmem List.not_mem_nil
      · rw [hother i hi]
        exact hkept.types i hi
    case contracts =>
      rw [hintervals]
      intro i hi j hj address mtype hfirst hsecond
      have hold : ∀ k ∈ service.next :: service.intervals,
          Contracted addreq (service'.node k).clients address mtype →
            k ∈ service.intervals := by
        intro k hk hcontracted
        rcases List.mem_cons.mp hk with rfl | hk
        · rw [hclients] at hcontracted
          exact absurd hcontracted not_contracted_nil
        · exact hk
      have hi := hold i hi hfirst
      have hj := hold j hj hsecond
      rw [hother i hi] at hfirst
      rw [hother j hj] at hsecond
      exact hkept.contracts i hi j hj address mtype hfirst hsecond
  case fresh =>
    rw [hintervals, hnext]
    exact List.forall_mem_cons.mpr ⟨Nat.lt_succ_self _, fun i hi =>
      (hkept.fresh i hi).trans (Nat.lt_succ_self _)⟩
  case bytes =>
    rw [hintervals]
    refine List.forall_mem_cons.mpr ⟨hbyte, fun i hi => ?_⟩
    rw [hother i hi]
    exact hkept.bytes i hi
  case small => exact hsmall

/-- An interval less. -/
theorem Kept.erase (hkept : Kept addreq service) {i : ℕ}
    (hintervals : service'.intervals = service.intervals.erase i)
    (hnext : service'.next = service.next) (hnode : service'.node = service.node)
    (hheap : service'.queue.Valid (compareTimeout service'.node))
    (hheld : service.queue.held = i ::ₘ service'.queue.held)
    (hsmall : service'.queue.max = service.queue.max) : Kept addreq service' := by
  have hmem : ∀ j ∈ service'.intervals, j ∈ service.intervals := by
    rw [hintervals]
    exact fun j hj => List.mem_of_mem_erase hj
  constructor
  case toSound =>
    constructor
    case periods =>
      rw [hnode, hintervals]
      exact List.Nodup.sublist (List.erase_sublist.map _) hkept.periods
    case same =>
      rw [hintervals, ← Multiset.coe_erase, ← hkept.same, hheld, Multiset.erase_cons_head]
    case heap => exact hheap
    case addresses =>
      rw [hnode]
      exact fun j hj => hkept.addresses j (hmem j hj)
    case types =>
      rw [hnode]
      exact fun j hj => hkept.types j (hmem j hj)
    case contracts =>
      rw [hnode]
      exact fun j hj k hk => hkept.contracts j (hmem j hj) k (hmem k hk)
  case fresh =>
    rw [hnext]
    exact fun j hj => hkept.fresh j (hmem j hj)
  case bytes =>
    rw [hnode]
    exact fun j hj => hkept.bytes j (hmem j hj)
  case small => exact hsmall ▸ hkept.small

/-- The clients and the rates stay, the timeouts and the queue change. -/
theorem Kept.retime (hkept : Kept addreq service)
    (hintervals : service'.intervals = service.intervals)
    (hnext : service.next ≤ service'.next)
    (hnode : ∀ i ∈ service.intervals,
      (service'.node i).clients = (service.node i).clients ∧
        (service'.node i).logPeriod = (service.node i).logPeriod)
    (hheap : service'.queue.Valid (compareTimeout service'.node))
    (hheld : service'.queue.held = service.queue.held)
    (hsmall : service'.queue.max ≤ 510) : Kept addreq service' := by
  have hclients := fun i hi => (hnode i hi).1
  have hperiod := fun i hi => (hnode i hi).2
  constructor
  case toSound =>
    constructor
    case periods =>
      rw [hintervals, KeyedList.Unique, List.map_congr_left hperiod]
      exact hkept.periods
    case same => rw [hintervals, hheld, hkept.same]
    case heap => exact hheap
    case addresses =>
      rw [hintervals]
      exact fun i hi => hclients i hi ▸ hkept.addresses i hi
    case types =>
      rw [hintervals]
      exact fun i hi => hclients i hi ▸ hkept.types i hi
    case contracts =>
      rw [hintervals]
      intro i hi j hj
      rw [hclients i hi, hclients j hj]
      exact hkept.contracts i hi j hj
  case fresh =>
    rw [hintervals]
    exact fun i hi => (hkept.fresh i hi).trans_le hnext
  case bytes =>
    rw [hintervals]
    exact fun i hi => hperiod i hi ▸ hkept.bytes i hi
  case small => exact hsmall

end

/-! ## Intervals that stay and intervals that start -/

section

def SameTimes (a b : Interval Address) : Prop :=
  b = { a with clients := b.clients }

/-- An interval is one that was there, with its times, or one of these. -/
def Continues (starts : Interval Address → Prop) (service service' : Service Address) : Prop :=
  ∀ i ∈ service'.intervals,
    i ∈ service.intervals ∧ SameTimes (service.node i) (service'.node i) ∨
      starts (service'.node i)

/-- An interval that a request for messages which the service sends may start. -/
def StartsFor (wideShift : ℕ → ℤ) (req : RequestUnicastXmit) (interval : Interval Address) :
    Prop :=
  ((req.messageType >>> 4).toNat = announce ∨ (req.messageType >>> 4).toNat = sync) ∧
    ∃ clock, SameTimes
      (initializeInterval wideShift clock req.logInterMessagePeriod.toInt) interval

variable {addreq} {starts : Interval Address → Prop} {service service' : Service Address}

theorem SameTimes.of_eq {a b : Interval Address} (hsame : b = a) : SameTimes a b := by
  rw [SameTimes, hsame]

/-- Times that stay the same stay the same. -/
theorem SameTimes.trans {a b c : Interval Address} (hfirst : SameTimes a b)
    (hsecond : SameTimes b c) : SameTimes a c := by
  rw [SameTimes, hsecond, hfirst]

theorem Continues.refl : Continues starts service service :=
  fun _ hi => Or.inl ⟨hi, rfl⟩

/-- Editing clients leaves the times alone. -/
theorem Edits.continues {node : ℕ → Interval Address} {granted : Address → ℕ → Prop}
    {target : Option ℕ}
    (hedits : Edits addreq granted target service.intervals service.node node) :
    Continues starts service { service with node } :=
  fun i hi => Or.inl ⟨hi, hedits.frame i hi⟩

/-- Edits before the rest do not matter. -/
theorem Continues.of_edits {node : ℕ → Interval Address} {granted : Address → ℕ → Prop}
    {target : Option ℕ}
    (hcontinues : Continues starts { service with node } service')
    (hedits : Edits addreq granted target service.intervals service.node node) :
    Continues starts service service' :=
  fun i hi => (hcontinues i hi).imp_left fun ⟨hold, hsame⟩ =>
    ⟨hold, SameTimes.trans (hedits.frame i hold) hsame⟩

end

/-! ## Requests and cancels -/

section

variable {addreq} {service : Service Address}

/-- A valid queue can always be asked for its first entry. -/
theorem pqueuePeek_isSome {α : Type} {cmp : α → α → ℤ} {q : PQueue α}
    (hvalid : q.Valid cmp) : ∃ entry, pqueuePeek q = some entry := by
  rcases hvalid.len_nonneg.eq_or_lt with hzero | hpos
  · exact ⟨none, by rw [pqueuePeek, if_neg (by simp [← hzero])]⟩
  · exact ⟨_, pqueuePeek_eq hvalid hpos⟩

/-- Only the timer is set. -/
theorem reArmTimer_kept (hkept : Kept addreq service) (settime : Bool) :
    ∃ failed timer, reArmTimer settime service = some (failed, { service with timer }) ∧
      Kept addreq { service with timer } := by
  obtain ⟨entry, hpeek⟩ := pqueuePeek_isSome hkept.heap
  have hset := fun timer => @Kept.retime _ _ _ { service with timer } hkept rfl le_rfl
    (fun _ _ => ⟨rfl, rfl⟩) hkept.heap rfl hkept.small
  rw [reArmTimer, hpeek]
  cases settime
  · exact ⟨true, service.timer, rfl, hset _⟩
  · exact ⟨false, _, rfl, hset _⟩

/-- The queue has room for another interval, or grows. -/
theorem Kept.insert (hkept : Kept addreq service) {node : ℕ → Interval Address} {i : ℕ}
    (hnode : ∀ j ∈ service.intervals, (node j).tmo = (service.node j).tmo)
    (hlength : service.intervals.length ≤ 255) (grown : Option (ℕ → ℕ)) :
    ∃ value queue, pqueueInsert (compareTimeout node) service.queue i grown =
        some (value, queue) ∧ queue.Valid (compareTimeout node) ∧ queue.max ≤ 510 ∧
      (value = 0 ∧ queue.held = i ::ₘ service.queue.held ∨
        value ≠ 0 ∧ queue = service.queue) := by
  have hvalid : service.queue.Valid (compareTimeout node) := by
    refine hkept.heap.congr fun a ha b hb => ?_
    rw [compareTimeout, compareTimeout, hnode a (hkept.mem_held.mp ha),
      hnode b (hkept.mem_held.mp hb)]
  have hsmall := hkept.small
  have hlen := hkept.len_eq
  have hfits : service.queue.len < service.queue.max ∨ service.queue.max < 2 ^ 30 :=
    Or.inr (by omega)
  obtain ⟨value, queue, hinsert, hvalid', hrefines⟩ :=
    pqueueInsert_spec (totalPreorder_compareTimeout node) hvalid hfits
  refine ⟨value, queue, hinsert, hvalid', ?_, ?_⟩
  · rcases pqueueInsert_max hvalid hfits hinsert with hmax | ⟨hfull, hmax⟩ <;> omega
  · rcases hrefines with hadded | ⟨rfl, -, -, hsame⟩
    · exact Or.inl hadded
    · exact Or.inr ⟨by decide, hsame⟩

/-- The interval with the rate is there once the client comes to it. -/
theorem addInterval_kept (hcompares : Compares addreq)
    (hkept : Kept addreq service) (wideShift : ℕ → ℤ) (host : RequestHost)
    {req : RequestUnicastXmit} {sender : Sender Address} {mask : BitVec 32}
    (hmtype : (req.messageType >>> 4).toNat = announce ∨ (req.messageType >>> 4).toNat = sync)
    (hmask : mask ≠ 0)
    (habsent : ∀ i ∈ service.intervals,
      (service.node i).logPeriod ≠ req.logInterMessagePeriod.toInt)
    (hcleared : ∀ i ∈ service.intervals, ∀ other mtype,
      requested addreq sender.address mask other mtype →
        ¬Contracted addreq (service.node i).clients other mtype) :
    ∃ answer service', addInterval wideShift host req
        (newClient host.contractClock req mask sender) service = some (answer, service') ∧
      Kept addreq service' ∧ Continues (StartsFor wideShift req) service service' := by
  let node := update service.node service.next
    (initializeInterval wideShift host.startClock req.logInterMessagePeriod.toInt)
  have hother : ∀ i ∈ service.intervals, node i = service.node i :=
    fun i hi => update_of_ne (hkept.fresh i hi).ne _ _
  have hself : node service.next =
      initializeInterval wideShift host.startClock req.logInterMessagePeriod.toInt :=
    update_self ..
  have hbyte := And.intro req.logInterMessagePeriod.le_toInt req.logInterMessagePeriod.toInt_lt
  obtain ⟨value, queue, hinsert, hvalid, hsmall, hresult⟩ := @Kept.insert _ _ _ hkept node
    service.next (fun j hj => by rw [hother j hj]) (hkept.length_lt hbyte habsent) host.grown
  rw [addInterval]
  simp only [Option.bind_eq_bind]
  rw [hinsert, Option.bind_some]
  rcases hresult with ⟨rfl, hheld⟩ | ⟨hfailed, rfl⟩
  · have hadded : Kept addreq { service with
        node, queue, intervals := service.next :: service.intervals, next := service.next + 1 } :=
      hkept.cons rfl rfl hother hself rfl hbyte habsent hvalid hheld hsmall
    have hedits : Edits addreq (requested addreq sender.address mask) (some service.next)
        (service.next :: service.intervals) node
        (insertClient node service.next (newClient host.contractClock req mask sender)) := by
      refine Edits.setClients ⟨fun _ _ => rfl, fun _ _ => id, fun _ _ _ _ => Or.inl,
        fun i hi hne other mtype hrequested => ?_⟩ (Or.inr ⟨rfl, ?_⟩)
      · have hold := (List.mem_cons.mp hi).resolve_left fun hsame => hne (hsame ▸ rfl)
        rw [hother i hold]
        exact hcleared i hold other mtype hrequested
      · rw [hself]
        exact edited_newClient hcompares _ _ hmask fun ctmp hmem => absurd hmem List.not_mem_nil
    obtain ⟨failed, timer, harm, htimed⟩ := reArmTimer_kept hadded host.settime
    rw [if_neg (by simp), harm, Option.bind_some]
    refine ⟨_, _, rfl, htimed.edits hedits, fun i hi => ?_⟩
    have hframe := hedits.frame i hi
    rcases List.mem_cons.mp hi with rfl | hold
    · rw [hself] at hframe
      exact Or.inr ⟨hmtype, host.startClock, hframe⟩
    · rw [hother i hold] at hframe
      exact Or.inl ⟨hold, hframe⟩
  · rw [if_pos hfailed, List.erase_cons_head]
    exact ⟨_, _, rfl, hkept.retime rfl (Nat.le_succ _)
      (fun i hi => ⟨congrArg Interval.clients (hother i hi),
        congrArg Interval.logPeriod (hother i hi)⟩) hvalid rfl hsmall,
      fun i hi => Or.inl ⟨hi, SameTimes.of_eq (hother i hi)⟩⟩

/-- What the loop has found decides where the contract comes. -/
theorem addContract_kept (hcompares : Compares addreq)
    (hkept : Kept addreq service) (wideShift : ℕ → ℤ) (host : RequestHost)
    {req : RequestUnicastXmit} {sender : Sender Address} {mask : BitVec 32}
    (hmtype : (req.messageType >>> 4).toNat = announce ∨ (req.messageType >>> 4).toNat = sync)
    (hmask : mask ≠ 0) {found : Search Address}
    (hfinds : Finds addreq sender.address mask req.logInterMessagePeriod.toInt
      service.intervals service.node found) :
    ∃ answer service', addContract wideShift host sender req mask service found =
        some (answer, service') ∧ Kept addreq service' ∧
      Continues (StartsFor wideShift req) service service' := by
  have hcleared : Kept addreq { service with node := found.node } :=
    hkept.edits hfinds.edits
  rw [addContract]
  cases hclient : found.client with
  | some record =>
    obtain ⟨i, place⟩ := record
    obtain ⟨hinterval, ctmp, hplace, haddress⟩ := hfinds.client i place hclient
    have hedits := hfinds.edits.setClients (Or.inr
      ⟨hinterval, edited_renewClient hcompares host.contractClock req hplace haddress⟩)
    exact ⟨_, _, rfl, hkept.edits hedits, hedits.continues⟩
  | none =>
    have hnoClient := hfinds.noClient hclient
    cases host.clientMemory with
    | false => exact ⟨_, _, rfl, hcleared, hfinds.edits.continues⟩
    | true =>
      rw [if_pos rfl]
      cases hinterval : found.interval with
      | some i =>
        have hedits := hfinds.edits.setClients (Or.inr
          ⟨hinterval, edited_newClient hcompares host.contractClock req hmask
            (hnoClient i hinterval)⟩)
        exact ⟨_, _, rfl, hkept.edits hedits, hedits.continues⟩
      | none =>
        cases host.intervalMemory with
        | false => exact ⟨_, _, rfl, hcleared, hfinds.edits.continues⟩
        | true =>
          have habsent : ∀ i ∈ service.intervals,
              (found.node i).logPeriod ≠ req.logInterMessagePeriod.toInt := fun i hi =>
            congrArg Interval.logPeriod (hfinds.edits.frame i hi) ▸
              hfinds.absent hinterval i hi
          have hnoTarget : ∀ i, found.interval ≠ some i := fun i => by
            rw [hinterval]
            exact (Option.some_ne_none i).symm
          obtain ⟨answer, service', hadd, hkept', hcontinues⟩ :=
            addInterval_kept hcompares hcleared wideShift host hmtype hmask habsent
              fun i hi => hfinds.edits.cleared i hi (hnoTarget i)
          exact ⟨answer, service', hadd, hkept', hcontinues.of_edits hfinds.edits⟩

theorem mask_ne_zero {mtype : ℕ} (hmtype : mtype = announce ∨ mtype = sync) :
    1#32 <<< mtype ≠ 0 := by
  rcases hmtype with rfl | rfl <;> decide

/-- A request is answered, and keeps the service sound. -/
theorem serviceAdd_kept (hcompares : Compares addreq)
    (hkept : Kept addreq service) (wideShift : ℕ → ℤ) (host : RequestHost)
    (sender : Sender Address) (req : RequestUnicastXmit) :
    ∃ answer service', serviceAdd addreq wideShift host sender req service =
        some (answer, service') ∧ Kept addreq service' ∧
      Continues (StartsFor wideShift req) service service' := by
  unfold serviceAdd
  dsimp only
  split
  case isTrue hmtype =>
    rcases @searchIntervals_spec _ addreq _ _ sender.address
        (1#32 <<< (req.messageType >>> 4).toNat) hcompares host.contractClock req hkept.periods
      with ⟨node, hsearch, hedits, -⟩ | ⟨found, hsearch, hfinds⟩
    · rw [hsearch]
      exact ⟨_, _, rfl, hkept.edits hedits, hedits.continues⟩
    · rw [hsearch]
      exact addContract_kept hcompares hkept wideShift host hmtype (mask_ne_zero hmtype) hfinds
  case isFalse =>
    split
    · exact ⟨_, _, rfl, hkept, Continues.refl⟩
    · exact ⟨_, _, rfl, hkept, Continues.refl⟩

/-- A cancellation keeps it sound. -/
theorem serviceRemove_kept (hkept : Kept addreq service) (address : Address)
    (messageTypeFlags : UInt8) :
    Kept addreq (serviceRemove addreq address messageTypeFlags service) ∧
      Continues (fun _ => False) service
        (serviceRemove addreq address messageTypeFlags service) := by
  unfold serviceRemove
  dsimp only
  split
  · exact ⟨hkept, Continues.refl⟩
  · split
    · exact ⟨hkept.edits edits_removeFromIntervals, edits_removeFromIntervals.continues⟩
    · exact ⟨hkept, Continues.refl⟩

end

/-! ## The timer -/

section

variable {addreq} {service : Service Address}

/-- To serve clients may extend or end their contracts. -/
theorem edited_serveClients (master : Bool) (host : RoundHost Address)
    (clients : List (Client Address)) :
    Edited addreq nothing clients (serveClients master host clients).2 := by
  cases master
  · exact Edited.refl
  · rw [serveClients, if_pos rfl, unicastServiceClients]
    cases host.clock with
    | none => exact Edited.refl
    | some now => exact edited_filter _

/-- What a round does with an interval: without clients it retires it, with the clients
that are left it puts it back for the next time. -/
def Served (clients : List (Client Address)) (i : ℕ) (service service' : Service Address) :
    Prop :=
  clients = [] ∧ service'.intervals = service.intervals.erase i ∧
      service'.node = service.node ∨
    clients ≠ [] ∧ service'.intervals = service.intervals ∧ service'.node =
      update service.node i (intervalIncrement { service.node i with clients })

/-- An interval that comes out of the queue goes back or is retired. -/
theorem serveInterval_kept (hkept : Kept addreq service) (master : Bool)
    (host : RoundHost Address) {i : ℕ} (hi : i ∈ service.intervals) {queue : PQueue ℕ}
    (hvalid : queue.Valid (compareTimeout service.node))
    (hheld : service.queue.held = i ::ₘ queue.held) (hlen : queue.len + 1 = service.queue.len)
    (hmax : queue.max = service.queue.max) :
    ∃ failed service', serveInterval master host i { service with queue } =
        some (.goesOn failed service') ∧ Kept addreq service' ∧
      Served (serveClients master host (service.node i).clients).2 i service service' := by
  have hedited := @edited_serveClients _ addreq master host (service.node i).clients
  rw [serveInterval]
  dsimp only
  generalize serveClients master host (service.node i).clients = served at hedited ⊢
  obtain ⟨failed, clients⟩ := served
  dsimp only at hedited ⊢
  by_cases hnil : clients = []
  · rw [if_pos hnil]
    exact ⟨failed, _, rfl, hkept.erase rfl rfl rfl hvalid hheld hmax, Or.inl ⟨hnil, rfl, rfl⟩⟩
  rw [if_neg hnil]
  let node := update service.node i (intervalIncrement { service.node i with clients })
  have hnotHeld : i ∉ queue.held := by
    have hnodup := hkept.nodup
    rw [← Multiset.coe_nodup, ← hkept.same, hheld] at hnodup
    exact (Multiset.nodup_cons.mp hnodup).1
  have hvalid' : queue.Valid (compareTimeout node) := by
    refine hvalid.congr fun a ha b hb => ?_
    have hother : ∀ j ∈ queue.held, node j = service.node j := fun j hj =>
      update_of_ne (ne_of_mem_of_not_mem hj hnotHeld) _ _
    rw [compareTimeout, compareTimeout, hother a ha, hother b hb]
  have hroom : queue.len < queue.max := by
    have := hkept.heap.len_le
    omega
  obtain ⟨queue', hinsert, hvalid'', hheld', -, hmax'⟩ :=
    pqueueInsert_of_room (totalPreorder_compareTimeout node) hvalid' hroom i host.grown
  have hcleared : Kept addreq { service with node := setClients service.node i clients } :=
    hkept.edits (Edits.refl.setClients (Or.inl hedited))
  simp only [Option.bind_eq_bind, hinsert, Option.bind_some, node]
  refine ⟨failed, _, rfl, hcleared.retime rfl le_rfl (fun j _ => ?_) hvalid'' ?_ ?_,
    Or.inr ⟨hnil, rfl, rfl⟩⟩
  · by_cases hji : j = i
    · subst hji
      simp only [update_self, setClients_self, intervalIncrement, and_self]
    · simp only [update_of_ne hji, setClients_of_ne hji, and_self]
  · exact hheld'.trans hheld.symm
  · exact (hmax'.trans hmax).trans_le hkept.small

/-- A round ends the loop where no interval is due, and serves one that is due where there
is one. -/
theorem timerRound_spec (hkept : Kept addreq service) (master : Bool) (now : Timespec)
    (host : RoundHost Address) :
    (timerRound master now host service = some .ended ∧
        ∀ i ∈ service.intervals, ¬before (service.node i).tmo now) ∨
      ∃ i ∈ service.intervals, before (service.node i).tmo now ∧ ∃ failed service',
        timerRound master now host service = some (.goesOn failed service') ∧
          Kept addreq service' ∧
            Served (serveClients master host (service.node i).clients).2 i service service' := by
  rcases hkept.heap.len_nonneg.eq_or_lt with hzero | hpos
  · have hnil : service.intervals = [] := by
      have := hkept.len_eq
      rw [← List.length_eq_zero_iff]
      omega
    refine Or.inl ⟨?_, fun i hi => absurd (hnil ▸ hi) List.not_mem_nil⟩
    rw [timerRound, pqueuePeek, if_neg (by simp [← hzero])]
    rfl
  have hfits : service.queue.len ≤ 2 ^ 30 := by
    have := hkept.length_le
    have := hkept.len_eq
    omega
  have horder := totalPreorder_compareTimeout service.node
  obtain ⟨i, queue, hextract, hvalid, hpeek, hheld, hearliest, hlen, hmax⟩ :=
    pqueueExtract_of_pos horder hkept.heap hpos hfits
  have hi : i ∈ service.intervals := hkept.mem_held.mp (hheld ▸ Multiset.mem_cons_self ..)
  rw [timerRound, hpeek]
  simp only [Option.bind_eq_bind, Option.bind_some]
  by_cases hdue : timespecCompare now (service.node i).tmo < 0
  · rw [if_neg (not_le.mpr hdue), hextract, Option.bind_some]
    exact Or.inr ⟨i, hi, timespecCompare_neg_iff.mp hdue,
      serveInterval_kept hkept master host hi hvalid hheld hlen hmax⟩
  · rw [if_pos (not_lt.mp hdue)]
    refine Or.inl ⟨rfl, fun j hj hbefore => ?_⟩
    have hnotEarlier := hearliest j (hkept.mem_held.mpr hj)
    rw [compareTimeout, timespecCompare_pos_iff] at hnotEarlier
    rw [timespecCompare_neg_iff] at hdue
    unfold before at *
    omega

variable (addreq) in
/-- Some rounds have served intervals that were due. -/
def Rounds (now : Timespec) : Service Address → Service Address → Prop :=
  Relation.ReflTransGen fun service service' => Kept addreq service ∧
    ∃ i ∈ service.intervals, before (service.node i).tmo now ∧
      ∃ clients, Served clients i service service'

/-- The timer comes back, and keeps the service sound. -/
theorem timerLoop_kept (hkept : Kept addreq service) (master : Bool) (now : Timespec)
    (hosts : List (RoundHost Address)) (failed : Bool) :
    ∃ ended failed' service', timerLoop master now hosts failed service =
        some (ended, failed', service') ∧ Kept addreq service' ∧
      Rounds addreq now service service' := by
  induction hosts generalizing service failed with
  | nil => exact ⟨false, failed, service, rfl, hkept, Relation.ReflTransGen.refl⟩
  | cons host hosts ih =>
    rw [timerLoop]
    rcases timerRound_spec hkept master now host with
      ⟨hround, -⟩ | ⟨i, hi, hdue, fails, service', hround, hkept', hserved⟩
    · rw [hround]
      exact ⟨true, failed, service, rfl, hkept, Relation.ReflTransGen.refl⟩
    · obtain ⟨ended, failed', last, hloop, hlast, hrounds⟩ := ih hkept' (failed || fails)
      rw [hround]
      exact ⟨ended, failed', last, hloop, hlast,
        hrounds.head ⟨hkept, i, hi, hdue, _, hserved⟩⟩

/-- The timer runs some rounds and is set for the next. -/
theorem serviceTimer_kept (hkept : Kept addreq service) (master : Bool) (now : Timespec)
    (hosts : List (RoundHost Address)) (settime : Bool) :
    ∃ value service' timer, serviceTimer master now hosts settime service =
        some (value, { service' with timer }) ∧ Kept addreq { service' with timer } ∧
      Rounds addreq now service service' := by
  obtain ⟨ended, failed, service', hloop, hkept', hrounds⟩ :=
    timerLoop_kept hkept master now hosts false
  rw [serviceTimer, hloop]
  cases ended with
  | false => exact ⟨none, service', service'.timer, rfl, hkept', hrounds⟩
  | true =>
    obtain ⟨fails, timer, harm, htimed⟩ := reArmTimer_kept hkept' settime
    simp only [Option.bind_eq_bind, Option.bind_some, if_pos, harm]
    exact ⟨_, service', timer, rfl, htimed, hrounds⟩

end

end LinuxPtp.Unicast
