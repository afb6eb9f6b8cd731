import LinuxPtp.Unicast.Grants

/-!
# Contracts that last

A contract lasts until the time that its request has bought.  Neither other clients nor
requests of its own at the same rate end it before, and the timer ends it only after.
-/

namespace LinuxPtp.Unicast

open Function Wire

variable {Address : Type} (addreq : Address → Address → Bool)

/-- One of the clients has this address and a contract for these messages until then. -/
def Lasting (address : Address) (mtype : ℕ) (tmo : ℤ) (clients : List (Client Address)) :
    Prop :=
  ∃ client ∈ clients, addreq client.addr address ∧ client.messageTypes.getLsbD mtype ∧
    tmo ≤ client.grantTmo

/-- The interval has this rate, and such a client. -/
structure LastsAt (address : Address) (mtype : ℕ) (logPeriod tmo : ℤ)
    (interval : Interval Address) : Prop where
  period : interval.logPeriod = logPeriod
  lasting : Lasting addreq address mtype tmo interval.clients

def Lasts (address : Address) (mtype : ℕ) (logPeriod tmo : ℤ) (service : Service Address) :
    Prop :=
  ∃ i ∈ service.intervals, LastsAt addreq address mtype logPeriod tmo (service.node i)

section

variable {addreq} {address other : Address} {mtype : ℕ} {logPeriod tmo : ℤ}
variable {clients clients' : List (Client Address)} {mask : BitVec 32}
variable {node : ℕ → Interval Address} {i j : ℕ} {service service' : Service Address}
variable {wideShift : ℕ → ℤ} {host : RequestHost} {sender : Sender Address}
variable {req : RequestUnicastXmit} {now : Reading}

/-! ## Records -/

/-- The record keeps its address and its contracts, and for as long at least. -/
structure Outlasts (client client' : Client Address) : Prop where
  addr : client'.addr = client.addr
  types : ∀ mtype, client.messageTypes.getLsbD mtype → client'.messageTypes.getLsbD mtype
  tmo : client.grantTmo ≤ client'.grantTmo

theorem outlasts_extend (clock : Option Reading) (req : RequestUnicastXmit)
    (client : Client Address) : Outlasts client (unicastServiceExtend clock req client) := by
  obtain ⟨haddr, htypes⟩ := unicastServiceExtend_types clock req client
  refine ⟨haddr, fun mtype hbit => htypes ▸ hbit, ?_⟩
  unfold unicastServiceExtend
  split
  · exact le_rfl
  · dsimp only
    split
    · next hlater => exact hlater.le
    · exact le_rfl

/-- A contract that is renewed lasts no less. -/
theorem outlasts_renew (clock : Option Reading) (req : RequestUnicastXmit)
    (mask : BitVec 32) (client : Client Address) :
    Outlasts client (renewClient clock req mask client) := by
  have hextend := outlasts_extend clock req
    { client with messageTypes := client.messageTypes ||| mask }
  refine ⟨hextend.addr, fun mtype hbit => hextend.types mtype ?_, hextend.tmo⟩
  rw [BitVec.getLsbD_or, hbit, Bool.true_or]

/-- The contract is extended to the time that the request buys. -/
theorem le_extend (client : Client Address) :
    now.val.tvSec + req.durationField.toNat ≤
      (unicastServiceExtend (some now) req client).grantTmo := by
  unfold unicastServiceExtend
  dsimp only
  split
  · exact le_rfl
  · next hlater => exact not_lt.mp hlater

/-- What outlasts a client lasts as long. -/
theorem Lasting.modify (hlasting : Lasting addreq address mtype tmo clients)
    {edit : Client Address → Client Address} (hedit : ∀ client, Outlasts client (edit client))
    (place : ℕ) : Lasting addreq address mtype tmo (clients.modify place edit) := by
  obtain ⟨client, hmem, haddress, hbit, htmo⟩ := hlasting
  obtain ⟨k, hk⟩ := List.mem_iff_getElem?.mp hmem
  have hmodified : (clients.modify place edit)[k]? =
      some (if place = k then edit client else client) := by
    rw [List.getElem?_modify, hk]
    split <;> simp_all
  have hnow := List.mem_of_getElem? hmodified
  by_cases hsame : place = k
  · rw [if_pos hsame] at hnow
    exact ⟨_, hnow, (hedit client).addr ▸ haddress, (hedit client).types mtype hbit,
      htmo.trans (hedit client).tmo⟩
  · rw [if_neg hsame] at hnow
    exact ⟨_, hnow, haddress, hbit, htmo⟩

/-- A record that is not asked for, or not for these messages, is not stale. -/
theorem Lasting.clearStale (hequiv : Equivalence fun a b => addreq a b)
    (hother : addreq other address → mask.getLsbD mtype = false)
    (hlasting : Lasting addreq address mtype tmo clients) :
    Lasting addreq address mtype tmo (clients.filterMap (clearStale addreq other mask)) := by
  obtain ⟨client, hmem, haddress, hbit, htmo⟩ := hlasting
  by_cases hstale : addreq client.addr other
  · have hmask := hother (hequiv.trans (hequiv.symm hstale) haddress)
    have hleft : (client.messageTypes &&& ~~~mask).getLsbD mtype := by
      rw [getLsbD_and_not, hbit, hmask]
      rfl
    have hnonzero : client.messageTypes &&& ~~~mask ≠ 0 := by
      intro hzero
      rw [hzero] at hleft
      simp at hleft
    refine ⟨{ client with messageTypes := client.messageTypes &&& ~~~mask },
      List.mem_filterMap.mpr ⟨client, hmem, ?_⟩, haddress, hleft, htmo⟩
    rw [Unicast.clearStale, if_pos hstale, withoutTypes, if_neg hnonzero]
  · refine ⟨client, List.mem_filterMap.mpr ⟨client, hmem, ?_⟩, haddress, hbit, htmo⟩
    rw [Unicast.clearStale, if_neg hstale]

/-- A cancel of another client takes no contract away. -/
theorem Lasting.removeContract (hequiv : Equivalence fun a b => addreq a b)
    (hother : ¬addreq other address) (hlasting : Lasting addreq address mtype tmo clients)
    (hremove : removeContract addreq other mask clients = some clients') :
    Lasting addreq address mtype tmo clients' := by
  induction clients generalizing clients' with
  | nil => cases hremove
  | cons first rest ih =>
    obtain ⟨client, hmem, haddress, hbit, htmo⟩ := hlasting
    rw [Unicast.removeContract] at hremove
    split at hremove
    case isTrue hfirst =>
      have hrest : client ∈ rest := (List.mem_cons.mp hmem).resolve_left fun hsame =>
        hother (hequiv.trans (hequiv.symm hfirst.1) (hsame ▸ haddress))
      obtain rfl := Option.some.inj hremove
      exact ⟨client, List.mem_append_right _ hrest, haddress, hbit, htmo⟩
    case isFalse =>
      obtain ⟨rest', hrest', rfl⟩ := Option.map_eq_some_iff.mp hremove
      rcases List.mem_cons.mp hmem with rfl | hrest
      · exact ⟨client, List.mem_cons_self, haddress, hbit, htmo⟩
      · obtain ⟨client', hmem', hlasts⟩ := ih ⟨client, hrest, haddress, hbit, htmo⟩ hrest'
        exact ⟨client', List.mem_cons_of_mem _ hmem', hlasts⟩

/-- Until its time the timer leaves a contract alone. -/
theorem Lasting.serveClients {master : Bool} {round : RoundHost Address}
    (hclock : master → ∀ now, round.clock = some now → now.val.tvSec ≤ tmo)
    (hlasting : Lasting addreq address mtype tmo clients) :
    Lasting addreq address mtype tmo (serveClients master round clients).2 := by
  cases master with
  | false => exact hlasting
  | true =>
    rw [Unicast.serveClients, if_pos rfl, unicastServiceClients]
    cases hnow : round.clock with
    | none => exact hlasting
    | some now =>
      obtain ⟨client, hmem, haddress, hbit, htmo⟩ := hlasting
      refine ⟨client, List.mem_filter.mpr ⟨hmem, ?_⟩, haddress, hbit, htmo⟩
      exact decide_eq_true (not_lt.mpr ((hclock rfl now hnow).trans htmo))

/-! ## Intervals -/

theorem LastsAt.setClients (hlasts : LastsAt addreq address mtype logPeriod tmo (node i))
    (hclients : Lasting addreq address mtype tmo (node j).clients →
      Lasting addreq address mtype tmo clients) :
    LastsAt addreq address mtype logPeriod tmo (setClients node j clients i) := by
  by_cases hsame : i = j
  · subst hsame
    rw [setClients_self]
    exact ⟨hlasts.period, hclients hlasts.lasting⟩
  · rw [setClients_of_ne hsame]
    exact hlasts

/-- The loop over the intervals leaves a contract alone unless it is asked for at another
rate. -/
theorem LastsAt.searchIntervals (hequiv : Equivalence fun a b => addreq a b)
    {clock : Option Reading} (hsafe : addreq other address → mask.getLsbD mtype →
      req.logInterMessagePeriod.toInt = logPeriod)
    (intervals : List ℕ) {found : Search Address}
    (hlasts : LastsAt addreq address mtype logPeriod tmo (found.node i)) :
    LastsAt addreq address mtype logPeriod tmo
      ((searchIntervals addreq clock req other mask intervals found).elim id
        Search.node i) := by
  induction intervals generalizing found with
  | nil => exact hlasts
  | cons first rest ih =>
    rw [Unicast.searchIntervals]
    split
    · split
      · exact hlasts.setClients fun hlasting =>
          hlasting.modify (outlasts_extend clock req) _
      · exact ih hlasts
    · next hperiod =>
      refine ih ?_
      by_cases hsame : i = first
      · subst hsame
        refine hlasts.setClients fun hlasting => hlasting.clearStale hequiv fun hasked => ?_
        exact Bool.eq_false_iff.mpr fun hbit =>
          hperiod (hlasts.period.trans (hsafe hasked hbit).symm)
      · simpa only [setClients_of_ne hsame] using hlasts

/-- A cancellation does not touch another client's contract. -/
theorem LastsAt.removeFromIntervals (hequiv : Equivalence fun a b => addreq a b)
    (hother : ¬addreq other address) (intervals : List ℕ)
    (hlasts : LastsAt addreq address mtype logPeriod tmo (node i)) :
    LastsAt addreq address mtype logPeriod tmo
      (removeFromIntervals addreq other mask intervals node i) := by
  induction intervals with
  | nil => exact hlasts
  | cons first rest ih =>
    rw [Unicast.removeFromIntervals]
    cases hremove : Unicast.removeContract addreq other mask (node first).clients with
    | none => exact ih
    | some clients =>
      exact hlasts.setClients fun hlasting => hlasting.removeContract hequiv hother hremove

/-! ## Requests -/

theorem eq_of_getLsbD_mask {k : ℕ} (hbit : (1#32 <<< k).getLsbD mtype) : k = mtype := by
  simp only [BitVec.getLsbD_shiftLeft, BitVec.getLsbD_one] at hbit
  simp at hbit
  omega

/-- A new interval is there with its client, or not at all; the others stay. -/
theorem addInterval_cases {client : Client Address} {answer : ServiceAnswer}
    (hadd : addInterval wideShift host req client service = some (answer, service')) :
    (∀ i, i ≠ service.next → service'.node i = service.node i) ∧
      (answer = .denied ∧ service'.intervals = service.intervals ∨
        answer = .granted ∧ service'.intervals = service.next :: service.intervals ∧
          service'.node service.next =
            { (initializeInterval wideShift host.startClock req.logInterMessagePeriod.toInt :
                Interval Address) with clients := [client] }) := by
  obtain ⟨⟨err, queue⟩, -, hadd⟩ := Option.bind_eq_some_iff.mp hadd
  dsimp only at hadd
  split at hadd
  case isTrue =>
    obtain ⟨rfl, rfl⟩ := Prod.mk.inj (Option.some.inj hadd)
    exact ⟨fun i hother => update_of_ne hother _ _, Or.inl ⟨rfl, List.erase_cons_head ..⟩⟩
  case isFalse =>
    obtain ⟨⟨failed, armed⟩, harm, hadd⟩ := Option.bind_eq_some_iff.mp hadd
    obtain ⟨hnode, hintervals⟩ := reArmTimer_node harm
    obtain ⟨rfl, rfl⟩ := Prod.mk.inj (Option.some.inj hadd)
    dsimp only at hnode hintervals
    refine ⟨fun i hother => ?_, Or.inr ⟨rfl, hintervals, ?_⟩⟩
    · dsimp only
      rw [insertClient, setClients_of_ne hother, hnode, update_of_ne hother]
    · dsimp only
      rw [insertClient, setClients_self, hnode, update_self]
      rfl

/-- What becomes of a request behind the loop. -/
inductive ContractTurn (wideShift : ℕ → ℤ) (host : RequestHost) (sender : Sender Address)
    (req : RequestUnicastXmit) (mask : BitVec 32) (service : Service Address)
    (found : Search Address) : ServiceAnswer → Service Address → Prop
  | renewed {i place : ℕ} (hclient : found.client = some (i, place)) :
      ContractTurn wideShift host sender req mask service found .granted { service with
        node := setClients found.node i ((found.node i).clients.modify place
          (renewClient host.contractClock req mask)) }
  | joined {i : ℕ} (hclient : found.client = none) (hinterval : found.interval = some i) :
      ContractTurn wideShift host sender req mask service found .granted { service with
        node := insertClient found.node i
          (newClient host.contractClock req mask sender) }
  | denied :
      ContractTurn wideShift host sender req mask service found .denied
        { service with node := found.node }
  | opened {answer : ServiceAnswer} {service' : Service Address}
      (hinterval : found.interval = none)
      (hadd : addInterval wideShift host req (newClient host.contractClock req mask sender)
        { service with node := found.node } = some (answer, service')) :
      ContractTurn wideShift host sender req mask service found answer service'

/-- What a contract that is added does to the intervals. -/
theorem addContract_turn {found : Search Address} {answer : ServiceAnswer}
    (hadd : addContract wideShift host sender req mask service found =
      some (answer, service')) :
    ContractTurn wideShift host sender req mask service found answer service' := by
  rw [addContract] at hadd
  cases hclient : found.client with
  | some record =>
    simp only [hclient, Option.some.injEq, Prod.mk.injEq] at hadd
    obtain ⟨rfl, rfl⟩ := hadd
    exact .renewed hclient
  | none =>
    simp only [hclient] at hadd
    split at hadd
    case isFalse =>
      obtain ⟨rfl, rfl⟩ := Prod.mk.inj (Option.some.inj hadd)
      exact .denied
    case isTrue =>
      cases hinterval : found.interval with
      | some i =>
        simp only [hinterval, Option.some.injEq, Prod.mk.injEq] at hadd
        obtain ⟨rfl, rfl⟩ := hadd
        exact .joined hclient hinterval
      | none =>
        simp only [hinterval] at hadd
        split at hadd
        case isFalse =>
          obtain ⟨rfl, rfl⟩ := Prod.mk.inj (Option.some.inj hadd)
          exact .denied
        case isTrue => exact .opened hinterval hadd

theorem Lasts.addInterval {client : Client Address} {answer : ServiceAnswer}
    (hfresh : ∀ i ∈ service.intervals, i < service.next)
    (hadd : addInterval wideShift host req client service = some (answer, service'))
    (hlasts : Lasts addreq address mtype logPeriod tmo service) :
    Lasts addreq address mtype logPeriod tmo service' := by
  obtain ⟨i, hi, hlasts⟩ := hlasts
  obtain ⟨hothers, hcases⟩ := addInterval_cases hadd
  have hstays : i ∈ service'.intervals := by
    rcases hcases with ⟨-, hsame⟩ | ⟨-, hmore, -⟩
    · exact hsame ▸ hi
    · exact hmore ▸ List.mem_cons_of_mem _ hi
  exact ⟨i, hstays, hothers i (hfresh i hi).ne ▸ hlasts⟩

/-- A new contract does not shorten the others. -/
theorem Lasts.addContract {found : Search Address} {answer : ServiceAnswer}
    (hfresh : ∀ i ∈ service.intervals, i < service.next)
    (hadd : addContract wideShift host sender req mask service found =
      some (answer, service'))
    (hlasts : Lasts addreq address mtype logPeriod tmo { service with node := found.node }) :
    Lasts addreq address mtype logPeriod tmo service' := by
  have hset : ∀ {j clients}, (Lasting addreq address mtype tmo (found.node j).clients →
        Lasting addreq address mtype tmo clients) →
      Lasts addreq address mtype logPeriod tmo
        { service with node := setClients found.node j clients } := by
    intro j clients hclients
    obtain ⟨i, hi, hlasts⟩ := hlasts
    exact ⟨i, hi, hlasts.setClients hclients⟩
  cases addContract_turn hadd with
  | @renewed i place hclient =>
    exact hset fun hlasting => hlasting.modify (outlasts_renew _ _ _) place
  | joined =>
    refine hset fun hlasting => ?_
    obtain ⟨client, hmem, hlasts⟩ := hlasting
    exact ⟨client, List.mem_cons_of_mem _ hmem, hlasts⟩
  | denied => exact hlasts
  | opened _ hnew =>
    have hkept := @Lasts.addInterval _ addreq address mtype logPeriod tmo
      { service with node := found.node } service' wideShift host req
    exact hkept hfresh hnew hlasts

/-- A request ends no contract but one of its own sender at another rate. -/
theorem Lasts.serviceAdd (hequiv : Equivalence fun a b => addreq a b)
    (hfresh : ∀ i ∈ service.intervals, i < service.next) {answer : ServiceAnswer}
    (hsafe : addreq sender.address address → (req.messageType >>> 4).toNat = mtype →
      req.logInterMessagePeriod.toInt = logPeriod)
    (hadd : serviceAdd addreq wideShift host sender req service = some (answer, service'))
    (hlasts : Lasts addreq address mtype logPeriod tmo service) :
    Lasts addreq address mtype logPeriod tmo service' := by
  unfold Unicast.serviceAdd at hadd
  dsimp only at hadd
  split at hadd
  case isTrue =>
    obtain ⟨i, hi, hlasts⟩ := hlasts
    have hasked : addreq sender.address address →
        (1#32 <<< (req.messageType >>> 4).toNat).getLsbD mtype →
        req.logInterMessagePeriod.toInt = logPeriod := fun hsender hbit =>
      hsafe hsender (eq_of_getLsbD_mask hbit)
    have hsearched : LastsAt addreq address mtype logPeriod tmo
        ((searchIntervals addreq host.contractClock req sender.address
          (1#32 <<< (req.messageType >>> 4).toNat) service.intervals
          ⟨service.node, none, none⟩).elim id Search.node i) :=
      LastsAt.searchIntervals hequiv hasked service.intervals hlasts
    split at hadd
    · next node hsearch =>
      rw [hsearch] at hsearched
      obtain rfl := (Prod.mk.inj (Option.some.inj hadd)).2
      exact ⟨i, hi, hsearched⟩
    · next found hsearch =>
      rw [hsearch] at hsearched
      exact Lasts.addContract hfresh hadd ⟨i, hi, hsearched⟩
  case isFalse =>
    split at hadd
    all_goals
      obtain rfl := (Prod.mk.inj (Option.some.inj hadd)).2
      exact hlasts

/-- Nor does another client's cancellation. -/
theorem Lasts.serviceRemove (hequiv : Equivalence fun a b => addreq a b)
    (hother : ¬addreq other address) (flags : UInt8)
    (hlasts : Lasts addreq address mtype logPeriod tmo service) :
    Lasts addreq address mtype logPeriod tmo (serviceRemove addreq other flags service) := by
  rw [Unicast.serviceRemove]
  dsimp only
  split
  · exact hlasts
  · split
    · obtain ⟨i, hi, hlasts⟩ := hlasts
      exact ⟨i, hi, hlasts.removeFromIntervals hequiv hother service.intervals⟩
    · exact hlasts

/-! ## The timer -/

theorem Lasts.served (hserved : Served clients i service service')
    (hclients : Lasting addreq address mtype tmo (service.node i).clients →
      Lasting addreq address mtype tmo clients)
    (hlasts : Lasts addreq address mtype logPeriod tmo service) :
    Lasts addreq address mtype logPeriod tmo service' := by
  obtain ⟨j, hj, hlasts⟩ := hlasts
  rcases hserved with ⟨hnil, hintervals, hnode⟩ | ⟨-, hintervals, hnode⟩
  · have hother : j ≠ i := by
      rintro rfl
      obtain ⟨client, hmem, -⟩ := hclients hlasts.lasting
      exact absurd (hnil ▸ hmem) List.not_mem_nil
    refine ⟨j, hintervals ▸ (List.mem_erase_of_ne hother).mpr hj, ?_⟩
    rw [hnode]
    exact hlasts
  · refine ⟨j, hintervals ▸ hj, ?_⟩
    rw [hnode]
    by_cases hsame : j = i
    · subst hsame
      rw [update_self]
      exact ⟨hlasts.period, hclients hlasts.lasting⟩
    · rw [update_of_ne hsame]
      exact hlasts

section

variable {master ended failed failed' : Bool} {start : Timespec}
variable {hosts : List (RoundHost Address)}
variable (hclocks : master → ∀ round ∈ hosts, ∀ now, round.clock = some now →
  now.val.tvSec ≤ tmo)

include hclocks

/-- Nor does the timer. -/
theorem Lasts.timerLoop (hkept : Kept addreq service)
    (hloop : timerLoop master start hosts failed service = some (ended, failed', service'))
    (hlasts : Lasts addreq address mtype logPeriod tmo service) :
    Lasts addreq address mtype logPeriod tmo service' := by
  induction hosts generalizing service failed with
  | nil =>
    obtain ⟨-, -, rfl⟩ := Prod.mk.injEq .. ▸ Option.some.inj hloop
    exact hlasts
  | cons round hosts ih =>
    rw [Unicast.timerLoop] at hloop
    rcases timerRound_spec hkept master start round with
      ⟨hround, -⟩ | ⟨i, -, -, fails, next, hround, hkept', hserved⟩
    · rw [hround] at hloop
      obtain ⟨-, hloop⟩ := Prod.mk.inj (Option.some.inj hloop)
      obtain rfl := (Prod.mk.inj hloop).2
      exact hlasts
    · rw [hround] at hloop
      refine ih (fun hmaster round hmem => hclocks hmaster round
        (List.mem_cons_of_mem _ hmem)) hkept' hloop ?_
      exact hlasts.served hserved fun hlasting => hlasting.serveClients fun hmaster =>
        hclocks hmaster round List.mem_cons_self

/-- Until its time no expiry of the timer ends a contract. -/
theorem Lasts.serviceTimer (hkept : Kept addreq service) {settime : Bool} {value : Option ℤ}
    (htimer : serviceTimer master start hosts settime service = some (value, service'))
    (hlasts : Lasts addreq address mtype logPeriod tmo service) :
    Lasts addreq address mtype logPeriod tmo service' := by
  obtain ⟨⟨ended, failed, next⟩, hloop, htimer⟩ := Option.bind_eq_some_iff.mp htimer
  have hnext := hlasts.timerLoop hclocks hkept hloop
  dsimp only at htimer
  split at htimer
  · obtain ⟨⟨fails, armed⟩, harm, htimer⟩ := Option.bind_eq_some_iff.mp htimer
    obtain ⟨hnode, hintervals⟩ := reArmTimer_node harm
    obtain rfl := (Prod.mk.inj (Option.some.inj htimer)).2
    rw [Lasts, hintervals, hnode]
    exact hnext
  · obtain rfl := (Prod.mk.inj (Option.some.inj htimer)).2
    exact hnext

end

/-! ## What a grant promises -/

def boughtUntil (now : Reading) (req : RequestUnicastXmit) : ℤ :=
  now.val.tvSec + req.durationField.toNat

/-- A contract that is extended lasts as long as was bought. -/
theorem lasting_extend {place : ℕ} {client : Client Address}
    (hplace : clients[place]? = some client) (haddress : addreq client.addr address)
    (hbit : client.messageTypes.getLsbD mtype) :
    Lasting addreq address mtype (boughtUntil now req)
      (clients.modify place (unicastServiceExtend (some now) req)) := by
  have hextend := outlasts_extend (some now) req client
  exact ⟨_, mem_modify hplace, hextend.addr ▸ haddress, hextend.types mtype hbit,
    le_extend client⟩

/-- So does one that is renewed, -/
theorem lasting_renew (hlt : mtype < 32) {place : ℕ} {client : Client Address}
    (hplace : clients[place]? = some client) (haddress : addreq client.addr address) :
    Lasting addreq address mtype (boughtUntil now req)
      (clients.modify place (renewClient (some now) req (1#32 <<< mtype))) := by
  have hextend := outlasts_extend (some now) req
    { client with messageTypes := client.messageTypes ||| 1#32 <<< mtype }
  refine ⟨_, mem_modify hplace, hextend.addr ▸ haddress, hextend.types mtype ?_, le_extend _⟩
  rw [BitVec.getLsbD_or, getLsbD_mask hlt, Bool.or_true]

/-- and that of a new client. -/
theorem lasting_new (hequiv : Equivalence fun a b => addreq a b) (hlt : mtype < 32)
    (clients : List (Client Address)) :
    Lasting addreq sender.address mtype (boughtUntil now req)
      (newClient (some now) req (1#32 <<< mtype) sender :: clients) := by
  have hextend := outlasts_extend (some now) req
    ⟨sender.sourcePortIdentity, 1#32 <<< mtype, sender.address, 0⟩
  exact ⟨_, List.mem_cons_self, hextend.addr ▸ hequiv.refl _,
    hextend.types mtype (getLsbD_mask hlt), le_extend _⟩

/-- Where the loop over the intervals comes upon the contract, it extends it. -/
theorem searchIntervals_lasts {intervals : List ℕ} {found : Search Address}
    (hsearch : searchIntervals addreq (some now) req address (1#32 <<< mtype) intervals found =
      .inl node) :
    ∃ i ∈ intervals, LastsAt addreq address mtype req.logInterMessagePeriod.toInt
      (boughtUntil now req) (node i) := by
  induction intervals generalizing found with
  | nil => cases hsearch
  | cons first rest ih =>
    have hrest : ∀ {found}, searchIntervals addreq (some now) req address (1#32 <<< mtype) rest
          found = .inl node →
        ∃ i ∈ first :: rest, LastsAt addreq address mtype req.logInterMessagePeriod.toInt
          (boughtUntil now req) (node i) := by
      intro found hsearch
      obtain ⟨i, hi, hlasts⟩ := ih hsearch
      exact ⟨i, List.mem_cons_of_mem _ hi, hlasts⟩
    rw [searchIntervals] at hsearch
    split at hsearch
    · next hperiod =>
      split at hsearch
      · next place hscan =>
        obtain rfl := Sum.inl.inj hsearch
        obtain ⟨offset, client, rfl, hplace, haddress, hbit⟩ := scanClients_eq_unchanged hscan
        refine ⟨first, List.mem_cons_self, ?_⟩
        rw [setClients_self, Nat.zero_add]
        exact ⟨hperiod, lasting_extend hplace haddress (getLsbD_of_and_ne_zero hbit)⟩
      · exact hrest hsearch
    · exact hrest hsearch

/-- Whoever asks for a contract has it for the time that was bought. -/
theorem addContract_lasts (hequiv : Equivalence fun a b => addreq a b) (hlt : mtype < 32)
    (hclock : host.contractClock = some now) {found : Search Address}
    (hfinds : Finds addreq sender.address (1#32 <<< mtype) req.logInterMessagePeriod.toInt
      service.intervals service.node found)
    (hadd : addContract wideShift host sender req (1#32 <<< mtype) service found =
      some (.granted, service')) :
    Lasts addreq sender.address mtype req.logInterMessagePeriod.toInt (boughtUntil now req)
      service' := by
  have hset : ∀ i clients, found.interval = some i →
      Lasting addreq sender.address mtype (boughtUntil now req) clients →
      Lasts addreq sender.address mtype req.logInterMessagePeriod.toInt (boughtUntil now req)
        { service with node := setClients found.node i clients } := by
    intro i clients hi hlasting
    obtain ⟨hmem, hperiod⟩ := hfinds.mem i hi
    refine ⟨i, hmem, ?_⟩
    dsimp only
    rw [setClients_self]
    exact ⟨(congrArg Interval.logPeriod (hfinds.edits.frame i hmem)).trans hperiod, hlasting⟩
  cases addContract_turn hadd with
  | @renewed i place hclient =>
    obtain ⟨hinterval, client, hplace, haddress⟩ := hfinds.client i place hclient
    rw [hclock]
    exact hset i _ hinterval (lasting_renew hlt hplace haddress)
  | joined _ hinterval =>
    rw [hclock]
    exact hset _ _ hinterval (lasting_new hequiv hlt _)
  | opened _ hnew =>
    obtain ⟨-, hcases⟩ := addInterval_cases hnew
    rcases hcases with ⟨hdenied, -⟩ | ⟨-, hintervals, hnode⟩
    · exact absurd hdenied (by decide)
    · refine ⟨service.next, hintervals ▸ List.mem_cons_self, ?_⟩
      rw [hnode, hclock]
      exact ⟨rfl, lasting_new hequiv hlt []⟩

/-- A contract that is granted lasts as long as has been asked for. -/
theorem serviceAdd_lasts (hequiv : Equivalence fun a b => addreq a b)
    (hkept : Kept addreq service) (hmtype : mtype = announce ∨ mtype = sync)
    (htype : (req.messageType >>> 4).toNat = mtype)
    (hclock : host.contractClock = some now)
    (hadd : serviceAdd addreq wideShift host sender req service = some (.granted, service')) :
    Lasts addreq sender.address mtype req.logInterMessagePeriod.toInt (boughtUntil now req)
      service' := by
  have hlt : mtype < 32 := by
    rcases hmtype with rfl | rfl <;> decide
  subst htype
  unfold serviceAdd at hadd
  dsimp only at hadd
  rw [if_pos hmtype, hclock] at hadd
  rcases @searchIntervals_spec _ addreq _ _ sender.address
      (1#32 <<< (req.messageType >>> 4).toNat) (.of_equivalence hequiv) (some now) req
      hkept.periods
    with ⟨node, hsearch, -⟩ | ⟨found, hsearch, hfinds⟩
  · rw [hsearch] at hadd
    obtain rfl := (Prod.mk.inj (Option.some.inj hadd)).2
    exact searchIntervals_lasts hsearch
  · rw [hsearch] at hadd
    exact addContract_lasts hequiv hlt hclock hfinds hadd

end

end LinuxPtp.Unicast
