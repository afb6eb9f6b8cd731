import LinuxPtp.Unicast.Lasting
import LinuxPtp.Unicast.Runs

/-!
# Whom the service serves

An address has a contract for a type of message only where it has asked for one, and has
not said otherwise since: cancelled it, or asked for another rate.
-/

namespace LinuxPtp.Unicast

open Clock Function Port Stepping Wire

section

variable {Address : Type} (addreq : Address → Address → Bool)

def Subscribed (service : Service Address) (address : Address) (mtype : ℕ)
    (logPeriod : ℤ) : Prop :=
  ∃ i ∈ service.intervals, (service.node i).logPeriod = logPeriod ∧
    Contracted addreq (service.node i).clients address mtype

/-- The address asks for these messages at this rate. -/
def Event.Begins (address : Address) (mtype : ℕ) (logPeriod : ℤ) : Event Address → Prop
  | .request _ sender req =>
      addreq sender.address address ∧ (req.messageType >>> 4).toNat = mtype ∧
        req.logInterMessagePeriod.toInt = logPeriod
  | _ => False

/-- The address asks for these messages at another rate, or cancels them. -/
def Event.Ends (address : Address) (mtype : ℕ) (logPeriod : ℤ) : Event Address → Prop
  | .request _ sender req =>
      addreq sender.address address ∧ (req.messageType >>> 4).toNat = mtype ∧
        req.logInterMessagePeriod.toInt ≠ logPeriod
  | .cancel other flags =>
      addreq other address ∧ (flags >>> 4).toNat = mtype ∧
        flags &&& cancelUnicastMaintainRequest = 0
  | _ => False

/-- The address has asked for these messages at this rate, and not said otherwise since. -/
def Wanted (events : List (Event Address)) (address : Address) (mtype : ℕ)
    (logPeriod : ℤ) : Prop :=
  ∃ before event after, events = before ++ event :: after ∧
    event.Begins addreq address mtype logPeriod ∧
    ∀ later ∈ after, ¬later.Ends addreq address mtype logPeriod

/-- What a request does to the contracts: those that it is about are at its rate. -/
structure Admits (granted : Address → ℕ → Prop) (logPeriod : ℤ)
    (service service' : Service Address) : Prop where
  contracts : ∀ address mtype period, Subscribed addreq service' address mtype period →
    Subscribed addreq service address mtype period ∨ granted address mtype
  rate : ∀ address mtype period, Subscribed addreq service' address mtype period →
    granted address mtype → period = logPeriod

section

variable {addreq} {address other : Address} {mtype : ℕ} {logPeriod period : ℤ}
variable {clients clients' : List (Client Address)} {mask : BitVec 32}
variable {granted : Address → ℕ → Prop} {target : Option ℕ}
variable {node node' : ℕ → Interval Address} {i j : ℕ} {service service' : Service Address}
variable {wideShift : ℕ → ℤ} {host : RequestHost} {sender : Sender Address}
variable {req : RequestUnicastXmit}

/-! ## Requests -/

theorem Edits.subscribed
    (hedits : Edits addreq granted target service.intervals service.node node')
    (hsubscribed : Subscribed addreq { service with node := node' } address mtype period) :
    Subscribed addreq service address mtype period ∨ granted address mtype := by
  obtain ⟨i, hi, hperiod, hcontracted⟩ := hsubscribed
  rcases hedits.contracts i hi address mtype hcontracted with hold | ⟨-, hgranted⟩
  · refine Or.inl ⟨i, hi, ?_, hold⟩
    rw [← hperiod]
    exact (congrArg Interval.logPeriod (hedits.frame i hi)).symm
  · exact Or.inr hgranted

/-- Edits admit contracts at the rate of their target. -/
theorem Edits.admits
    (hedits : Edits addreq granted target service.intervals service.node node')
    (htarget : ∀ i, target = some i → (service.node i).logPeriod = logPeriod) :
    Admits addreq granted logPeriod service { service with node := node' } where
  contracts address mtype period := hedits.subscribed
  rate address mtype period := by
    rintro ⟨i, hi, hperiod, hcontracted⟩ hgranted
    have hhere : target = some i := by
      by_contra hother
      exact hedits.cleared i hi hother address mtype hgranted hcontracted
    have hframe := congrArg Interval.logPeriod (hedits.frame i hi)
    exact hperiod.symm.trans (hframe.trans (htarget i hhere))

/-- An interval besides may have contracts that are admitted. -/
theorem Admits.extend {middle : Service Address}
    (hadmits : Admits addreq granted logPeriod service middle)
    (hintervals : ∀ i ∈ service'.intervals,
      i ∈ middle.intervals ∧ service'.node i = middle.node i ∨
        (service'.node i).logPeriod = logPeriod ∧ ∀ address mtype,
          Contracted addreq (service'.node i).clients address mtype → granted address mtype) :
    Admits addreq granted logPeriod service service' := by
  have hcases : ∀ {address mtype period}, Subscribed addreq service' address mtype period →
      Subscribed addreq middle address mtype period ∨
        granted address mtype ∧ period = logPeriod := by
    rintro address mtype period ⟨i, hi, hperiod, hcontracted⟩
    rcases hintervals i hi with ⟨hold, hsame⟩ | ⟨hrate, hgranted⟩
    · rw [hsame] at hperiod hcontracted
      exact Or.inl ⟨i, hold, hperiod, hcontracted⟩
    · exact Or.inr ⟨hgranted address mtype hcontracted, hperiod.symm.trans hrate⟩
  refine ⟨fun _ _ _ hsubscribed => ?_, fun _ _ _ hsubscribed hgranted => ?_⟩
  · rcases hcases hsubscribed with hold | ⟨hgranted, -⟩
    · exact hadmits.contracts _ _ _ hold
    · exact Or.inr hgranted
  · rcases hcases hsubscribed with hold | ⟨-, hrate⟩
    · exact hadmits.rate _ _ _ hold hgranted
    · exact hrate

/-- A new interval admits the client that asked for it. -/
theorem addInterval_admits (hcompares : Compares addreq)
    (hfresh : ∀ i ∈ service.intervals, i < service.next) {answer : ServiceAnswer}
    (hmask : mask ≠ 0)
    (hedits : Edits addreq (requested addreq sender.address mask) none service.intervals
      service.node node')
    (hadd : addInterval wideShift host req (newClient host.contractClock req mask sender)
      { service with node := node' } = some (answer, service')) :
    Admits addreq (requested addreq sender.address mask) req.logInterMessagePeriod.toInt
      service service' := by
  have hadmits : Admits addreq (requested addreq sender.address mask)
      req.logInterMessagePeriod.toInt service { service with node := node' } :=
    hedits.admits fun i htarget => absurd htarget (by simp)
  obtain ⟨hothers, hcases⟩ := addInterval_cases hadd
  have hold : ∀ i ∈ service.intervals, service'.node i = node' i := fun i hi =>
    hothers i (hfresh i hi).ne
  rcases hcases with ⟨-, hintervals⟩ | ⟨-, hintervals, hnode⟩
  · exact hadmits.extend fun i hi => Or.inl ⟨hintervals ▸ hi, hold i (hintervals ▸ hi)⟩
  · refine hadmits.extend fun i hi => ?_
    rcases List.mem_cons.mp (hintervals ▸ hi) with rfl | hi
    · dsimp only at hnode
      rw [hnode]
      refine Or.inr ⟨rfl, fun address mtype hcontracted => ?_⟩
      have hfirst := @edited_newClient _ addreq [] mask hcompares host.contractClock req sender
        hmask fun ctmp hmem => absurd hmem List.not_mem_nil
      exact (hfirst.contracts address mtype hcontracted).resolve_left not_contracted_nil
    · exact Or.inl ⟨hi, hold i hi⟩

/-- What the loop over the intervals has found decides the rate. -/
theorem addContract_admits (hcompares : Compares addreq)
    (hfresh : ∀ i ∈ service.intervals, i < service.next) {answer : ServiceAnswer}
    (hmask : mask ≠ 0) {found : Search Address}
    (hfinds : Finds addreq sender.address mask req.logInterMessagePeriod.toInt
      service.intervals service.node found)
    (hadd : addContract wideShift host sender req mask service found =
      some (answer, service')) :
    Admits addreq (requested addreq sender.address mask) req.logInterMessagePeriod.toInt
      service service' := by
  have htarget : ∀ i, found.interval = some i →
      (service.node i).logPeriod = req.logInterMessagePeriod.toInt := fun i hi =>
    (hfinds.mem i hi).2
  cases addContract_turn hadd with
  | @renewed i place hclient =>
    obtain ⟨hinterval, ctmp, hplace, haddress⟩ := hfinds.client i place hclient
    exact (hfinds.edits.setClients (Or.inr ⟨hinterval,
      edited_renewClient hcompares host.contractClock req hplace haddress⟩)).admits htarget
  | @joined i hclient hinterval =>
    exact (hfinds.edits.setClients (Or.inr ⟨hinterval,
      edited_newClient hcompares host.contractClock req hmask
        (hfinds.noClient hclient i hinterval)⟩)).admits htarget
  | denied => exact hfinds.edits.admits htarget
  | opened hinterval hnew =>
    exact addInterval_admits hcompares hfresh hmask (hinterval ▸ hfinds.edits) hnew

/-- A request of Announce or Sync messages admits them at its rate. -/
theorem serviceAdd_admits (hcompares : Compares addreq)
    (hkept : Kept addreq service) {answer : ServiceAnswer}
    (hmtype : (req.messageType >>> 4).toNat = announce ∨ (req.messageType >>> 4).toNat = sync)
    (hadd : serviceAdd addreq wideShift host sender req service = some (answer, service')) :
    Admits addreq (requested addreq sender.address (1#32 <<< (req.messageType >>> 4).toNat))
      req.logInterMessagePeriod.toInt service service' := by
  unfold serviceAdd at hadd
  dsimp only at hadd
  rw [if_pos hmtype] at hadd
  rcases @searchIntervals_spec _ addreq _ _ sender.address
      (1#32 <<< (req.messageType >>> 4).toNat) hcompares host.contractClock req hkept.periods
    with ⟨node, hsearch, hedits, i, hi, hperiod, hoffered⟩ | ⟨found, hsearch, hfinds⟩
  · rw [hsearch] at hadd
    obtain rfl := (Prod.mk.inj (Option.some.inj hadd)).2
    refine ⟨fun _ _ _ hsubscribed => (hedits.subscribed hsubscribed).imp_right False.elim, ?_⟩
    rintro address mtype period ⟨j, hj, hrate, hcontracted⟩ ⟨haddress, hbit⟩
    obtain rfl := eq_of_getLsbD_mask hbit
    have hold : ∀ k ∈ service.intervals, ∀ kind, Contracted addreq (node k).clients address kind →
        Contracted addreq (service.node k).clients address kind := fun k hk kind hnow =>
      (hedits.contracts k hk address kind hnow).resolve_right fun hnew => hnew.2
    -- the contract that the request has found is the only one
    obtain ⟨client, hmem, hclient, htypes⟩ := contracted_of_offered hoffered
    have hfound := hold i hi _ ⟨client, hmem, hcompares.trans hclient haddress, htypes⟩
    obtain rfl := hkept.contracts i hi j hj address _ hfound (hold j hj _ hcontracted)
    exact hrate.symm.trans ((congrArg Interval.logPeriod (hedits.frame i hi)).trans hperiod)
  · rw [hsearch] at hadd
    exact addContract_admits hcompares hkept.fresh (mask_ne_zero hmtype) hfinds hadd

/-! ## Cancels -/

theorem offered_of_removeContract
    (hremove : removeContract addreq address mask clients = some clients') :
    Offered addreq address mask clients := by
  induction clients generalizing clients' with
  | nil => cases hremove
  | cons first rest ih =>
    rw [removeContract] at hremove
    split at hremove
    case isTrue hfirst => exact ⟨first, List.mem_cons_self, hfirst⟩
    case isFalse =>
      obtain ⟨rest', hrest', -⟩ := Option.map_eq_some_iff.mp hremove
      obtain ⟨client, hmem, hclient⟩ := ih hrest'
      exact ⟨client, List.mem_cons_of_mem _ hmem, hclient⟩

/-- Where no contract is removed, none was offered. -/
theorem not_offered_of_removeContract
    (hremove : removeContract addreq address mask clients = none) :
    ¬Offered addreq address mask clients := by
  rintro ⟨client, hmem, hclient⟩
  induction clients with
  | nil => exact absurd hmem List.not_mem_nil
  | cons first rest ih =>
    rw [removeContract] at hremove
    split at hremove
    case isTrue => cases hremove
    case isFalse hfirst =>
      rcases List.mem_cons.mp hmem with rfl | hmem
      · exact hfirst hclient
      · exact ih (Option.map_eq_none_iff.mp hremove) hmem

theorem offered_of_contracted (hlt : mtype < 32)
    (hcontracted : Contracted addreq clients address mtype) :
    Offered addreq address (1#32 <<< mtype) clients := by
  obtain ⟨client, hmem, haddress, hbit⟩ := hcontracted
  refine ⟨client, hmem, haddress, fun hzero => ?_⟩
  have hboth : (client.messageTypes &&& 1#32 <<< mtype).getLsbD mtype := by
    rw [BitVec.getLsbD_and, hbit, getLsbD_mask hlt]
    rfl
  rw [hzero] at hboth
  simp at hboth

/-- The record of the address loses the contract that is cancelled. -/
theorem not_contracted_removeContract (hcompares : Compares addreq)
    (hlt : mtype < 32) (haddresses : clients.Pairwise fun a b => ¬addreq a.addr b.addr)
    (hremove : removeContract addreq address (1#32 <<< mtype) clients = some clients') :
    ¬Contracted addreq clients' address mtype := by
  induction clients generalizing clients' with
  | nil => cases hremove
  | cons first rest ih =>
    obtain ⟨hfirst, hrest⟩ := List.pairwise_cons.mp haddresses
    rintro ⟨client, hmem, hclient, hbit⟩
    rw [removeContract] at hremove
    split at hremove
    case isTrue hfound =>
      obtain rfl := Option.some.inj hremove
      rcases List.mem_append.mp hmem with hleft | hmem
      · obtain ⟨-, -, hbits⟩ := withoutTypes_eq_some (Option.mem_toList.mp hleft)
        rw [hbits mtype, getLsbD_mask hlt] at hbit
        simp at hbit
      · exact hfirst client hmem (hcompares.trans hfound.1 (hcompares.symm hclient))
    case isFalse hother =>
      obtain ⟨rest', hrest', rfl⟩ := Option.map_eq_some_iff.mp hremove
      rcases List.mem_cons.mp hmem with rfl | hmem
      · obtain ⟨same, hsame, hoffered⟩ :=
          offered_of_contracted hlt ⟨client, List.mem_singleton_self _, hclient, hbit⟩
        obtain rfl := List.mem_singleton.mp hsame
        exact hother hoffered
      · exact ih hrest hrest' ⟨client, hmem, hclient, hbit⟩

/-- With one contract at most, the cancel leaves none. -/
theorem not_contracted_removeFromIntervals (hcompares : Compares addreq)
    (hlt : mtype < 32) (intervals : List ℕ)
    (haddresses : ∀ i ∈ intervals, (node i).clients.Pairwise fun a b => ¬addreq a.addr b.addr)
    (hunique : ∀ i ∈ intervals, ∀ j ∈ intervals,
      Contracted addreq (node i).clients address mtype →
        Contracted addreq (node j).clients address mtype → i = j) :
    ∀ j ∈ intervals, ¬Contracted addreq
      (removeFromIntervals addreq address (1#32 <<< mtype) intervals node j).clients
      address mtype := by
  induction intervals with
  | nil => exact fun j hj => absurd hj List.not_mem_nil
  | cons first rest ih =>
    intro j hj
    rw [removeFromIntervals]
    cases hremove : removeContract addreq address (1#32 <<< mtype) (node first).clients with
    | some clients' =>
      dsimp only
      by_cases hsame : j = first
      · subst hsame
        rw [setClients_self]
        exact not_contracted_removeContract hcompares hlt (haddresses j hj) hremove
      · rw [setClients_of_ne hsame]
        intro hcontracted
        have hfirst := contracted_of_offered (offered_of_removeContract hremove)
        exact hsame (hunique j hj first List.mem_cons_self hcontracted hfirst)
    | none =>
      rcases List.mem_cons.mp hj with rfl | hrest
      · intro hcontracted
        have hedits := @edits_removeFromIntervals _ addreq (j :: rest) rest node address
          (1#32 <<< mtype)
        have hold := (hedits.contracts j hj address mtype hcontracted).resolve_right
          fun hnew => hnew.2
        exact not_offered_of_removeContract hremove (offered_of_contracted hlt hold)
      · exact ih (fun i hi => haddresses i (List.mem_cons_of_mem _ hi))
          (fun i hi k hk => hunique i (List.mem_cons_of_mem _ hi) k (List.mem_cons_of_mem _ hk))
          j hrest

/-- A cancel ends the contract of its sender, and gives none. -/
theorem serviceRemove_subscribed (hcompares : Compares addreq)
    (hkept : Kept addreq service) {flags : UInt8}
    (hsubscribed : Subscribed addreq (serviceRemove addreq other flags service) address mtype
      period) :
    Subscribed addreq service address mtype period ∧
      (mtype = announce ∨ mtype = sync →
        ¬(addreq other address ∧ (flags >>> 4).toNat = mtype ∧
          flags &&& cancelUnicastMaintainRequest = 0)) := by
  rw [serviceRemove] at hsubscribed
  dsimp only at hsubscribed
  split at hsubscribed
  case isTrue hmaintain => exact ⟨hsubscribed, fun _ hcancels => hmaintain hcancels.2.2⟩
  case isFalse =>
    split at hsubscribed
    case isTrue hserved =>
      have hedits := @edits_removeFromIntervals _ addreq service.intervals service.intervals
        service.node other (1#32 <<< (flags >>> 4).toNat)
      refine ⟨(hedits.subscribed hsubscribed).resolve_right id, ?_⟩
      rintro - ⟨haddress, rfl, -⟩
      have hlt : (flags >>> 4).toNat < 32 := by
        rcases hserved with htype | htype <;> rw [htype] <;> decide
      obtain ⟨i, hi, -, client, hmem, hclient, hbit⟩ := hsubscribed
      refine not_contracted_removeFromIntervals hcompares hlt service.intervals hkept.addresses
        (fun i hi j hj => hkept.contracts i hi j hj other _) i hi ?_
      exact ⟨client, hmem, hcompares.trans hclient (hcompares.symm haddress), hbit⟩
    case isFalse hother =>
      exact ⟨hsubscribed, fun hmtype hcancels => hother (hcancels.2.1 ▸ hmtype)⟩

/-! ## The timer -/

theorem Served.subscribed (hserved : Served clients i service service')
    (hedited : Edited addreq nothing (service.node i).clients clients)
    (hsubscribed : Subscribed addreq service' address mtype period) :
    Subscribed addreq service address mtype period := by
  obtain ⟨j, hj, hperiod, hcontracted⟩ := hsubscribed
  rcases hserved with ⟨-, hintervals, hnode⟩ | ⟨-, hintervals, hnode⟩
  · rw [hnode] at hperiod hcontracted
    rw [hintervals] at hj
    exact ⟨j, List.mem_of_mem_erase hj, hperiod, hcontracted⟩
  · rw [hintervals] at hj
    rw [hnode] at hperiod hcontracted
    by_cases hsame : j = i
    · subst hsame
      rw [update_self] at hperiod hcontracted
      exact ⟨j, hj, hperiod,
        (hedited.contracts address mtype hcontracted).resolve_right id⟩
    · rw [update_of_ne hsame] at hperiod hcontracted
      exact ⟨j, hj, hperiod, hcontracted⟩

section

variable {master ended failed failed' : Bool} {start : Timespec}
variable {hosts : List (RoundHost Address)}

/-- Who is subscribed when the timer has run was subscribed before. -/
theorem timerLoop_subscribed (hkept : Kept addreq service)
    (hloop : timerLoop master start hosts failed service = some (ended, failed', service'))
    (hsubscribed : Subscribed addreq service' address mtype period) :
    Subscribed addreq service address mtype period := by
  induction hosts generalizing service failed with
  | nil =>
    obtain ⟨-, -, rfl⟩ := Prod.mk.injEq .. ▸ Option.some.inj hloop
    exact hsubscribed
  | cons round hosts ih =>
    rw [timerLoop] at hloop
    rcases timerRound_spec hkept master start round with
      ⟨hround, -⟩ | ⟨i, -, -, fails, next, hround, hkept', hserved⟩
    · rw [hround] at hloop
      obtain ⟨-, hloop⟩ := Prod.mk.inj (Option.some.inj hloop)
      obtain rfl := (Prod.mk.inj hloop).2
      exact hsubscribed
    · rw [hround] at hloop
      exact hserved.subscribed (edited_serveClients master round _) (ih hkept' hloop)

/-- An expiry of the timer gives no contract. -/
theorem serviceTimer_subscribed (hkept : Kept addreq service) {settime : Bool}
    {value : Option ℤ}
    (htimer : serviceTimer master start hosts settime service = some (value, service'))
    (hsubscribed : Subscribed addreq service' address mtype period) :
    Subscribed addreq service address mtype period := by
  obtain ⟨⟨ended, failed, next⟩, hloop, htimer⟩ := Option.bind_eq_some_iff.mp htimer
  dsimp only at htimer
  refine timerLoop_subscribed hkept hloop ?_
  split at htimer
  · obtain ⟨⟨fails, armed⟩, harm, htimer⟩ := Option.bind_eq_some_iff.mp htimer
    obtain ⟨hnode, hintervals⟩ := reArmTimer_node harm
    obtain rfl := (Prod.mk.inj (Option.some.inj htimer)).2
    rw [Subscribed, hintervals, hnode] at hsubscribed
    exact hsubscribed
  · obtain rfl := (Prod.mk.inj (Option.some.inj htimer)).2
    exact hsubscribed

end

/-! ## Runs -/

/-- The service is kept, and every contract of Announce or Sync messages is wanted. -/
structure ServesWanted (addreq : Address → Address → Bool) (events : List (Event Address))
    (service : Service Address) : Prop where
  kept : Kept addreq service
  wanted : ∀ address mtype logPeriod, Subscribed addreq service address mtype logPeriod →
    (mtype = announce ∨ mtype = sync) ∧ Wanted addreq events address mtype logPeriod

/-- A contract is wanted until something ends it. -/
theorem Wanted.later {events : List (Event Address)} {event : Event Address}
    (hwanted : Wanted addreq events address mtype logPeriod)
    (hevent : ¬event.Ends addreq address mtype logPeriod) :
    Wanted addreq (events ++ [event]) address mtype logPeriod := by
  obtain ⟨before, first, after, rfl, hbegins, hafter⟩ := hwanted
  refine ⟨before, first, after ++ [event], by simp, hbegins, fun later hmem => ?_⟩
  rcases List.mem_append.mp hmem with hmem | hmem
  · exact hafter later hmem
  · obtain rfl := List.mem_singleton.mp hmem
    exact hevent

/-- What an event leaves as it was, or begins, is wanted afterwards. -/
theorem ServesWanted.serve {events : List (Event Address)} {event : Event Address}
    (hserves : ServesWanted addreq events service) (hkept : Kept addreq service')
    (hcontracts : ∀ address mtype logPeriod,
      Subscribed addreq service' address mtype logPeriod →
        Subscribed addreq service address mtype logPeriod ∧
            (mtype = announce ∨ mtype = sync → ¬event.Ends addreq address mtype logPeriod) ∨
          (mtype = announce ∨ mtype = sync) ∧ event.Begins addreq address mtype logPeriod) :
    ServesWanted addreq (events ++ [event]) service' := by
  refine ⟨hkept, fun address mtype logPeriod hsubscribed => ?_⟩
  rcases hcontracts address mtype logPeriod hsubscribed with ⟨hold, hends⟩ | ⟨hmtype, hbegins⟩
  · obtain ⟨hmtype, hwanted⟩ := hserves.wanted address mtype logPeriod hold
    exact ⟨hmtype, hwanted.later (hends hmtype)⟩
  · exact ⟨hmtype, events, event, [], rfl, hbegins, fun later hmem =>
      absurd hmem List.not_mem_nil⟩

/-- Requests for other messages are refused. -/
theorem serviceAdd_other {answer : ServiceAnswer}
    (hother : ¬((req.messageType >>> 4).toNat = announce ∨ (req.messageType >>> 4).toNat = sync))
    (hadd : serviceAdd addreq wideShift host sender req service = some (answer, service')) :
    service' = service := by
  unfold serviceAdd at hadd
  dsimp only at hadd
  rw [if_neg hother] at hadd
  split at hadd
  · exact (Prod.mk.inj (Option.some.inj hadd)).2.symm
  · exact (Prod.mk.inj (Option.some.inj hadd)).2.symm

/-- Every event keeps to the contracts that are wanted. -/
theorem ServesWanted.step (hcompares : Compares addreq) (state : PortState)
    {events : List (Event Address)} (event : Event Address)
    (hserves : ServesWanted addreq events service) :
    ∃ state' service', Unicast.serve addreq wideShift ⟨state, some service⟩ event =
        some ⟨state', some service'⟩ ∧ ServesWanted addreq (events ++ [event]) service' := by
  cases event with
  | request host sender req =>
    obtain ⟨answer, service', hadd, hkept, -⟩ :=
      serviceAdd_kept hcompares hserves.kept wideShift host sender req
    refine ⟨state, service', ?_, hserves.serve hkept fun address mtype period hsubscribed => ?_⟩
    · rw [Unicast.serve, unicastServiceAdd]
      simp only [hadd, Option.map_some]
    by_cases hserved :
      (req.messageType >>> 4).toNat = announce ∨ (req.messageType >>> 4).toNat = sync
    · have hadmits := serviceAdd_admits hcompares hserves.kept hserved hadd
      by_cases hrequested : requested addreq sender.address
        (1#32 <<< (req.messageType >>> 4).toNat) address mtype
      · have htype := eq_of_getLsbD_mask hrequested.2
        have hrate := hadmits.rate _ _ _ hsubscribed hrequested
        exact Or.inr ⟨htype ▸ hserved, hrequested.1, htype, hrate.symm⟩
      · have hold := (hadmits.contracts _ _ _ hsubscribed).resolve_right hrequested
        refine Or.inl ⟨hold, fun hmtype hends => hrequested ⟨hends.1, ?_⟩⟩
        rw [hends.2.1]
        refine getLsbD_mask ?_
        rcases hmtype with rfl | rfl <;> decide
    · rw [serviceAdd_other hserved hadd] at hsubscribed
      exact Or.inl ⟨hsubscribed, fun hmtype hends => hserved (hends.2.1 ▸ hmtype)⟩
  | cancel other flags =>
    obtain ⟨hkept, -⟩ := serviceRemove_kept hserves.kept other flags
    exact ⟨state, _, rfl, hserves.serve hkept fun _ _ _ hsubscribed =>
      Or.inl (serviceRemove_subscribed hcompares hserves.kept hsubscribed)⟩
  | timer now hosts settime =>
    obtain ⟨value, service', timer, htimer, hkept, -⟩ :=
      serviceTimer_kept hserves.kept (isMaster state) now hosts settime
    refine ⟨state, _, ?_, hserves.serve hkept fun _ _ _ hsubscribed => Or.inl
      ⟨serviceTimer_subscribed hserves.kept htimer hsubscribed, fun _ => id⟩⟩
    rw [Unicast.serve, unicastServiceTimer]
    simp only [htimer, Option.map_some]
  | becomes state' =>
    exact ⟨state', service, rfl, hserves.serve hserves.kept fun _ _ _ hsubscribed =>
      Or.inl ⟨hsubscribed, fun _ => id⟩⟩

/-- After any events every contract of Announce or Sync messages is wanted. -/
theorem run_servesWanted (hcompares : Compares addreq) (wideShift : ℕ → ℤ)
    (state : PortState) (events : List (Event Address)) :
    ∃ state' service, run (serviceStep addreq wideShift) events (initialPort state) =
        some ⟨state', some service⟩ ∧ ServesWanted addreq events service := by
  induction events using List.reverseRecOn with
  | nil =>
    obtain ⟨state', service, hstart, hkept, hnone⟩ :=
      @initialPort_kept _ addreq (fun _ => False) state
    refine ⟨state', service, hstart, hkept, fun address mtype logPeriod hsubscribed => ?_⟩
    obtain ⟨i, hi, -⟩ := hsubscribed
    exact (hnone i hi).elim
  | append_singleton events event ih =>
    obtain ⟨state', service, hrun, hserves⟩ := ih
    obtain ⟨state'', service', hserve, hnext⟩ :=
      @ServesWanted.step _ addreq service wideShift hcompares state' events event hserves
    refine ⟨state'', service', ?_, hnext⟩
    rw [run_append, hrun, run_cons, run_nil]
    exact hserve

end

end

/-- On a port whose transport compares addresses, after any requests, cancels and rounds of
the timer, whatever the machine has answered: an address is served with Announce or Sync
messages only where it has asked for them, only at the rate of its last request, and not
once it has cancelled them. -/
theorem run_wanted {type : TransportType} (htype : comparesAddresses type)
    (wideShift : ℕ → ℤ) (state : PortState) (events : List (Event SocketAddress)) :
    ∃ state' service, run (serviceStep (addreq type) wideShift) events (initialPort state) =
        some ⟨state', some service⟩ ∧ ∀ address mtype logPeriod,
          Subscribed (addreq type) service address mtype logPeriod →
            (mtype = announce ∨ mtype = sync) ∧
              Wanted (addreq type) events address mtype logPeriod := by
  obtain ⟨state', service, hrun, hserves⟩ :=
    run_servesWanted (.of_equivalence (addreq_equivalence htype)) wideShift state events
  exact ⟨state', service, hrun, hserves.wanted⟩

def changedRate : List (Event SocketAddress) :=
  [.request someHost netSender ⟨0xB0, 1, 60⟩, .request someHost netSender ⟨0xB0, 0, 60⟩]

/-- The new rate is served, and the request for it stands in the run. -/
theorem run_wanted_changedRate :
    ∃ state service, run (serviceStep (addreq .udpIpv4) fun _ => 0) changedRate
        (initialPort .master) = some ⟨state, some service⟩ ∧
      Subscribed (addreq .udpIpv4) service netSender.address announce 0 ∧
      Wanted (addreq .udpIpv4) changedRate netSender.address announce 0 := by
  obtain ⟨state, service, hrun, hwanted⟩ :=
    @run_wanted .udpIpv4 rfl (fun _ => 0) .master changedRate
  have hserved : ∃ p ∈ run (serviceStep (addreq .udpIpv4) fun _ => 0) changedRate
      (initialPort .master), ∃ service ∈ p.unicastService,
        ∃ i ∈ service.intervals, (service.node i).logPeriod = 0 ∧
          ∃ client ∈ (service.node i).clients,
            addreq .udpIpv4 client.addr netSender.address = true ∧
              client.messageTypes.getLsbD announce := by
    decide +kernel
  obtain ⟨p, hp, same, hsame, hsubscribed⟩ := hserved
  rw [hrun] at hp
  obtain rfl := Option.some.inj hp
  obtain rfl := Option.some.inj hsame
  exact ⟨state, service, hrun, hsubscribed, (hwanted _ announce 0 hsubscribed).2⟩

end LinuxPtp.Unicast
