import LinuxPtp.Unicast.Runs

/-!
# What a grant means

A request for messages that the service sends is granted where the sender then has a
contract for them, in the interval with the rate it has asked for.
-/

namespace LinuxPtp.Unicast

open CheckedInt Function Port Wire

variable {Address : Type} (addreq : Address → Address → Bool)

def HasGrant (address : Address) (req : RequestUnicastXmit) (service : Service Address) :
    Prop :=
  ∃ i ∈ service.intervals, (service.node i).logPeriod = req.logInterMessagePeriod.toInt ∧
    Contracted addreq (service.node i).clients address (req.messageType >>> 4).toNat

section

variable {addreq} {service service' : Service Address} {wideShift : ℕ → ℤ}
  {host : RequestHost} {sender : Sender Address} {req : RequestUnicastXmit} {mtype : ℕ}
  {address : Address}

theorem getLsbD_of_and_ne_zero {types : BitVec 32}
    (hand : types &&& 1#32 <<< mtype ≠ 0) : types.getLsbD mtype := by
  by_contra hbit
  refine hand (BitVec.eq_of_getLsbD_eq fun i hi => ?_)
  rw [BitVec.getLsbD_and, BitVec.getLsbD_shiftLeft, BitVec.getLsbD_one]
  by_cases hsame : i = mtype
  · simp [hsame, hbit]
  · simp
    omega

theorem getLsbD_mask (hlt : mtype < 32) : (1#32 <<< mtype).getLsbD mtype := by
  simp [hlt]

/-- What a client is offered is contracted. -/
theorem contracted_of_offered {clients : List (Client Address)}
    (hoffered : Offered addreq address (1#32 <<< mtype) clients) :
    Contracted addreq clients address mtype := by
  obtain ⟨client, hmem, haddress, hbit⟩ := hoffered
  exact ⟨client, hmem, haddress, getLsbD_of_and_ne_zero hbit⟩

/-- A new client has the contract it asked for. -/
theorem contracted_newClient (hequiv : Equivalence fun a b => addreq a b) (hlt : mtype < 32)
    (clock : Option Reading) (clients : List (Client Address)) :
    Contracted addreq (newClient clock req (1#32 <<< mtype) sender :: clients) sender.address
      mtype := by
  obtain ⟨haddr, htypes⟩ := unicastServiceExtend_types clock req
    ⟨sender.sourcePortIdentity, 1#32 <<< mtype, sender.address, 0⟩
  refine ⟨_, List.mem_cons_self, ?_, ?_⟩
  · rw [newClient, haddr]
    exact hequiv.refl _
  · rw [newClient, htypes]
    exact getLsbD_mask hlt

/-- So has a client whose contract is renewed. -/
theorem contracted_renewClient {clients : List (Client Address)} {place : ℕ}
    {ctmp : Client Address} (hplace : clients[place]? = some ctmp)
    (haddress : addreq ctmp.addr address) (hlt : mtype < 32) (clock : Option Reading) :
    Contracted addreq (clients.modify place (renewClient clock req (1#32 <<< mtype))) address
      mtype := by
  obtain ⟨haddr, htypes⟩ := unicastServiceExtend_types clock req
    { ctmp with messageTypes := ctmp.messageTypes ||| 1#32 <<< mtype }
  refine ⟨_, mem_modify hplace, ?_, ?_⟩
  · rwa [renewClient, haddr]
  · rw [renewClient, htypes, BitVec.getLsbD_or, getLsbD_mask hlt, Bool.or_true]

theorem reArmTimer_node {settime failed : Bool}
    (harm : reArmTimer settime service = some (failed, service')) :
    service'.node = service.node ∧ service'.intervals = service.intervals := by
  obtain ⟨interval, -, harm⟩ := Option.bind_eq_some_iff.mp harm
  cases settime
  all_goals
    obtain rfl := (Prod.mk.inj (Option.some.inj harm)).2
    exact ⟨rfl, rfl⟩

/-- A new interval that is granted has the client. -/
theorem addInterval_granted {client : Client Address}
    (hadd : addInterval wideShift host req client service = some (.granted, service')) :
    service.next ∈ service'.intervals ∧ (service'.node service.next).clients = [client] ∧
      SameTimes (initializeInterval wideShift host.startClock req.logInterMessagePeriod.toInt)
        (service'.node service.next) := by
  obtain ⟨⟨err, queue⟩, -, hadd⟩ := Option.bind_eq_some_iff.mp hadd
  dsimp only at hadd
  split at hadd
  case isTrue => cases (Prod.mk.inj (Option.some.inj hadd)).1
  case isFalse =>
    obtain ⟨⟨failed, armed⟩, harm, hadd⟩ := Option.bind_eq_some_iff.mp hadd
    obtain ⟨hnode, hintervals⟩ := reArmTimer_node harm
    obtain rfl := (Prod.mk.inj (Option.some.inj hadd)).2
    dsimp only at hnode hintervals ⊢
    rw [hintervals, hnode, insertClient, setClients_self, update_self]
    exact ⟨List.mem_cons_self, rfl, rfl⟩

/-- The interval with the clients has granted the contract. -/
theorem hasGrant_setClients {node : ℕ → Interval Address} {i : ℕ}
    {clients : List (Client Address)} (hi : i ∈ service.intervals)
    (hperiod : (node i).logPeriod = req.logInterMessagePeriod.toInt)
    (hcontracted : Contracted addreq clients address (req.messageType >>> 4).toNat) :
    HasGrant addreq address req { service with node := setClients node i clients } := by
  have hself := @setClients_self _ node i clients
  refine ⟨i, hi, ?_, ?_⟩
  · simpa only [hself] using hperiod
  · simpa only [hself] using hcontracted

/-- A request that is granted behind the loop has its contract. -/
theorem addContract_granted (hequiv : Equivalence fun a b => addreq a b)
    (hlt : (req.messageType >>> 4).toNat < 32) {found : Search Address}
    (hfinds : Finds addreq sender.address (1#32 <<< (req.messageType >>> 4).toNat)
      req.logInterMessagePeriod.toInt service.intervals service.node found)
    (hadd : addContract wideShift host sender req (1#32 <<< (req.messageType >>> 4).toNat)
      service found = some (.granted, service')) :
    HasGrant addreq sender.address req service' := by
  have hperiod : ∀ i, found.interval = some i →
      (found.node i).logPeriod = req.logInterMessagePeriod.toInt := by
    intro i hi
    obtain ⟨hmem, hperiod⟩ := hfinds.mem i hi
    exact (congrArg Interval.logPeriod (hfinds.edits.frame i hmem)).trans hperiod
  rw [addContract] at hadd
  cases hclient : found.client with
  | some record =>
    obtain ⟨i, place⟩ := record
    obtain ⟨hinterval, ctmp, hplace, haddress⟩ := hfinds.client i place hclient
    simp only [hclient, Option.some.injEq, Prod.mk.injEq, true_and] at hadd
    subst hadd
    exact hasGrant_setClients (hfinds.mem i hinterval).1 (hperiod i hinterval)
      (contracted_renewClient hplace haddress hlt _)
  | none =>
    simp only [hclient] at hadd
    split at hadd
    case isFalse => cases (Prod.mk.inj (Option.some.inj hadd)).1
    case isTrue =>
      have hnew := @contracted_newClient _ addreq sender req _ hequiv hlt host.contractClock
      cases hinterval : found.interval with
      | some i =>
        simp only [hinterval, Option.some.injEq, Prod.mk.injEq, true_and] at hadd
        subst hadd
        exact hasGrant_setClients (hfinds.mem i hinterval).1 (hperiod i hinterval) (hnew _)
      | none =>
        simp only [hinterval] at hadd
        split at hadd
        case isFalse => cases (Prod.mk.inj (Option.some.inj hadd)).1
        case isTrue =>
          obtain ⟨hmem, hclients, hsame⟩ := addInterval_granted hadd
          refine ⟨_, hmem, congrArg Interval.logPeriod hsame, ?_⟩
          rw [hclients]
          exact hnew []

/-- A granted request has its contract. -/
theorem serviceAdd_granted (hequiv : Equivalence fun a b => addreq a b)
    (hkept : Kept addreq service)
    (hmtype : (req.messageType >>> 4).toNat = announce ∨ (req.messageType >>> 4).toNat = sync)
    (hadd : serviceAdd addreq wideShift host sender req service = some (.granted, service')) :
    HasGrant addreq sender.address req service' := by
  have hlt : (req.messageType >>> 4).toNat < 32 := by
    rcases hmtype with hmtype | hmtype <;> rw [hmtype] <;> decide
  unfold serviceAdd at hadd
  dsimp only at hadd
  rw [if_pos hmtype] at hadd
  rcases @searchIntervals_spec _ addreq _ _ sender.address
      (1#32 <<< (req.messageType >>> 4).toNat) (.of_equivalence hequiv) host.contractClock req
      hkept.periods
    with ⟨node, hsearch, hedits, i, hi, hperiod, hoffered⟩ | ⟨found, hsearch, hfinds⟩
  · rw [hsearch] at hadd
    obtain rfl := (Prod.mk.inj (Option.some.inj hadd)).2
    exact ⟨i, hi, (congrArg Interval.logPeriod (hedits.frame i hi)).trans hperiod,
      contracted_of_offered hoffered⟩
  · rw [hsearch] at hadd
    exact addContract_granted hequiv hlt hfinds hadd

end

end LinuxPtp.Unicast
