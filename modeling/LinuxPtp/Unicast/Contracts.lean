import LinuxPtp.Lib.KeyedList
import LinuxPtp.Unicast.Address
import LinuxPtp.Unicast.Service

/-!
# Contracts

What the service keeps apart from the rates: a client with an address has one record in an
interval, a record has a contract, and a contract for messages of one type with one
address stands in one interval.  The functions that edit the clients are seen here as
edits that narrow the contracts, except those that they grant to one interval.
-/

namespace LinuxPtp.Unicast

open Function Wire

variable {Address : Type} (addreq : Address → Address → Bool)

/-! ## The clients of an interval -/

/-- One of the clients has this address and a contract for messages of this type. -/
def Contracted (clients : List (Client Address)) (address : Address) (mtype : ℕ) : Prop :=
  ∃ client ∈ clients, addreq client.addr address ∧ client.messageTypes.getLsbD mtype

/-- An address has one record, and a record a contract. -/
structure WellKept (clients : List (Client Address)) : Prop where
  addresses : clients.Pairwise fun a b => ¬addreq a.addr b.addr
  types : ∀ client ∈ clients, client.messageTypes ≠ 0

/-- The clients are kept well, and have no new contracts but these. -/
structure Edited (granted : Address → ℕ → Prop) (clients clients' : List (Client Address)) :
    Prop where
  wellKept : WellKept addreq clients → WellKept addreq clients'
  contracts : ∀ address mtype, Contracted addreq clients' address mtype →
    Contracted addreq clients address mtype ∨ granted address mtype

/-- No contract is new. -/
def nothing (_ : Address) (_ : ℕ) : Prop := False

/-- The contracts that a request with this mask from this address is about. -/
def requested (address : Address) (mask : BitVec 32) (other : Address) (mtype : ℕ) : Prop :=
  addreq address other ∧ mask.getLsbD mtype

section

variable {addreq} {clients clients' : List (Client Address)} {address : Address}
  {mask : BitVec 32} {granted : Address → ℕ → Prop} {mtype : ℕ}

theorem not_contracted_nil : ¬Contracted addreq [] address mtype := by
  rintro ⟨client, hmem, -⟩
  exact List.not_mem_nil hmem

theorem Edited.refl : Edited addreq granted clients clients :=
  ⟨id, fun _ _ => Or.inl⟩

/-- Some records are gone, and some contracts of others. -/
theorem edited_filterMap {edit : Client Address → Option (Client Address)}
    (hedit : ∀ client client', edit client = some client' → client'.addr = client.addr ∧
      (client.messageTypes ≠ 0 → client'.messageTypes ≠ 0) ∧
      ∀ mtype, client'.messageTypes.getLsbD mtype → client.messageTypes.getLsbD mtype) :
    Edited addreq nothing clients (clients.filterMap edit) := by
  constructor
  · rintro ⟨haddresses, htypes⟩
    constructor
    · refine haddresses.filterMap edit fun a b hab a' ha' b' hb' => ?_
      rwa [(hedit a a' ha').1, (hedit b b' hb').1]
    · intro client' hmem
      obtain ⟨client, hclient, hclient'⟩ := List.mem_filterMap.mp hmem
      exact (hedit client client' hclient').2.1 (htypes client hclient)
  · rintro address mtype ⟨client', hmem, haddress, hbit⟩
    obtain ⟨client, hclient, hclient'⟩ := List.mem_filterMap.mp hmem
    obtain ⟨hsame, -, hbits⟩ := hedit client client' hclient'
    exact Or.inl ⟨client, hclient, hsame ▸ haddress, hbits mtype hbit⟩

theorem edited_filter (keeps : Client Address → Bool) :
    Edited addreq nothing clients (clients.filter keeps) := by
  rw [← List.filterMap_eq_filter]
  refine edited_filterMap fun client client' hclient' => ?_
  obtain rfl := (Option.guard_eq_some_iff.mp hclient').1
  exact ⟨rfl, id, fun _ => id⟩

theorem getLsbD_and_not (types : BitVec 32) :
    (types &&& ~~~mask).getLsbD mtype = (types.getLsbD mtype && !mask.getLsbD mtype) := by
  rw [BitVec.getLsbD_and, BitVec.getLsbD_not]
  by_cases hlt : mtype < 32
  · simp [hlt]
  · simp [BitVec.getLsbD_of_ge types mtype (not_lt.mp hlt)]

theorem withoutTypes_eq_some {client client' : Client Address}
    (hclient : withoutTypes mask client = some client') :
    client'.addr = client.addr ∧ client'.messageTypes ≠ 0 ∧ ∀ mtype,
      client'.messageTypes.getLsbD mtype =
        (client.messageTypes.getLsbD mtype && !mask.getLsbD mtype) := by
  rw [withoutTypes] at hclient
  split at hclient
  case isTrue => cases hclient
  case isFalse hleft =>
    obtain rfl := Option.some.inj hclient
    exact ⟨rfl, hleft, fun mtype => getLsbD_and_not client.messageTypes⟩

theorem clearStale_eq_some {client client' : Client Address}
    (hclient : clearStale addreq address mask client = some client') :
    client'.addr = client.addr ∧ (client.messageTypes ≠ 0 → client'.messageTypes ≠ 0) ∧
      ∀ mtype, client'.messageTypes.getLsbD mtype → client.messageTypes.getLsbD mtype ∧
        ¬(addreq client.addr address ∧ mask.getLsbD mtype) := by
  rw [clearStale] at hclient
  split at hclient
  case isTrue haddress =>
    obtain ⟨hsame, hnonzero, hbits⟩ := withoutTypes_eq_some hclient
    refine ⟨hsame, fun _ => hnonzero, fun mtype hbit => ?_⟩
    rw [hbits mtype] at hbit
    simp_all
  case isFalse haddress =>
    obtain rfl := Option.some.inj hclient
    exact ⟨rfl, id, fun mtype hbit => ⟨hbit, fun hstale => haddress hstale.1⟩⟩

theorem edited_clearStale :
    Edited addreq nothing clients (clients.filterMap (clearStale addreq address mask)) :=
  edited_filterMap fun _ _ hclient' =>
    let ⟨hsame, hnonzero, hbits⟩ := clearStale_eq_some hclient'
    ⟨hsame, hnonzero, fun mtype hbit => (hbits mtype hbit).1⟩

/-- No stale contract is left. -/
theorem not_contracted_clearStale (hcompares : Compares addreq)
    {other : Address} (hrequested : requested addreq address mask other mtype) :
    ¬Contracted addreq (clients.filterMap (clearStale addreq address mask)) other mtype := by
  rintro ⟨client', hmem, hother, hbit⟩
  obtain ⟨client, -, hclient'⟩ := List.mem_filterMap.mp hmem
  obtain ⟨hsame, -, hbits⟩ := clearStale_eq_some hclient'
  rw [hsame] at hother
  exact (hbits mtype hbit).2
    ⟨hcompares.trans hother (hcompares.symm hrequested.1), hrequested.2⟩

theorem mem_modify {place : ℕ} {edit : Client Address → Client Address}
    {ctmp : Client Address} (hplace : clients[place]? = some ctmp) :
    edit ctmp ∈ clients.modify place edit := by
  refine List.mem_of_getElem? (i := place) ?_
  rw [List.getElem?_modify, hplace]
  simp

/-- The record at a place changes and keeps its address. -/
theorem edited_modify {place : ℕ} {edit : Client Address → Client Address}
    {ctmp : Client Address} (hplace : clients[place]? = some ctmp)
    (haddr : (edit ctmp).addr = ctmp.addr)
    (htypes : ctmp.messageTypes ≠ 0 → (edit ctmp).messageTypes ≠ 0)
    (hbits : ∀ address mtype, addreq ctmp.addr address →
      (edit ctmp).messageTypes.getLsbD mtype →
        ctmp.messageTypes.getLsbD mtype ∨ granted address mtype) :
    Edited addreq granted clients (clients.modify place edit) := by
  have hmem : ∀ client ∈ clients.modify place edit, client ∈ clients ∨ client = edit ctmp := by
    intro client hclient
    obtain ⟨i, hi⟩ := List.mem_iff_getElem?.mp hclient
    rw [List.getElem?_modify] at hi
    obtain ⟨old, hold, hedit⟩ := Option.map_eq_some_iff.mp hi
    split at hedit
    case isTrue hsame =>
      obtain rfl := Option.some.inj (hplace.symm.trans (hsame ▸ hold))
      exact Or.inr hedit.symm
    case isFalse => exact Or.inl (List.mem_iff_getElem?.mpr ⟨i, hedit ▸ hold⟩)
  have hold := List.mem_of_getElem? hplace
  constructor
  · rintro ⟨haddresses, hnonzero⟩
    constructor
    · have hsame : (clients.modify place edit).map Client.addr = clients.map Client.addr := by
        refine List.ext_getElem? fun i => ?_
        rw [List.getElem?_map, List.getElem?_map, List.getElem?_modify]
        by_cases hi : place = i
        · rw [← hi, hplace]
          simpa using haddr
        · simp only [if_neg hi, Option.map_eq_map, Option.map_id_fun', id]
      have hpairs := @List.pairwise_map _ _ Client.addr fun a b => ¬addreq a b
      exact hpairs.mp (hsame ▸ hpairs.mpr haddresses)
    · intro client hclient
      rcases hmem client hclient with hclient | rfl
      · exact hnonzero client hclient
      · exact htypes (hnonzero ctmp hold)
  · rintro address mtype ⟨client, hclient, haddress, hbit⟩
    rcases hmem client hclient with hclient | rfl
    · exact Or.inl ⟨client, hclient, haddress, hbit⟩
    · rw [haddr] at haddress
      exact (hbits address mtype haddress hbit).imp_left fun hbit =>
        ⟨ctmp, hold, haddress, hbit⟩

/-- A scan that stops has come to a record with a contract. -/
theorem scanClients_eq_unchanged {start place : ℕ} {client : Option ℕ}
    (hscan : scanClients addreq address mask clients start client = .unchanged place) :
    ∃ offset ctmp, place = start + offset ∧ clients[offset]? = some ctmp ∧
      addreq ctmp.addr address ∧ ctmp.messageTypes &&& mask ≠ 0 := by
  induction clients generalizing start client with
  | nil => cases hscan
  | cons first rest ih =>
    rw [scanClients] at hscan
    split_ifs at hscan with haddress hbit
    · exact ⟨0, first, (Scan.unchanged.inj hscan).symm, rfl, haddress, hbit⟩
    all_goals
      obtain ⟨offset, ctmp, rfl, hctmp, hfound⟩ := ih hscan
      exact ⟨offset + 1, ctmp, by omega, hctmp, hfound⟩

/-- A scan that goes through shows the last record with the address. -/
theorem scanClients_eq_passed {start : ℕ} {client client' : Option ℕ}
    (hscan : scanClients addreq address mask clients start client = .passed client') :
    (client' = client ∧ ∀ ctmp ∈ clients, ¬addreq ctmp.addr address) ∨
      ∃ place ctmp, client' = some (start + place) ∧ clients[place]? = some ctmp ∧
        addreq ctmp.addr address := by
  induction clients generalizing start client with
  | nil =>
    rw [scanClients, Scan.passed.injEq] at hscan
    exact Or.inl ⟨hscan.symm, fun ctmp hmem => absurd hmem List.not_mem_nil⟩
  | cons first rest ih =>
    have hlater : ∀ place : ℕ, start + 1 + place = start + (place + 1) := fun place => by omega
    rw [scanClients] at hscan
    split at hscan
    case isTrue haddress =>
      split at hscan
      case isTrue => cases hscan
      case isFalse =>
        rcases ih hscan with ⟨rfl, -⟩ | ⟨place, ctmp, rfl, hplace, hctmp⟩
        · exact Or.inr ⟨0, first, rfl, rfl, haddress⟩
        · exact Or.inr ⟨place + 1, ctmp, by rw [hlater], hplace, hctmp⟩
    case isFalse haddress =>
      rcases ih hscan with ⟨rfl, hnone⟩ | ⟨place, ctmp, rfl, hplace, hctmp⟩
      · exact Or.inl ⟨rfl, List.forall_mem_cons.mpr ⟨haddress, hnone⟩⟩
      · exact Or.inr ⟨place + 1, ctmp, by rw [hlater], hplace, hctmp⟩

theorem unicastServiceExtend_types (clock : Option Reading) (req : RequestUnicastXmit)
    (client : Client Address) :
    (unicastServiceExtend clock req client).addr = client.addr ∧
      (unicastServiceExtend clock req client).messageTypes = client.messageTypes := by
  unfold unicastServiceExtend
  split
  · exact ⟨rfl, rfl⟩
  · dsimp only
    split <;> exact ⟨rfl, rfl⟩

theorem edited_extend (clock : Option Reading) (req : RequestUnicastXmit) (place : ℕ) :
    Edited addreq nothing clients
      (clients.modify place (unicastServiceExtend clock req)) := by
  cases hplace : clients[place]? with
  | none =>
    rw [List.modify_eq_self (List.getElem?_eq_none_iff.mp hplace)]
    exact Edited.refl
  | some ctmp =>
    obtain ⟨haddr, htypes⟩ := unicastServiceExtend_types clock req ctmp
    exact edited_modify hplace haddr (fun hnonzero => by rwa [htypes])
      fun _ _ _ hbit => Or.inl (by rwa [htypes] at hbit)

/-- A record with the address of the request gets the contract. -/
theorem edited_renewClient (hcompares : Compares addreq)
    (clock : Option Reading) (req : RequestUnicastXmit) {place : ℕ} {ctmp : Client Address}
    (hplace : clients[place]? = some ctmp) (haddress : addreq ctmp.addr address) :
    Edited addreq (requested addreq address mask) clients
      (clients.modify place (renewClient clock req mask)) := by
  obtain ⟨haddr, htypes⟩ := unicastServiceExtend_types clock req
    { ctmp with messageTypes := ctmp.messageTypes ||| mask }
  rw [← renewClient] at haddr htypes
  refine edited_modify hplace haddr (fun hnonzero => ?_) fun other mtype hother hbit => ?_
  · rw [htypes]
    exact fun hzero => hnonzero (BitVec.or_eq_zero_iff.mp hzero).1
  · rw [htypes, BitVec.getLsbD_or, Bool.or_eq_true] at hbit
    exact hbit.imp_right fun hmask => ⟨hcompares.trans (hcompares.symm haddress) hother, hmask⟩

/-- A new record gets the contract. -/
theorem edited_newClient (hcompares : Compares addreq)
    (clock : Option Reading) (req : RequestUnicastXmit) {sender : Sender Address}
    (hmask : mask ≠ 0) (hnone : ∀ ctmp ∈ clients, ¬addreq ctmp.addr sender.address) :
    Edited addreq (requested addreq sender.address mask) clients
      (newClient clock req mask sender :: clients) := by
  obtain ⟨haddr, htypes⟩ := unicastServiceExtend_types clock req
    ⟨sender.sourcePortIdentity, mask, sender.address, 0⟩
  rw [← newClient] at haddr htypes
  constructor
  · rintro ⟨haddresses, hnonzero⟩
    refine ⟨List.pairwise_cons.mpr ⟨fun ctmp hmem hsame => ?_, haddresses⟩,
      List.forall_mem_cons.mpr ⟨by rwa [htypes], hnonzero⟩⟩
    rw [haddr] at hsame
    exact hnone ctmp hmem (hcompares.symm hsame)
  · rintro other mtype ⟨client, hmem, hother, hbit⟩
    rcases List.mem_cons.mp hmem with rfl | hold
    · rw [haddr] at hother
      rw [htypes] at hbit
      exact Or.inr ⟨hother, hbit⟩
    · exact Or.inl ⟨client, hold, hother, hbit⟩

/-- A cancel takes a contract from the first record that has it. -/
theorem edited_removeContract
    (hremove : removeContract addreq address mask clients = some clients') :
    Edited addreq nothing clients clients' := by
  have hsplit : ∃ before ctmp after, clients = before ++ ctmp :: after ∧
      clients' = before ++ ((withoutTypes mask ctmp).toList ++ after) := by
    induction clients generalizing clients' with
    | nil => cases hremove
    | cons first rest ih =>
      rw [removeContract] at hremove
      split at hremove
      case isTrue => exact ⟨[], first, rest, rfl, (Option.some.inj hremove).symm⟩
      case isFalse =>
        obtain ⟨rest', hrest', rfl⟩ := Option.map_eq_some_iff.mp hremove
        obtain ⟨before, ctmp, after, rfl, rfl⟩ := ih hrest'
        exact ⟨first :: before, ctmp, after, rfl, rfl⟩
  obtain ⟨before, ctmp, after, rfl, rfl⟩ := hsplit
  cases hleft : withoutTypes mask ctmp with
  | none =>
    have hsublist : (before ++ after).Sublist (before ++ ctmp :: after) :=
      (List.Sublist.refl before).append (List.sublist_cons_self ctmp after)
    rw [Option.toList_none, List.nil_append]
    exact ⟨fun ⟨haddresses, htypes⟩ => ⟨haddresses.sublist hsublist, fun client hmem =>
        htypes client (hsublist.mem hmem)⟩,
      fun other mtype ⟨client, hmem, hother, hbit⟩ =>
        Or.inl ⟨client, hsublist.mem hmem, hother, hbit⟩⟩
  | some kept =>
    obtain ⟨haddr, hnonzero, hbits⟩ := withoutTypes_eq_some hleft
    have hmodify : (before ++ ctmp :: after).modify before.length (fun _ => kept) =
        before ++ ([kept] ++ after) := by
      rw [List.modify_eq_take_cons_drop (by simp)]
      simp
    rw [Option.toList_some, ← hmodify]
    exact edited_modify (by simp) haddr (fun _ => hnonzero)
      fun other mtype _ hbit => Or.inl (by
        rw [hbits mtype, Bool.and_eq_true] at hbit
        exact hbit.1)

end

end LinuxPtp.Unicast
