import LinuxPtp.Lib.Stepping
import LinuxPtp.Unicast.Negotiation
import LinuxPtp.Unicast.Renewals
import LinuxPtp.Unicast.Runs

/-!
# Agreement of a client and its master

What the client counts as granted, the master has granted at the rate of the client, and
it keeps the contract for as long, however the messages between them are delivered.
-/

namespace LinuxPtp.Unicast

open Clock Port

variable {Address : Type}

structure Reply.Gives (reply : Reply) (mtype : ℕ) : Prop where
  mtype : mtypeOf reply.grant.messageType = mtype
  duration : reply.grant.durationField ≠ 0

def Reply.tmo (reply : Reply) (now : Reading) : ℤ :=
  now.val.tvSec + reply.grant.durationField.toNat

/-- The grant is at the rate that the client asks for, and the contract lasts, unless the
clock of the master has shown a later time. -/
structure Honoured (link : Link Address) (r : ClientPort Address) (service : Service Address)
    (readings : List ℤ) (mtype : ℕ) (reply : Reply) : Prop where
  period : reply.grant.logInterMessagePeriod = requestedPeriod r mtype
  lasts : ∀ now, reply.clock = some now →
    Lasts link.same link.clientAddress mtype (requestedPeriod r mtype).toInt (reply.tmo now)
        service ∨
      ∃ reading ∈ readings, reply.tmo now < reading

/-- The service is kept, and all that has been granted of Announce and Sync messages is
honoured. -/
structure Honours (link : Link Address) (r : ClientPort Address) (replies : List Reply)
    (readings : List ℤ) (service : Service Address) : Prop where
  kept : Kept link.same service
  honoured : ∀ mtype, mtype = announce ∨ mtype = sync → ∀ reply ∈ replies,
    reply.Gives mtype → Honoured link r service readings mtype reply

section

variable {link : Link Address} {r : ClientPort Address} {replies : List Reply}
variable {readings : List ℤ} {service service' : Service Address}
variable (hequiv : Equivalence fun a b => link.same a b)

/-- Another service honours what this one does if every contract lasts in it or has come
to its time. -/
theorem Honours.change (hhonours : Honours link r replies readings service)
    {later : List ℤ} (hkept : Kept link.same service')
    (hlasts : ∀ mtype tmo, mtype = announce ∨ mtype = sync →
      Lasts link.same link.clientAddress mtype (requestedPeriod r mtype).toInt tmo service →
      Lasts link.same link.clientAddress mtype (requestedPeriod r mtype).toInt tmo service' ∨
        ∃ reading ∈ later, tmo < reading) :
    Honours link r replies (readings ++ later) service' := by
  refine ⟨hkept, fun mtype hmtype reply hmem hgives => ?_⟩
  obtain ⟨hperiod, hbefore⟩ := hhonours.honoured mtype hmtype reply hmem hgives
  refine ⟨hperiod, fun now hnow => ?_⟩
  rcases hbefore now hnow with hlast | ⟨reading, hmem, hlater⟩
  · rcases hlasts mtype _ hmtype hlast with hnext | ⟨reading, hmem, hlater⟩
    · exact Or.inl hnext
    · exact Or.inr ⟨reading, List.mem_append_right _ hmem, hlater⟩
  · exact Or.inr ⟨reading, List.mem_append_left _ hmem, hlater⟩

/-- The master says nothing. -/
theorem Honours.silent (hhonours : Honours link r replies readings service) :
    Honours link r (replies ++ []) readings service := by
  rw [List.append_nil]
  exact hhonours

/-! ## Requests of the client -/

section

variable {sender : Sender Address} {req : RequestUnicastXmit}

include hequiv

/-- A request at the rates of the client leaves its contracts, and what is granted now is
honoured, too. -/
theorem Honours.serviceAdd (host : TlvHost) (hsender : sender.address = link.clientAddress)
    (hrate : mtypeOf req.messageType = announce ∨ mtypeOf req.messageType = sync →
      req.logInterMessagePeriod = requestedPeriod r (mtypeOf req.messageType))
    (hhonours : Honours link r replies readings service) :
    ∃ answer service', Unicast.serviceAdd link.same link.wideShift host.request sender req
        service = some (answer, service') ∧
      Honours link r (replies ++ replyTo host req answer) readings service' := by
  obtain ⟨answer, service', hadd, hkept, -⟩ :=
    serviceAdd_kept (.of_equivalence hequiv) hhonours.kept link.wideShift host.request
      sender req
  have hbefore : Honours link r replies (readings ++ []) service' := by
    refine hhonours.change hkept fun mtype tmo hmtype hlasts => Or.inl ?_
    refine hlasts.serviceAdd hequiv hhonours.kept.fresh (fun _ htype => ?_) hadd
    subst htype
    rw [hrate hmtype, mtypeOf]
  rw [List.append_nil] at hbefore
  refine ⟨answer, service', hadd, hkept, fun mtype hmtype reply hmem hgives => ?_⟩
  rcases List.mem_append.mp hmem with hold | hnew
  · exact hbefore.honoured mtype hmtype reply hold hgives
  · cases answer with
    | granted =>
      rw [replyTo, unicastServiceReply] at hnew
      split at hnew
      · obtain rfl := List.mem_singleton.mp hnew
        have htype : mtypeOf req.messageType = mtype := hgives.mtype
        have hperiod : req.logInterMessagePeriod = requestedPeriod r mtype :=
          htype ▸ hrate (htype ▸ hmtype)
        refine ⟨hperiod, fun now hnow => Or.inl ?_⟩
        have hgranted := serviceAdd_lasts hequiv hhonours.kept hmtype htype hnow hadd
        rw [hsender, hperiod] at hgranted
        exact hgranted
      · exact absurd hnew List.not_mem_nil
    | denied =>
      rw [replyTo, unicastServiceReply] at hnew
      split at hnew
      · obtain rfl := List.mem_singleton.mp hnew
        exact absurd rfl hgives.duration
      · exact absurd hnew List.not_mem_nil
    | disabled => exact absurd hnew List.not_mem_nil

/-- The answer to one TLV is honoured. -/
theorem Honours.answerTlv (host : TlvHost) {tlv : SignalingTlv} (state : PortState)
    (hsender : sender.address = link.clientAddress) (hrates : TlvsAtRates r [tlv])
    (hhonours : Honours link r replies readings service) :
    ∃ more service', link.answerTlv host sender tlv ⟨state, some service⟩ =
        some (more, ⟨state, some service'⟩) ∧
      Honours link r (replies ++ more) readings service' := by
  cases tlv with
  | ack flags => exact ⟨[], service, rfl, hhonours.silent⟩
  | request req =>
    obtain ⟨answer, service', hadd, hnext⟩ := hhonours.serviceAdd hequiv host hsender
      (hrates req (List.mem_singleton_self _))
    refine ⟨_, service', ?_, hnext⟩
    rw [Link.answerTlv, unicastServiceAdd]
    simp only [hadd, Option.map_some]

/-- So are those to all TLVs of a message. -/
theorem Honours.answerTlvs (hosts : ℕ → TlvHost) (k : ℕ) {tlvs : List SignalingTlv}
    (state : PortState) (hsender : sender.address = link.clientAddress)
    (hrates : TlvsAtRates r tlvs) (hhonours : Honours link r replies readings service) :
    ∃ more service', link.answerTlvs hosts sender k tlvs ⟨state, some service⟩ =
        some (more, ⟨state, some service'⟩) ∧
      Honours link r (replies ++ more) readings service' := by
  induction tlvs generalizing k replies service with
  | nil => exact ⟨[], service, rfl, hhonours.silent⟩
  | cons tlv rest ih =>
    have hfirst : TlvsAtRates r [tlv] := fun req hmem =>
      hrates req (List.mem_cons.mpr (Or.inl (List.mem_singleton.mp hmem)))
    have hrest : TlvsAtRates r rest := fun req hmem => hrates req (List.mem_cons_of_mem _ hmem)
    obtain ⟨first, next, hanswer, hnext⟩ :=
      hhonours.answerTlv hequiv (hosts k) state hsender hfirst
    obtain ⟨more, last, hanswers, hlast⟩ := ih (k + 1) hrest hnext
    refine ⟨first ++ more, last, ?_, ?_⟩
    · rw [Link.answerTlvs, hanswer]
      simp only [Option.bind_eq_bind, Option.bind_some, hanswers, Option.pure_def]
    · rw [← List.append_assoc]
      exact hlast

/-- And the whole reply. -/
theorem Honours.portMsgProSignaling (hosts : ℕ → TlvHost) {tlvs : List SignalingTlv}
    (state : PortState) (hsender : sender.address = link.clientAddress)
    (hrates : TlvsAtRates r tlvs) (hhonours : Honours link r replies readings service) :
    ∃ more service', link.portMsgProSignaling hosts sender tlvs ⟨state, some service⟩ =
        some (more, ⟨state, some service'⟩) ∧
      Honours link r (replies ++ more) readings service' := by
  rw [Link.portMsgProSignaling]
  split
  · exact ⟨[], service, rfl, hhonours.silent⟩
  · exact hhonours.answerTlvs hequiv hosts 0 state hsender hrates

end

/-! ## Events of the master -/

include hequiv

/-- What else happens to the master takes no contract of the client away before its
time. -/
theorem Honours.serve (state : PortState) {event : Event Address}
    (hgenuine : Genuine link (.master event))
    (hhonours : Honours link r replies readings service) :
    ∃ state' service', Unicast.serve link.same link.wideShift ⟨state, some service⟩ event =
        some ⟨state', some service'⟩ ∧
      Honours link r replies (readings ++ event.readings ⟨state, some service⟩) service' := by
  cases event with
  | request host sender req =>
    obtain ⟨answer, service', hadd, hkept, -⟩ :=
      serviceAdd_kept (.of_equivalence hequiv) hhonours.kept link.wideShift host sender req
    refine ⟨state, service', ?_, hhonours.change hkept fun mtype tmo _ hlasts => Or.inl ?_⟩
    · rw [Unicast.serve, unicastServiceAdd]
      simp only [hadd, Option.map_some]
    · exact hlasts.serviceAdd hequiv hhonours.kept.fresh
        (fun hsender => absurd hsender hgenuine) hadd
  | cancel address flags =>
    obtain ⟨hkept, -⟩ := serviceRemove_kept hhonours.kept address flags
    refine ⟨state, _, rfl, hhonours.change hkept fun mtype tmo _ hlasts => Or.inl ?_⟩
    exact hlasts.serviceRemove hequiv hgenuine flags
  | timer now hosts settime =>
    obtain ⟨value, service', timer, htimer, hkept, -⟩ :=
      serviceTimer_kept hhonours.kept (isMaster state) now hosts settime
    refine ⟨state, _, ?_, hhonours.change hkept fun mtype tmo _ hlasts => ?_⟩
    · rw [Unicast.serve, unicastServiceTimer]
      simp only [htimer, Option.map_some]
    · by_cases hlater : ∃ reading ∈
          (Event.timer now hosts settime).readings ⟨state, some service⟩, tmo < reading
      · exact Or.inr hlater
      · refine Or.inl (hlasts.serviceTimer (fun hmaster round hround now hnow => ?_)
          hhonours.kept htimer)
        refine not_lt.mp fun hlt => hlater ⟨_, ?_, hlt⟩
        rw [Event.readings, if_pos hmaster]
        exact List.mem_filterMap.mpr ⟨round, hround, by rw [hnow, Option.map_some]⟩
  | becomes state' =>
    refine ⟨state', service, rfl, hhonours.change hhonours.kept fun _ _ _ hlasts => ?_⟩
    exact Or.inl hlasts

end

/-! ## Both of them -/

/-- The client asks at its own rates, all that has come to it from the master the master
has sent, and the master honours it. -/
structure Agrees (link : Link Address) (start : ClientPort Address)
    (s : Negotiation Address) : Prop where
  rates : AtRates start s.client
  genuine : ∃ events, s.client = Stepping.run (clientStep link.addreq) events start ∧
    ∀ clock m g, .grant clock m g ∈ events → link.same link.masterAddress m.address →
      ∃ reply ∈ s.replies, reply.grant = g
  honours : ∃ state service, s.master = some ⟨state, some service⟩ ∧
    Honours link start s.replies s.readings service

section

variable {link : Link Address} {start : ClientPort Address} {s : Negotiation Address}

/-- The client agrees, as long as it gets grants that were sent to it. -/
theorem Agrees.client (hagrees : Agrees link start s) {event : ClientEvent Address}
    (hevent : ∀ clock m g, event = .grant clock m g →
      link.same link.masterAddress m.address → ∃ reply ∈ s.replies, reply.grant = g) :
    Agrees link start { s with client := clientStep link.addreq s.client event } := by
  obtain ⟨events, hclient, hbefore⟩ := hagrees.genuine
  refine ⟨hagrees.rates.clientStep event, ⟨events ++ [event], ?_, ?_⟩, hagrees.honours⟩
  · rw [Stepping.run_append, Stepping.run_cons, Stepping.run_nil, ← hclient]
  · intro clock m g hmem
    rcases List.mem_append.mp hmem with hold | hnew
    · exact hbefore clock m g hold
    · exact hevent clock m g (List.mem_singleton.mp hnew).symm

/-- The service agrees when a request that was sent comes in. -/
theorem Agrees.takeRequest (hequiv : Equivalence fun a b => link.same a b)
    (hagrees : Agrees link start s) (hosts : ℕ → TlvHost) {msg : Signaling Address}
    (hmsg : msg ∈ s.client.sent) : Agrees link start (takeRequest link s hosts msg) := by
  rw [Unicast.takeRequest]
  split
  · exact hagrees
  · obtain ⟨state, service, hmaster, hhonours⟩ := hagrees.honours
    have hsender : (link.sender s.client).address = link.clientAddress := rfl
    obtain ⟨more, service', hanswer, hnext⟩ :=
      hhonours.portMsgProSignaling hequiv hosts state hsender (hagrees.rates.sent msg hmsg)
    rw [hmaster, Option.bind_some, hanswer]
    refine ⟨hagrees.rates, ?_, state, service', rfl, hnext⟩
    obtain ⟨events, hclient, hbefore⟩ := hagrees.genuine
    refine ⟨events, hclient, fun clock m g hmem hsame => ?_⟩
    obtain ⟨reply, hreply, hgrant⟩ := hbefore clock m g hmem hsame
    exact ⟨reply, List.mem_append_left _ hreply, hgrant⟩

/-- Every move keeps the two in agreement. -/
theorem Agrees.negotiate (hequiv : Equivalence fun a b => link.same a b)
    {move : Move Address} (hgenuine : Genuine link move) (hagrees : Agrees link start s) :
    Agrees link start (negotiate link s move) := by
  cases move with
  | client event =>
    refine hagrees.client fun clock m g hevent hsame => ?_
    subst hevent
    exact absurd hsame hgenuine
  | master event =>
    obtain ⟨state, service, hmaster, hhonours⟩ := hagrees.honours
    obtain ⟨state', service', hserve, hnext⟩ := hhonours.serve hequiv state hgenuine
    refine ⟨hagrees.rates, hagrees.genuine, state', service', ?_, ?_⟩
    · rw [Unicast.negotiate, serviceStep, hmaster, Option.bind_some]
      exact hserve
    · rw [Unicast.negotiate, hmaster, Option.map_some, Option.getD_some]
      exact hnext
  | request k hosts =>
    rw [Unicast.negotiate]
    split
    · exact hagrees
    · next msg hsent =>
      exact hagrees.takeRequest hequiv hosts (List.mem_of_getElem? hsent)
  | reply k clock =>
    rw [Unicast.negotiate]
    split
    · exact hagrees
    · next reply hreply =>
      refine @Agrees.client _ link start s hagrees
        (.grant clock (link.received s.client) reply.grant) fun clock' m g hevent _ => ?_
      obtain ⟨-, -, rfl⟩ := ClientEvent.grant.inj hevent
      exact ⟨reply, List.mem_of_getElem? hreply, rfl⟩

end

/-! ## Runs -/

def Given (replies : List Reply) (mtype : ℕ) : Prop :=
  ∃ reply ∈ replies, reply.Gives mtype

section

variable {link : Link Address} {p start : ClientPort Address} {s : Negotiation Address}

theorem Reaches.address {addreq : TransportType → Address → Address → Bool}
    {m : ReceivedSignaling Address} {i : ℕ} {a : MasterAddress Address}
    (hreaches : Reaches addreq p m i) (ha : p.master i = some a) :
    addreq p.transportType a.address m.address := by
  rw [Reaches] at hreaches
  obtain ⟨⟨table, j⟩, hok, rfl⟩ := Option.map_eq_some_iff.mp hreaches
  rw [unicastClientOk] at hok
  split at hok
  · cases hok
  · next table' htable =>
    split at hok
    · cases hok
    · obtain ⟨k, hk, hpair⟩ := Option.map_eq_some_iff.mp hok
      obtain ⟨rfl, rfl⟩ := Prod.mk.inj hpair
      obtain ⟨hlt, hsame, -⟩ := List.findIdx?_eq_some_iff_getElem.mp hk
      rw [ClientPort.master, htable, Option.bind_some, List.getElem?_eq_getElem hlt] at ha
      obtain rfl := Option.some.inj ha
      exact hsame

/-- What the client holds of the master has been given by it. -/
theorem Agrees.given (hequiv : Equivalence fun a b => link.same a b)
    (hagrees : Agrees link start s)
    (htallies : ∀ i a, start.master i = some a → Tallies link.addreq start [] i a)
    (htransport : start.transportType = link.transportType) {i : ℕ}
    {a : MasterAddress Address} (ha : s.client.master i = some a)
    (hsame : link.same a.address link.masterAddress) :
    (a.state ≠ .wait → Given s.replies announce) ∧
      (a.state = .haveSydy → Given s.replies sync) := by
  obtain ⟨events, hclient, hbefore⟩ := hagrees.genuine
  rw [hclient] at ha
  have hentitled := (run_tallies htallies events i a ha).entitled
  have hclientKept : SameClient start (Stepping.run (clientStep link.addreq) events start) :=
    run_sameClient events start
  have hfixed := @SameClient.master _ _ _ i hclientKept
  rw [ha, Option.map_some] at hfixed
  obtain ⟨b, hb, hplace⟩ := Option.map_eq_some_iff.mp hfixed.symm
  have haddress : b.address = a.address := congrArg Prod.fst hplace
  have hgiven : ∀ mtype, Holds link.addreq start events i mtype → Given s.replies mtype := by
    rintro mtype ⟨before, clock, m, g, after, rfl, hgrants, -⟩
    have hfrom := hgrants.reaches.address hb
    rw [htransport, haddress] at hfrom
    obtain ⟨reply, hreply, rfl⟩ := hbefore clock m g
      (List.mem_append_right _ List.mem_cons_self) (hequiv.trans (hequiv.symm hsame) hfrom)
    exact ⟨reply, hreply, hgrants.mtype, hgrants.duration⟩
  exact ⟨fun hstate => hgiven _ (hentitled.announce hstate),
    fun hstate => hgiven _ (hentitled.sync hstate)⟩

/-- In the beginning there is nothing to agree on. -/
theorem agrees_start (hsent : start.sent = []) (state : PortState) :
    Agrees link start ⟨start, initialPort state, [], []⟩ := by
  obtain ⟨state', service, hstart, hkept, -⟩ :=
    @initialPort_kept _ link.same (fun _ => True) state
  refine ⟨⟨rfl, rfl, fun msg hmem => ?_⟩, ⟨[], rfl, fun _ _ _ hmem => ?_⟩,
    state', service, hstart, hkept, fun _ _ _ hmem => ?_⟩
  · rw [hsent] at hmem
    exact absurd hmem List.not_mem_nil
  · exact absurd hmem List.not_mem_nil
  · exact absurd hmem List.not_mem_nil

theorem claimTable_port (portNumber : ℕ) (tableId reqDuration : ℤ)
    (tables : List (MasterTable Address)) (peerAddress : Option Address)
    (p : ClientPort Address) :
    let start :=
      (unicastClientClaimTable portNumber tableId reqDuration tables peerAddress p).2
    start.transportType = p.transportType ∧ start.sent = p.sent := by
  dsimp only
  rw [unicastClientClaimTable]
  split
  · exact ⟨rfl, rfl⟩
  · split
    · exact ⟨rfl, rfl⟩
    · split
      · exact ⟨rfl, rfl⟩
      · split <;> exact ⟨rfl, rfl⟩

/-- However the messages between a client and its master are lost, repeated and reordered,
and whatever else happens to the two, the master is in service, every grant that it has
sent is at the rate of the client and lasts until its time has come, and where the client
counts on Announce or Sync messages of the master, that has granted them. -/
theorem run_agrees (hequiv : Equivalence fun a b => link.same a b)
    {tables : List (MasterTable Address)} (hfresh : ∀ table ∈ tables, Fresh table)
    (hnone : p.unicastMasterTable = none) (hsent : p.sent = [])
    (htransport : p.transportType = link.transportType) (portNumber : ℕ)
    (tableId reqDuration : ℤ) (peerAddress : Option Address) (state : PortState)
    {moves : List (Move Address)} (hgenuine : ∀ move ∈ moves, Genuine link move) :
    let start :=
      (unicastClientClaimTable portNumber tableId reqDuration tables peerAddress p).2
    let s := Stepping.run (negotiate link) moves ⟨start, initialPort state, [], []⟩
    ∃ state' service, s.master = some ⟨state', some service⟩ ∧
      (∀ mtype, mtype = announce ∨ mtype = sync → ∀ reply ∈ s.replies,
        reply.Gives mtype → Honoured link start service s.readings mtype reply) ∧
      ∀ i a, s.client.master i = some a → link.same a.address link.masterAddress →
        (a.state ≠ .wait → Given s.replies announce) ∧
          (a.state = .haveSydy → Given s.replies sync) := by
  intro start s
  obtain ⟨htype, hempty⟩ :=
    claimTable_port portNumber tableId reqDuration tables peerAddress p
  have hagrees : Agrees link start s :=
    (Stepping.meets_of_forall hgenuine _).invariant
      (fun _ _ hgenuine hagrees => hagrees.negotiate hequiv hgenuine)
      (agrees_start (hempty.trans hsent) state)
  obtain ⟨state', service, hmaster, hhonours⟩ := hagrees.honours
  refine ⟨state', service, hmaster, hhonours.honoured, fun i a ha hsame => ?_⟩
  exact hagrees.given hequiv (fun _ _ hclaimed => claimTable_tallies hfresh hnone hclaimed)
    (htype.trans htransport) ha hsame

end

/-- A client at address 7 and its master at address 5. -/
def soleLink : Link ℕ where
  addreq _ x y := decide (x = y)
  wideShift _ := 0
  transportType := .udpIpv4
  clientAddress := 7
  masterAddress := 5
  masterIdentity := soleAnswer.sourcePortIdentity

/-- The client asks, the request is delivered twice, and the second answer first. -/
def soleMoves : List (Move ℕ) :=
  let host := hostAt 100
  let answers : ℕ → TlvHost := fun _ => ⟨someHost, true⟩
  [.client (.timer (fun _ => host) fun _ => host), .request 0 answers, .request 0 answers,
    .reply 1 none, .reply 0 none]

theorem run_agrees_soleLink :
    let start := (unicastClientClaimTable 1 1 60 [soleTable] none soleClient).2
    let s := Stepping.run (negotiate soleLink) soleMoves
      ⟨start, initialPort .master, [], []⟩
    (s.client.master 0).map MasterAddress.state = some .haveAnn ∧ Given s.replies announce ∧
      ∃ state service, s.master = some ⟨state, some service⟩ ∧ ∀ reply ∈ s.replies,
        reply.Gives announce →
          Honoured soleLink start service s.readings announce reply := by
  intro start s
  have hstate : (s.client.master 0).map MasterAddress.state = some .haveAnn := by
    decide +kernel
  have haddress : (s.client.master 0).map MasterAddress.address = some 5 := by
    decide +kernel
  obtain ⟨a, ha, hann⟩ := Option.map_eq_some_iff.mp hstate
  rw [ha, Option.map_some, Option.some.injEq] at haddress
  have hfresh : ∀ table ∈ [soleTable], Fresh table := by
    rintro table hmem
    obtain rfl := List.mem_singleton.mp hmem
    exact ⟨by decide, by decide⟩
  have hgenuine : ∀ move ∈ soleMoves, Genuine soleLink move := by
    intro move hmem
    simp only [soleMoves, List.mem_cons, List.not_mem_nil, or_false] at hmem
    rcases hmem with rfl | rfl | rfl | rfl | rfl <;> trivial
  obtain ⟨state, service, hmaster, hhonoured, hgiven⟩ :=
    @run_agrees _ soleLink soleClient equivalence_decide _ hfresh rfl rfl rfl 1 1 60 none
      .master _ hgenuine
  refine ⟨hstate, (hgiven 0 a ha (decide_eq_true haddress)).1 ?_, state, service, hmaster,
    hhonoured announce (Or.inl rfl)⟩
  rw [hann]
  decide

end LinuxPtp.Unicast
