import LinuxPtp.Unicast.Client

/-!
# The turns of a client's masters

Each event leaves the client who it is and where its masters are, only adds to what has
been sent, and makes of each master what the state machine makes of it.
-/

namespace LinuxPtp.Unicast

open Bmc Clock Port Wire

variable {Address : Type} {addreq : TransportType → Address → Address → Bool}
variable {p q : ClientPort Address} {i : ℕ} {a : MasterAddress Address}
variable {event : ClientEvent Address}

/-- The master at a place of the table. -/
def ClientPort.master (p : ClientPort Address) (i : ℕ) : Option (MasterAddress Address) :=
  p.unicastMasterTable.bind fun table => table.addrs[i]?

/-- The message is for this client, from this master of the table. -/
def Reaches (addreq : TransportType → Address → Address → Bool) (p : ClientPort Address)
    (m : ReceivedSignaling Address) (i : ℕ) : Prop :=
  (unicastClientOk addreq m p).map Prod.snd = some i

/-! ## What stays -/

/-- What stays of a master. -/
def MasterAddress.fixed (a : MasterAddress Address) :
    Address × TransportType × BitVec 32 :=
  (a.address, a.type, a.sydymsk)

/-- What stays of the table. -/
def ClientPort.fixed (p : ClientPort Address) :
    Option (List (Address × TransportType × BitVec 32)) :=
  p.unicastMasterTable.map fun table => table.addrs.map MasterAddress.fixed

/-- What no event changes: who the client is, and where its masters are. -/
structure SameClient (p q : ClientPort Address) : Prop where
  portIdentity : q.portIdentity = p.portIdentity
  transportType : q.transportType = p.transportType
  p2p : q.p2p = p.p2p
  fixed : q.fixed = p.fixed

namespace SameClient

theorem refl (p : ClientPort Address) : SameClient p p := ⟨rfl, rfl, rfl, rfl⟩

theorem trans {r : ClientPort Address} (hfirst : SameClient p q) (hsecond : SameClient q r) :
    SameClient p r where
  portIdentity := hsecond.portIdentity.trans hfirst.portIdentity
  transportType := hsecond.transportType.trans hfirst.transportType
  p2p := hsecond.p2p.trans hfirst.p2p
  fixed := hsecond.fixed.trans hfirst.fixed

end SameClient

/-- A message that is not for the port, or from no master, is for no entry. -/
theorem unicastClientOk_snd (m : ReceivedSignaling Address) (p : ClientPort Address) :
    (unicastClientOk addreq m p).map Prod.snd =
      if m.targetPortIdentity ≠ p.portIdentity ∧ m.targetPortIdentity ≠ wildcard then none
      else p.fixed.bind fun addrs =>
        addrs.findIdx? fun a => addreq p.transportType a.1 m.address := by
  rw [unicastClientOk, ClientPort.fixed]
  cases p.unicastMasterTable with
  | none => simp
  | some table =>
    dsimp only
    split
    · rfl
    · rw [Option.map_map, Option.map_some, Option.bind_some, List.findIdx?_map]
      simp [Function.comp_def, MasterAddress.fixed]

/-- What reaches an entry stays the same. -/
theorem SameClient.reaches (hsame : SameClient p q) (m : ReceivedSignaling Address) (i : ℕ) :
    Reaches addreq q m i ↔ Reaches addreq p m i := by
  rw [Reaches, Reaches, unicastClientOk_snd, unicastClientOk_snd, hsame.portIdentity,
    hsame.transportType, hsame.fixed]

theorem master_fixed (p : ClientPort Address) (i : ℕ) :
    (p.master i).map MasterAddress.fixed = p.fixed.bind fun addrs => addrs[i]? := by
  rw [ClientPort.master, ClientPort.fixed]
  cases p.unicastMasterTable <;> simp

theorem SameClient.master (hsame : SameClient p q) :
    (q.master i).map MasterAddress.fixed = (p.master i).map MasterAddress.fixed := by
  rw [master_fixed, master_fixed, hsame.fixed]

/-! ## Sending -/

/-- The client is the same, and what has been sent has been sent. -/
structure Extends (p q : ClientPort Address) : Prop extends SameClient p q where
  sent : p.sent <+: q.sent
  master : ∀ i, q.master i = p.master i

namespace Extends

theorem refl (p : ClientPort Address) : Extends p p :=
  ⟨.refl p, List.prefix_refl _, fun _ => rfl⟩

theorem trans {r : ClientPort Address} (hfirst : Extends p q) (hsecond : Extends q r) :
    Extends p r where
  toSameClient := hfirst.toSameClient.trans hsecond.toSameClient
  sent := hfirst.sent.trans hsecond.sent
  master i := (hsecond.master i).trans (hfirst.master i)

theorem sendSignaling (host : SendHost) (dst : MasterAddress Address)
    (tlvs : List SignalingTlv) (p : ClientPort Address) :
    Extends p (sendSignaling host dst tlvs p).2 := by
  rw [Unicast.sendSignaling]
  split
  · exact .refl p
  · dsimp only
    split
    · exact ⟨⟨rfl, rfl, rfl, rfl⟩, List.prefix_append .., fun _ => rfl⟩
    · exact ⟨⟨rfl, rfl, rfl, rfl⟩, List.prefix_refl _, fun _ => rfl⟩

theorem renewWith (host : SendHost) (requests : List SignalingTlv)
    (dst : MasterAddress Address) (p : ClientPort Address) :
    Extends p (renewWith host requests dst p).2.2 := by
  rw [Unicast.renewWith]
  split
  · exact .refl p
  · split
    · exact .refl p
    · exact .sendSignaling ..

theorem peerRenew (host : SendHost) (p : ClientPort Address) :
    Extends p (unicastClientPeerRenew host p).2 := by
  rw [unicastClientPeerRenew]
  split
  · exact .refl p
  · next table htable =>
    split
    · exact .refl p
    · have hrenew := renewWith host [attachRequest p.logMinPdelayReqInterval pdelayResp
        p.unicastReqDuration] table.peerAddr p
      refine ⟨⟨hrenew.portIdentity, hrenew.transportType, hrenew.p2p, ?_⟩, hrenew.sent, ?_⟩
      · rw [ClientPort.fixed, ClientPort.fixed, htable]
        rfl
      · intro i
        rw [ClientPort.master, ClientPort.master, htable]
        rfl

/-- To serve an entry may send a request, and sends no more. -/
theorem serveMaster (host : SendHost) (master : MasterAddress Address)
    (p : ClientPort Address) : Extends p (serveMaster host master p).2.2 := by
  rw [Unicast.serveMaster]
  split
  · exact .sendSignaling ..
  · exact .renewWith ..
  · exact .sendSignaling ..
  · exact .renewWith ..

end Extends

/-- The requests to a master change no more of it than the time of the next. -/
theorem serveMaster_eq (host : SendHost) (master : MasterAddress Address)
    (p : ClientPort Address) :
    (serveMaster host master p).1 = master ∨
      (serveMaster host master p).1 = { master with renewalTmo := 0 } := by
  have hrenew : ∀ requests, (renewWith host requests master p).1 = master ∨
      (renewWith host requests master p).1 = { master with renewalTmo := 0 } := by
    intro requests
    rw [renewWith]
    split
    · exact Or.inl rfl
    · split
      · exact Or.inl rfl
      · exact Or.inr rfl
  rw [serveMaster]
  split
  · exact Or.inl rfl
  · exact hrenew _
  · exact Or.inl rfl
  · exact hrenew _

/-- What the request timer does at one place of the table. -/
inductive TimerAt (host : SendHost) (p : ClientPort Address) (a : MasterAddress Address) :
    MasterAddress Address → ClientPort Address → Prop
  | elsewhere {after : ClientPort Address} (hafter : Extends p after)
      (htype : a.type ≠ p.transportType) : TimerAt host p a a after
  | served {before after : ClientPort Address} (hbefore : Extends p before)
      (htype : a.type = p.transportType)
      (hafter : Extends (serveMaster host a before).2.2 after) :
      TimerAt host p a (serveMaster host a before).1 after

theorem TimerAt.extends {host : SendHost} {a' : MasterAddress Address}
    (hat : TimerAt host p a a' q) : Extends p q := by
  cases hat with
  | elsewhere hafter => exact hafter
  | served hbefore _ hafter => exact (hbefore.trans (.serveMaster ..)).trans hafter

theorem TimerAt.earlier {r : ClientPort Address} {host : SendHost}
    {a' : MasterAddress Address} (hbefore : Extends r p) (hat : TimerAt host p a a' q) :
    TimerAt host r a a' q := by
  cases hat with
  | elsewhere hafter htype =>
    exact .elsewhere (hbefore.trans hafter) (hbefore.transportType ▸ htype)
  | served hfirst htype hafter =>
    exact .served (hbefore.trans hfirst) (hbefore.transportType ▸ htype) hafter

/-- In the loop of the timer each entry has its turn. -/
theorem clientTimerLoop_at (hosts peerHosts : ℕ → SendHost) (k : ℕ)
    (addrs : List (MasterAddress Address)) (ok : Bool) (p : ClientPort Address) :
    Extends p (clientTimerLoop hosts peerHosts k addrs ok p).2.2 ∧
      (clientTimerLoop hosts peerHosts k addrs ok p).1.length = addrs.length ∧
      ∀ i a, addrs[i]? = some a →
        ∃ a', (clientTimerLoop hosts peerHosts k addrs ok p).1[i]? = some a' ∧
          TimerAt (hosts (k + i)) p a a'
            (clientTimerLoop hosts peerHosts k addrs ok p).2.2 := by
  induction addrs generalizing k ok p with
  | nil => exact ⟨.refl p, rfl, fun i a ha => absurd ha (by simp)⟩
  | cons master rest ih =>
    rw [clientTimerLoop]
    split
    · next htype =>
      obtain ⟨hafter, hlength, hrest⟩ := ih (k + 1) ok p
      refine ⟨hafter, congrArg (· + 1) hlength, fun i a ha => ?_⟩
      cases i with
      | zero =>
        rw [List.getElem?_cons_zero, Option.some.injEq] at ha
        subst ha
        exact ⟨master, rfl, .elsewhere hafter htype⟩
      | succ i =>
        obtain ⟨a', ha', hat⟩ := hrest i a ha
        rw [Nat.add_assoc, Nat.add_comm 1] at hat
        exact ⟨a', ha', hat⟩
    · next htype =>
      rw [not_not] at htype
      dsimp only
      have hserved := Extends.serveMaster (hosts k) master p
      generalize hafterMaster : serveMaster (hosts k) master p = served at hserved ⊢
      obtain ⟨master', ok', p'⟩ := served
      dsimp only at hserved ⊢
      have hpeer : Extends p'
          (if p'.p2p then (unicastClientPeerRenew (peerHosts k) p').2 else p') := by
        split
        · exact .peerRenew ..
        · exact .refl p'
      generalize (if p'.p2p then (unicastClientPeerRenew (peerHosts k) p').2 else p') = p''
        at hpeer ⊢
      obtain ⟨hafter, hlength, hrest⟩ := ih (k + 1) ok' p''
      refine ⟨(hserved.trans hpeer).trans hafter, congrArg (· + 1) hlength,
        fun i a ha => ?_⟩
      cases i with
      | zero =>
        rw [List.getElem?_cons_zero, Option.some.injEq] at ha
        subst ha
        refine ⟨master', rfl, ?_⟩
        have hfirst : (serveMaster (hosts (k + 0)) master p).1 = master' :=
          congrArg Prod.fst hafterMaster
        rw [← hfirst]
        refine .served (.refl p) htype ?_
        rw [Nat.add_zero, hafterMaster]
        exact hpeer.trans hafter
      | succ i =>
        obtain ⟨a', ha', hat⟩ := hrest i a ha
        rw [Nat.add_assoc, Nat.add_comm 1] at hat
        exact ⟨a', ha', hat.earlier (hserved.trans hpeer)⟩

/-! ## One event -/

/-- The cancel of a type of message takes effect. -/
structure Cancels (addreq : TransportType → Address → Address → Bool)
    (p : ClientPort Address) (i mtype : ℕ) (m : ReceivedSignaling Address)
    (messageTypeFlags : UInt8) : Prop where
  reaches : Reaches addreq p m i
  mtype : mtypeOf messageTypeFlags = mtype
  maintain : messageTypeFlags &&& cancelUnicastMaintainGrant = 0

/-- The grant of a type of message takes effect. -/
structure Grants (addreq : TransportType → Address → Address → Bool)
    (p : ClientPort Address) (i mtype : ℕ) (m : ReceivedSignaling Address)
    (g : GrantUnicastXmit) : Prop where
  reaches : Reaches addreq p m i
  mechanism : ¬(p.p2p ∧ (mtype = delayResp ∨ mtype = pdelayResp))
  mtype : mtypeOf g.messageType = mtype
  duration : g.durationField ≠ 0

/-- What an event makes of a master of the table. -/
inductive MasterTurn (addreq : TransportType → Address → Address → Bool)
    (p : ClientPort Address) (i : ℕ) (a : MasterAddress Address) :
    ClientEvent Address → MasterAddress Address → Prop
  | grantIgnored {clock m g} (hignored : ¬Grants addreq p i (mtypeOf g.messageType) m g) :
      MasterTurn addreq p i a (.grant clock m g) a
  | denied {clock m g} (hdenied : g.durationField = 0) :
      MasterTurn addreq p i a (.grant clock m g) { a with state := .wait }
  | granted {clock m g} (hgrants : Grants addreq p i (mtypeOf g.messageType) m g) :
      MasterTurn addreq p i a (.grant clock m g) (grantMaster clock m g a)
  | cancelIgnored {host m flags}
      (hignored : ∀ mtype, mtype = announce ∨ mtype = sync ∨ mtype = delayResp →
        ¬Cancels addreq p i mtype m flags) :
      MasterTurn addreq p i a (.cancel host m flags) a
  | cancelled {host m flags} (hcancels : Cancels addreq p i (mtypeOf flags) m flags) :
      MasterTurn addreq p i a (.cancel host m flags) (cancelMaster (mtypeOf flags) a)
  | timer {hosts peerHosts a'} {q : ClientPort Address}
      (hat : TimerAt (hosts i) p a a' q)
      (hsent : q.sent = (clientStep addreq p (.timer hosts peerHosts)).sent) :
      MasterTurn addreq p i a (.timer hosts peerHosts) a'
  | turned {parent} :
      MasterTurn addreq p i a (.stateChanged parent) { a with
        state := unicastFsm a.state
          (if a.portIdentity = parent then .selected else .unselected) }

theorem setMaster_master {table : MasterTable Address}
    (htable : q.unicastMasterTable.map MasterTable.addrs = some table.addrs) (j : ℕ)
    (f : MasterAddress Address → MasterAddress Address) (p : ClientPort Address) :
    (setMaster table j f p).master i =
      if i = j then (q.master i).map f else q.master i := by
  have hmaster : q.master i = table.addrs[i]? := by
    rw [ClientPort.master]
    cases hq : q.unicastMasterTable with
    | none => simp [hq] at htable
    | some table' =>
      rw [hq, Option.map_some, Option.some.injEq] at htable
      rw [Option.bind_some, htable]
  rw [setMaster, ClientPort.master, Option.bind_some, List.getElem?_modify, hmaster]
  by_cases hsame : i = j
  · simp [hsame]
  · simp [hsame, Ne.symm hsame]

theorem setMaster_same {table : MasterTable Address}
    (htable : p.unicastMasterTable = some table) (j : ℕ)
    {f : MasterAddress Address → MasterAddress Address}
    (hf : ∀ a, (f a).fixed = a.fixed) :
    (setMaster table j f p).fixed = p.fixed := by
  rw [setMaster, ClientPort.fixed, ClientPort.fixed, htable, Option.map_some,
    Option.map_some, Option.some.injEq]
  refine List.ext_getElem? fun k => ?_
  rw [List.getElem?_map, List.getElem?_map, List.getElem?_modify]
  by_cases hsame : j = k
  · simp [hsame, Function.comp_def, hf]
  · simp [hsame]

/-- The client is the same, what has been sent has been sent, and each master takes its
turn. -/
structure ClientTurn (addreq : TransportType → Address → Address → Bool)
    (p : ClientPort Address) (event : ClientEvent Address) (q : ClientPort Address) :
    Prop extends SameClient p q where
  sent : p.sent <+: q.sent
  master : ∀ i a, p.master i = some a →
    ∃ a', q.master i = some a' ∧ MasterTurn addreq p i a event a'

/-- Only the time of the renewal is set. -/
theorem setRenewal_eq (clock : Option Reading) (duration : ℕ)
    (master : MasterAddress Address) :
    ∃ tmo, setRenewal clock duration master = { master with renewalTmo := tmo } := by
  unfold setRenewal
  split
  · exact ⟨_, rfl⟩
  · dsimp only
    split
    · exact ⟨_, rfl⟩
    · exact ⟨_, rfl⟩

/-- What a grant does to a master but for the time of the next request: it may lead out of
WAIT or, when it is the last that was needed, to HAVE_SYDY. -/
theorem grantMaster_cases (clock : Option Reading) (m : ReceivedSignaling Address)
    (g : GrantUnicastXmit) (a : MasterAddress Address) :
    ∃ tmo, grantMaster clock m g a =
        { a with granted := a.granted ||| typeBit (mtypeOf g.messageType), renewalTmo := tmo } ∨
      a.state = .wait ∧ mtypeOf g.messageType = announce ∧ grantMaster clock m g a =
        { a with
          granted := a.granted ||| typeBit (mtypeOf g.messageType), renewalTmo := tmo
          state := .haveAnn, portIdentity := m.sourcePortIdentity } ∨
      sufficient { a with granted := a.granted ||| typeBit (mtypeOf g.messageType) } ∧
        a.state = .needSydy ∧ grantMaster clock m g a =
        { a with
          granted := a.granted ||| typeBit (mtypeOf g.messageType), renewalTmo := tmo
          state := .haveSydy } := by
  rw [grantMaster]
  dsimp only
  split
  · next hstate =>
    split
    · next hannounce =>
      obtain ⟨tmo, htmo⟩ := setRenewal_eq clock g.durationField.toNat { a with
        granted := a.granted ||| typeBit (mtypeOf g.messageType)
        state := unicastFsm a.state .grantAnn, portIdentity := m.sourcePortIdentity }
      refine ⟨tmo, Or.inr (Or.inl ⟨hstate, hannounce, htmo.trans ?_⟩)⟩
      rw [hstate]
      rfl
    · exact ⟨a.renewalTmo, Or.inl rfl⟩
  · exact ⟨a.renewalTmo, Or.inl rfl⟩
  · next hstate =>
    split
    · by_cases hsufficient :
        sufficient { a with granted := a.granted ||| typeBit (mtypeOf g.messageType) } = true
      · rw [if_pos hsufficient]
        obtain ⟨tmo, htmo⟩ := setRenewal_eq clock g.durationField.toNat { a with
          granted := a.granted ||| typeBit (mtypeOf g.messageType)
          state := unicastFsm a.state .grantSydy }
        refine ⟨tmo, Or.inr (Or.inr ⟨hsufficient, hstate, htmo.trans ?_⟩)⟩
        rw [hstate]
        rfl
      · rw [if_neg hsufficient]
        obtain ⟨tmo, htmo⟩ := setRenewal_eq clock g.durationField.toNat { a with
          granted := a.granted ||| typeBit (mtypeOf g.messageType) }
        exact ⟨tmo, Or.inl htmo⟩
    · exact ⟨a.renewalTmo, Or.inl rfl⟩
  · split
    · obtain ⟨tmo, htmo⟩ := setRenewal_eq clock g.durationField.toNat { a with
        granted := a.granted ||| typeBit (mtypeOf g.messageType) }
      exact ⟨tmo, Or.inl htmo⟩
    · exact ⟨a.renewalTmo, Or.inl rfl⟩

/-- A grant does not change what an entry is set up with. -/
theorem fixed_grantMaster (clock : Option Reading) (m : ReceivedSignaling Address)
    (g : GrantUnicastXmit) (a : MasterAddress Address) :
    (grantMaster clock m g a).fixed = a.fixed := by
  obtain ⟨tmo, hsame | ⟨-, -, hwait⟩ | ⟨-, -, hneed⟩⟩ := grantMaster_cases clock m g a
  · rw [hsame]
    rfl
  · rw [hwait]
    rfl
  · rw [hneed]
    rfl

theorem takeInterval_eq (g : GrantUnicastXmit) (ucma : MasterAddress Address)
    (p : ClientPort Address) :
    ∃ log interval, takeInterval g ucma p =
      { p with logMinDelayReqInterval := log, syncInterval := interval } := by
  rw [takeInterval]
  split
  · exact ⟨_, _, rfl⟩
  · split
    · exact ⟨_, _, rfl⟩
    · split
      · exact ⟨_, _, rfl⟩
      · exact ⟨_, _, rfl⟩

/-- The entry that is found is the first the message reaches. -/
theorem unicastClientOk_some {m : ReceivedSignaling Address} {table : MasterTable Address}
    {j : ℕ} (hok : unicastClientOk addreq m p = some (table, j)) :
    p.unicastMasterTable = some table ∧ Reaches addreq p m j ∧
      ∃ ucma, table.addrs[j]? = some ucma := by
  have hreaches : Reaches addreq p m j := by
    rw [Reaches, hok]
    rfl
  rw [unicastClientOk] at hok
  split at hok
  · simp at hok
  · next table' htable =>
    split at hok
    · simp at hok
    · obtain ⟨k, hk, hpair⟩ := Option.map_eq_some_iff.mp hok
      obtain ⟨rfl, rfl⟩ := Prod.mk.inj hpair
      obtain ⟨hlt, -⟩ := List.findIdx?_eq_some_iff_getElem.mp hk
      exact ⟨htable, hreaches, _, List.getElem?_eq_getElem hlt⟩

/-- Where none is found, the message reaches none. -/
theorem not_reaches {m : ReceivedSignaling Address}
    (hok : unicastClientOk addreq m p = none) : ¬Reaches addreq p m i := by
  rw [Reaches, hok]
  simp

/-- No message reaches two entries. -/
theorem Reaches.eq {m : ReceivedSignaling Address} {j : ℕ}
    (hreaches : Reaches addreq p m i) (hother : Reaches addreq p m j) : i = j := by
  rw [Reaches] at hreaches hother
  exact Option.some.inj (hreaches.symm.trans hother)

/-- What a grant does to each entry, -/
theorem grant_turn (clock : Option Reading) (m : ReceivedSignaling Address)
    (g : GrantUnicastXmit) (p : ClientPort Address) :
    ClientTurn addreq p (.grant clock m g) (unicastClientGrant addreq clock m g p) := by
  have hignored : (∀ i, ¬Grants addreq p i (mtypeOf g.messageType) m g) →
      ClientTurn addreq p (.grant clock m g) p := fun hnot =>
    ⟨.refl p, List.prefix_refl _, fun i a ha => ⟨a, ha, .grantIgnored (hnot i)⟩⟩
  rw [unicastClientGrant]
  cases hok : unicastClientOk addreq m p with
  | none => exact hignored fun i hgrants => not_reaches hok hgrants.reaches
  | some found =>
    obtain ⟨table, j⟩ := found
    obtain ⟨htable, hreaches, ucma, hucma⟩ := unicastClientOk_some hok
    have haddrs : p.unicastMasterTable.map MasterTable.addrs = some table.addrs := by
      rw [htable]
      rfl
    dsimp only
    split
    · next hzero =>
      split
      · refine ⟨⟨rfl, rfl, rfl, setMaster_same htable j fun _ => rfl⟩, List.prefix_refl _,
          fun i a ha => ?_⟩
        rw [setMaster_master haddrs, ha]
        split
        · exact ⟨_, rfl, .denied hzero⟩
        · exact ⟨a, rfl, .grantIgnored fun hgrants => hgrants.duration hzero⟩
      · exact hignored fun i hgrants => hgrants.duration hzero
    · next hduration =>
      split
      · next hpeer =>
        exact hignored fun i hgrants => hgrants.mechanism ⟨hpeer.1, Or.inl hpeer.2⟩
      · split
        · next hpeer =>
          refine ⟨⟨rfl, rfl, rfl, ?_⟩, List.prefix_refl _, fun i a ha => ⟨a, ?_,
            .grantIgnored fun hgrants => hgrants.mechanism ⟨hpeer.1, Or.inr hpeer.2⟩⟩⟩
          · rw [ClientPort.fixed, ClientPort.fixed, htable]
            rfl
          · rw [← ha, ClientPort.master, ClientPort.master, htable]
            rfl
        · next hdelay hpeer =>
          obtain ⟨log, interval, htake⟩ := takeInterval_eq g ucma p
          rw [hucma]
          dsimp only
          rw [htake]
          refine ⟨⟨rfl, rfl, rfl, ?_⟩, List.prefix_refl _, fun i a ha => ?_⟩
          · exact setMaster_same htable j (fixed_grantMaster clock m g)
          · rw [setMaster_master haddrs, ha]
            split
            · next hsame =>
              subst hsame
              refine ⟨_, rfl, .granted ⟨hreaches, ?_, rfl, hduration⟩⟩
              rintro ⟨hp2p, hmtype | hmtype⟩
              · exact hdelay ⟨hp2p, hmtype⟩
              · exact hpeer ⟨hp2p, hmtype⟩
            · next hother =>
              exact ⟨a, rfl, .grantIgnored fun hgrants =>
                hother (hgrants.reaches.eq hreaches)⟩

/-- a cancellation, -/
theorem cancel_turn (host : SendHost) (m : ReceivedSignaling Address) (flags : UInt8)
    (p : ClientPort Address) :
    ClientTurn addreq p (.cancel host m flags)
      (unicastClientCancel addreq host m flags p).2 := by
  have hignored : (∀ i mtype, mtype = announce ∨ mtype = sync ∨ mtype = delayResp →
        ¬Cancels addreq p i mtype m flags) →
      ClientTurn addreq p (.cancel host m flags) p := fun hnot =>
    ⟨.refl p, List.prefix_refl _, fun i a ha => ⟨a, ha, .cancelIgnored (hnot i)⟩⟩
  rw [unicastClientCancel]
  cases hok : unicastClientOk addreq m p with
  | none => exact hignored fun i _ _ hcancels => not_reaches hok hcancels.reaches
  | some found =>
    obtain ⟨table, j⟩ := found
    obtain ⟨htable, hreaches, ucma, hucma⟩ := unicastClientOk_some hok
    have haddrs : p.unicastMasterTable.map MasterTable.addrs = some table.addrs := by
      rw [htable]
      rfl
    dsimp only
    split
    · next hother =>
      exact hignored fun i mtype hmtype hcancels => hother (hcancels.mtype ▸ hmtype)
    · split
      · next hmaintain =>
        exact hignored fun i _ _ hcancels => hmaintain hcancels.maintain
      · next hmaintain =>
        rw [not_not] at hmaintain
        rw [hucma]
        dsimp only
        have hsends := Extends.sendSignaling host ucma [.ack flags]
          (setMaster table j (cancelMaster (mtypeOf flags)) p)
        have hsame : SameClient p (setMaster table j (cancelMaster (mtypeOf flags)) p) :=
          ⟨rfl, rfl, rfl, setMaster_same htable j fun _ => rfl⟩
        refine ⟨hsame.trans hsends.toSameClient, hsends.sent, fun i a ha => ?_⟩
        rw [hsends.master, setMaster_master haddrs, ha]
        split
        · next hsame =>
          subst hsame
          exact ⟨_, rfl, .cancelled ⟨hreaches, rfl, hmaintain⟩⟩
        · next hother =>
          exact ⟨a, rfl, .cancelIgnored fun _ _ hcancels =>
            hother (hcancels.reaches.eq hreaches)⟩

/-- another master, -/
theorem stateChanged_turn (parent : PortIdentity) (p : ClientPort Address) :
    ClientTurn addreq p (.stateChanged parent) (unicastClientStateChanged parent p) := by
  rw [unicastClientStateChanged]
  cases htable : p.unicastMasterTable with
  | none =>
    refine ⟨.refl p, List.prefix_refl _, fun i a ha => ?_⟩
    rw [ClientPort.master, htable] at ha
    exact absurd ha (by simp)
  | some table =>
    refine ⟨⟨rfl, rfl, rfl, ?_⟩, List.prefix_refl _, fun i a ha => ?_⟩
    · rw [ClientPort.fixed, ClientPort.fixed, htable, Option.map_some, Option.map_some,
        List.map_map]
      rfl
    · rw [ClientPort.master, htable, Option.bind_some] at ha
      refine ⟨_, ?_, .turned⟩
      rw [ClientPort.master, Option.bind_some, List.getElem?_map, ha]
      rfl

theorem fixed_serveMaster (host : SendHost) (a : MasterAddress Address)
    (p : ClientPort Address) : (serveMaster host a p).1.fixed = a.fixed := by
  rcases serveMaster_eq host a p with hsame | hrenewed
  · rw [hsame]
  · rw [hrenewed]
    rfl

theorem TimerAt.fixed {host : SendHost} {a' : MasterAddress Address}
    (hat : TimerAt host p a a' q) : a'.fixed = a.fixed := by
  cases hat with
  | elsewhere => rfl
  | served => exact fixed_serveMaster ..

/-- and the timer. -/
theorem timer_turn (hosts peerHosts : ℕ → SendHost) (p : ClientPort Address) :
    ClientTurn addreq p (.timer hosts peerHosts)
      (unicastClientTimer hosts peerHosts p).2 := by
  cases htable : p.unicastMasterTable with
  | none =>
    rw [unicastClientTimer, htable]
    refine ⟨.refl p, List.prefix_refl _, fun i a ha => ?_⟩
    rw [ClientPort.master, htable] at ha
    exact absurd ha (by simp)
  | some table =>
    obtain ⟨hextends, hlength, hat⟩ :=
      clientTimerLoop_at hosts peerHosts 0 table.addrs true p
    have htimer : (unicastClientTimer hosts peerHosts p).2 =
        { (clientTimerLoop hosts peerHosts 0 table.addrs true p).2.2 with
          unicastMasterTable :=
            (clientTimerLoop hosts peerHosts 0 table.addrs true
              p).2.2.unicastMasterTable.map fun table' => { table' with
                addrs := (clientTimerLoop hosts peerHosts 0 table.addrs true p).1 }
          queryTimer := some table.logQueryInterval } := by
      rw [unicastClientTimer, htable]
    have hsent : (clientTimerLoop hosts peerHosts 0 table.addrs true p).2.2.sent =
        (clientStep addreq p (.timer hosts peerHosts)).sent := by
      rw [clientStep, htimer]
    rw [htimer]
    generalize clientTimerLoop hosts peerHosts 0 table.addrs true p = done
      at hextends hlength hat hsent ⊢
    obtain ⟨addrs, ok, q⟩ := done
    dsimp only at hextends hlength hat hsent ⊢
    obtain ⟨table', htable'⟩ : ∃ table', q.unicastMasterTable = some table' := by
      have hfixed := hextends.fixed
      rw [ClientPort.fixed, ClientPort.fixed, htable] at hfixed
      cases hq : q.unicastMasterTable with
      | none => simp [hq] at hfixed
      | some table' => exact ⟨table', rfl⟩
    refine ⟨⟨hextends.portIdentity, hextends.transportType, hextends.p2p, ?_⟩,
      hextends.sent, fun i a ha => ?_⟩
    · rw [ClientPort.fixed, ClientPort.fixed, htable, htable', Option.map_some,
        Option.map_some, Option.map_some, Option.some.injEq]
      refine List.ext_getElem? fun k => ?_
      rw [List.getElem?_map, List.getElem?_map]
      cases hk : table.addrs[k]? with
      | none =>
        rw [List.getElem?_eq_none_iff.mpr (hlength ▸ List.getElem?_eq_none_iff.mp hk)]
      | some a =>
        obtain ⟨a', ha', hserved⟩ := hat k a hk
        rw [ha', Option.map_some, Option.map_some, hserved.fixed]
    · rw [ClientPort.master, htable, Option.bind_some] at ha
      obtain ⟨a', ha', hserved⟩ := hat i a ha
      rw [Nat.zero_add] at hserved
      refine ⟨a', ?_, .timer hserved hsent⟩
      rw [ClientPort.master, htable', Option.map_some, Option.bind_some]
      exact ha'

/-- Every event is a turn of each entry. -/
theorem clientStep_turn (event : ClientEvent Address) (p : ClientPort Address) :
    ClientTurn addreq p event (clientStep addreq p event) := by
  cases event with
  | grant clock m g => exact grant_turn clock m g p
  | cancel host m flags => exact cancel_turn host m flags p
  | timer hosts peerHosts => exact timer_turn hosts peerHosts p
  | stateChanged parent => exact stateChanged_turn parent p

/-- No run changes what a port is set up with. -/
theorem run_sameClient (events : List (ClientEvent Address)) (p : ClientPort Address) :
    SameClient p (Stepping.run (clientStep addreq) events p) :=
  Stepping.run_related SameClient.refl SameClient.trans
    (fun p event => (clientStep_turn event p).toSameClient) events p

end LinuxPtp.Unicast
