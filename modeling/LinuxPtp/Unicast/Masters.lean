import LinuxPtp.Unicast.Turns

/-!
# What a client holds of its masters

A master leaves WAIT with a grant of Announce messages, and gets to HAVE_SYDY only when
the messages that the client needs have been granted, too.  A grant counts until the
master cancels it.
-/

namespace LinuxPtp.Unicast

open Bmc Clock Port Wire

variable {Address : Type} {addreq : TransportType → Address → Address → Bool}
variable {p : ClientPort Address} {i : ℕ} {a : MasterAddress Address}
variable {event : ClientEvent Address}

/-! ## Bits -/

theorem getLsbD_typeBit {mtype k : ℕ} (hk : k < 32) :
    (typeBit mtype).getLsbD k = decide (k = mtype) := by
  rw [typeBit, BitVec.getLsbD_shiftLeft]
  by_cases hlt : k < mtype
  · simp [hlt, hlt.ne]
  · by_cases hsame : k = mtype
    · simp [hsame]
      omega
    · simp [hlt, hsame, hk]
      omega

/-- A master suffices that has granted all that is needed. -/
theorem sufficient_iff {a : MasterAddress Address} :
    sufficient a ↔ ∀ k < 32, a.sydymsk.getLsbD k → a.granted.getLsbD k := by
  rw [sufficient, decide_eq_true_eq]
  constructor
  · intro hmask k _ hbit
    rw [← hmask, BitVec.getLsbD_and, Bool.and_eq_true] at hbit
    exact hbit.1
  · intro hbits
    refine BitVec.eq_of_getLsbD_eq fun k hk => ?_
    rw [BitVec.getLsbD_and]
    cases hbit : a.sydymsk.getLsbD k with
    | false => rw [Bool.and_false]
    | true => rw [hbits k hk hbit, Bool.and_true]

/-! ## Entitlement -/

/-- Messages of the type have been granted, and not cancelled since. -/
def Holds (addreq : TransportType → Address → Address → Bool) (p : ClientPort Address)
    (events : List (ClientEvent Address)) (i mtype : ℕ) : Prop :=
  ∃ before clock m g after, events = before ++ .grant clock m g :: after ∧
    Grants addreq p i mtype m g ∧
    ∀ host m flags, .cancel host m flags ∈ after → ¬Cancels addreq p i mtype m flags

theorem Holds.append {events : List (ClientEvent Address)} {mtype : ℕ}
    (hholds : Holds addreq p events i mtype)
    (hevent : ∀ host m flags, event = .cancel host m flags →
      ¬Cancels addreq p i mtype m flags) :
    Holds addreq p (events ++ [event]) i mtype := by
  obtain ⟨before, clock, m, g, after, rfl, hgrants, hafter⟩ := hholds
  refine ⟨before, clock, m, g, after ++ [event], by simp, hgrants, ?_⟩
  intro host m' flags hmem
  rcases List.mem_append.mp hmem with hmem | hmem
  · exact hafter host m' flags hmem
  · exact hevent host m' flags (List.mem_singleton.mp hmem).symm

/-- What the client may expect of a master of its table. -/
structure Entitled (addreq : TransportType → Address → Address → Bool)
    (p : ClientPort Address) (events : List (ClientEvent Address)) (i : ℕ)
    (a : MasterAddress Address) : Prop where
  announce : a.state ≠ .wait → Holds addreq p events i announce
  identity : a.state ≠ .wait → ∃ clock m g, .grant clock m g ∈ events ∧
    Grants addreq p i Unicast.announce m g ∧ a.portIdentity = m.sourcePortIdentity
  sync : a.state = .haveSydy → Holds addreq p events i sync
  delayResp : a.state = .haveSydy → p.p2p = false → Holds addreq p events i delayResp

/-- The bits of a master tell what it has granted. -/
structure Tallies (addreq : TransportType → Address → Address → Bool)
    (p : ClientPort Address) (events : List (ClientEvent Address)) (i : ℕ)
    (a : MasterAddress Address) : Prop where
  held : ∀ mtype, mtype = announce ∨ mtype = sync ∨ mtype = delayResp →
    a.granted.getLsbD mtype → Holds addreq p events i mtype
  announced : a.state ≠ .wait → a.granted.getLsbD announce
  identity : a.state ≠ .wait → ∃ clock m g, .grant clock m g ∈ events ∧
    Grants addreq p i announce m g ∧ a.portIdentity = m.sourcePortIdentity
  sufficient : a.state = .haveSydy → sufficient a
  sydymsk : a.sydymsk = if p.p2p then p2pSydyMask else e2eSydyMask

/-- An entry that tallies is entitled to its state. -/
theorem Tallies.entitled {events : List (ClientEvent Address)}
    (htallies : Tallies addreq p events i a) : Entitled addreq p events i a where
  announce hstate := htallies.held _ (Or.inl rfl) (htallies.announced hstate)
  identity := htallies.identity
  sync hstate := by
    refine htallies.held _ (Or.inr (Or.inl rfl))
      (sufficient_iff.mp (htallies.sufficient hstate) _ (by decide) ?_)
    rw [htallies.sydymsk]
    split <;> decide
  delayResp hstate hmechanism := by
    refine htallies.held _ (Or.inr (Or.inr rfl))
      (sufficient_iff.mp (htallies.sufficient hstate) _ (by decide) ?_)
    rw [htallies.sydymsk, hmechanism]
    decide

section

variable {r : ClientPort Address} {events : List (ClientEvent Address)}
variable {a' : MasterAddress Address}

theorem SameClient.grants (hsame : SameClient r p) {mtype : ℕ} {m : ReceivedSignaling Address}
    {g : GrantUnicastXmit} :
    Grants addreq p i mtype m g ↔ Grants addreq r i mtype m g := by
  constructor
  · rintro ⟨hreaches, hmechanism, hmtype, hduration⟩
    exact ⟨(hsame.reaches m i).mp hreaches, hsame.p2p ▸ hmechanism, hmtype, hduration⟩
  · rintro ⟨hreaches, hmechanism, hmtype, hduration⟩
    exact ⟨(hsame.reaches m i).mpr hreaches, hsame.p2p.symm ▸ hmechanism, hmtype, hduration⟩

theorem SameClient.cancels (hsame : SameClient r p) {mtype : ℕ}
    {m : ReceivedSignaling Address} {flags : UInt8} :
    Cancels addreq p i mtype m flags ↔ Cancels addreq r i mtype m flags := by
  constructor
  · rintro ⟨hreaches, hmtype, hmaintain⟩
    exact ⟨(hsame.reaches m i).mp hreaches, hmtype, hmaintain⟩
  · rintro ⟨hreaches, hmtype, hmaintain⟩
    exact ⟨(hsame.reaches m i).mpr hreaches, hmtype, hmaintain⟩

/-- A grant counts until it is cancelled. -/
theorem Tallies.later (htallies : Tallies addreq r events i a)
    (hevent : ∀ mtype, mtype = announce ∨ mtype = sync ∨ mtype = delayResp →
      ∀ host m flags, event = .cancel host m flags → ¬Cancels addreq r i mtype m flags) :
    Tallies addreq r (events ++ [event]) i a where
  held mtype hmtype hbit := (htallies.held mtype hmtype hbit).append (hevent mtype hmtype)
  announced := htallies.announced
  identity hstate := by
    obtain ⟨clock, m, g, hmem, hgrants⟩ := htallies.identity hstate
    exact ⟨clock, m, g, List.mem_append_left _ hmem, hgrants⟩
  sufficient := htallies.sufficient
  sydymsk := htallies.sydymsk

/-- The bits tell the same in a state that needs no more of them. -/
theorem Tallies.restate (htallies : Tallies addreq r events i a) {state : UnicastState}
    {tmo : ℤ} (hwait : state ≠ .wait → a.state ≠ .wait)
    (hsydy : state = .haveSydy → a.state = .haveSydy) :
    Tallies addreq r events i { a with state := state, renewalTmo := tmo } where
  held := htallies.held
  announced hstate := htallies.announced (hwait hstate)
  identity hstate := htallies.identity (hwait hstate)
  sufficient hstate := htallies.sufficient (hsydy hstate)
  sydymsk := htallies.sydymsk

theorem getLsbD_granted {granted : BitVec 32} {mtype k : ℕ} (hk : k < 32) :
    (granted ||| typeBit mtype).getLsbD k ↔ granted.getLsbD k ∨ k = mtype := by
  rw [BitVec.getLsbD_or, getLsbD_typeBit hk, Bool.or_eq_true, decide_eq_true_eq]

theorem sufficient_granted {mtype : ℕ} (hsufficient : sufficient a) :
    sufficient { a with granted := a.granted ||| typeBit mtype } :=
  sufficient_iff.mpr fun k hk hbit =>
    (getLsbD_granted hk).mpr (Or.inl (sufficient_iff.mp hsufficient k hk hbit))

theorem servedType_lt {mtype : ℕ}
    (hmtype : mtype = announce ∨ mtype = sync ∨ mtype = delayResp) : mtype < 32 := by
  rcases hmtype with rfl | rfl | rfl <;> decide

/-- One more grant counts. -/
theorem Tallies.granted (htallies : Tallies addreq r events i a) {clock : Option Reading}
    {m : ReceivedSignaling Address} {g : GrantUnicastXmit}
    (hgrants : Grants addreq r i (mtypeOf g.messageType) m g) :
    Tallies addreq r (events ++ [.grant clock m g]) i (grantMaster clock m g a) := by
  have hlater : Tallies addreq r (events ++ [.grant clock m g]) i a :=
    htallies.later fun _ _ _ _ _ hcancel => absurd hcancel (by simp)
  have hheld : ∀ mtype, mtype = announce ∨ mtype = sync ∨ mtype = delayResp →
      (a.granted ||| typeBit (mtypeOf g.messageType)).getLsbD mtype →
      Holds addreq r (events ++ [.grant clock m g]) i mtype := by
    intro mtype hmtype hbit
    rcases (getLsbD_granted (servedType_lt hmtype)).mp hbit with hbefore | hnow
    · exact hlater.held mtype hmtype hbefore
    · exact ⟨events, clock, m, g, [], rfl, hnow ▸ hgrants, by simp⟩
  have hannounced : a.state ≠ .wait →
      (a.granted ||| typeBit (mtypeOf g.messageType)).getLsbD announce := fun hstate =>
    (getLsbD_granted (by decide)).mpr (Or.inl (htallies.announced hstate))
  obtain ⟨tmo, hsame | ⟨-, hmtype, hwait⟩ | ⟨hsufficient, hstate, hneed⟩⟩ :=
    grantMaster_cases clock m g a
  · rw [hsame]
    exact ⟨hheld, hannounced, hlater.identity,
      fun hstate => sufficient_granted (htallies.sufficient hstate), htallies.sydymsk⟩
  · rw [hwait]
    refine ⟨hheld, fun _ => (getLsbD_granted (by decide)).mpr (Or.inr hmtype.symm),
      fun _ => ⟨clock, m, g, by simp, hmtype ▸ hgrants, rfl⟩,
      fun hstate => absurd hstate (by simp), htallies.sydymsk⟩
  · rw [hneed]
    have hleft : a.state ≠ .wait := by
      rw [hstate]
      decide
    exact ⟨hheld, fun _ => hannounced hleft, fun _ => hlater.identity hleft,
      fun _ => hsufficient, htallies.sydymsk⟩

theorem unicastFsm_cancel (state : UnicastState) : unicastFsm state .cancel = .wait := by
  cases state <;> rfl

/-- A cancelled grant counts no longer. -/
theorem Tallies.cancelled (htallies : Tallies addreq r events i a) {host : SendHost}
    {m : ReceivedSignaling Address} {flags : UInt8} :
    Tallies addreq r (events ++ [.cancel host m flags]) i
      (cancelMaster (mtypeOf flags) a) where
  held mtype hmtype hbit := by
    rw [cancelMaster, BitVec.getLsbD_and, Bool.and_eq_true] at hbit
    refine (htallies.held mtype hmtype hbit.1).append fun host' m' flags' heq hcancels => ?_
    obtain ⟨-, -, rfl⟩ := ClientEvent.cancel.inj heq
    have hother := hbit.2
    rw [BitVec.getLsbD_not, getLsbD_typeBit (servedType_lt hmtype), hcancels.mtype] at hother
    simp at hother
  announced hstate := absurd (unicastFsm_cancel a.state) hstate
  identity hstate := absurd (unicastFsm_cancel a.state) hstate
  sufficient hstate := by
    rw [cancelMaster, unicastFsm_cancel] at hstate
    exact absurd hstate (by simp)
  sydymsk := htallies.sydymsk

/-- The election of a master may end what was got to, but gets to nothing itself. -/
theorem unicastFsm_elected {state : UnicastState} {event : UnicastEvent}
    (hevent : event = .selected ∨ event = .unselected) :
    (unicastFsm state event ≠ .wait → state ≠ .wait) ∧
      (unicastFsm state event = .haveSydy → state = .haveSydy) := by
  rcases hevent with rfl | rfl <;> cases state <;> decide

/-- Every turn keeps the tally. -/
theorem Tallies.turn (hsame : SameClient r p) (htallies : Tallies addreq r events i a)
    (hturn : MasterTurn addreq p i a event a') :
    Tallies addreq r (events ++ [event]) i a' := by
  cases hturn with
  | grantIgnored => exact htallies.later fun _ _ _ _ _ hcancel => absurd hcancel (by simp)
  | denied =>
    exact (htallies.later fun _ _ _ _ _ hcancel => absurd hcancel (by simp)).restate
      (fun hstate => absurd rfl hstate) (fun hstate => absurd hstate (by decide))
  | granted hgrants => exact htallies.granted (hsame.grants.mp hgrants)
  | cancelIgnored hignored =>
    refine htallies.later fun mtype hmtype host' m' flags' heq hcancels => ?_
    obtain ⟨rfl, rfl, rfl⟩ := ClientEvent.cancel.inj heq
    exact hignored mtype hmtype (hsame.cancels.mpr hcancels)
  | cancelled => exact htallies.cancelled
  | timer hat =>
    have hlater : ∀ hosts peerHosts, Tallies addreq r (events ++ [.timer hosts peerHosts]) i a :=
      fun _ _ => htallies.later fun _ _ _ _ _ hcancel => absurd hcancel (by simp)
    cases hat with
    | elsewhere => exact hlater _ _
    | @served before _ _ _ _ =>
      rcases serveMaster_eq _ a before with hkept | hrenewed
      · rw [hkept]
        exact hlater _ _
      · rw [hrenewed]
        exact (hlater _ _).restate id id
  | @turned parent =>
    have helected := @unicastFsm_elected a.state
      (if a.portIdentity = parent then .selected else .unselected) (by split <;> simp)
    exact (htallies.later fun _ _ _ _ _ hcancel => absurd hcancel (by simp)).restate
      helected.1 helected.2

end

/-! ## Runs -/

/-- A table as the configuration has it before a port claims it. -/
structure Fresh (table : MasterTable Address) : Prop where
  state : ∀ a ∈ table.addrs, a.state = .wait
  granted : ∀ a ∈ table.addrs, a.granted = 0

/-- A fresh table has been granted nothing. -/
theorem claimTable_tallies {portNumber : ℕ} {tableId reqDuration : ℤ}
    {tables : List (MasterTable Address)} {peerAddress : Option Address}
    (hfresh : ∀ table ∈ tables, Fresh table) (hnone : p.unicastMasterTable = none)
    (hclaim : (unicastClientClaimTable portNumber tableId reqDuration tables peerAddress
      p).2.master i = some a) :
    Tallies addreq (unicastClientClaimTable portNumber tableId reqDuration tables
      peerAddress p).2 [] i a := by
  have hunclaimed : p.master i ≠ some a := by
    rw [ClientPort.master, hnone]
    simp
  generalize hdone : unicastClientClaimTable portNumber tableId reqDuration tables
    peerAddress p = done at hclaim ⊢
  rw [unicastClientClaimTable] at hdone
  split at hdone
  · subst hdone
    exact absurd hclaim hunclaimed
  · split at hdone
    · subst hdone
      exact absurd hclaim hunclaimed
    · next table hfind =>
      split at hdone
      · subst hdone
        exact absurd hclaim hunclaimed
      · split at hdone
        · subst hdone
          exact absurd hclaim hunclaimed
        · subst hdone
          have htable := hfresh table (List.mem_of_find?_eq_some hfind)
          rw [ClientPort.master, Option.bind_some, List.getElem?_map] at hclaim
          obtain ⟨b, hb, rfl⟩ := Option.map_eq_some_iff.mp hclaim
          have hstate : b.state = .wait := htable.state b (List.mem_of_getElem? hb)
          have hgranted : b.granted = 0 := htable.granted b (List.mem_of_getElem? hb)
          refine ⟨fun mtype _ hbit => ?_, fun hleft => absurd hstate hleft,
            fun hleft => absurd hstate hleft, fun hsydy => ?_, rfl⟩
          · rw [hgranted] at hbit
            simp at hbit
          · rw [hstate] at hsydy
            exact absurd hsydy (by simp)

/-- After every run all entries tally with the messages that came. -/
theorem run_tallies {start : ClientPort Address}
    (hstart : ∀ i a, start.master i = some a → Tallies addreq start [] i a)
    (events : List (ClientEvent Address)) :
    ∀ i a, (Stepping.run (clientStep addreq) events start).master i = some a →
      Tallies addreq start events i a := by
  induction events using List.reverseRecOn with
  | nil => exact hstart
  | append_singleton events event ih =>
    intro i a' ha'
    rw [Stepping.run_append, Stepping.run_cons, Stepping.run_nil] at ha'
    have hturn : ClientTurn addreq _ event _ :=
      clientStep_turn event (Stepping.run (clientStep addreq) events start)
    obtain ⟨a, ha⟩ : ∃ a,
        (Stepping.run (clientStep addreq) events start).master i = some a := by
      have hsame := hturn.toSameClient.master (i := i)
      rw [ha', Option.map_some] at hsame
      obtain ⟨a, ha, -⟩ := Option.map_eq_some_iff.mp hsame.symm
      exact ⟨a, ha⟩
    obtain ⟨a'', ha'', hmaster⟩ := hturn.master i a ha
    obtain rfl := Option.some.inj (ha'.symm.trans ha'')
    exact (ih i a ha).turn (run_sameClient events start) hmaster

/-- After any events, a master that has left WAIT has granted Announce messages, those of
its port identity, and one in HAVE_SYDY also Sync messages and, unless the mechanism is
P2P, Delay_Resp messages; none of these has been cancelled since it was granted. -/
theorem run_entitled {tables : List (MasterTable Address)}
    (hfresh : ∀ table ∈ tables, Fresh table) (hnone : p.unicastMasterTable = none)
    (portNumber : ℕ) (tableId reqDuration : ℤ) (peerAddress : Option Address)
    (events : List (ClientEvent Address)) :
    let start :=
      (unicastClientClaimTable portNumber tableId reqDuration tables peerAddress p).2
    ∀ i a, (Stepping.run (clientStep addreq) events start).master i = some a →
      Entitled addreq start events i a := fun i a ha =>
  (run_tallies (fun _ _ hmaster => claimTable_tallies hfresh hnone hmaster)
    events i a ha).entitled

def soleTable : MasterTable ℕ where
  addrs := [⟨wildcard, .udpIpv4, .wait, 5, 0, 0, 0⟩]
  logQueryInterval := 0
  tableIndex := 1
  port := 0
  peerAddr := ⟨wildcard, .udpIpv4, .wait, 0, 0, 0, 0⟩
  peerName := false

def soleClient : ClientPort ℕ where
  portIdentity := ⟨⟨Vector.replicate 8 1⟩, 1⟩
  transportType := .udpIpv4
  p2p := false
  logAnnounceInterval := 1
  logSyncInterval := 0
  logMinDelayReqInterval := 0
  logMinPdelayReqInterval := 0
  unicastReqDuration := 60
  unicastMasterTable := none
  seqnumSignaling := 0
  queryTimer := none
  syncInterval := none
  sent := []

def soleAnswer : ReceivedSignaling ℕ := ⟨⟨⟨Vector.replicate 8 2⟩, 1⟩, wildcard, 5⟩

/-- The master is followed once it has granted all that the client needs. -/
theorem run_entitled_followed :
    let start := (unicastClientClaimTable 1 1 60 [soleTable] none soleClient).2
    let events := [.grant none soleAnswer ⟨0xB0, 1, 60⟩,
      .stateChanged soleAnswer.sourcePortIdentity,
      .grant none soleAnswer ⟨0x00, 0, 60⟩, .grant none soleAnswer ⟨0x90, 0, 60⟩]
    ∃ a, (Stepping.run (clientStep fun _ x y => decide (x = y)) events start).master 0 =
        some a ∧ a.state = .haveSydy ∧
      Entitled (fun _ x y => decide (x = y)) start events 0 a := by
  intro start events
  have hstate : ((Stepping.run (clientStep fun _ x y => decide (x = y)) events
      start).master 0).map MasterAddress.state = some .haveSydy := by decide +kernel
  obtain ⟨a, ha, hsydy⟩ := Option.map_eq_some_iff.mp hstate
  have hfresh : ∀ table ∈ [soleTable], Fresh table := by
    rintro table hmem
    obtain rfl := List.mem_singleton.mp hmem
    exact ⟨by decide, by decide⟩
  exact ⟨a, ha, hsydy, run_entitled hfresh rfl 1 1 60 none events 0 a ha⟩

end LinuxPtp.Unicast
