import LinuxPtp.Unicast.Masters

/-!
# Renewals in time

With a grant of a service that it uses, the client sets a time by which it asks the master
again: after three quarters of the duration, or before that for the sake of another grant.
The time only moves forward once the master has been asked.
-/

namespace LinuxPtp.Unicast

open Bmc Clock Port Wire

variable {Address : Type} {addreq : TransportType → Address → Address → Bool}
variable {p q : ClientPort Address} {i : ℕ} {a a' : MasterAddress Address}
variable {event : ClientEvent Address}

def OnlyRequests (tlvs : List SignalingTlv) : Prop :=
  tlvs ≠ [] ∧ ∀ tlv ∈ tlvs, ∃ req, tlv = .request req

structure Asks (a : MasterAddress Address) (msg : Signaling Address) : Prop where
  address : msg.address = a.address
  requests : OnlyRequests msg.tlvs

/-- The master has been asked after what had been sent before. -/
def Asked (a : MasterAddress Address) (sent : ℕ) (q : ClientPort Address) : Prop :=
  ∃ msg ∈ q.sent.drop sent, Asks a msg

theorem Asked.later {sent : ℕ} (hasked : Asked a sent p) (hsent : p.sent <+: q.sent) :
    Asked a sent q := by
  obtain ⟨msg, hmem, hasks⟩ := hasked
  exact ⟨msg, (hsent.drop sent).subset hmem, hasks⟩

theorem Asked.readdress {sent : ℕ} (hasked : Asked a sent p)
    (haddress : a'.address = a.address) : Asked a' sent p := by
  obtain ⟨msg, hmem, hasks⟩ := hasked
  exact ⟨msg, hmem, hasks.address.trans haddress.symm, hasks.requests⟩

/-! ## Requests -/

/-- Nothing is missing for a message on its way to the transport. -/
structure SendHost.Works (host : SendHost) : Prop where
  message : host.message = true
  tlv : ∀ k, host.tlv k = true

/-- A message that is sent asks the master. -/
theorem sendSignaling_asked {host : SendHost} (hworks : host.Works)
    {tlvs : List SignalingTlv} (hrequests : OnlyRequests tlvs) {sent : ℕ}
    (hsent : sent ≤ p.sent.length) : Asked a sent (sendSignaling host a tlvs p).2 := by
  refine ⟨⟨p.seqnumSignaling, a.address, a.portIdentity, tlvs⟩, ?_, rfl, hrequests⟩
  rw [sendSignaling, hworks.message, Bool.not_true, if_neg Bool.false_ne_true]
  dsimp only
  rw [if_pos (List.all_eq_true.mpr fun k _ => hworks.tlv k), List.drop_append_of_le_length hsent]
  exact List.mem_append_right _ (List.mem_singleton_self _)

theorem onlyRequests_announce : OnlyRequests [announceRequest p] :=
  ⟨by simp, by simp [announceRequest, attachRequest]⟩

theorem onlyRequests_sydy : OnlyRequests (sydyRequests p) := by
  rw [sydyRequests]
  split <;> exact ⟨by simp, by simp [attachRequest]⟩

theorem onlyRequests_renew : OnlyRequests (renewRequests a p) := by
  rw [renewRequests]
  refine ⟨by simp, fun tlv hmem => ?_⟩
  rcases List.mem_cons.mp hmem with rfl | hmem
  · exact ⟨_, rfl⟩
  · split at hmem
    · exact onlyRequests_sydy.2 tlv hmem
    · exact absurd hmem (by simp)

theorem renewWith_asked {host : SendHost} (hworks : host.Works) {requests : List SignalingTlv}
    (hrequests : OnlyRequests requests) {sent : ℕ} (hsent : sent ≤ p.sent.length) :
    Asked a sent (renewWith host requests a p).2.2 ∨
      (renewWith host requests a p).1 = a ∧
        ∀ now, host.clock = some now → now.val.tvSec < a.renewalTmo := by
  rw [renewWith]
  cases host.clock with
  | none => exact Or.inr ⟨rfl, fun _ hnow => absurd hnow (by simp)⟩
  | some now =>
    dsimp only
    split
    · next hearly => exact Or.inr ⟨rfl, fun _ hnow => Option.some.inj hnow ▸ hearly⟩
    · exact Or.inl (sendSignaling_asked hworks hrequests hsent)

/-- The request timer asks the master, or it is too early for it. -/
theorem serveMaster_asked {host : SendHost} (hworks : host.Works) {sent : ℕ}
    (hsent : sent ≤ p.sent.length) :
    Asked a sent (serveMaster host a p).2.2 ∨
      (serveMaster host a p).1 = a ∧
        ∀ now, host.clock = some now → now.val.tvSec < a.renewalTmo := by
  rw [serveMaster]
  split
  · exact Or.inl (sendSignaling_asked hworks onlyRequests_announce hsent)
  · exact renewWith_asked hworks onlyRequests_renew hsent
  · exact Or.inl (sendSignaling_asked hworks onlyRequests_sydy hsent)
  · exact renewWith_asked hworks onlyRequests_renew hsent

/-- On its turn an entry asks, or its time has not come. -/
theorem TimerAt.asked {host : SendHost} (hat : TimerAt host p a a' q) (hworks : host.Works)
    (htype : a.type = p.transportType) {sent : ℕ} (hsent : sent ≤ p.sent.length) :
    Asked a sent q ∨
      a' = a ∧ ∀ now, host.clock = some now → now.val.tvSec < a.renewalTmo := by
  cases hat with
  | elsewhere _ hother => exact absurd htype hother
  | served hbefore _ hafter =>
    rcases serveMaster_asked hworks (hsent.trans hbefore.sent.length_le) with hasked | hearly
    · exact Or.inl (hasked.later hafter.sent)
    · exact Or.inr hearly

/-! ## The time of the next request -/

/-- The master is to be asked at the deadline at the latest. -/
structure RenewsBy (deadline : ℤ) (a : MasterAddress Address) : Prop where
  set : a.renewalTmo ≠ 0
  due : a.renewalTmo ≤ deadline

def dueAt (now : Reading) (g : GrantUnicastXmit) : ℤ :=
  now.val.tvSec + (3 * g.durationField.toNat / 4 : ℕ)

/-- A grant of the type of message sets the time of the next request. -/
def Renews : UnicastState → ℕ → Prop
  | .wait, mtype => mtype = announce
  | .haveAnn, _ => False
  | .needSydy, mtype => mtype = delayResp ∨ mtype = sync
  | .haveSydy, mtype => mtype = announce ∨ mtype = delayResp ∨ mtype = sync

theorem renewsBy_setRenewal {now : Reading} (hnow : 0 < now.val.tvSec) (duration : ℕ)
    (a : MasterAddress Address) :
    RenewsBy (now.val.tvSec + (3 * duration / 4 : ℕ)) (setRenewal (some now) duration a) := by
  rw [setRenewal]
  split
  · exact ⟨by dsimp only; omega, le_rfl⟩
  · next hkept =>
    rw [not_or, not_lt] at hkept
    exact ⟨hkept.1, hkept.2⟩

theorem RenewsBy.setRenewal {deadline : ℤ} (hrenews : RenewsBy deadline a)
    {clock : Option Reading} (hclock : ∀ now, clock = some now → 0 < now.val.tvSec)
    (duration : ℕ) : RenewsBy deadline (setRenewal clock duration a) := by
  cases clock with
  | none => exact hrenews
  | some now =>
    have hnow := hclock now rfl
    rw [Unicast.setRenewal]
    split
    · next hsooner =>
      rcases hsooner with hunset | hsooner
      · exact absurd hunset hrenews.set
      · exact ⟨by dsimp only; omega, hsooner.le.trans hrenews.due⟩
    · exact hrenews

/-- A grant does not put off the next request. -/
theorem RenewsBy.grantMaster {deadline : ℤ} (hrenews : RenewsBy deadline a)
    {clock : Option Reading} (hclock : ∀ now, clock = some now → 0 < now.val.tvSec)
    (m : ReceivedSignaling Address) (g : GrantUnicastXmit) :
    RenewsBy deadline (grantMaster clock m g a) := by
  have hkept : ∀ state identity, RenewsBy deadline { a with
      granted := a.granted ||| typeBit (mtypeOf g.messageType)
      state := state, portIdentity := identity } := fun _ _ => ⟨hrenews.set, hrenews.due⟩
  rw [Unicast.grantMaster]
  dsimp only
  split
  · split
    · exact (hkept _ _).setRenewal hclock _
    · exact hkept _ _
  · exact hkept _ _
  · split
    · exact (hkept _ _).setRenewal hclock _
    · exact hkept _ _
  · split
    · exact (hkept _ _).setRenewal hclock _
    · exact hkept _ _

/-- A grant sets the renewal to three quarters of its duration. -/
theorem renewsBy_grantMaster {now : Reading} (hnow : 0 < now.val.tvSec)
    (m : ReceivedSignaling Address) {g : GrantUnicastXmit}
    (hrenews : Renews a.state (mtypeOf g.messageType)) :
    RenewsBy (dueAt now g) (grantMaster (some now) m g a) := by
  rw [grantMaster]
  dsimp only
  split
  · next hstate =>
    rw [hstate, Renews] at hrenews
    rw [if_pos hrenews]
    exact renewsBy_setRenewal hnow _ _
  · next hstate =>
    rw [hstate] at hrenews
    exact hrenews.elim
  · next hstate =>
    rw [hstate, Renews] at hrenews
    rw [if_pos hrenews]
    exact renewsBy_setRenewal hnow _ _
  · next hstate =>
    rw [hstate, Renews] at hrenews
    rw [if_pos hrenews]
    exact renewsBy_setRenewal hnow _ _

/-! ## Runs -/

/-- The clock is past its first second, and the request timer finds what it needs for the
master. -/
def ClientEvent.Works (i : ℕ) : ClientEvent Address → Prop
  | .grant clock _ _ => ∀ now, clock = some now → 0 < now.val.tvSec
  | .cancel .. => True
  | .timer hosts _ => (hosts i).Works
  | .stateChanged _ => True

/-- No turn of an entry puts its renewal off. -/
theorem RenewsBy.turn {deadline : ℤ} (hrenews : RenewsBy deadline a)
    (hturn : MasterTurn addreq p i a event a') (hworks : event.Works i)
    (htype : a.type = p.transportType) {sent : ℕ} (hsent : sent ≤ p.sent.length) :
    Asked a sent (clientStep addreq p event) ∨ RenewsBy deadline a' := by
  cases hturn with
  | grantIgnored => exact Or.inr hrenews
  | denied => exact Or.inr ⟨hrenews.set, hrenews.due⟩
  | granted => exact Or.inr (hrenews.grantMaster hworks _ _)
  | cancelIgnored => exact Or.inr hrenews
  | cancelled => exact Or.inr ⟨hrenews.set, hrenews.due⟩
  | timer hat hsame =>
    rcases hat.asked hworks htype hsent with hasked | ⟨rfl, -⟩
    · exact Or.inl (hasked.later (hsame ▸ List.prefix_refl _))
    · exact Or.inr hrenews
  | turned => exact Or.inr ⟨hrenews.set, hrenews.due⟩

/-- What has been sent stays sent. -/
theorem run_sent (events : List (ClientEvent Address)) (p : ClientPort Address) :
    p.sent <+: (Stepping.run (clientStep addreq) events p).sent :=
  @Stepping.run_related _ _ _ (fun p q => p.sent <+: q.sent) (fun _ => List.prefix_refl _)
    List.IsPrefix.trans (fun p event => (clientStep_turn event p).sent) events p

/-- A master stays where it is, and of the transport of the client. -/
theorem SameClient.place (hsame : SameClient p q) (hbefore : p.master i = some a)
    (hafter : q.master i = some a') :
    a'.address = a.address ∧ (a.type = p.transportType → a'.type = q.transportType) := by
  have hfixed := hsame.master (i := i)
  rw [hbefore, hafter, Option.map_some, Option.map_some, Option.some.injEq] at hfixed
  have htype : a'.type = a.type := congrArg (fun fixed => fixed.2.1) hfixed
  exact ⟨congrArg Prod.fst hfixed, fun hown => htype.trans (hown.trans hsame.transportType.symm)⟩

/-- After every run the entry has asked, or will in time. -/
theorem run_renewsBy {deadline : ℤ} (hmaster : p.master i = some a)
    (hrenews : RenewsBy deadline a) (htype : a.type = p.transportType) {sent : ℕ}
    (hsent : sent ≤ p.sent.length) (events : List (ClientEvent Address))
    (hworks : ∀ event ∈ events, event.Works i) :
    Asked a sent (Stepping.run (clientStep addreq) events p) ∨
      ∃ a', (Stepping.run (clientStep addreq) events p).master i = some a' ∧
        RenewsBy deadline a' := by
  induction events using List.reverseRecOn with
  | nil => exact Or.inr ⟨a, hmaster, hrenews⟩
  | append_singleton events event ih =>
    rw [Stepping.run_append, Stepping.run_cons, Stepping.run_nil]
    have hturn : ClientTurn addreq _ event _ :=
      clientStep_turn event (Stepping.run (clientStep addreq) events p)
    have hlast := hworks event (by simp)
    rcases ih fun event hmem => hworks event (List.mem_append_left _ hmem) with
      hasked | ⟨b, hb, hdue⟩
    · exact Or.inl (hasked.later hturn.sent)
    · obtain ⟨b', hb', hmaster'⟩ := hturn.master i b hb
      obtain ⟨haddress, hown⟩ := (run_sameClient events p).place hmaster hb
      rcases hdue.turn hmaster' hlast (hown htype)
        (hsent.trans (run_sent events p).length_le) with hasked | hdue
      · exact Or.inl (hasked.readdress haddress.symm)
      · exact Or.inr ⟨b', hb', hdue⟩

/-- Once a grant that renews the subscription has been counted, the client has asked the
master again when its timer has expired three quarters of the duration later, whatever has
happened in between. -/
theorem run_renewed {now later : Reading} {m : ReceivedSignaling Address}
    {g : GrantUnicastXmit} {hosts peerHosts : ℕ → SendHost}
    (hmaster : p.master i = some a) (htype : a.type = p.transportType)
    (hgrants : Grants addreq p i (mtypeOf g.messageType) m g)
    (hrenews : Renews a.state (mtypeOf g.messageType)) (hnow : 0 < now.val.tvSec)
    (events : List (ClientEvent Address)) (hworks : ∀ event ∈ events, event.Works i)
    (hhost : (hosts i).Works) (hclock : (hosts i).clock = some later)
    (hdue : dueAt now g ≤ later.val.tvSec) :
    Asked a p.sent.length (Stepping.run (clientStep addreq)
      (.grant (some now) m g :: events ++ [.timer hosts peerHosts]) p) := by
  rw [List.cons_append, Stepping.run_cons, Stepping.run_append, Stepping.run_cons,
    Stepping.run_nil]
  have hfirst : ClientTurn addreq p (.grant (some now) m g) _ := clientStep_turn _ p
  obtain ⟨b, hb, hturn⟩ := hfirst.master i a hmaster
  have hby : RenewsBy (dueAt now g) b := by
    cases hturn with
    | grantIgnored hignored => exact absurd hgrants hignored
    | denied hdenied => exact absurd hdenied hgrants.duration
    | granted => exact renewsBy_grantMaster hnow m hrenews
  obtain ⟨haddress, hown⟩ := hfirst.toSameClient.place hmaster hb
  have hsent := hfirst.sent
  generalize clientStep addreq p (.grant (some now) m g) = q at hb hown hsent ⊢
  have hlast : ClientTurn addreq _ (.timer hosts peerHosts) _ :=
    clientStep_turn _ (Stepping.run (clientStep addreq) events q)
  refine Asked.readdress ?_ haddress.symm
  rcases run_renewsBy hb hby (hown htype) hsent.length_le events hworks with
    hasked | ⟨c, hc, hcby⟩
  · exact hasked.later hlast.sent
  · obtain ⟨c', hc', hserved⟩ := hlast.master i c hc
    obtain ⟨hcaddress, hcown⟩ := (run_sameClient events q).place hb hc
    cases hserved with
    | timer hat hsame =>
      rcases hat.asked hhost (hcown (hown htype))
        (hsent.length_le.trans (run_sent events q).length_le) with hasked | ⟨-, hearly⟩
      · exact (hasked.later (hsame ▸ List.prefix_refl _)).readdress hcaddress.symm
      · exact absurd (hearly later hclock) (not_lt.mpr (hcby.due.trans hdue))

def wholeSeconds (seconds : ℕ) : Reading :=
  ⟨⟨seconds, 0⟩, le_rfl, show (0 : ℤ) < 10 ^ 9 by decide⟩

def hostAt (seconds : ℕ) : SendHost := ⟨some (wholeSeconds seconds), true, fun _ => true, true⟩

/-- Announce messages for 60 seconds from second 100 on: the timer at 120 is too early, the
one at 145 in time. -/
theorem run_renewed_announce :
    let start := (unicastClientClaimTable 1 1 60 [soleTable] none soleClient).2
    Asked ⟨wildcard, .udpIpv4, .wait, 5, 0, e2eSydyMask, 0⟩ start.sent.length
      (Stepping.run (clientStep fun _ x y => decide (x = y))
        (.grant (some (wholeSeconds 100)) soleAnswer ⟨0xB0, 1, 60⟩ ::
          [.timer (fun _ => hostAt 120) (fun _ => hostAt 120)] ++
          [.timer (fun _ => hostAt 145) (fun _ => hostAt 145)]) start) := by
  intro start
  have hreaches : Reaches (fun _ x y => decide (x = y)) start soleAnswer 0 := by
    rw [Reaches]
    decide +kernel
  have hworks : ∀ seconds, (hostAt seconds).Works := fun _ => ⟨rfl, fun _ => rfl⟩
  refine run_renewed rfl rfl ⟨hreaches, by decide, rfl, by decide⟩ ?_ (by decide)
    _ ?_ (hworks 145) rfl (by decide)
  · rw [Renews]
    decide
  · intro event hevent
    obtain rfl := List.mem_singleton.mp hevent
    exact hworks 120

end LinuxPtp.Unicast
