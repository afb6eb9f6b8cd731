import LinuxPtp.Tc.Refinement

/-!
# What leaves a transparent clock

Whatever else is on its way, the correction of every Follow_Up and every
Delay_Resp that goes out on a port accounts for the residence time that its own
counterpart had there.  A residence time is that of one reception: it is computed
from the time stamp that was fetched on the port while that reception was worked on.
-/

namespace LinuxPtp.Tc

open ByteOrder Wire Port TcState Oracle

def Handed.type (entry : Handed) : Option MsgType :=
  entry.bytes.head?.bind fun byte => MsgType.ofCode (byte.toNat % 16)

/-- A datagram as a message. -/
def Packet.ofDatagram (datagram : List UInt8) : Packet :=
  ⟨datagramMem datagram, .received datagram⟩

namespace Relay

def sent (env : Env) (p : ℕ) (packet : Packet) : Handed :=
  ⟨p, transportLength env packet.mem,
    bytesAt packet.mem 0 (transportLength env packet.mem), packet.origin, none⟩

/-- The record of a message whose transmit time stamp is fetched by a call. -/
def stamped (env : Env) (p : ℕ) (packet : Packet) (call : ℕ) : Handed :=
  ⟨p, transportLength env packet.mem, [], packet.origin, some call⟩

def syncDelay (q : ℕ) (residence : ℤ) (r : Relay) : ℤ :=
  tmvToTimeInterval residence + tmvToTimeInterval (r.ports q).peerDelay +
    (r.ports q).asymmetry

end Relay

/-- The messages that go on when a datagram has come: it is itself, and for a one-step
Sync a two-step one and its Follow_Up. -/
inductive Passes (env : Env) (datagram : List UInt8) : Packet → Prop
  | itself : Passes env datagram (.ofDatagram datagram)
  | twoStep (hsync : (Packet.ofDatagram datagram).type = some .sync)
      (honeStep : oneStep env (datagramMem datagram) = true) :
      Passes env datagram (Relay.asTwoStep (.ofDatagram datagram))
  | standIn (hsync : (Packet.ofDatagram datagram).type = some .sync)
      (honeStep : oneStep env (datagramMem datagram) = true) :
      Passes env datagram (Relay.standIn env (.ofDatagram datagram))

/-- The message passes when the action happens, with the time stamp `ingress` of its
reception on port `q`. -/
def Arrives (env : Env) (action : Action) (q : ℕ) (packet : Packet) (ingress : ℤ) :
    Prop :=
  ∃ datagram, action = .receive q datagram ingress ∧ Passes env datagram packet

/-- The message has come in on port `q`. -/
def Came (env : Env) (actions : List Action) (q : ℕ) (packet : Packet) : Prop :=
  ∃ action ∈ actions, ∃ ingress, Arrives env action q packet ingress

/-- The call has fetched a time stamp.  The residence time is that from the receive time
stamp to it, at the rate of the master. -/
def Resides (env : Env) (txTimestampOffset ingress : ℤ) (call : ℕ) (residence : ℤ) : Prop :=
  ∃ stamp, env.txts call = some stamp ∧ stamp ≠ 0 ∧
    residence = env.rateRatio (call + 1) (stamp + txTimestampOffset - ingress)

/-- The transmit time stamp of the message has been fetched on port `p` by a call
between the two states, and gives the residence time. -/
def Measured (env : Env) (p : ℕ) (packet : Packet) (ingress residence : ℤ)
    (first r : Relay) : Prop :=
  ∃ call, first.calls ≤ call ∧ call < r.calls ∧
    Relay.stamped env p packet call ∈ r.handed ∧
    Resides env (first.ports p).txTimestampOffset ingress call residence

section

variable (env : Env) (came : ℕ → Packet → Prop) (left : ℕ → ℕ → Packet → ℤ → Prop)
variable (first : Relay) (entry : Handed)

/-- What goes out is a Follow_Up that came in on the port on which its Sync did.  The
correction has grown by the residence time of the Sync, and by the delay and the
asymmetry of the link on which both came in. -/
def FollowsUp : Prop :=
  ∃ q followUp sync residence,
    came q followUp ∧ left q entry.port sync residence ∧
      followUp.type = some .followUp ∧ sync.type = some .sync ∧
      sequenceId sync.mem = sequenceId followUp.mem ∧
      sourcePortIdentity sync.mem = sourcePortIdentity followUp.mem ∧
      entry = Relay.sent env entry.port
        (followUp.correct (Relay.syncDelay q residence first))

/-- What goes out is a Delay_Resp that came in on the port on which its Delay_Req left.
The correction has grown by the residence time of the Delay_Req. -/
def Responds : Prop :=
  ∃ q response request residence,
    came q response ∧ left entry.port q request residence ∧
      response.type = some .delayResp ∧ request.type = some .delayReq ∧
      sequenceId request.mem = sequenceId response.mem ∧
      sourcePortIdentity request.mem = requestingPortIdentity response.mem ∧
      entry = Relay.sent env entry.port
        (response.correct (tmvToTimeInterval residence))

/-- A Follow_Up or a Delay_Resp is accounted for. -/
structure Accounts : Prop where
  followUp : entry.type = some .followUp → FollowsUp env came left first entry
  response : entry.type = some .delayResp → Responds env came left entry

end

variable {env : Env} {action : Action} {came : ℕ → Packet → Prop}
variable {left : ℕ → ℕ → Packet → ℤ → Prop} {first r r' : Relay}
variable {q p : ℕ} {packet : Packet} {ingress residence : ℤ} {hostTime : Timespec}

/-! ## Types -/

/-- Beyond the first byte, what is stored leaves the type. -/
theorem messageType_storeBytes (mem : Memory) {offset : ℕ} (hoffset : 0 < offset)
    (bytes : List UInt8) : messageType (storeBytes mem offset bytes) = messageType mem := by
  have hfirst : storeBytes mem offset bytes Header.tsmt.offset = mem Header.tsmt.offset :=
    storeBytes_outside mem bytes (Or.inl hoffset)
  rw [messageType, hfirst, messageType]

theorem Packet.type_correct (packet : Packet) (extra : ℤ) :
    (packet.correct extra).type = packet.type :=
  messageType_storeBytes packet.mem (by decide) _

theorem Packet.type_asTwoStep (packet : Packet) :
    (Relay.asTwoStep packet).type = packet.type :=
  messageType_storeBytes packet.mem (by decide) _

theorem Packet.type_countStep (packet : Packet) :
    (Relay.countStep packet).type = packet.type :=
  messageType_storeBytes packet.mem (by decide) _

theorem Packet.type_standIn (sync : Packet) :
    (Relay.standIn env sync).type = some .followUp :=
  messageType_synthesizedFollowUp sync.mem _

/-- A message keeps its type when it is sent. -/
theorem type_sent {type : MsgType} (htype : (Relay.sent env p packet).type = some type) :
    packet.type = some type := by
  obtain ⟨byte, hbyte, hcode⟩ := Option.bind_eq_some_iff.mp htype
  rw [Packet.type, messageType, ← hcode]
  unfold Relay.sent at hbyte
  dsimp only at hbyte
  cases hlength : transportLength env packet.mem with
  | zero =>
    rw [hlength] at hbyte
    exact absurd hbyte (by simp [bytesAt])
  | succ length =>
    rw [hlength] at hbyte
    simp [bytesAt, List.head?_range] at hbyte
    rw [← hbyte]
    rfl

namespace Relay

@[simp]
theorem modifyPending_same (p : ℕ) (f : List Pending → List Pending) (r : Relay) :
    (modifyPending p f r).pending p = f (r.pending p) :=
  Function.update_self ..

theorem modifyPending_other {p p' : ℕ} (hp : p' ≠ p) (f : List Pending → List Pending)
    (r : Relay) : (modifyPending p f r).pending p' = r.pending p' :=
  Function.update_of_ne hp ..

end Relay

/-! ## What a step may do -/

/-- The message had left on port `p` before the action, or has so since. -/
def LeftBy (env : Env) (action : Action) (left : ℕ → ℕ → Packet → ℤ → Prop)
    (first r : Relay) (q p : ℕ) (packet : Packet) (residence : ℤ) : Prop :=
  left q p packet residence ∨
    ∃ ingress, Arrives env action q packet ingress ∧
      Measured env p packet ingress residence first r

/-- A message that has left has left for good. -/
theorem LeftBy.mono (hcalls : r.calls ≤ r'.calls) (hsub : r.handed ⊆ r'.handed)
    (hleft : LeftBy env action left first r q p packet residence) :
    LeftBy env action left first r' q p packet residence := by
  rcases hleft with hleft | ⟨ingress, harrives, call, hfirst, hcall, hentry, hresides⟩
  · exact Or.inl hleft
  · exact Or.inr ⟨ingress, harrives, call, hfirst, hcall.trans_le hcalls, hsub hentry,
      hresides⟩

/-- More may have left. -/
theorem Accounts.mono {left' : ℕ → ℕ → Packet → ℤ → Prop} {entry : Handed}
    (hsub : ∀ {q p packet residence}, left q p packet residence →
      left' q p packet residence)
    (haccounts : Accounts env came left first entry) :
    Accounts env came left' first entry where
  followUp htype := by
    obtain ⟨q, followUp, sync, residence, hcame, hleft, hrest⟩ := haccounts.followUp htype
    exact ⟨q, followUp, sync, residence, hcame, hsub hleft, hrest⟩
  response htype := by
    obtain ⟨q, response, request, residence, hcame, hleft, hrest⟩ :=
      haccounts.response htype
    exact ⟨q, response, request, residence, hcame, hsub hleft, hrest⟩

/-- What is remembered has come and left, and what has been sent since the action began
is accounted for. -/
structure Accounted (env : Env) (action : Action) (came : ℕ → Packet → Prop)
    (left : ℕ → ℕ → Packet → ℤ → Prop) (first r : Relay) : Prop where
  hasCome : ∀ p, ∀ held ∈ r.pending p, came held.ingressPort held.packet
  hasLeft : ∀ p, ∀ held ∈ r.pending p, held.packet.type ≠ some .followUp →
    LeftBy env action left first r held.ingressPort p held.packet held.residence
  handed : ∃ entries, r.handed = first.handed ++ entries ∧
    ∀ entry ∈ entries, Accounts env came (LeftBy env action left first r) first entry

/-- What a port knows of its link. -/
def TcPort.link (port : TcPort) : ℤ × ℤ × ℤ :=
  (port.peerDelay, port.asymmetry, port.txTimestampOffset)

/-- Besides, the ports know what they knew of their links when the action began. -/
structure Corrected (env : Env) (action : Action) (came : ℕ → Packet → Prop)
    (left : ℕ → ℕ → Packet → ℤ → Prop) (first r : Relay) : Prop
    extends Accounted env action came left first r where
  links : ∀ p, (r.ports p).link = (first.ports p).link
  calls : first.calls ≤ r.calls

/-- Ports keep their links, no more is remembered, and nothing is sent. -/
structure Forgets (r r' : Relay) : Prop where
  links : ∀ p, (r'.ports p).link = (r.ports p).link
  pending : ∀ p, (r'.pending p).Sublist (r.pending p)
  handed : r'.handed = r.handed
  calls : r.calls ≤ r'.calls

namespace Forgets

theorem refl (r : Relay) : Forgets r r :=
  ⟨fun _ => rfl, fun _ => List.Sublist.refl _, rfl, le_rfl⟩

theorem trans {r'' : Relay} (hfirst : Forgets r r') (hsecond : Forgets r' r'') :
    Forgets r r'' where
  links p := (hsecond.links p).trans (hfirst.links p)
  pending p := (hsecond.pending p).trans (hfirst.pending p)
  handed := hsecond.handed.trans hfirst.handed
  calls := hfirst.calls.trans hsecond.calls

theorem subset (hforgets : Forgets r r') : r.handed ⊆ r'.handed :=
  fun _ hentry => hforgets.handed.symm ▸ hentry

theorem called (r : Relay) : Forgets r r.called :=
  ⟨fun _ => rfl, fun _ => List.Sublist.refl _, rfl, Nat.le_succ _⟩

theorem modifyPending {f : List Pending → List Pending}
    (hf : ∀ pending, (f pending).Sublist pending) (p : ℕ) (r : Relay) :
    Forgets r (Relay.modifyPending p f r) where
  links _ := rfl
  pending p' := by
    by_cases hp : p' = p
    · rw [hp, Relay.modifyPending_same]
      exact hf _
    · rw [Relay.modifyPending_other hp]
  handed := rfl
  calls := le_rfl

theorem forget (p : ℕ) (r : Relay) : Forgets r (Relay.forget p r) :=
  .modifyPending (fun _ => List.nil_sublist _) p r

theorem setState (p : ℕ) (state : PortState) (r : Relay) :
    Forgets r (Relay.setState p state r) where
  links p' := by
    unfold Relay.setState
    dsimp only
    by_cases hp : p' = p
    · rw [hp, Function.update_self]
      rfl
    · rw [Function.update_of_ne hp]
  pending _ := List.Sublist.refl _
  handed := rfl
  calls := le_rfl

theorem clearFault (env : Env) (port : TcPort) (next : PortState) (r : Relay) :
    Forgets r (Relay.clearFault env port next r).2 := by
  rw [Relay.clearFault]
  split
  · exact .called r
  · exact .refl r

theorem start (env : Env) (p : ℕ) (port : TcPort) (next : PortState) (r : Relay) :
    Forgets r (Relay.start env p port next r).2 := by
  rw [Relay.start]
  split
  · dsimp only
    split
    · exact (forget p r).trans (.called _)
    · exact .called r
  · exact .refl r

/-- A dispatch may forget records, and adds none. -/
theorem dispatch (env : Env) (p : ℕ) (event : PortEvent) (mdiff : Bool) (r : Relay) :
    Forgets r (Relay.dispatch env p event mdiff r) := by
  rw [Relay.dispatch]
  dsimp only
  generalize hcleared : Relay.clearFault env (r.ports p)
    (stateMachine (r.ports p) (r.ports p).state event mdiff) r = cleared
  have hfinal : Forgets r (Relay.start env p (r.ports p) cleared.1 cleared.2).2 :=
    (hcleared ▸ clearFault env _ _ r).trans (start env p _ _ cleared.2)
  split
  · exact hfinal
  · split
    · exact (hfinal.trans (.setState p _ _)).trans (.forget p _)
    · exact hfinal.trans (.setState p _ _)

theorem allocate (env : Env) (r : Relay) : Forgets r (Relay.allocate env r).2 := by
  rw [Relay.allocate]
  split
  · exact ⟨fun _ => rfl, fun _ => List.Sublist.refl _, rfl, le_rfl⟩
  all_goals exact ⟨fun _ => rfl, fun _ => List.Sublist.refl _, rfl, Nat.le_succ _⟩

end Forgets

namespace Corrected

/-- What is forgotten does not have to be accounted for. -/
theorem forgets (hcorrected : Corrected env action came left first r)
    (hforgets : Forgets r r') : Corrected env action came left first r' where
  hasCome p held hheld := hcorrected.hasCome p held ((hforgets.pending p).subset hheld)
  hasLeft p held hheld htype :=
    (hcorrected.hasLeft p held ((hforgets.pending p).subset hheld) htype).mono
      hforgets.calls hforgets.subset
  handed := by
    obtain ⟨entries, hentries, haccounts⟩ := hcorrected.handed
    exact ⟨entries, hforgets.handed.trans hentries, fun entry hentry =>
      (haccounts entry hentry).mono fun hleft =>
        hleft.mono hforgets.calls hforgets.subset⟩
  links p := (hforgets.links p).trans (hcorrected.links p)
  calls := hcorrected.calls.trans hforgets.calls

/-- One record more of what is sent. -/
theorem append (hcorrected : Corrected env action came left first r) {entry : Handed}
    (haccounts : Accounts env came (LeftBy env action left first r) first entry) :
    Corrected env action came left first
      { r.called with handed := r.handed ++ [entry] } where
  hasCome := hcorrected.hasCome
  hasLeft p held hheld htype :=
    (hcorrected.hasLeft p held hheld htype).mono (Nat.le_succ _) (List.subset_append_left ..)
  handed := by
    obtain ⟨entries, hentries, hall⟩ := hcorrected.handed
    refine ⟨entries ++ [entry], ?_, fun entry' hentry => ?_⟩
    · dsimp only
      rw [hentries, List.append_assoc]
    · have hsofar : Accounts env came (LeftBy env action left first r) first entry' := by
        rcases List.mem_append.mp hentry with hentry | hentry
        · exact hall entry' hentry
        · exact List.mem_singleton.mp hentry ▸ haccounts
      exact hsofar.mono fun hleft =>
        hleft.mono (Nat.le_succ _) (List.subset_append_left ..)
  links := hcorrected.links
  calls := hcorrected.calls.trans (Nat.le_succ _)

/-- A message that is accounted for may be sent. -/
theorem send (hcorrected : Corrected env action came left first r)
    (haccounts : Accounts env came (LeftBy env action left first r) first
      (Relay.sent env p packet)) :
    Corrected env action came left first (Relay.send env p packet r) := by
  have hsent := hcorrected.append haccounts
  rw [Relay.send]
  split
  · exact hsent.forgets (.dispatch env p _ _ _)
  · exact hsent

/-- A message that has come may be remembered, with the residence it left with. -/
theorem stash (hcorrected : Corrected env action came left first r)
    (hcame : came q packet)
    (hleft : packet.type ≠ some .followUp →
      LeftBy env action left first r q p packet residence) :
    Corrected env action came left first
      (Relay.stash env q p packet hostTime residence r) := by
  have hallocated := Forgets.allocate env r
  have hkept := hcorrected.forgets hallocated
  rw [Relay.stash]
  split
  · have hpending : ∀ p', ∀ held ∈ (Relay.modifyPending p
        (· ++ [⟨packet, hostTime, residence, q⟩]) (Relay.allocate env r).2).pending p',
        held ∈ (Relay.allocate env r).2.pending p' ∨
          (p' = p ∧ held = ⟨packet, hostTime, residence, q⟩) := by
      intro p' held hheld
      by_cases hp : p' = p
      · rw [hp, Relay.modifyPending_same, List.mem_append, List.mem_singleton] at hheld
        exact hheld.imp (hp ▸ ·) fun hsame => ⟨hp, hsame⟩
      · rw [Relay.modifyPending_other hp] at hheld
        exact Or.inl hheld
    refine ⟨⟨fun p' held hheld => ?_, fun p' held hheld htype => ?_, hkept.handed⟩,
      hkept.links, hkept.calls⟩
    · rcases hpending p' held hheld with hheld | ⟨-, rfl⟩
      · exact hkept.hasCome p' held hheld
      · exact hcame
    · rcases hpending p' held hheld with hheld | ⟨rfl, rfl⟩
      · exact hkept.hasLeft p' held hheld htype
      · exact (hleft htype).mono hallocated.calls hallocated.subset
  · exact hkept.forgets (.dispatch env p _ _ _)

/-- The delay of the port does not change within an action. -/
theorem syncDelay_eq (hcorrected : Corrected env action came left first r) (q : ℕ)
    (residence : ℤ) : Relay.syncDelay q residence r = Relay.syncDelay q residence first := by
  have hlink := hcorrected.links q
  rw [TcPort.link, TcPort.link, Prod.mk.injEq, Prod.mk.injEq] at hlink
  rw [Relay.syncDelay, hlink.1, hlink.2.1, Relay.syncDelay]

/-- A Follow_Up is corrected by the residence of its Sync. -/
theorem accounts_followUp (hcorrected : Corrected env action came left first r)
    {followUp sync : Packet} (hcame : came q followUp)
    (hleft : LeftBy env action left first r q p sync residence)
    (hfollowUp : followUp.type = some .followUp) (hsync : sync.type = some .sync)
    (hsequence : sequenceId sync.mem = sequenceId followUp.mem)
    (hsource : sourcePortIdentity sync.mem = sourcePortIdentity followUp.mem) :
    Accounts env came (LeftBy env action left first r) first
      (Relay.sent env p (followUp.correct (Relay.syncDelay q residence r))) where
  followUp _ := by
    rw [hcorrected.syncDelay_eq]
    exact ⟨q, followUp, sync, residence, hcame, hleft, hfollowUp, hsync, hsequence, hsource,
      rfl⟩
  response htype := by
    have hother := type_sent htype
    rw [Packet.type_correct, hfollowUp] at hother
    exact absurd hother (by decide)

/-- Whichever of the two comes last, the pair is accounted for. -/
theorem completeSyfup (hcorrected : Corrected env action came left first r)
    (hcame : came q packet)
    (hleft : packet.type ≠ some .followUp →
      LeftBy env action left first r q p packet residence) :
    Corrected env action came left first
      (Relay.completeSyfup env q p packet hostTime residence r) := by
  rw [Relay.completeSyfup]
  cases hfind : (r.pending p).find? (Pending.syncs packet q) with
  | none => exact hcorrected.stash hcame hleft
  | some held =>
    have hheld := List.mem_of_find?_eq_some hfind
    have hsyncs := List.find?_some hfind
    simp only [Pending.syncs, Bool.and_eq_true, Bool.or_eq_true,
      decide_eq_true_eq] at hsyncs
    obtain ⟨⟨⟨hport, hsequence⟩, hsource⟩, htypes⟩ := hsyncs
    have hheldCame := hcorrected.hasCome p held hheld
    rw [hport] at hheldCame
    refine Corrected.forgets (Corrected.send hcorrected ?_)
      (.modifyPending (fun _ => List.eraseP_sublist) p _)
    rcases htypes with ⟨hsync, hfollowUp⟩ | ⟨hfollowUp, hsync⟩
    · rw [decide_eq_true hfollowUp]
      have hheldLeft := hcorrected.hasLeft p held hheld (by rw [hsync]; decide)
      rw [hport] at hheldLeft
      exact hcorrected.accounts_followUp hcame hheldLeft hfollowUp hsync hsequence hsource
    · have hother : packet.type ≠ some .followUp := by
        rw [hsync]
        decide
      rw [decide_eq_false hother]
      exact hcorrected.accounts_followUp hheldCame (hleft hother) hfollowUp hsync
        hsequence.symm hsource.symm

/-- A Delay_Resp is corrected by the residence of its request. -/
theorem completeResponse (hcorrected : Corrected env action came left first r)
    (hcame : came q packet) :
    Corrected env action came left first (Relay.completeResponse env q p packet r) := by
  rw [Relay.completeResponse]
  cases hfind : (r.pending q).find? (Pending.asks packet p) with
  | none => exact hcorrected
  | some held =>
    have hheld := List.mem_of_find?_eq_some hfind
    have hasks := List.find?_some hfind
    simp only [Pending.asks, Bool.and_eq_true, decide_eq_true_eq] at hasks
    obtain ⟨⟨⟨hport, hsequence⟩, hsource⟩, hrequest, hresponse⟩ := hasks
    have hleft := hcorrected.hasLeft q held hheld (by rw [hrequest]; decide)
    rw [hport] at hleft
    refine Corrected.forgets (Corrected.send hcorrected ⟨fun htype => ?_, fun _ => ?_⟩)
      (.modifyPending (fun _ => List.eraseP_sublist) q _)
    · have hother := type_sent htype
      rw [Packet.type_correct, hresponse] at hother
      exact absurd hother (by decide)
    · exact ⟨q, packet, held.packet, held.residence, hcame, hleft, hresponse, hrequest,
        hsequence, hsource, rfl⟩

/-- Only what has left on a port is completed there, but for a Follow_Up and a
Delay_Resp. -/
theorem complete (hcorrected : Corrected env action came left first r)
    (hcame : came q packet)
    (hleft : packet.type = some .followUp ∨ packet.type = some .delayResp ∨
      LeftBy env action left first r q p packet residence) :
    Corrected env action came left first
      (Relay.complete env q p packet hostTime residence r) := by
  rw [Relay.complete]
  split
  · next hsync =>
    refine hcorrected.completeSyfup hcame fun _ => ?_
    rw [hsync] at hleft
    simpa using hleft
  · exact hcorrected.completeSyfup hcame fun hother => absurd ‹_› hother
  · next hrequest =>
    refine hcorrected.stash hcame fun _ => ?_
    rw [hrequest] at hleft
    simpa using hleft
  · exact hcorrected.completeResponse hcame
  · exact hcorrected

/-! ## Forwarding -/

/-- The other messages are sent as they are. -/
theorem accounts_other {left : ℕ → ℕ → Packet → ℤ → Prop}
    (htype : packet.type ≠ some .followUp ∧ packet.type ≠ some .delayResp) :
    Accounts env came left first (Relay.sent env p packet) :=
  ⟨fun hsent => absurd (type_sent hsent) htype.1,
    fun hsent => absurd (type_sent hsent) htype.2⟩

/-- What is measured on a port is measured in the call that fetches the time stamp
there. -/
theorem gather (hcorrected : Corrected env action came left first r)
    (hcame : came q packet) (harrives : Arrives env action q packet ingress) :
    Corrected env action came left first
      (Relay.gather env q packet hostTime ingress p r) := by
  have hasked : Corrected env action came left first
      (Relay.hand env p packet [] (some r.calls) r) :=
    hcorrected.append ⟨fun htype => absurd htype (by simp [Handed.type]),
      fun htype => absurd htype (by simp [Handed.type])⟩
  rw [Relay.gather]
  split
  · exact hasked.forgets (.dispatch env p _ _ _)
  · next stamp hstamp =>
    split
    · exact hasked.forgets (.dispatch env p _ _ _)
    · next hvalid =>
      have hmeasured : Measured env p packet ingress
          (env.rateRatio (Relay.hand env p packet [] (some r.calls) r).calls
            (stamp + ((Relay.hand env p packet [] (some r.calls) r).ports p).txTimestampOffset
              - ingress))
          first (Relay.hand env p packet [] (some r.calls) r) := by
        refine ⟨r.calls, hcorrected.calls, Nat.lt_succ_self _,
          List.mem_append_right _ (List.mem_singleton_self _), stamp, hstamp, hvalid, ?_⟩
        have hlink := hasked.links p
        rw [TcPort.link, TcPort.link, Prod.mk.injEq, Prod.mk.injEq] at hlink
        rw [hlink.2.2]
        rfl
      exact hasked.complete hcame (Or.inr (Or.inr (Or.inr ⟨ingress, harrives, hmeasured⟩)))

/-- What the body accounts for, the loop accounts for. -/
theorem forEachPort {body : ℕ → Relay → Relay}
    (hbody : ∀ p r, Corrected env action came left first r →
      Corrected env action came left first (body p r))
    (hcorrected : Corrected env action came left first r) :
    Corrected env action came left first (Relay.forEachPort env q packet body r) := by
  refine Stepping.run_invariant (fun r p hcorrected => ?_) _ hcorrected
  split
  · exact hcorrected
  · exact hbody p r hcorrected

theorem sendAll (hcorrected : Corrected env action came left first r)
    (htype : packet.type ≠ some .followUp ∧ packet.type ≠ some .delayResp) :
    Corrected env action came left first (Relay.sendAll env q packet r) :=
  forEachPort (fun _ _ hcorrected => hcorrected.send (accounts_other htype)) hcorrected

/-- An event message leaves first, and its residences are measured then. -/
theorem fwdEvent (hcorrected : Corrected env action came left first r)
    (hcame : came q packet) (harrives : Arrives env action q packet ingress)
    (htype : packet.type ≠ some .followUp ∧ packet.type ≠ some .delayResp) :
    Corrected env action came left first (Relay.fwdEvent env q packet ingress r) :=
  forEachPort (fun _ _ hcorrected => hcorrected.gather hcame harrives)
    ((hcorrected.forgets (.called r)).sendAll htype)

/-- A Follow_Up or a response goes where its Sync or request went. -/
theorem fwdFolup (hcorrected : Corrected env action came left first r)
    (hcame : came q packet)
    (htype : packet.type = some .followUp ∨ packet.type = some .delayResp) :
    Corrected env action came left first (Relay.fwdFolup env q packet r) :=
  forEachPort (fun _ _ hcorrected => hcorrected.complete hcame
      (htype.imp_right Or.inl)) (hcorrected.forgets (.called r))

theorem forward (hcorrected : Corrected env action came left first r)
    (htype : packet.type ≠ some .followUp ∧ packet.type ≠ some .delayResp) :
    Corrected env action came left first (Relay.forward env q packet r) := by
  refine hcorrected.sendAll ?_
  split
  · rwa [Packet.type_countStep]
  · exact htype

section

variable {datagram : List UInt8}

/-- A one-step Sync comes with the Follow_Up that is made for it. -/
theorem fwdSync (hcorrected : Corrected env (.receive q datagram ingress) came left first r)
    (hcame : ∀ packet, Arrives env (.receive q datagram ingress) q packet ingress →
      came q packet)
    (hsync : (Packet.ofDatagram datagram).type = some .sync) :
    Corrected env (.receive q datagram ingress) came left first
      (Relay.fwdSync env q (.ofDatagram datagram) ingress r) := by
  have hother : (Packet.ofDatagram datagram).type ≠ some .followUp ∧
      (Packet.ofDatagram datagram).type ≠ some .delayResp := by
    rw [hsync]
    decide
  rw [Relay.fwdSync]
  split
  · next honeStep =>
    have hkept := hcorrected.forgets (.allocate env r)
    dsimp only
    split
    · have harrives : ∀ packet, Passes env datagram packet →
          Arrives env (.receive q datagram ingress) q packet ingress :=
        fun _ hpasses => ⟨datagram, rfl, hpasses⟩
      have htwoStep := harrives _ (.twoStep hsync honeStep)
      have hevent := hkept.fwdEvent (hcame _ htwoStep) htwoStep
        (by rwa [Packet.type_asTwoStep])
      exact hevent.fwdFolup (hcame _ (harrives _ (.standIn hsync honeStep)))
        (Or.inl (Packet.type_standIn _))
    · exact hkept
  · have harrives : Arrives env (.receive q datagram ingress) q (.ofDatagram datagram)
        ingress := ⟨datagram, rfl, .itself⟩
    exact hcorrected.fwdEvent (hcame _ harrives) harrives hother

/-- So all that is sent for a datagram is accounted for. -/
theorem switch (hcorrected : Corrected env (.receive q datagram ingress) came left first r)
    (hcame : ∀ packet, Arrives env (.receive q datagram ingress) q packet ingress →
      came q packet) :
    Corrected env (.receive q datagram ingress) came left first
      (Relay.switch env q (.ofDatagram datagram) ingress r) := by
  have harrives : Arrives env (.receive q datagram ingress) q (.ofDatagram datagram)
      ingress := ⟨datagram, rfl, .itself⟩
  have hself := hcame _ harrives
  rw [Relay.switch]
  cases htype : (Packet.ofDatagram datagram).type with
  | none => exact hcorrected
  | some type =>
    cases type with
    | sync => exact hcorrected.fwdSync hcame htype
    | followUp => exact hcorrected.fwdFolup hself (Or.inl htype)
    | delayReq =>
      dsimp only
      split
      · exact hcorrected.fwdEvent hself harrives (by rw [htype]; decide)
      · exact hcorrected
    | delayResp =>
      dsimp only
      split
      · exact hcorrected.fwdFolup hself (Or.inr htype)
      · exact hcorrected
    | announce | signaling | management =>
      exact hcorrected.forward (by rw [htype]; decide)
    | pdelayReq | pdelayResp | pdelayRespFollowUp => exact hcorrected

end

/-- What one action makes the relay send is accounted for. -/
theorem step (hcorrected : Corrected env action came left first r)
    (hcame : ∀ q packet ingress, Arrives env action q packet ingress → came q packet) :
    Accounted env action came left first (Relay.step env r action) := by
  cases action with
  | receive q datagram hwts =>
    have hkept := hcorrected.forgets (.allocate env r)
    change Accounted env _ came left first (Relay.receive env q datagram hwts r)
    rw [Relay.receive]
    dsimp only
    split
    · split
      · exact hkept.toAccounted
      · split
        · exact ((hkept.forgets (.called _)).switch fun packet =>
            hcame q packet hwts).toAccounted
        · exact (hkept.forgets (.called _)).toAccounted
    · exact hkept.toAccounted
  | dispatch p event mdiff =>
    exact (hcorrected.forgets (.dispatch env p event mdiff r)).toAccounted
  | delayTimer p =>
    exact ((hcorrected.forgets (.called r)).forgets
      (.modifyPending (fun _ => List.dropWhile_sublist _) p _)).toAccounted
  | peerDelay p delay => exact ⟨hcorrected.hasCome, hcorrected.hasLeft, hcorrected.handed⟩

end Corrected

/-! ## Runs -/

/-- What has come has come for good. -/
theorem Came.later {actions : List Action} (hcame : Came env actions q packet)
    (action : Action) : Came env (actions ++ [action]) q packet := by
  obtain ⟨action', haction, hcame⟩ := hcame
  exact ⟨action', List.mem_append_left _ haction, hcame⟩

end LinuxPtp.Tc
