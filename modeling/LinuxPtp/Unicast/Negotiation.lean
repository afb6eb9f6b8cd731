import LinuxPtp.Ordinary.Transition
import LinuxPtp.Unicast.Lasting
import LinuxPtp.Unicast.Masters

/-!
# Negotiation

A client and one of its masters exchange Signaling messages, each of which may be lost,
come more than once and overtake others.  Meanwhile the client negotiates with other
masters, and the master with other clients.
-/

namespace LinuxPtp.Unicast

open Bmc Clock

variable {Address : Type}

/-- Where the two ports are, and who the master is. -/
structure Link (Address : Type) where
  addreq : TransportType → Address → Address → Bool
  wideShift : ℕ → ℤ
  transportType : TransportType
  clientAddress : Address
  masterAddress : Address
  masterIdentity : PortIdentity

/-- What the machine answers while the master deals with a TLV: for the request, and
whether the reply can be sent. -/
structure TlvHost where
  request : RequestHost
  reply : Bool

/-- A grant that the master has sent, and what its clock has shown then. -/
structure Reply where
  grant : GrantUnicastXmit
  clock : Option Reading

/-- The two ports, what the master has sent to the client, and what its clock has shown
when it was the time of a client. -/
structure Negotiation (Address : Type) where
  client : ClientPort Address
  master : Option (ServicePort Address)
  replies : List Reply
  readings : List ℤ

/-- `unicast_service_grant` and `unicast_service_deny`. -/
def unicastServiceReply (host : TlvHost) (req : RequestUnicastXmit) (duration : UInt32) :
    List Reply :=
  if host.reply then
    [⟨⟨req.messageType, req.logInterMessagePeriod, duration⟩, host.request.contractClock⟩]
  else []

def replyTo (host : TlvHost) (req : RequestUnicastXmit) : ServiceAnswer → List Reply
  | .granted => unicastServiceReply host req req.durationField
  | .denied => unicastServiceReply host req 0
  | .disabled => []

namespace Link

variable (link : Link Address)

def same : Address → Address → Bool := link.addreq link.transportType

def answerTlv (host : TlvHost) (sender : Sender Address) (tlv : SignalingTlv)
    (p : ServicePort Address) : Option (List Reply × ServicePort Address) :=
  match tlv with
  | .ack _ => some ([], p)
  | .request req =>
      (unicastServiceAdd link.same link.wideShift host.request sender req p).map
        fun (answer, p) => (replyTo host req answer, p)

/-- The loop of `portMsgProSignaling` over the TLVs. -/
def answerTlvs (hosts : ℕ → TlvHost) (sender : Sender Address) :
    ℕ → List SignalingTlv → ServicePort Address →
      Option (List Reply × ServicePort Address)
  | _, [], p => some ([], p)
  | k, tlv :: rest, p => do
      let (first, p) ← link.answerTlv (hosts k) sender tlv p
      let (replies, p) ← answerTlvs hosts sender (k + 1) rest p
      pure (first ++ replies, p)

/-- `portMsgProSignaling` of the master. -/
def portMsgProSignaling (hosts : ℕ → TlvHost) (sender : Sender Address)
    (tlvs : List SignalingTlv) (p : ServicePort Address) :
    Option (List Reply × ServicePort Address) :=
  if !Ordinary.portIsEnabled p.state then some ([], p)
  else link.answerTlvs hosts sender 0 tlvs p

def sender (p : ClientPort Address) : Sender Address := ⟨p.portIdentity, link.clientAddress⟩

def received (p : ClientPort Address) : ReceivedSignaling Address :=
  ⟨link.masterIdentity, p.portIdentity, link.masterAddress⟩

end Link

/-- What the clock of a master shows in the rounds of the timer. -/
def Event.readings (p : ServicePort Address) : Event Address → List ℤ
  | .timer _ hosts _ =>
      if isMaster p.state then
        hosts.filterMap fun round => round.clock.map fun now => now.val.tvSec
      else []
  | _ => []

/-- Something happens to one of the ports, or a message that has been sent arrives. -/
inductive Move (Address : Type)
  | client (event : ClientEvent Address)
  | master (event : Event Address)
  | request (k : ℕ) (hosts : ℕ → TlvHost)
  | reply (k : ℕ) (clock : Option Reading)

/-- A message of the client arrives at the master, if it is for that one. -/
def takeRequest (link : Link Address) (s : Negotiation Address) (hosts : ℕ → TlvHost)
    (msg : Signaling Address) : Negotiation Address :=
  if !link.same msg.address link.masterAddress then s
  else
    match s.master.bind (link.portMsgProSignaling hosts (link.sender s.client) msg.tlvs) with
    | none => { s with master := none }
    | some (replies, p) => { s with master := some p, replies := s.replies ++ replies }

def negotiate (link : Link Address) (s : Negotiation Address) :
    Move Address → Negotiation Address
  | .client event => { s with client := clientStep link.addreq s.client event }
  | .master event =>
      { s with
        master := serviceStep link.same link.wideShift s.master event
        readings := s.readings ++ (s.master.map event.readings).getD [] }
  | .request k hosts =>
      match s.client.sent[k]? with
      | none => s
      | some msg => takeRequest link s hosts msg
  | .reply k clock =>
      match s.replies[k]? with
      | none => s
      | some reply =>
          { s with
            client := unicastClientGrant link.addreq clock (link.received s.client)
              reply.grant s.client }

/-- Nobody else grants for the master, and nobody else asks or cancels for the client. -/
def Genuine (link : Link Address) : Move Address → Prop
  | .client (.grant _ m _) => ¬link.same link.masterAddress m.address
  | .master (.request _ sender _) => ¬link.same sender.address link.clientAddress
  | .master (.cancel address _) => ¬link.same address link.clientAddress
  | _ => True

/-! ## What the client asks for -/

/-- The rate at which the client asks for Announce or Sync messages. -/
def requestedPeriod (p : ClientPort Address) (mtype : ℕ) : Int8 :=
  Int8.ofInt (if mtype = announce then p.logAnnounceInterval else p.logSyncInterval)

/-- Requests for Announce and Sync messages are at the rates of this client. -/
def TlvsAtRates (r : ClientPort Address) (tlvs : List SignalingTlv) : Prop :=
  ∀ req, .request req ∈ tlvs →
    (mtypeOf req.messageType = announce ∨ mtypeOf req.messageType = sync) →
    req.logInterMessagePeriod = requestedPeriod r (mtypeOf req.messageType)

/-- The client has the rates that it had, and has asked for no others. -/
structure AtRates (r p : ClientPort Address) : Prop where
  announce : p.logAnnounceInterval = r.logAnnounceInterval
  sync : p.logSyncInterval = r.logSyncInterval
  sent : ∀ msg ∈ p.sent, TlvsAtRates r msg.tlvs

section

variable {r p : ClientPort Address} {dst : MasterAddress Address}
variable {addreq : TransportType → Address → Address → Bool}

/-- Requests at the rates of the port, one after the other. -/
theorem TlvsAtRates.append {tlvs tlvs' : List SignalingTlv} (hfirst : TlvsAtRates r tlvs)
    (hsecond : TlvsAtRates r tlvs') : TlvsAtRates r (tlvs ++ tlvs') :=
  fun req hmem => (List.mem_append.mp hmem).elim (hfirst req) (hsecond req)

theorem tlvsAtRates_ack (flags : UInt8) : TlvsAtRates r [.ack flags] := by
  intro req hmem
  simp at hmem

/-- Requests for responses have no rate to keep. -/
theorem tlvsAtRates_other {log : ℤ} {mtype : ℕ} {duration : ℤ}
    (hother : mtype = delayResp ∨ mtype = pdelayResp) :
    TlvsAtRates r [attachRequest log mtype duration] := by
  intro req hmem htype
  obtain rfl := SignalingTlv.request.inj (List.mem_singleton.mp hmem)
  rcases hother with rfl | rfl <;> exact absurd htype (by dsimp only; decide)

theorem AtRates.announceTlvs (hrates : AtRates r p) :
    TlvsAtRates r [announceRequest p] := by
  intro req hmem _
  obtain rfl := SignalingTlv.request.inj (List.mem_singleton.mp hmem)
  have hmtype : mtypeOf (UInt8.ofNat Unicast.announce <<< 4) = Unicast.announce := by decide
  rw [requestedPeriod, if_pos hmtype, hrates.announce]

theorem AtRates.syncTlvs (hrates : AtRates r p) :
    TlvsAtRates r [attachRequest p.logSyncInterval Unicast.sync p.unicastReqDuration] := by
  intro req hmem _
  obtain rfl := SignalingTlv.request.inj (List.mem_singleton.mp hmem)
  have hmtype : mtypeOf (UInt8.ofNat Unicast.sync <<< 4) ≠ Unicast.announce := by decide
  rw [requestedPeriod, if_neg hmtype, hrates.sync]

theorem AtRates.sydyTlvs (hrates : AtRates r p) : TlvsAtRates r (sydyRequests p) := by
  rw [sydyRequests]
  split
  · exact hrates.syncTlvs
  · exact hrates.syncTlvs.append (tlvsAtRates_other (Or.inl rfl))

theorem AtRates.renewTlvs (hrates : AtRates r p) : TlvsAtRates r (renewRequests dst p) := by
  rw [renewRequests]
  split
  · exact hrates.announceTlvs.append hrates.sydyTlvs
  · exact hrates.announceTlvs

/-- Requests at these rates may be sent. -/
theorem AtRates.sendSignaling (hrates : AtRates r p) {tlvs : List SignalingTlv}
    (htlvs : TlvsAtRates r tlvs) (host : SendHost) :
    AtRates r (sendSignaling host dst tlvs p).2 := by
  rw [Unicast.sendSignaling]
  split
  · exact hrates
  · dsimp only
    split
    · refine ⟨hrates.announce, hrates.sync, fun msg hmem => ?_⟩
      rcases List.mem_append.mp hmem with hmem | hmem
      · exact hrates.sent msg hmem
      · obtain rfl := List.mem_singleton.mp hmem
        exact htlvs
    · exact ⟨hrates.announce, hrates.sync, hrates.sent⟩

theorem AtRates.renewWith (hrates : AtRates r p) {requests : List SignalingTlv}
    (hrequests : TlvsAtRates r requests) (host : SendHost) :
    AtRates r (renewWith host requests dst p).2.2 := by
  rw [Unicast.renewWith]
  split
  · exact hrates
  · split
    · exact hrates
    · exact hrates.sendSignaling hrequests host

theorem AtRates.serveMaster (hrates : AtRates r p) (host : SendHost) :
    AtRates r (serveMaster host dst p).2.2 := by
  rw [Unicast.serveMaster]
  split
  · exact hrates.sendSignaling hrates.announceTlvs host
  · exact hrates.renewWith hrates.renewTlvs host
  · exact hrates.sendSignaling hrates.sydyTlvs host
  · exact hrates.renewWith hrates.renewTlvs host

theorem AtRates.peerRenew (hrates : AtRates r p) (host : SendHost) :
    AtRates r (unicastClientPeerRenew host p).2 := by
  rw [unicastClientPeerRenew]
  split
  · exact hrates
  · next table _ =>
    split
    · exact hrates
    · have hrenewed := @AtRates.renewWith _ r p table.peerAddr hrates _
        (@tlvsAtRates_other _ r p.logMinPdelayReqInterval pdelayResp p.unicastReqDuration
          (Or.inr rfl)) host
      exact ⟨hrenewed.announce, hrenewed.sync, hrenewed.sent⟩

/-- The timer sends no others. -/
theorem AtRates.clientTimerLoop (hrates : AtRates r p) (hosts peerHosts : ℕ → SendHost)
    (k : ℕ) (addrs : List (MasterAddress Address)) (ok : Bool) :
    AtRates r (clientTimerLoop hosts peerHosts k addrs ok p).2.2 := by
  induction addrs generalizing k ok p with
  | nil => exact hrates
  | cons master rest ih =>
    rw [Unicast.clientTimerLoop]
    split
    · exact ih hrates (k + 1) ok
    · refine ih ?_ (k + 1) _
      split
      · exact (hrates.serveMaster (hosts k)).peerRenew (peerHosts k)
      · exact hrates.serveMaster (hosts k)

/-- Nor does any event. -/
theorem AtRates.clientStep (hrates : AtRates r p) (event : ClientEvent Address) :
    AtRates r (clientStep addreq p event) := by
  cases event with
  | grant clock m g =>
    rw [Unicast.clientStep, unicastClientGrant]
    split
    · exact hrates
    · next table i _ =>
      dsimp only
      split
      · split
        · exact ⟨hrates.announce, hrates.sync, hrates.sent⟩
        · exact hrates
      · split
        · exact hrates
        · split
          · exact ⟨hrates.announce, hrates.sync, hrates.sent⟩
          · split
            · exact hrates
            · next ucma _ =>
              obtain ⟨log, interval, htake⟩ := takeInterval_eq g ucma p
              rw [htake]
              exact ⟨hrates.announce, hrates.sync, hrates.sent⟩
  | cancel host m flags =>
    rw [Unicast.clientStep, unicastClientCancel]
    split
    · exact hrates
    · dsimp only
      split
      · exact hrates
      · split
        · exact hrates
        · split
          · exact hrates
          · refine AtRates.sendSignaling ?_ (tlvsAtRates_ack flags) host
            exact ⟨hrates.announce, hrates.sync, hrates.sent⟩
  | timer hosts peerHosts =>
    rw [Unicast.clientStep, unicastClientTimer]
    split
    · exact hrates
    · next table _ =>
      have hdone := hrates.clientTimerLoop hosts peerHosts 0 table.addrs true
      exact ⟨hdone.announce, hdone.sync, hdone.sent⟩
  | stateChanged parent =>
    rw [Unicast.clientStep, unicastClientStateChanged]
    split
    · exact hrates
    · exact ⟨hrates.announce, hrates.sync, hrates.sent⟩

end

end LinuxPtp.Unicast
