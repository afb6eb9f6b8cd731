import LinuxPtp.Lib.Stepping
import LinuxPtp.Clock.MgmtReply
import LinuxPtp.Unicast.Service

/-!
# The unicast client

A port that is served by unicast asks the masters of its table for messages, and keeps
what each of them has granted.  It wants Announce messages of all of them, and Sync and
Delay_Resp messages of the one that it follows.
-/

namespace LinuxPtp.Unicast

open Bmc Clock Port Wire

/-- `enum unicast_state`. -/
inductive UnicastState
  | wait
  | haveAnn
  | needSydy
  | haveSydy
  deriving DecidableEq, Repr

/-- `enum unicast_event`. -/
inductive UnicastEvent
  | grantAnn
  | selected
  | grantSydy
  | unselected
  | cancel
  deriving DecidableEq, Repr

def unicastFsm (state : UnicastState) (event : UnicastEvent) : UnicastState :=
  match state with
  | .wait =>
      match event with
      | .grantAnn => .haveAnn
      | _ => state
  | .haveAnn =>
      match event with
      | .selected => .needSydy
      | .cancel => .wait
      | _ => state
  | .needSydy =>
      match event with
      | .grantSydy => .haveSydy
      | .unselected => .haveAnn
      | .cancel => .wait
      | _ => state
  | .haveSydy =>
      match event with
      | .unselected => .haveAnn
      | .cancel => .wait
      | _ => state

/-! ## Data -/

/-- `unicast_master_address`. -/
structure MasterAddress (Address : Type) where
  portIdentity : PortIdentity
  type : TransportType
  state : UnicastState
  address : Address
  granted : BitVec 32
  sydymsk : BitVec 32
  renewalTmo : ℤ

/-- `unicast_master_table`.  Only whether there is a peer name matters once its address
is known. -/
structure MasterTable (Address : Type) where
  addrs : List (MasterAddress Address)
  logQueryInterval : Int8
  tableIndex : ℤ
  port : ℕ
  peerAddr : MasterAddress Address
  peerName : Bool

/-- The TLVs of the Signaling messages that a client sends. -/
inductive SignalingTlv
  | request (req : RequestUnicastXmit)
  | ack (messageTypeFlags : UInt8)
  deriving DecidableEq

structure Signaling (Address : Type) where
  sequenceId : UInt16
  address : Address
  targetPortIdentity : PortIdentity
  tlvs : List SignalingTlv

/-- What a port has to do with the masters of its table.  For the record, `queryTimer` is
the interval its request timer was last set to, `syncInterval` the one the clock was last
told, and `sent` what has been given to the transport. -/
structure ClientPort (Address : Type) where
  portIdentity : PortIdentity
  transportType : TransportType
  p2p : Bool
  logAnnounceInterval : ℤ
  logSyncInterval : ℤ
  logMinDelayReqInterval : ℤ
  logMinPdelayReqInterval : ℤ
  unicastReqDuration : ℤ
  unicastMasterTable : Option (MasterTable Address)
  seqnumSignaling : UInt16
  queryTimer : Option Int8
  syncInterval : Option Int8
  sent : List (Signaling Address)

/-- What the machine answers on the way of a Signaling message: the clock, the memory for
the message and for each TLV, and whether the message can be sent. -/
structure SendHost where
  clock : Option Reading
  message : Bool
  tlv : ℕ → Bool
  send : Bool

structure ReceivedSignaling (Address : Type) where
  sourcePortIdentity : PortIdentity
  targetPortIdentity : PortIdentity
  address : Address

/-- `grant_unicast_xmit_tlv` in host order. -/
structure GrantUnicastXmit where
  messageType : UInt8
  logInterMessagePeriod : Int8
  durationField : UInt32
  deriving DecidableEq

def cancelUnicastMaintainGrant : UInt8 := 2

/-- `1 << mtype`. -/
def typeBit (mtype : ℕ) : BitVec 32 := 1#32 <<< mtype

def e2eSydyMask : BitVec 32 := typeBit announce ||| typeBit sync ||| typeBit delayResp

def p2pSydyMask : BitVec 32 := typeBit announce ||| typeBit sync

def wildcard : PortIdentity := ⟨⟨Vector.replicate 8 0xff⟩, 0xffff⟩

section

variable {Address : Type}

/-! ## Sending -/

/-- `port_signaling_construct`, the TLVs attached, and `port_prepare_and_send`. -/
def sendSignaling (host : SendHost) (dst : MasterAddress Address)
    (tlvs : List SignalingTlv) (p : ClientPort Address) : Bool × ClientPort Address :=
  if !host.message then (false, p)
  else
    let msg : Signaling Address :=
      ⟨p.seqnumSignaling, dst.address, dst.portIdentity, tlvs⟩
    let p := { p with seqnumSignaling := p.seqnumSignaling + 1 }
    if (List.range tlvs.length).all host.tlv then
      (host.send, { p with sent := p.sent ++ [msg] })
    else (false, p)

def attachRequest (logPeriod : ℤ) (messageType : ℕ) (duration : ℤ) : SignalingTlv :=
  .request ⟨UInt8.ofNat messageType <<< 4, Int8.ofInt logPeriod, UInt32.ofInt duration⟩

def announceRequest (p : ClientPort Address) : SignalingTlv :=
  attachRequest p.logAnnounceInterval announce p.unicastReqDuration

/-- Sync messages, and Delay_Resp messages unless the mechanism is P2P. -/
def sydyRequests (p : ClientPort Address) : List SignalingTlv :=
  attachRequest p.logSyncInterval sync p.unicastReqDuration ::
    if p.p2p then []
    else [attachRequest p.logMinDelayReqInterval delayResp p.unicastReqDuration]

def unicastClientAnnounce (host : SendHost) (dst : MasterAddress Address)
    (p : ClientPort Address) : Bool × ClientPort Address :=
  sendSignaling host dst [announceRequest p] p

def unicastClientSydy (host : SendHost) (dst : MasterAddress Address)
    (p : ClientPort Address) : Bool × ClientPort Address :=
  sendSignaling host dst (sydyRequests p) p

/-- All that the state of the master is worth renewing. -/
def renewRequests (dst : MasterAddress Address) (p : ClientPort Address) :
    List SignalingTlv :=
  announceRequest p :: if dst.state = .haveSydy then sydyRequests p else []

/-- `unicast_client_renew` and the like of the peer, from the reading of the clock on. -/
def renewWith (host : SendHost) (requests : List SignalingTlv) (dst : MasterAddress Address)
    (p : ClientPort Address) : MasterAddress Address × Bool × ClientPort Address :=
  match host.clock with
  | none => (dst, false, p)
  | some now =>
      if now.val.tvSec < dst.renewalTmo then (dst, true, p)
      else
        ({ dst with renewalTmo := 0 }, sendSignaling host dst requests p)

def unicastClientRenew (host : SendHost) (dst : MasterAddress Address)
    (p : ClientPort Address) : MasterAddress Address × Bool × ClientPort Address :=
  renewWith host (renewRequests dst p) dst p

def unicastClientPeerRenew (host : SendHost) (p : ClientPort Address) :
    Bool × ClientPort Address :=
  match p.unicastMasterTable with
  | none => (true, p)
  | some table =>
      if !table.peerName then (true, p)
      else
        let (peer, ok, p) := renewWith host [attachRequest p.logMinPdelayReqInterval
          pdelayResp p.unicastReqDuration] table.peerAddr p
        (ok, { p with unicastMasterTable := some { table with peerAddr := peer } })

/-! ## Grants -/

/-- `unicast_client_set_renewal`: after three quarters of the duration, but no later than
asked for before. -/
def setRenewal (clock : Option Reading) (duration : ℕ) (master : MasterAddress Address) :
    MasterAddress Address :=
  match clock with
  | none => master
  | some now =>
      let tmo := now.val.tvSec + (3 * duration / 4 : ℕ)
      if master.renewalTmo = 0 ∨ tmo < master.renewalTmo then
        { master with renewalTmo := tmo }
      else master

def mtypeOf (messageType : UInt8) : ℕ := (messageType >>> 4).toNat

def sufficient (master : MasterAddress Address) : Bool :=
  master.granted &&& master.sydymsk = master.sydymsk

/-- What becomes of a master with a grant that is not of the peer delay mechanism. -/
def grantMaster (clock : Option Reading) (m : ReceivedSignaling Address)
    (g : GrantUnicastXmit) (ucma : MasterAddress Address) : MasterAddress Address :=
  let mtype := mtypeOf g.messageType
  let duration := g.durationField.toNat
  let ucma := { ucma with granted := ucma.granted ||| typeBit mtype }
  match ucma.state with
  | .wait =>
      if mtype = announce then
        setRenewal clock duration { ucma with
          state := unicastFsm ucma.state .grantAnn
          portIdentity := m.sourcePortIdentity }
      else ucma
  | .haveAnn => ucma
  | .needSydy =>
      if mtype = delayResp ∨ mtype = sync then
        setRenewal clock duration { ucma with
          state :=
            if sufficient ucma then unicastFsm ucma.state .grantSydy else ucma.state }
      else ucma
  | .haveSydy =>
      if mtype = announce ∨ mtype = delayResp ∨ mtype = sync then
        setRenewal clock duration ucma
      else ucma

/-- The interval that a master in need of Sync and Delay_Resp grants is taken over. -/
def takeInterval (g : GrantUnicastXmit) (ucma : MasterAddress Address)
    (p : ClientPort Address) : ClientPort Address :=
  if ucma.state ≠ .needSydy then p
  else if mtypeOf g.messageType = delayResp then
    { p with logMinDelayReqInterval := g.logInterMessagePeriod.toInt }
  else if mtypeOf g.messageType = sync then
    { p with syncInterval := some g.logInterMessagePeriod }
  else p

def grantPeer (clock : Option Reading) (m : ReceivedSignaling Address)
    (g : GrantUnicastXmit) (table : MasterTable Address) (p : ClientPort Address) :
    ClientPort Address :=
  { p with
    unicastMasterTable := some { table with
      peerAddr := setRenewal clock g.durationField.toNat
        { table.peerAddr with portIdentity := m.sourcePortIdentity } }
    logMinPdelayReqInterval := g.logInterMessagePeriod.toInt }

variable (addreq : TransportType → Address → Address → Bool)

/-- `unicast_client_ok`: the place of the first master with the address of the message. -/
def unicastClientOk (m : ReceivedSignaling Address) (p : ClientPort Address) :
    Option (MasterTable Address × ℕ) :=
  match p.unicastMasterTable with
  | none => none
  | some table =>
      if m.targetPortIdentity ≠ p.portIdentity ∧ m.targetPortIdentity ≠ wildcard then none
      else
        (table.addrs.findIdx? fun ucma => addreq p.transportType ucma.address m.address).map
          fun i => (table, i)

def setMaster (table : MasterTable Address) (i : ℕ)
    (f : MasterAddress Address → MasterAddress Address) (p : ClientPort Address) :
    ClientPort Address :=
  { p with unicastMasterTable := some { table with addrs := table.addrs.modify i f } }

def unicastClientGrant (clock : Option Reading) (m : ReceivedSignaling Address)
    (g : GrantUnicastXmit) (p : ClientPort Address) : ClientPort Address :=
  match unicastClientOk addreq m p with
  | none => p
  | some (table, i) =>
      let mtype := mtypeOf g.messageType
      if g.durationField = 0 then
        if mtype ≠ pdelayResp then
          setMaster table i (fun ucma => { ucma with state := .wait }) p
        else p
      else if p.p2p ∧ mtype = delayResp then p
      else if p.p2p ∧ mtype = pdelayResp then grantPeer clock m g table p
      else
        match table.addrs[i]? with
        | none => p
        | some ucma =>
            setMaster table i (grantMaster clock m g) (takeInterval g ucma p)

/-! ## Cancels -/

def cancelMaster (mtype : ℕ) (ucma : MasterAddress Address) : MasterAddress Address :=
  { ucma with
    state := unicastFsm ucma.state .cancel
    granted := ucma.granted &&& ~~~typeBit mtype }

def unicastClientCancel (host : SendHost) (m : ReceivedSignaling Address)
    (messageTypeFlags : UInt8) (p : ClientPort Address) : Bool × ClientPort Address :=
  match unicastClientOk addreq m p with
  | none => (true, p)
  | some (table, i) =>
      let mtype := mtypeOf messageTypeFlags
      if ¬(mtype = announce ∨ mtype = sync ∨ mtype = delayResp) then (true, p)
      else if messageTypeFlags &&& cancelUnicastMaintainGrant ≠ 0 then (true, p)
      else
        match table.addrs[i]? with
        | none => (true, p)
        | some ucma =>
            sendSignaling host ucma [.ack messageTypeFlags]
              (setMaster table i (cancelMaster mtype) p)

/-! ## The port -/

def unicastClientStateChanged (parent : PortIdentity) (p : ClientPort Address) :
    ClientPort Address :=
  match p.unicastMasterTable with
  | none => p
  | some table =>
      { p with unicastMasterTable := some { table with
          addrs := table.addrs.map fun ucma => { ucma with
            state := unicastFsm ucma.state
              (if ucma.portIdentity = parent then .selected else .unselected) } } }

/-- What the request timer does for one master. -/
def serveMaster (host : SendHost) (master : MasterAddress Address) (p : ClientPort Address) :
    MasterAddress Address × Bool × ClientPort Address :=
  match master.state with
  | .wait => (master, unicastClientAnnounce host master p)
  | .haveAnn => unicastClientRenew host master p
  | .needSydy => (master, unicastClientSydy host master p)
  | .haveSydy => unicastClientRenew host master p

/-- The loop of `unicast_client_timer`, from the given place of the table on. -/
def clientTimerLoop (hosts peerHosts : ℕ → SendHost) :
    ℕ → List (MasterAddress Address) → Bool → ClientPort Address →
      List (MasterAddress Address) × Bool × ClientPort Address
  | _, [], ok, p => ([], ok, p)
  | i, master :: rest, ok, p =>
      if master.type ≠ p.transportType then
        let (rest, ok, p) := clientTimerLoop hosts peerHosts (i + 1) rest ok p
        (master :: rest, ok, p)
      else
        let (master, ok, p) := serveMaster (hosts i) master p
        let p := if p.p2p then (unicastClientPeerRenew (peerHosts i) p).2 else p
        let (rest, ok, p) := clientTimerLoop hosts peerHosts (i + 1) rest ok p
        (master :: rest, ok, p)

/-- `unicast_client_timer`, and whether it succeeds; the timer is set anew. -/
def unicastClientTimer (hosts peerHosts : ℕ → SendHost) (p : ClientPort Address) :
    Bool × ClientPort Address :=
  match p.unicastMasterTable with
  | none => (true, p)
  | some table =>
      let (addrs, ok, p) := clientTimerLoop hosts peerHosts 0 table.addrs true p
      (ok, { p with
        unicastMasterTable := p.unicastMasterTable.map fun table =>
          { table with addrs := addrs }
        queryTimer := some table.logQueryInterval })

/-- `unicast_client_claim_table`; the address of the peer, if its name has one. -/
def unicastClientClaimTable (portNumber : ℕ) (tableId reqDuration : ℤ)
    (tables : List (MasterTable Address)) (peerAddress : Option Address)
    (p : ClientPort Address) : Bool × ClientPort Address :=
  if tableId = 0 then (true, p)
  else
    match tables.find? fun table => table.tableIndex = tableId with
    | none => (false, p)
    | some table =>
        if table.port ≠ 0 then (false, p)
        else if table.peerName ∧ peerAddress.isNone then (false, p)
        else
          let peer :=
            if table.peerName then
              { table.peerAddr with
                address := peerAddress.getD table.peerAddr.address }
            else table.peerAddr
          (true, { p with
            unicastReqDuration := reqDuration
            unicastMasterTable := some { table with
              port := portNumber
              peerAddr := peer
              addrs := table.addrs.map fun master =>
                { master with sydymsk := if p.p2p then p2pSydyMask else e2eSydyMask } } })

/-! ## Runs -/

/-- What can happen to the client: a TLV of a Signaling message, the request timer, and
another state of the port. -/
inductive ClientEvent (Address : Type)
  | grant (clock : Option Reading) (m : ReceivedSignaling Address) (g : GrantUnicastXmit)
  | cancel (host : SendHost) (m : ReceivedSignaling Address) (messageTypeFlags : UInt8)
  | timer (hosts peerHosts : ℕ → SendHost)
  | stateChanged (parent : PortIdentity)

def clientStep (p : ClientPort Address) : ClientEvent Address → ClientPort Address
  | .grant clock m g => unicastClientGrant addreq clock m g p
  | .cancel host m flags => (unicastClientCancel addreq host m flags p).2
  | .timer hosts peerHosts => (unicastClientTimer hosts peerHosts p).2
  | .stateChanged parent => unicastClientStateChanged parent p

end

end LinuxPtp.Unicast
