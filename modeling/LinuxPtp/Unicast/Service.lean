import LinuxPtp.Port.PriorityQueue
import LinuxPtp.Port.StateMachine
import LinuxPtp.Port.Timers

/-!
# The unicast service

A port that serves unicast keeps the contracts of its clients by their rate.  The clients
with one rate form an interval; the intervals stand in a list, and in a queue by the time
of their next transmission.  An interval is known by the address of its block.
-/

namespace LinuxPtp.Unicast

open Bmc CheckedInt Function Port Wire

def sync : ℕ := 0x0

def pdelayResp : ℕ := 0x3

def delayResp : ℕ := 0x9

def announce : ℕ := 0xB

def queueLen : ℤ := 16

def cancelUnicastMaintainRequest : UInt8 := 1

/-- `unicast_client_address`. -/
structure Client (Address : Type) where
  portIdentity : PortIdentity
  messageTypes : BitVec 32
  addr : Address
  grantTmo : ℤ
  deriving DecidableEq

/-- `unicast_service_interval`. -/
structure Interval (Address : Type) where
  clients : List (Client Address)
  incr : Timespec
  tmo : Timespec
  logPeriod : ℤ
  deriving DecidableEq

/-- `unicast_service`, with the blocks of the intervals, the address of the next block and
what the timer was last set to. -/
structure Service (Address : Type) where
  node : ℕ → Interval Address
  intervals : List ℕ
  queue : PQueue ℕ
  next : ℕ
  timer : Timespec

/-- What a port has to do with the service. -/
structure ServicePort (Address : Type) where
  state : PortState
  unicastService : Option (Service Address)

/-- `request_unicast_xmit_tlv` in host order. -/
structure RequestUnicastXmit where
  messageType : UInt8
  logInterMessagePeriod : Int8
  durationField : UInt32
  deriving DecidableEq

structure Sender (Address : Type) where
  sourcePortIdentity : PortIdentity
  address : Address

inductive ServiceAnswer
  | granted
  | denied
  | disabled
  deriving DecidableEq

abbrev Reading := { time : Timespec // Normalised time }

/-- What the machine answers during a request: the clock for the expiry of the contract, the
memory for a client and for an interval, the clock for the first transmission, the block
to which the queue grows and the timer. -/
structure RequestHost where
  contractClock : Option Reading
  clientMemory : Bool
  intervalMemory : Bool
  startClock : Option Reading
  grown : Option (ℕ → ℕ)
  settime : Bool

/-- What the machine answers in one round of the timer: the clock, which messages to which
clients cannot be sent, and the block to which the queue grows. -/
structure RoundHost (Address : Type) where
  clock : Option Reading
  txFails : ℕ → Client Address → Bool
  grown : Option (ℕ → ℕ)

/-! ## Times -/

/-- `log_to_timespec`.  A shift past the width of an `int` is up to the machine. -/
def logToTimespec (wideShift : ℕ → ℤ) (logSeconds : ℤ) : Timespec :=
  if logSeconds < 0 then
    ⟨0, ((fun ns : ℕ => ns / 2)^[(-logSeconds - 1).toNat] 500000000 : ℕ)⟩
  else ⟨(shiftLeft 32 1 logSeconds).getD (wideShift logSeconds.toNat), 0⟩

def timespecCompare (a b : Timespec) : ℤ :=
  if a.tvSec < b.tvSec then 1
  else if b.tvSec < a.tvSec then -1
  else if a.tvNsec < b.tvNsec then 1
  else if b.tvNsec < a.tvNsec then -1
  else 0

section

variable {Address : Type}

def compareTimeout (node : ℕ → Interval Address) (a b : ℕ) : ℤ :=
  timespecCompare (node a).tmo (node b).tmo

/-- `initialize_interval`, in a block of zeros. -/
def initializeInterval (wideShift : ℕ → ℤ) (clock : Option Reading) (logPeriod : ℤ) :
    Interval Address :=
  let now := clock.elim ⟨0, 0⟩ Subtype.val
  { clients := []
    incr := logToTimespec wideShift logPeriod
    tmo := carrySeconds ⟨now.tvSec, now.tvNsec + 10000000⟩
    logPeriod }

def intervalIncrement (i : Interval Address) : Interval Address :=
  { i with tmo :=
      carrySeconds ⟨i.tmo.tvSec + i.incr.tvSec, i.tmo.tvNsec + i.incr.tvNsec⟩ }

def unicastServiceExtend (clock : Option Reading) (req : RequestUnicastXmit)
    (client : Client Address) : Client Address :=
  match clock with
  | none => client
  | some now =>
      let tmo := now.val.tvSec + req.durationField.toNat
      if client.grantTmo < tmo then { client with grantTmo := tmo } else client

/-- `_unicastServiceReArmTimer`, and whether it fails. -/
def reArmTimer (settime : Bool) (service : Service Address) :
    Option (Bool × Service Address) := do
  let interval ← pqueuePeek service.queue
  let value := match interval with
    | some interval => (service.node interval).tmo
    | none => ⟨0, 0⟩
  pure (if settime then (false, { service with timer := value }) else (true, service))

/-! ## Requests -/

/-- What the loop over the clients of the interval of interest finds: a contract that is
unchanged, or perhaps a record to use. -/
inductive Scan
  | unchanged (place : ℕ)
  | passed (client : Option ℕ)
  deriving DecidableEq

/-- What the loop over the intervals of a request has found. -/
structure Search (Address : Type) where
  node : ℕ → Interval Address
  interval : Option ℕ
  client : Option (ℕ × ℕ)

variable (addreq : Address → Address → Bool)

def scanClients (address : Address) (mask : BitVec 32) :
    List (Client Address) → ℕ → Option ℕ → Scan
  | [], _, client => .passed client
  | ctmp :: rest, place, client =>
      if addreq ctmp.addr address then
        if ctmp.messageTypes &&& mask ≠ 0 then .unchanged place
        else scanClients address mask rest (place + 1) (some place)
      else scanClients address mask rest (place + 1) client

/-- A record without some message types; none is left where it has no others. -/
def withoutTypes (mask : BitVec 32) (client : Client Address) : Option (Client Address) :=
  if client.messageTypes &&& ~~~mask = 0 then none
  else some { client with messageTypes := client.messageTypes &&& ~~~mask }

def clearStale (address : Address) (mask : BitVec 32) (ctmp : Client Address) :
    Option (Client Address) :=
  if addreq ctmp.addr address then withoutTypes mask ctmp else some ctmp

def setClients (node : ℕ → Interval Address) (interval : ℕ)
    (clients : List (Client Address)) : ℕ → Interval Address :=
  update node interval { node interval with clients }

/-- The loop of `unicast_service_add` over the intervals; on the left where it returns. -/
def searchIntervals (clock : Option Reading) (req : RequestUnicastXmit) (address : Address)
    (mask : BitVec 32) : List ℕ → Search Address → (ℕ → Interval Address) ⊕ Search Address
  | [], found => .inr found
  | itmp :: rest, found =>
      let clients := (found.node itmp).clients
      if (found.node itmp).logPeriod = req.logInterMessagePeriod.toInt then
        match scanClients addreq address mask clients 0 none with
        | .unchanged place =>
            .inl (setClients found.node itmp
              (clients.modify place (unicastServiceExtend clock req)))
        | .passed client =>
            searchIntervals clock req address mask rest
              ⟨found.node, some itmp, (client.map fun place => (itmp, place)).or found.client⟩
      else
        searchIntervals clock req address mask rest
          { found with
            node := setClients found.node itmp
              (clients.filterMap (clearStale addreq address mask)) }

def renewClient (clock : Option Reading) (req : RequestUnicastXmit) (mask : BitVec 32)
    (client : Client Address) : Client Address :=
  unicastServiceExtend clock req { client with messageTypes := client.messageTypes ||| mask }

def newClient (clock : Option Reading) (req : RequestUnicastXmit) (mask : BitVec 32)
    (sender : Sender Address) : Client Address :=
  unicastServiceExtend clock req ⟨sender.sourcePortIdentity, mask, sender.address, 0⟩

def insertClient (node : ℕ → Interval Address) (interval : ℕ) (client : Client Address) :
    ℕ → Interval Address :=
  setClients node interval (client :: (node interval).clients)

/-- The last part of `unicast_service_add`: a new client in a new interval. -/
def addInterval (wideShift : ℕ → ℤ) (host : RequestHost) (req : RequestUnicastXmit)
    (client : Client Address) (service : Service Address) :
    Option (ServiceAnswer × Service Address) := do
  let interval := service.next
  let node := update service.node interval
    (initializeInterval wideShift host.startClock req.logInterMessagePeriod.toInt)
  let intervals := interval :: service.intervals
  let (err, queue) ← pqueueInsert (compareTimeout node) service.queue interval host.grown
  if err ≠ 0 then
    pure (.denied, { service with
      node, queue, intervals := intervals.erase interval, next := interval + 1 })
  else
    let (_, service) ← reArmTimer host.settime
      { service with node, intervals, queue, next := interval + 1 }
    pure (.granted, { service with node := insertClient service.node interval client })

/-- `unicast_service_add` behind the loop. -/
def addContract (wideShift : ℕ → ℤ) (host : RequestHost) (sender : Sender Address)
    (req : RequestUnicastXmit) (mask : BitVec 32) (service : Service Address)
    (found : Search Address) : Option (ServiceAnswer × Service Address) :=
  let service := { service with node := found.node }
  match found.client with
  | some (interval, place) =>
      let clients := (found.node interval).clients
      some (.granted, { service with
        node := setClients found.node interval
          (clients.modify place (renewClient host.contractClock req mask)) })
  | none =>
      if host.clientMemory then
        let client := newClient host.contractClock req mask sender
        match found.interval with
        | some interval =>
            some (.granted, { service with node := insertClient found.node interval client })
        | none =>
            if host.intervalMemory then addInterval wideShift host req client service
            else some (.denied, service)
      else some (.denied, service)

/-- `unicast_service_add` on a port with a service. -/
def serviceAdd (wideShift : ℕ → ℤ) (host : RequestHost) (sender : Sender Address)
    (req : RequestUnicastXmit) (service : Service Address) :
    Option (ServiceAnswer × Service Address) :=
  let mtype := (req.messageType >>> 4).toNat
  let mask := 1#32 <<< mtype
  if mtype = announce ∨ mtype = sync then
    match searchIntervals addreq host.contractClock req sender.address mask
      service.intervals ⟨service.node, none, none⟩ with
    | .inl node => some (.granted, { service with node })
    | .inr found => addContract wideShift host sender req mask service found
  else if mtype = delayResp ∨ mtype = pdelayResp then some (.granted, service)
  else some (.denied, service)

def unicastServiceAdd (wideShift : ℕ → ℤ) (host : RequestHost) (sender : Sender Address)
    (req : RequestUnicastXmit) (p : ServicePort Address) :
    Option (ServiceAnswer × ServicePort Address) :=
  match p.unicastService with
  | none => some (.disabled, p)
  | some service =>
      (serviceAdd addreq wideShift host sender req service).map fun (answer, service) =>
        (answer, { p with unicastService := some service })

/-! ## Cancels -/

/-- The loop of `unicast_service_remove` over the clients of an interval; none where it
passes them all. -/
def removeContract (address : Address) (mask : BitVec 32) :
    List (Client Address) → Option (List (Client Address))
  | [] => none
  | ctmp :: rest =>
      if addreq ctmp.addr address ∧ ctmp.messageTypes &&& mask ≠ 0 then
        some ((withoutTypes mask ctmp).toList ++ rest)
      else (removeContract address mask rest).map (ctmp :: ·)

/-- The loop of `unicast_service_remove` over the intervals. -/
def removeFromIntervals (address : Address) (mask : BitVec 32) :
    List ℕ → (ℕ → Interval Address) → ℕ → Interval Address
  | [], node => node
  | itmp :: rest, node =>
      match removeContract addreq address mask (node itmp).clients with
      | some clients => setClients node itmp clients
      | none => removeFromIntervals address mask rest node

/-- `unicast_service_remove` on a port with a service. -/
def serviceRemove (address : Address) (messageTypeFlags : UInt8)
    (service : Service Address) : Service Address :=
  if messageTypeFlags &&& cancelUnicastMaintainRequest ≠ 0 then service
  else
    let mtype := (messageTypeFlags >>> 4).toNat
    if mtype = announce ∨ mtype = sync then
      { service with
        node := removeFromIntervals addreq address (1#32 <<< mtype) service.intervals
          service.node }
    else service

def unicastServiceRemove (address : Address) (messageTypeFlags : UInt8)
    (p : ServicePort Address) : ServicePort Address :=
  { p with
    unicastService := p.unicastService.map (serviceRemove addreq address messageTypeFlags) }

end

/-! ## The timer -/

section

variable {Address : Type}

def Client.wants (client : Client Address) (mtype : ℕ) : Bool :=
  client.messageTypes &&& 1#32 <<< mtype ≠ 0

/-- `unicast_service_clients`: whether it fails, and the clients that are left. -/
def unicastServiceClients (host : RoundHost Address) (clients : List (Client Address)) :
    Bool × List (Client Address) :=
  match host.clock with
  | none => (true, clients)
  | some now =>
      let current := clients.filter fun client => ¬client.grantTmo < now.val.tvSec
      (current.any fun client =>
        (client.wants announce && host.txFails announce client) ||
          (client.wants sync && host.txFails sync client), current)

/-- What a round does with clients: only a master sends. -/
def serveClients (master : Bool) (host : RoundHost Address) (clients : List (Client Address)) :
    Bool × List (Client Address) :=
  if master then unicastServiceClients host clients else (false, clients)

/-- A round of the loop ends it, or goes on. -/
inductive Round (Address : Type)
  | ended
  | goesOn (failed : Bool) (service : Service Address)

/-- What a round does with the interval that it has taken out of the queue. -/
def serveInterval (master : Bool) (host : RoundHost Address) (interval : ℕ)
    (service : Service Address) : Option (Round Address) :=
  let (failed, clients) := serveClients master host (service.node interval).clients
  if clients = [] then
    some (.goesOn failed { service with intervals := service.intervals.erase interval })
  else do
    let node := update service.node interval
      (intervalIncrement { service.node interval with clients })
    let (_, queue) ← pqueueInsert (compareTimeout node) service.queue interval host.grown
    pure (.goesOn failed { service with node, queue })

/-- A round of the loop of `unicast_service_timer`. -/
def timerRound (master : Bool) (now : Timespec) (host : RoundHost Address)
    (service : Service Address) : Option (Round Address) := do
  match ← pqueuePeek service.queue with
  | none => pure .ended
  | some interval =>
      if 0 ≤ timespecCompare now (service.node interval).tmo then pure .ended
      else
        let (interval, queue) ← pqueueExtract (compareTimeout service.node) service.queue
        interval.bind fun interval =>
          serveInterval master host interval { service with queue }

/-- The loop of `unicast_service_timer` in as many rounds: whether it has ended, and whether
anything has failed. -/
def timerLoop (master : Bool) (now : Timespec) :
    List (RoundHost Address) → Bool → Service Address →
      Option (Bool × Bool × Service Address)
  | [], failed, service => some (false, failed, service)
  | host :: hosts, failed, service => do
      match ← timerRound master now host service with
      | .ended => pure (true, failed, service)
      | .goesOn fails service => timerLoop master now hosts (failed || fails) service

/-- `unicast_service_timer` on a port with a service, in as many rounds; no value while the
loop goes on. -/
def serviceTimer (master : Bool) (now : Timespec) (hosts : List (RoundHost Address))
    (settime : Bool) (service : Service Address) : Option (Option ℤ × Service Address) := do
  let (ended, failed, service) ← timerLoop master now hosts false service
  if ended then
    let (fails, service) ← reArmTimer settime service
    pure (some (if failed || fails then -1 else 0), service)
  else pure (none, service)

def isMaster : PortState → Bool
  | .master | .grandMaster => true
  | _ => false

def unicastServiceTimer (now : Timespec) (hosts : List (RoundHost Address)) (settime : Bool)
    (p : ServicePort Address) : Option (Option ℤ × ServicePort Address) :=
  match p.unicastService with
  | none => some (some 0, p)
  | some service =>
      (serviceTimer (isMaster p.state) now hosts settime service).map
        fun (value, service) => (value, { p with unicastService := some service })

/-! ## Runs -/

/-- `unicast_service_initialize` on a port that listens, with memory for everything. -/
def unicastServiceInitialize : Option (Service Address) :=
  (pqueueCreate 0 queueLen true true).map fun queue =>
    ⟨fun _ => ⟨[], ⟨0, 0⟩, ⟨0, 0⟩, 0⟩, [], queue, 0, ⟨0, 0⟩⟩

inductive Event (Address : Type)
  | request (host : RequestHost) (sender : Sender Address) (req : RequestUnicastXmit)
  | cancel (address : Address) (messageTypeFlags : UInt8)
  | timer (now : Timespec) (hosts : List (RoundHost Address)) (settime : Bool)
  | becomes (state : PortState)

variable (addreq : Address → Address → Bool) (wideShift : ℕ → ℤ)

def serve (p : ServicePort Address) : Event Address → Option (ServicePort Address)
  | .request host sender req =>
      (unicastServiceAdd addreq wideShift host sender req p).map Prod.snd
  | .cancel address flags => some (unicastServiceRemove addreq address flags p)
  | .timer now hosts settime => (unicastServiceTimer now hosts settime p).map Prod.snd
  | .becomes state => some { p with state }

def serviceStep (p : Option (ServicePort Address)) (event : Event Address) :
    Option (ServicePort Address) :=
  p.bind fun p => serve addreq wideShift p event

end

end LinuxPtp.Unicast
