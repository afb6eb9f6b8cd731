import LinuxPtp.Bmc.Dataset
import LinuxPtp.Wire.Tlv

/-!
# Foreign masters

The records a port keeps of the masters it hears, and the election that a state
decision holds among the records of all ports.
-/

namespace LinuxPtp.Bmc

open ByteOrder Ranking Wire

/-- A received Announce message in host order, with the buffer it lies in. -/
structure Announce where
  cell : ℕ
  sourcePortIdentity : PortIdentity
  timeFlags : UInt8
  logMessageInterval : Int8
  hostTime : Timespec
  currentUtcOffset : Int16
  grandmasterPriority1 : UInt8
  grandmasterClockQuality : ClockQuality
  grandmasterPriority2 : UInt8
  grandmasterIdentity : ClockIdentity
  stepsRemoved : UInt16
  timeSource : UInt8
  deriving DecidableEq, Repr

/-- A foreign clock at its address, with the port that keeps it and its messages
from the newest on. -/
structure ForeignClock where
  address : ℕ
  port : ℕ
  messages : List Announce
  dataset : Dataset
  deriving DecidableEq, Repr

/-- What the election reads of a port. -/
structure BmcPort where
  portIdentity : PortIdentity
  localPriority : UInt8
  masterOnly : Bool
  foreignMasters : List ForeignClock
  deriving DecidableEq, Repr

/-- The profile tells which comparison the clock uses. -/
inductive DatasetComparison
  | ieee1588
  | g8275
  deriving DecidableEq, Repr

/-- The machine: its byte order, what it makes of a shift past the width of an
`int`, and the successive readings of its monotonic clock. -/
structure BmcHost where
  endian : Endian
  wideShift : ℕ → ℤ
  monotonic : ℕ → Timespec

def DatasetComparison.dscmp (comparison : DatasetComparison) (endian : Endian) :
    Option Dataset → Option Dataset → ℤ :=
  match comparison with
  | .ieee1588 => Bmc.dscmp endian
  | .g8275 => telecomDscmp endian

def foreignMasterThreshold : ℕ := 2

def announceToDataset (m : Announce) (p : BmcPort) : Dataset where
  priority1 := m.grandmasterPriority1
  identity := m.grandmasterIdentity
  quality := m.grandmasterClockQuality
  priority2 := m.grandmasterPriority2
  localPriority := p.localPriority
  stepsRemoved := m.stepsRemoved
  sender := m.sourcePortIdentity
  receiver := p.portIdentity

/-! ## Messages grow old -/

/-- `1 << count` of an `int`. -/
def intShift (host : BmcHost) (count : ℕ) : ℤ :=
  if count < 31 then 2 ^ count else host.wideShift count

/-- The time, in nanoseconds, for which an Announce counts; none where it
counts for ever. -/
def announceLifetime (host : BmcHost) (logMessageInterval : ℤ) : Option ℤ :=
  if logMessageInterval < -63 then some 0
  else if logMessageInterval > 31 then none
  else if logMessageInterval < 0 then
    some (Int.tdiv (4 * 10 ^ 9) (intShift host (-logMessageInterval).toNat))
  else some (4 * intShift host logMessageInterval.toNat * 10 ^ 9)

def nanoseconds (time : Timespec) : ℤ :=
  time.tvSec * 10 ^ 9 + time.tvNsec

def msgCurrent (host : BmcHost) (now : Timespec) (m : Announce) : Bool :=
  match announceLifetime host m.logMessageInterval.toInt with
  | none => true
  | some lifetime =>
      nanoseconds now - nanoseconds m.hostTime < lifetime

/-- `fc_prune`: the oldest messages go while there are more than two, and then
while the oldest is no longer current. -/
def fcPrune (host : BmcHost) (now : Timespec) (messages : List Announce) :
    List Announce :=
  (messages.take foreignMasterThreshold).rdropWhile fun m =>
    !msgCurrent host now m

/-- The messages that leave a list, oldest first, where the others stay. -/
def released (messages kept : List Announce) : List ℕ :=
  ((messages.drop kept.length).map Announce.cell).reverse

/-! ## The election -/

/-- The records examined so far, the best of them, the messages put, and the
number of clock readings taken. -/
structure Examined where
  records : List ForeignClock
  best : Option ForeignClock
  puts : List ℕ
  readings : ℕ
  deriving DecidableEq, Repr

/-- The body of the loop of `port_compute_best`. -/
def examine (host : BmcHost) (compare : Option Dataset → Option Dataset → ℤ)
    (p : BmcPort) (e : Examined) (fc : ForeignClock) : Examined :=
  match fc.messages with
  | [] => { e with records := e.records ++ [fc] }
  | newest :: _ =>
      let messages := fcPrune host (host.monotonic e.readings) fc.messages
      let pruned : ForeignClock :=
        { fc with messages := messages, dataset := announceToDataset newest p }
      let puts := e.puts ++ released fc.messages messages
      if messages.length < foreignMasterThreshold then
        { e with
          records := e.records ++ [pruned]
          puts := puts
          readings := e.readings + 1 }
      else if ∀ best ∈ e.best,
          0 < compare (some pruned.dataset) (some best.dataset) then
        { e with
          records := e.records ++ [pruned]
          best := some pruned
          puts := puts
          readings := e.readings + 1 }
      else
        { e with
          records := e.records ++ [{ pruned with messages := [] }]
          puts := puts ++ released messages []
          readings := e.readings + 1 }

def portComputeBest (host : BmcHost)
    (compare : Option Dataset → Option Dataset → ℤ) (readings : ℕ)
    (p : BmcPort) : Examined :=
  if p.masterOnly then ⟨p.foreignMasters, none, [], readings⟩
  else p.foreignMasters.foldl (examine host compare p) ⟨[], none, [], readings⟩

/-- The best record of all ports so far, the examined ports, and the number of
clock readings taken. -/
structure Elected where
  best : Option ForeignClock
  ports : List Examined
  readings : ℕ
  deriving DecidableEq, Repr

/-- The body of the first loop of `handle_state_decision_event`. -/
def electFrom (host : BmcHost) (compare : Option Dataset → Option Dataset → ℤ)
    (e : Elected) (p : BmcPort) : Elected :=
  let examined := portComputeBest host compare e.readings p
  let best :=
    match examined.best with
    | none => e.best
    | some fc =>
        if ∀ best ∈ e.best, 0 < compare (some fc.dataset) (some best.dataset)
        then some fc
        else e.best
  ⟨best, e.ports ++ [examined], examined.readings⟩

/-- The first loop of `handle_state_decision_event`. -/
def electBest (host : BmcHost) (compare : Option Dataset → Option Dataset → ℤ)
    (readings : ℕ) (ports : List BmcPort) : Elected :=
  ports.foldl (electFrom host compare) ⟨none, [], readings⟩

end LinuxPtp.Bmc
