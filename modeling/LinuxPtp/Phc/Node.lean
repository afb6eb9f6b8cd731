import LinuxPtp.Clock.MgmtReply

/-!
# Sources and sinks of `phc2sys`

The node keeps the clocks it found and the ports that run on them.  Reconfiguration walks
the clocks, takes their new states over and selects a master and the clocks that are to
follow it; the main loop then steers these.
-/

namespace LinuxPtp.Phc

open Port
open Clock (portStateCode)

/-! ## Clocks, ports and the node -/

def clockRealtime : ℤ := 0

/-- `struct PhcClock`, as far as the selection goes; a state of zero is missing. -/
structure PhcClock where
  clkid : ℤ
  phcIndex : ℤ
  destOnly : Bool
  state : Option PortState
  newState : Option PortState
  device : String
  deriving DecidableEq, Repr

/-- `struct PhcPort`, with the address of its clock. -/
structure PhcPort where
  number : ℕ
  state : PortState
  clock : ℕ
  deriving DecidableEq, Repr

/-- `struct PhcNode`.  Clocks have addresses; `calls` counts the questions to the
management client. -/
structure PhcNode where
  heap : ℕ → PhcClock
  clocks : List ℕ
  nodup : clocks.Nodup
  ports : List PhcPort
  dstClocks : List ℕ
  master : Option ℕ
  stateChanged : Bool
  calls : ℕ

/-- What a port reports of itself; `software` is the time stamping that has no clock. -/
structure PortProperties where
  state : PortState
  software : Bool
  iface : String

/-- What comes in until a question is answered: the port data sets that the node has
subscribed to, and the answer if there is one. -/
structure PmcAnswer where
  notified : List (ℕ × PortState)
  properties : Option PortProperties

/-- The outside of the program: the management client, `sk_get_ts_info` and
`clock_open`. -/
structure PhcEnv where
  portProperties : ℕ → ℕ → PmcAnswer
  tsInfo : ℕ → String → Option ℤ
  clockOpen : ℕ → String → Option (ℤ × ℤ)

namespace PhcNode

def setClock (node : PhcNode) (clock : ℕ) (value : PhcClock) : PhcNode :=
  { node with heap := Function.update node.heap clock value }

def setPortState (node : PhcNode) (i : ℕ) (state : PortState) : PhcNode :=
  { node with ports := node.ports.modify i fun p => { p with state := state } }

end PhcNode

/-! ## Port states -/

def psysNormalizeState : PortState → PortState
  | .master => .master
  | .slave => .slave
  | .preMaster => .preMaster
  | .uncalibrated => .uncalibrated
  | _ => .disabled

/-- `clock_compute_state`: the highest state of the ports on the clock. -/
def clockComputeState (node : PhcNode) (clock : ℕ) : PortState :=
  node.ports.foldl
    (fun state p =>
      if p.clock = clock ∧ portStateCode state < portStateCode p.state then p.state
      else state)
    .disabled

/-- `__pmcRecvSubscribed` on a port data set. -/
def pmcRecvSubscribed (node : PhcNode) (number : ℕ) (portState : PortState) :
    PhcNode :=
  match node.ports.findIdx? (·.number == number) with
  | none => node
  | some i =>
      match node.ports[i]? with
      | none => node
      | some port =>
          if port.state = psysNormalizeState portState then node
          else
            let node := node.setPortState i (psysNormalizeState portState)
            let state := clockComputeState node port.clock
            let clock := node.heap port.clock
            if clock.state ≠ some state ∨ clock.newState ≠ none then
              { node.setClock port.clock { clock with newState := some state } with
                stateChanged := true }
            else node

section

variable (env : PhcEnv)

def psysPmcGetPortProperties (node : PhcNode) (number : ℕ) :
    PhcNode × Option PortProperties :=
  let answer := env.portProperties node.calls number
  (answer.notified.foldl (fun node notice => pmcRecvSubscribed node notice.1 notice.2)
    { node with calls := node.calls + 1 }, answer.properties)

/-! ## Reinitialising a clock -/

/-- One round over the ports: the answer that is kept is that of the last port. -/
def reinitPort (clock : ℕ) (found : PhcNode × Option PortProperties) (i : ℕ) :
    PhcNode × Option PortProperties :=
  match found.1.ports[i]? with
  | none => found
  | some p =>
      if p.clock = clock then
        let (node, answer) := psysPmcGetPortProperties env found.1 p.number
        match answer with
        | some properties =>
            (node.setPortState i (psysNormalizeState properties.state), some properties)
        | none => (node, none)
      else found

/-- The device of the clock is opened again when its index has changed. -/
def reopen (node : PhcNode) (clock : ℕ) (iface : String) : PhcNode :=
  let node := node.setClock clock { node.heap clock with device := iface }
  match env.tsInfo node.calls iface with
  | none => node
  | some index =>
      if (node.heap clock).phcIndex = index then node
      else
        match env.clockOpen node.calls iface with
        | none => node
        | some (clkid, phcIndex) =>
            node.setClock clock
              { node.heap clock with clkid := clkid, phcIndex := phcIndex }

/-- `_psysClockReinit`, without the servo and the statistics. -/
def psysClockReinit (node : PhcNode) (clock : ℕ) : PhcNode :=
  let (node, last) :=
    (List.range node.ports.length).foldl (reinitPort env clock) (node, none)
  match last with
  | some properties =>
      if properties.software then node else reopen env node clock properties.iface
  | none => node

/-! ## Reconfiguration -/

/-- The local variables of `psysReconfigure`. -/
structure Selection where
  rt : Option ℕ := none
  src : Option ℕ := none
  last : Option ℕ := none
  srcCnt : ℕ := 0
  dstCnt : ℕ := 0

def findDestClock (node : PhcNode) (phcIndex : ℤ) : Option ℕ :=
  node.dstClocks.find? fun c => (node.heap c).phcIndex == phcIndex

/-- A state that has been announced is taken over. -/
def takeNewState (node : PhcNode) (c : ℕ) : PhcNode :=
  if (node.heap c).newState = none then node
  else
    let node := psysClockReinit env node c
    node.setClock c
      { node.heap c with state := (node.heap c).newState, newState := none }

/-- The `switch` over the state of the clock. -/
def selectClock (c : ℕ) (node : PhcNode) (sel : Selection) : PhcNode × Selection :=
  match (node.heap c).state with
  | some .faulty | some .disabled | some .listening | some .preMaster | some .master
  | some .passive =>
      match findDestClock node (node.heap c).phcIndex with
      | none =>
          ({ node with dstClocks := c :: node.dstClocks },
            { sel with dstCnt := sel.dstCnt + 1 })
      | some _ => (node, sel)
  | some .uncalibrated => (node, { sel with srcCnt := sel.srcCnt + 1 })
  | some .slave => (node, { sel with src := some c, srcCnt := sel.srcCnt + 1 })
  | _ => (node, sel)

def visitClock (found : PhcNode × Selection) (c : ℕ) : PhcNode × Selection :=
  if (found.1.heap c).clkid = clockRealtime then
    (found.1, { found.2 with rt := some c })
  else
    let (node, sel) := selectClock c (takeNewState env found.1 c) found.2
    (node, { sel with last := some c })

def walkClocks (node : PhcNode) : PhcNode × Selection :=
  node.clocks.foldl (visitClock env)
    ({ node with stateChanged := false, dstClocks := [] }, {})

def rtNoSource (node : PhcNode) (rt : Option ℕ) : Bool :=
  match rt with
  | none => true
  | some rt => (node.heap rt).destOnly

/-- The last clock becomes the default one until the next reconfiguration. -/
def selectDefault (node : PhcNode) (last : ℕ) (rt : Option ℕ) : PhcNode :=
  let clock := node.heap last
  let node := { node.setClock last
    { clock with newState := clock.state, state := some .slave } with
      master := some last }
  match rt with
  | none => node
  | some rt => node.setClock rt { node.heap rt with state := some .slave }

def selectRt (node : PhcNode) (rt : ℕ) : PhcNode :=
  let node :=
    if (node.heap rt).state = some .master then node
    else
      psysClockReinit env
        (node.setClock rt { node.heap rt with state := some .master }) rt
  { node with dstClocks := rt :: node.dstClocks }

inductive PhcError
  | nullClock
  deriving DecidableEq, Repr

/-- What follows the loop in `psysReconfigure`. -/
def chooseMaster (node : PhcNode) (sel : Selection) : Except PhcError PhcNode :=
  let idle : PhcNode := { node with master := none }
  if 1 < sel.dstCnt ∧ sel.src = none ∧ rtNoSource node sel.rt then
    match sel.last with
    | none => .error .nullClock
    | some last => .ok (selectDefault node last sel.rt)
  else if 1 < sel.srcCnt then .ok idle
  else if 0 < sel.srcCnt ∧ sel.src = none then .ok idle
  else if sel.srcCnt = 0 ∧ sel.dstCnt = 0 then .ok idle
  else if (sel.srcCnt = 0 ∧ rtNoSource node sel.rt) ∨ (sel.dstCnt = 0 ∧ sel.rt = none) then
    .ok idle
  else if sel.srcCnt = 0 then
    match sel.rt with
    | none => .error .nullClock
    | some rt =>
        .ok { node.setClock rt { node.heap rt with state := some .slave } with
          master := some rt }
  else
    let node :=
      match sel.rt with
      | none => node
      | some rt => selectRt env node rt
    match sel.src with
    | none => .error .nullClock
    | some src => .ok { node with master := some src }

def psysReconfigure (node : PhcNode) : Except PhcError PhcNode :=
  chooseMaster env (walkClocks env node).1 (walkClocks env node).2

end

/-! ## The main loop -/

def updateNeeded : Option PortState → Bool
  | some .faulty | some .disabled | some .listening | some .preMaster | some .master
  | some .passive => true
  | _ => false

/-- The clocks that a round of `_psysMainLoop` steers. -/
def steers (node : PhcNode) (c : ℕ) : Bool :=
  match node.master with
  | none => false
  | some master =>
      let clock := node.heap c
      let source := node.heap master
      node.dstClocks.contains c && updateNeeded clock.state &&
        !(clock.clkid == source.clkid ||
          (decide (0 ≤ clock.phcIndex) && clock.phcIndex == source.phcIndex) ||
          clock.device == source.device)

end LinuxPtp.Phc
