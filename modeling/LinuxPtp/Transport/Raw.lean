import LinuxPtp.Lib.PacketFilter
import LinuxPtp.Lib.Stepping

/-!
# Messages on Ethernet

A port has two packet sockets, one for event and one for general messages.  Both see all
the traffic of the interface and pick the frames of their messages with a filter, whose
table all ports share.
-/

namespace LinuxPtp.Transport

open PacketFilter

def ethP1588 : ℕ := 0x88F7

def ethP8021q : ℕ := 0x8100

/-- `sizeof(struct eth_hdr)`. -/
def ethHlen : ℕ := 14

def vlanHlen : ℕ := 4

def offEtype : ℕ := 12

/-- Set in the type of a general message. -/
def ptpGenBit : ℕ := 0x08

/-! ## The filter -/

def rawFilterTest : ℕ := 9

def rawFilter : List Instruction :=
  [.loadHalf offEtype,
    .jumpEq 0 4 ethP8021q,
    .loadHalf (offEtype + 4),
    .jumpEq 0 7 ethP1588,
    .loadByte (ethHlen + vlanHlen),
    .jump 2,
    .jumpEq 0 4 ethP1588,
    .loadByte ethHlen,
    .mask ptpGenBit,
    .jumpEq 0 1 0,
    .ret 1500,
    .ret 0]

/-- What `raw_configure` writes into the table, which it then attaches. -/
def rawConfigure (event : Bool) (filter : List Instruction) : List Instruction :=
  filter.set rawFilterTest (if event then .jumpEq 0 1 0 else .jumpEq 1 0 0)

/-- The filter of a socket that is opened after the given others. -/
def attached (opened : List Bool) (event : Bool) : List Instruction :=
  rawConfigure event
    (opened.foldl (fun filter event => rawConfigure event filter) rawFilter)

/-- The filters of the sockets of a port, as `raw_open` opens them. -/
def socketFilter (opened : List Bool) (event : Bool) : List Instruction :=
  attached (if event then opened else opened ++ [true]) event

/-- What a socket with this filter gets of a packet. -/
def socketTakes (filter : List Instruction) (packet : List UInt8) : Option (List UInt8) :=
  match run packet filter 0 0 with
  | none | some 0 => none
  | some count => some (packet.take count)

/-! ## The transport -/

abbrev Mac := Vector UInt8 6

structure Raw where
  srcAddr : Mac
  ptpAddr : Mac
  p2pAddr : Mac
  vlan : Bool

/-- The frame that `raw_send` sends. -/
def rawSend (peer : Bool) (addr : Option Mac) (message : List UInt8) (raw : Raw) :
    List UInt8 :=
  let dst := addr.getD (if peer then raw.p2pAddr else raw.ptpAddr)
  dst.toList ++ raw.srcAddr.toList ++ [0x88, 0xF7] ++ message

end LinuxPtp.Transport
