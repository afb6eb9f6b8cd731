import LinuxPtp.Clock.MgmtReply
import LinuxPtp.Wire.Append

/-!
# Monitoring responses

A port with the network sync monitor enabled answers a request with the state of its
clock.  The response has a head, the protocol address of the parent and a foot; where
the foot lies depends on the length of the address.
-/

namespace LinuxPtp.Nsm

open ByteOrder Access Wire Port Bmc Clock

/-! ## Transports and addresses -/

/-- The transports of the program, with the address of the interface as it was found when
they were opened. -/
inductive Transport
  | uds
  | udp (ip : Option (Vector UInt8 4))
  | udp6 (ip : Option (Vector UInt8 16))
  | raw (srcAddr : Vector UInt8 6)

namespace Transport

/-- `TransportType`. -/
def type : Transport → TransportType
  | uds => .uds
  | udp _ => .udpIpv4
  | udp6 _ => .udpIpv6
  | raw _ => .ieee8023

/-- `transport_protocol_addr`, with `_udpProtocolAddr`, `udp6_protocol_addr` and
`raw_protocol_addr`; the result is what has been written. -/
def protocolAddr : Transport → List UInt8
  | uds => []
  | udp none => []
  | udp (some ip) => ip.toList
  | udp6 none => []
  | udp6 (some ip) => ip.toList
  | raw srcAddr => srcAddr.toList

end Transport

/-- The union in `struct address`, through each of its members. -/
structure MessageAddress where
  sin : Vector UInt8 4
  sin6 : Vector UInt8 16
  sll : Vector UInt8 6

structure PortAddress where
  networkProtocol : TransportType
  address : List UInt8

/-- `__extractAddress`; the message may be missing. -/
def extractAddress (m : Option MessageAddress) (paddr : PortAddress) :
    Except Errno PortAddress :=
  match paddr.networkProtocol, m with
  | .udpIpv4, some m => .ok { paddr with address := m.sin.toList }
  | .udpIpv6, some m => .ok { paddr with address := m.sin6.toList }
  | .ieee8023, some m => .ok { paddr with address := m.sll.toList }
  | .udpIpv4, none | .udpIpv6, none | .ieee8023, none => .error .nullPointer
  | _, _ => .ok paddr

/-! ## The response -/

/-- What the response tells of a port; `best` is its foreign master, for which the
addresses of the kept Announces are listed. -/
structure MonitoredPort where
  trp : Transport
  state : PortState
  best : Option (List MessageAddress)

def MonitoredPort.portAddress (port : MonitoredPort) : PortAddress :=
  ⟨port.trp.type, port.trp.protocolAddr⟩

/-- The address of the parent, or of the port itself when the clock is its own parent. -/
def parentAddress (c : ReportedClock) (bestPort : Option MonitoredPort)
    (p : MonitoredPort) : Except Errno PortAddress :=
  match bestPort with
  | some best =>
      if c.dds.clockIdentity ≠ c.pds.parentPortIdentity.clockIdentity then
        match best.best with
        | some messages => extractAddress messages.head? best.portAddress
        | none => .ok best.portAddress
      else .ok p.portAddress
  | none => .ok p.portAddress

/-- `struct WireTimeStamp`. -/
structure WireTime where
  secondsMsb : UInt16
  secondsLsb : UInt32
  nanoseconds : UInt32

/-- `tmv_to_Timestamp`; the division is that of unsigned words. -/
def tmvToTimestamp (x : Int64) : WireTime :=
  let sec := x.toUInt64 / 1000000000
  let nsec := x.toUInt64 % 1000000000
  { secondsMsb := (sec >>> 32).toUInt16
    secondsLsb := sec.toUInt32
    nanoseconds := nsec.toUInt32 }

def WireTime.members (time : WireTime) : List Member :=
  [uint16 WireTimestamp.secondsMsb.offset time.secondsMsb,
    uint32 WireTimestamp.secondsLsb.offset time.secondsLsb,
    uint32 WireTimestamp.nanoseconds.offset time.nanoseconds]

/-- `struct nsm_resp_tlv_head` behind its type and length. -/
def headMembers (p : MonitoredPort) (paddr : PortAddress) : List Member :=
  [.unsigned NsmResp.portState.offset 1 (portStateCode (reportedState p.state)),
    .unsigned NsmResp.parentAddr 2 paddr.networkProtocol.code,
    .unsigned (NsmResp.parentAddr + 2) 2 paddr.address.length,
    .octets NsmResp.headSize paddr.address]

/-- `struct nsm_resp_tlv_foot`. -/
def footMembers (c : ReportedClock) : List Member :=
  c.pds.members.map (Member.shift NsmResp.footParent) ++
    c.cur.members.map (Member.shift NsmResp.footCurrent) ++
    c.tds.members.map (Member.shift NsmResp.footTimeprop) ++
    (tmvToTimestamp c.ingressTs).members.map (Member.shift NsmResp.footLastsync)

def responseLength (paddr : PortAddress) : ℕ :=
  NsmResp.headSize + NsmResp.footSize + paddr.address.length

/-- `extra->foot = ptr` for the descriptor that has been attached last. -/
def setFoot (extra : TlvExtra) (foot : ℕ) : WireM Unit :=
  modifyRest fun state => { state with
    tlvList := state.tlvList.dropLast ++ [{ extra with foot := some foot }] }

/-- `_netSyncRespAppend`.  The result tells whether the response has been appended. -/
def netSyncRespAppend (host : Host) (c : ReportedClock)
    (bestPort : Option MonitoredPort) (p : MonitoredPort) : WireM Bool :=
  match parentAddress c bestPort p with
  | .error err => fail err
  | .ok paddr => do
      let tlvLen := responseLength paddr
      let appended ← msgTlvAppend host tlvLen
      match appended with
      | none => pure false
      | some extra => do
          let foot := extra.tlv + NsmResp.headSize + paddr.address.length
          writeWord host.endian (extra.tlv + Tlv.type.offset) 2 TlvType.ptpmonResp.code
          writeWord host.endian (extra.tlv + Tlv.length.offset) 2 (tlvLen - sizeofTlv)
          writeMembers host.endian extra.tlv (headMembers p paddr)
          setFoot extra foot
          writeMembers host.endian foot (footMembers c)
          pure true

end LinuxPtp.Nsm
