import LinuxPtp.Clock.MgmtReply
import LinuxPtp.Wire.PathTrace

/-!
# The path of the master

A port that traces paths refuses Announces that have come through its own clock, the
clock stores the path of its master, and what it announces carries the stored path on.
The octets behind the body of an Announce are taken for its path trace, whatever they
are.
-/

namespace LinuxPtp.Clock.PathTrace

open ByteOrder Access Wire Port Bmc Clock

/-! ## Ports and clocks -/

/-- A port, as far as Announces are concerned.  `best` is the sender of the record that
`p->best` points to, and `transportSpecific` is the configured number. -/
structure TracingPort where
  portIdentity : PortIdentity
  state : PortState
  best : Option PortIdentity
  pathTraceEnabled : Bool
  matchTransportSpecific : Bool
  inhibitMulticastService : Bool
  transportSpecific : Fin 16
  logAnnounceInterval : Int8
  seqnumAnnounce : UInt16

/-- `p->transportSpecific`. -/
def TracingPort.tsmtHigh (port : TracingPort) : UInt8 :=
  UInt8.ofNat (16 * port.transportSpecific)

/-- A clock.  For the record, `used` are the Announces that ports which trace paths have
passed on to their handler, and `expected` is the path of the last one of the master. -/
structure TracingClock where
  clockIdentity : ClockIdentity
  domainNumber : UInt8
  stepsRemoved : UInt16
  pds : ParentDs
  tds : TimePropertiesDs
  dad : StoredPath
  ports : ℕ → TracingPort
  used : List (Store ParseState)
  expected : List (List UInt8)

/-! ## Reception -/

section

variable (host : Host)

def suffix : ℕ := MsgType.announce.pduLength

/-- `pathTraceIgnore`: a path trace TLV lists the clock itself. -/
def pathTraceIgnore (c : TracingClock) (port : TracingPort) (m : Store ParseState) :
    Bool :=
  port.pathTraceEnabled && typeOf m.mem = some .announce &&
    (m.rest.tlvList.filter (isPathTrace host.endian m.mem)).any fun extra =>
      (pathAt host.endian m.mem extra.tlv).contains c.clockIdentity.bytes

/-- The sender of a message in host order, as its bytes. -/
def sourcePortIdentity (mem : Memory) : List UInt8 :=
  bytesAt mem Header.clockIdentity.offset 10

def portIgnore (c : TracingClock) (port : TracingPort) (capable : Bool)
    (m : Store ParseState) : Bool :=
  (!capable && (typeOf m.mem = some .announce || typeOf m.mem = some .sync)) ||
    pathTraceIgnore host c port m ||
    (port.matchTransportSpecific && m.mem 0 &&& 0xf0 ≠ port.tsmtHigh) ||
    sourcePortIdentity m.mem = port.portIdentity.bytes host.endian ||
    m.mem Header.domainNumber.offset ≠ c.domainNumber ||
    bytesAt m.mem Header.clockIdentity.offset 8 = c.clockIdentity.bytes

/-- `clock_update_time_properties` with what an Announce says. -/
def setTimeProperties (m : Store ParseState) (c : TracingClock) : TracingClock :=
  { c with
    tds :=
      { currentUtcOffset := (UInt16.ofNat (hostWord host.endian m.mem
          Announce.currentUtcOffset.offset 2)).toInt16
        flags := m.mem Header.flagField1.offset
        timeSource := m.mem Announce.timeSource.offset } }

def fromBest (port : TracingPort) (m : Store ParseState) : Bool :=
  port.best.map (PortIdentity.bytes host.endian) = some (sourcePortIdentity m.mem)

/-- For the record: the master has announced its path. -/
def notePath (port : TracingPort) (m : Store ParseState) (c : TracingClock) :
    TracingClock :=
  if port.state = .passive then c
  else { c with expected := announcedPath host.endian m }

/-- The path of an Announce is stored; nothing where `memcpy` would leave the storage. -/
def storePath (port : TracingPort) (m : Store ParseState) (c : TracingClock) :
    Option TracingClock :=
  (c.dad.copy host.endian m.mem suffix).map fun dad =>
    notePath host port m { c with dad := dad }

/-- `_updateCurrentMaster`, but for the record of the master.  Announces of others go to
`_addForeignMaster`, which leaves all this alone; without a best record the source would
read through a null pointer. -/
def updateCurrentMaster (port : TracingPort) (m : Store ParseState) (c : TracingClock) :
    Option TracingClock :=
  if !fromBest host port m then some c
  else
    let c := if port.state ≠ .passive then setTimeProperties host m c else c
    if port.pathTraceEnabled then storePath host port m c else some c

def portMsgProAnnounce (port : TracingPort) (m : Store ParseState) (c : TracingClock) :
    Option TracingClock :=
  if hostWord host.endian m.mem Announce.stepsRemoved.offset 2 ≥ 255 then some c
  else
    match port.state with
    | .passive | .uncalibrated | .slave => updateCurrentMaster host port m c
    | _ => some c

/-- For the record: an Announce is passed on to its handler. -/
def noteUsed (port : TracingPort) (m : Store ParseState) (c : TracingClock) :
    TracingClock :=
  if port.pathTraceEnabled then { c with used := m :: c.used } else c

/-- What a transport reads into the buffer of a message. -/
structure Datagram where
  bytes : List UInt8
  fits : bytes.length ≤ messageDataSize

/-- A message of a port that has been read and parsed, if that succeeds. -/
def parsed (datagram : Datagram) (pool : TlvPool) : Option (Store ParseState) :=
  match ptpMsgReceive host datagram.bytes.length
      (receivedStore datagram.bytes (fun _ => 0) pool) with
  | (.ok (), m) => some m
  | (.error _, _) => none

/-- `bc_event` with a message on a socket of the port.  Messages of other types leave
all this alone. -/
def receive (p : ℕ) (capable : Bool) (datagram : Datagram) (pool : TlvPool)
    (c : TracingClock) : Option TracingClock :=
  match parsed host datagram pool with
  | none => some c
  | some m =>
      if portIgnore host c (c.ports p) capable m then some c
      else if typeOf m.mem = some .announce then
        portMsgProAnnounce host (c.ports p) m (noteUsed (c.ports p) m c)
      else some c

/-! ## Sending -/

def announceMembers (c : TracingClock) (port : TracingPort) (unicast : Bool) :
    List Member :=
  [uint8 Header.tsmt.offset (0x0b ||| port.tsmtHigh), uint8 Header.ver.offset 2,
    .unsigned Header.messageLength.offset 2 MsgType.announce.pduLength,
    uint8 Header.domainNumber.offset c.domainNumber,
    uint8 Header.flagField0.offset (if unicast then 4 else 0),
    uint8 Header.flagField1.offset c.tds.flags] ++
  PortIdentity.members Header.clockIdentity.offset port.portIdentity ++
  [uint16 Header.sequenceId.offset port.seqnumAnnounce, uint8 Header.control.offset 5,
    int8 Header.logMessageInterval.offset port.logAnnounceInterval,
    int16 Announce.currentUtcOffset.offset c.tds.currentUtcOffset,
    uint8 Announce.grandmasterPriority1.offset c.pds.grandmasterPriority1] ++
  ClockQuality.members Announce.clockClass.offset c.pds.grandmasterClockQuality ++
  [uint8 Announce.grandmasterPriority2.offset c.pds.grandmasterPriority2,
    .octets Announce.grandmasterIdentity.offset c.pds.grandmasterIdentity.bytes,
    uint16 Announce.stepsRemoved.offset c.stepsRemoved,
    uint8 Announce.timeSource.offset c.tds.timeSource]

/-- `port_tx_announce`, up to the sending. -/
def buildAnnounce (c : TracingClock) (port : TracingPort) (unicast : Bool) :
    WireM Unit := do
  writeMembers host.endian 0 (announceMembers c port unicast)
  if port.pathTraceEnabled then do
    let _ ← pathTraceAppend host c.clockIdentity c.dad
    pure ()
  else pure ()

/-- The message that `port_tx_announce` hands to `port_prepare_and_send`, if any. -/
def portTxAnnounce (c : TracingClock) (port : TracingPort) (unicast capable : Bool)
    (pool : TlvPool) : Option (Store ParseState) :=
  if port.inhibitMulticastService && !unicast then none
  else if !capable then none
  else some (buildAnnounce host c port unicast (receivedStore [] (fun _ => 0) pool)).2

/-! ## Runs -/

/-- A message arrives; the clock becomes its own grandmaster; or anything else happens,
which may change the data sets and the ports but not the path. -/
inductive Step
  | receive (p : ℕ) (capable : Bool) (datagram : Datagram) (pool : TlvPool)
  | updateGrandmaster
  | other (stepsRemoved : UInt16) (pds : ParentDs) (tds : TimePropertiesDs)
      (ports : ℕ → TracingPort)

/-- Nothing where a step writes outside the storage of the path. -/
def step (c : TracingClock) : Step → Option TracingClock
  | .receive p capable datagram pool => receive host p capable datagram pool c
  | .updateGrandmaster => some { c with dad := .cleared, expected := [] }
  | .other stepsRemoved pds tds ports =>
      some { c with stepsRemoved := stepsRemoved, pds := pds, tds := tds, ports := ports }

def run : List Step → TracingClock → Option TracingClock
  | [], c => some c
  | action :: rest, c => (step host c action).bind (run rest)

/-- As `clock_create` leaves it. -/
def created (c : TracingClock) : TracingClock :=
  { c with dad := .cleared, used := [], expected := [] }

/-! ## What is to hold -/

/-- No path trace TLV of the message lists the clock. -/
def LoopFree (c : TracingClock) (m : Store ParseState) : Prop :=
  ∀ extra ∈ m.rest.tlvList, isPathTrace host.endian m.mem extra →
    c.clockIdentity.bytes ∉ pathAt host.endian m.mem extra.tlv

/-- Every Announce that a port could send now has one TLV, which carries the path and
then the own identity, as far as there is room and a descriptor for it. -/
def Carries (c : TracingClock) (path : List (List UInt8)) : Prop :=
  ∀ p unicast capable pool m, (c.ports p).pathTraceEnabled →
    portTxAnnounce host c (c.ports p) unicast capable pool = some m →
    path.length + 1 ≤ pathTraceMax → (0 < pool.free ∨ ∀ calls, host.calloc calls) →
    m.rest.tlvList.length = 1 ∧
      announcedPath host.endian m = path ++ [c.clockIdentity.bytes]

/-- The stored path is that of the master, within the storage; Announces that have come
through the clock have not been used; and the path is what the clock announces. -/
structure Traces (c : TracingClock) : Prop where
  stored : c.dad.identities = c.expected
  bounded : c.expected.length ≤ pathTraceMax
  loopFree : ∀ m ∈ c.used, LoopFree host c m
  carried : Carries host c c.expected

/-! ## When it holds -/

/-- The Announce reaches the statements that store a path. -/
structure Stores (c : TracingClock) (port : TracingPort) (capable : Bool)
    (m : Store ParseState) : Prop where
  heeded : portIgnore host c port capable m = false
  announce : typeOf m.mem = some .announce
  stepsRemoved : hostWord host.endian m.mem Announce.stepsRemoved.offset 2 < 255
  state : port.state = .passive ∨ port.state = .uncalibrated ∨ port.state = .slave
  best : fromBest host port m = true
  enabled : port.pathTraceEnabled = true

/-- What stands behind the body of the Announce is its path: the first TLV is the path
trace or lists the same; without a path trace, there is not room for an identity in the
length that stands there. -/
def Leads (m : Store ParseState) : Prop :=
  match m.rest.tlvList.find? (isPathTrace host.endian m.mem) with
  | none => tlvLength host.endian m.mem suffix < sizeofClockIdentity
  | some extra =>
      extra.tlv = suffix ∨
        pathAt host.endian m.mem suffix = pathAt host.endian m.mem extra.tlv

/-- What stands behind the body of the Announce is the stored path. -/
def Repeats (c : TracingClock) (m : Store ParseState) : Prop :=
  tlvLength host.endian m.mem suffix ≤ pathTraceMax * sizeofClockIdentity ∧
    pathAt host.endian m.mem suffix = c.dad.identities

/-- Announces of the master begin with their path, and those of the best record of a
passive port with the stored one. -/
def Meets (c : TracingClock) : Step → Prop
  | .receive p capable datagram pool =>
      ∀ m, parsed host datagram pool = some m → Stores host c (c.ports p) capable m →
        if (c.ports p).state = .passive then Repeats host c m else Leads host m
  | _ => True

def MeetsAll : List Step → TracingClock → Prop
  | [], _ => True
  | action :: rest, c =>
      Meets host c action ∧ ∀ c', step host c action = some c' → MeetsAll rest c'

end

/-! ## Sending -/

section

variable {host : Host} {c c' : TracingClock} {port : TracingPort} {unicast : Bool}
variable {mem : Memory}

theorem announceMembers_disjoint :
    (announceMembers c port unicast).Pairwise Member.Disjoint := by
  refine Member.disjoint_of_isChain ?_
  simp [announceMembers, PortIdentity.members, ClockQuality.members, uint8, uint16, int8,
    int16, Member.Before, Member.offset, Member.width, Header.tsmt, Header.ver,
    Header.messageLength, Header.domainNumber, Header.flagField0, Header.flagField1,
    Header.clockIdentity, Header.sequenceId, Header.control, Header.logMessageInterval,
    Wire.Announce.currentUtcOffset, Wire.Announce.grandmasterPriority1,
    Wire.Announce.clockClass, Wire.Announce.grandmasterPriority2,
    Wire.Announce.grandmasterIdentity, Wire.Announce.stepsRemoved,
    Wire.Announce.timeSource, ClockIdentity.bytes]

/-- The fixed part of an Announce that is to be sent. -/
theorem announceMembers_start :
    typeOf (Member.storeAll host.endian 0 (announceMembers c port unicast) mem) =
        some .announce ∧
      hostWord host.endian
        (Member.storeAll host.endian 0 (announceMembers c port unicast) mem) 2 2 =
          MsgType.announce.pduLength := by
  have hreads : ∀ member ∈ announceMembers c port unicast, member.Fits →
      member.ReadsAs host.endian
        (Member.storeAll host.endian 0 (announceMembers c port unicast) mem) 0 :=
    fun member hmember hfits =>
      (Member.readsAs_iff_fits (Member.bytesAt_storeAll announceMembers_disjoint
        hmember)).mpr hfits
  constructor
  · have htype := hreads (uint8 0 (0x0b ||| port.tsmtHigh))
      (by simp [announceMembers, Header.tsmt]) (by
        have := (0x0b ||| port.tsmtHigh).toNat_lt
        exact ⟨Int.natCast_nonneg _, mod_cast this⟩)
    have hbyte : hostWord host.endian
        (Member.storeAll host.endian 0 (announceMembers c port unicast) mem) 0 1 =
          (0x0b ||| port.tsmtHigh).toNat := Int.ofNat_inj.mp htype
    have hcode : ∀ number : Fin 16,
        MsgType.ofCode ((0x0b ||| UInt8.ofNat (16 * number)).toNat % 16) = some .announce := by
      decide
    rw [hostWord_byte] at hbyte
    rw [typeOf, hbyte]
    exact hcode port.transportSpecific
  · have hlength := hreads (.unsigned 2 2 MsgType.announce.pduLength)
      (by simp [announceMembers, Header.messageLength]) (by decide)
    exact Int.ofNat_inj.mp hlength

theorem buildAnnounce_carries {store : Store ParseState}
    (hport : port.pathTraceEnabled = true) (hempty : store.rest.tlvList = [])
    (hfits : c.dad.pathLength < pathTraceMax) (hsupply : HasDescriptors host store.rest 1) :
    (buildAnnounce host c port unicast store).2.rest.tlvList.length = 1 ∧
      announcedPath host.endian (buildAnnounce host c port unicast store).2 =
        c.dad.identities ++ [c.clockIdentity.bytes] := by
  obtain ⟨spans, hfill⟩ : ∃ spans,
      (writeMembers host.endian 0 (announceMembers c port unicast) : WireM Unit) store =
        (.ok (), ⟨Member.storeAll host.endian 0 (announceMembers c port unicast) store.mem,
          spans, store.rest⟩) :=
    Runs.writeMembers host.endian 0 (announceMembers c port unicast) store.mem store.spans
      store.rest
  obtain ⟨htype, hlength⟩ := @announceMembers_start host c port unicast store.mem
  generalize Member.storeAll host.endian 0 (announceMembers c port unicast) store.mem =
    filled at hfill htype hlength
  have hstart : HostTlv.Built host.endian .announce filled []
      ⟨filled, spans, store.rest⟩ :=
    @HostTlv.built_start host.endian .announce ⟨filled, spans, store.rest⟩ hempty hlength
  obtain ⟨final, happend, hbuilt⟩ :=
    @StoredPath.pathTraceAppend_built c.clockIdentity c.dad host filled
      ⟨filled, spans, store.rest⟩ htype hstart hfits hsupply
  have hbuild : buildAnnounce host c port unicast store = (.ok (), final) := by
    rw [buildAnnounce, bind_run, hfill, if_pos hport]
    dsimp only
    rw [bind_run, happend]
    rfl
  rw [hbuild]
  exact StoredPath.announcedPath_built hbuilt

theorem carries_identities : Carries host c c.dad.identities := by
  intro p unicast capable pool m hport hsend hfits hsupply
  rw [portTxAnnounce] at hsend
  split_ifs at hsend
  obtain rfl := Option.some.inj hsend
  rw [StoredPath.length_identities] at hfits
  exact buildAnnounce_carries hport rfl hfits hsupply

/-! ## Announces that leave the path alone -/

/-- A clock after something that has left the path alone. -/
structure Follows (host : Host) (c c' : TracingClock) : Prop where
  dad : c'.dad = c.dad
  expected : c'.expected = c.expected
  identity : c'.clockIdentity = c.clockIdentity
  used : ∀ m ∈ c'.used, m ∈ c.used ∨ LoopFree host c m

theorem traces_of_stored (hstored : c.dad.identities = c.expected)
    (hfree : ∀ m ∈ c.used, LoopFree host c m) : Traces host c where
  stored := hstored
  bounded := by
    rw [← hstored, StoredPath.length_identities]
    exact c.dad.fits
  loopFree := hfree
  carried := hstored ▸ carries_identities

theorem LoopFree.congr {m : Store ParseState} (hfree : LoopFree host c m)
    (hidentity : c'.clockIdentity = c.clockIdentity) : LoopFree host c' m := by
  unfold LoopFree
  rw [hidentity]
  exact hfree

theorem Follows.refl : Follows host c c := ⟨rfl, rfl, rfl, fun _ => Or.inl⟩

theorem Follows.loopFree (hfollows : Follows host c c')
    (hfree : ∀ m ∈ c.used, LoopFree host c m) : ∀ m ∈ c'.used, LoopFree host c' m :=
  fun m hm => ((hfollows.used m hm).elim (hfree m) id).congr hfollows.identity

theorem Follows.traces (hfollows : Follows host c c') (htraces : Traces host c) :
    Traces host c' := by
  refine traces_of_stored ?_ (hfollows.loopFree htraces.loopFree)
  rw [hfollows.dad, hfollows.expected]
  exact htraces.stored

variable {m : Store ParseState} {capable : Bool}

/-- An Announce that a port which traces paths does not ignore has not come through the
clock. -/
theorem loopFree_of_heeded (hheeded : portIgnore host c port capable m = false)
    (htype : typeOf m.mem = some .announce) (henabled : port.pathTraceEnabled = true) :
    LoopFree host c m := by
  simp only [portIgnore, Bool.or_eq_false_iff] at hheeded
  have htrace := hheeded.1.1.1.1.2
  rw [pathTraceIgnore, henabled, htype] at htrace
  simp only [decide_true, Bool.true_and, List.any_eq_false, List.mem_filter,
    List.contains_iff_mem] at htrace
  exact fun extra hextra hpath => htrace extra ⟨hextra, hpath⟩

theorem noteUsed_follows (hheeded : portIgnore host c port capable m = false)
    (htype : typeOf m.mem = some .announce) : Follows host c (noteUsed port m c) := by
  rw [noteUsed]
  split
  · rename_i henabled
    refine ⟨rfl, rfl, rfl, fun other hother => ?_⟩
    rcases List.mem_cons.mp hother with rfl | hother
    · exact Or.inr (loopFree_of_heeded hheeded htype henabled)
    · exact Or.inl hother
  · exact .refl

theorem Follows.setTimeProperties (hfollows : Follows host c c') :
    Follows host c (setTimeProperties host m c') :=
  ⟨hfollows.dad, hfollows.expected, hfollows.identity, hfollows.used⟩

/-- Time properties may have been taken over before the path is looked at. -/
theorem Follows.prepared (hfollows : Follows host c c') :
    Follows host c
      (if port.state ≠ .passive then PathTrace.setTimeProperties host m c' else c') := by
  split
  · exact hfollows.setTimeProperties
  · exact hfollows

theorem updateCurrentMaster_quiet (hfollows : Follows host c c')
    (hquiet : ¬(fromBest host port m = true ∧ port.pathTraceEnabled = true)) :
    ∃ c'', updateCurrentMaster host port m c' = some c'' ∧ Follows host c c'' := by
  rw [updateCurrentMaster]
  by_cases hbest : fromBest host port m
  · rw [if_neg (by simp [hbest]), if_neg fun henabled => hquiet ⟨hbest, henabled⟩]
    exact ⟨_, rfl, hfollows.prepared⟩
  · rw [if_pos (by simp [hbest])]
    exact ⟨c', rfl, hfollows⟩

theorem portMsgProAnnounce_quiet (hheeded : portIgnore host c port capable m = false)
    (htype : typeOf m.mem = some .announce) (hquiet : ¬Stores host c port capable m)
    (hfollows : Follows host c c') :
    ∃ c'', portMsgProAnnounce host port m c' = some c'' ∧ Follows host c c'' := by
  rw [portMsgProAnnounce]
  split
  · exact ⟨c', rfl, hfollows⟩
  rename_i hsteps
  have hnot : (port.state = .passive ∨ port.state = .uncalibrated ∨ port.state = .slave) →
      ¬(fromBest host port m = true ∧ port.pathTraceEnabled = true) :=
    fun hstate hboth =>
      hquiet ⟨hheeded, htype, not_le.mp hsteps, hstate, hboth.1, hboth.2⟩
  cases hstate : port.state with
  | passive | uncalibrated | slave =>
    exact updateCurrentMaster_quiet hfollows (hnot (by simp [hstate]))
  | _ => exact ⟨c', rfl, hfollows⟩

theorem portMsgProAnnounce_stores (hstores : Stores host c port capable m)
    (hfollows : Follows host c c') :
    ∃ c'', Follows host c c'' ∧
      portMsgProAnnounce host port m c' = storePath host port m c'' := by
  refine ⟨_, @Follows.prepared host c c' port m hfollows, ?_⟩
  rw [portMsgProAnnounce, if_neg (not_le.mpr hstores.stepsRemoved)]
  have hupdate : updateCurrentMaster host port m c' = storePath host port m
      (if port.state ≠ .passive then PathTrace.setTimeProperties host m c' else c') := by
    rw [updateCurrentMaster, if_neg (by simp [hstores.best]), if_pos hstores.enabled]
  rcases hstores.state with hstate | hstate | hstate
  all_goals
    rw [← hupdate, hstate]

variable {p : ℕ} {datagram : Datagram} {pool : TlvPool}

theorem receive_quiet (hquiet : ∀ m, parsed host datagram pool = some m →
    ¬Stores host c (c.ports p) capable m) :
    ∃ c', receive host p capable datagram pool c = some c' ∧ Follows host c c' := by
  rw [receive]
  cases hparsed : parsed host datagram pool with
  | none => exact ⟨c, rfl, .refl⟩
  | some m =>
    simp only
    split
    · exact ⟨c, rfl, .refl⟩
    rename_i hheeded
    have hheeded := Bool.eq_false_of_not_eq_true hheeded
    split
    · rename_i htype
      exact portMsgProAnnounce_quiet hheeded htype (hquiet m hparsed)
        (noteUsed_follows hheeded htype)
    · exact ⟨c, rfl, .refl⟩

theorem receive_stores (hparsed : parsed host datagram pool = some m)
    (hstores : Stores host c (c.ports p) capable m) :
    ∃ c', Follows host c c' ∧ receive host p capable datagram pool c =
      storePath host (c.ports p) m c' := by
  rw [receive, hparsed]
  simp only
  rw [if_neg (by simp [hstores.heeded]), if_pos hstores.announce]
  exact portMsgProAnnounce_stores hstores
    (noteUsed_follows hstores.heeded hstores.announce)

/-! ## Announces whose path is stored -/

/-- Where the first TLV lies and how long it is at most. -/
theorem parsed_first (hparsed : parsed host datagram pool = some m)
    (htype : typeOf m.mem = some .announce) (hsome : m.rest.tlvList ≠ []) :
    tlvLength host.endian m.mem suffix ≤ pathTraceMax * sizeofClockIdentity := by
  unfold parsed at hparsed
  split at hparsed
  · rename_i received hreceive
    obtain rfl := Option.some.inj hparsed
    exact ptpMsgReceive_firstLength hreceive
      ((ptpMsgReceive_typeOf hreceive).symm.trans htype) rfl datagram.fits hsome
  · exact absurd hparsed (Option.some_ne_none _).symm

/-- The path of an Announce of the master is stored as it is announced exactly when it
stands behind the body. -/
theorem leads_iff (hparsed : parsed host datagram pool = some m)
    (htype : typeOf m.mem = some .announce) :
    (tlvLength host.endian m.mem suffix ≤ pathTraceMax * sizeofClockIdentity ∧
      pathAt host.endian m.mem suffix = announcedPath host.endian m) ↔ Leads host m := by
  rw [Leads, announcedPath]
  cases hfind : m.rest.tlvList.find? (isPathTrace host.endian m.mem) with
  | none =>
    have hmax : pathTraceMax * sizeofClockIdentity = 1432 := rfl
    have hempty : pathAt host.endian m.mem suffix = [] ↔
        tlvLength host.endian m.mem suffix < sizeofClockIdentity := by
      rw [← List.length_eq_zero_iff, pathAt, length_recordsAt, pathLength,
        Nat.div_eq_zero_iff]
      simp [sizeofClockIdentity]
    simp only
    rw [hempty, hmax, sizeofClockIdentity]
    omega
  | some extra =>
    have hsome : m.rest.tlvList ≠ [] :=
      List.ne_nil_of_mem (List.mem_of_find?_eq_some hfind)
    simp only
    constructor
    · exact fun hsame => Or.inr hsame.2
    · rintro (hfirst | hsame)
      · exact ⟨parsed_first hparsed htype hsome, by rw [hfirst]⟩
      · exact ⟨parsed_first hparsed htype hsome, hsame⟩

theorem copy_iff {dad : StoredPath} {path : List (List UInt8)} :
    (∃ dad', dad.copy host.endian m.mem suffix = some dad' ∧ dad'.identities = path) ↔
      tlvLength host.endian m.mem suffix ≤ pathTraceMax * sizeofClockIdentity ∧
        pathAt host.endian m.mem suffix = path := by
  rw [← @StoredPath.copy_isSome_iff dad]
  constructor
  · rintro ⟨dad', hcopy, hpath⟩
    exact ⟨by rw [hcopy]; rfl, (StoredPath.identities_copy hcopy).symm.trans hpath⟩
  · rintro ⟨hsome, hpath⟩
    obtain ⟨dad', hcopy⟩ := Option.isSome_iff_exists.mp hsome
    exact ⟨dad', hcopy, (StoredPath.identities_copy hcopy).trans hpath⟩

/-- What the clock is expected to announce after the Announce. -/
theorem notePath_expected :
    (notePath host port m c).expected =
      if port.state = .passive then c.expected else announcedPath host.endian m := by
  rw [notePath]
  split <;> rfl

theorem storePath_iff (hfree : ∀ m ∈ c.used, LoopFree host c m) :
    (∃ c', storePath host port m c = some c' ∧ Traces host c') ↔
      tlvLength host.endian m.mem suffix ≤ pathTraceMax * sizeofClockIdentity ∧
        pathAt host.endian m.mem suffix =
          if port.state = .passive then c.expected else announcedPath host.endian m := by
  rw [← @copy_iff host m c.dad]
  have hkept : ∀ dad, (notePath host port m { c with dad := dad }).dad = dad ∧
      (notePath host port m { c with dad := dad }).clockIdentity = c.clockIdentity ∧
      (notePath host port m { c with dad := dad }).used = c.used := by
    intro dad
    rw [notePath]
    split <;> exact ⟨rfl, rfl, rfl⟩
  constructor
  · rintro ⟨c', hstore, htraces⟩
    obtain ⟨dad', hcopy, rfl⟩ := Option.map_eq_some_iff.mp hstore
    refine ⟨dad', hcopy, ?_⟩
    rw [← (hkept dad').1, htraces.stored, notePath_expected]
  · rintro ⟨dad', hcopy, hpath⟩
    obtain ⟨hdad, hidentity, hused⟩ := hkept dad'
    refine ⟨_, Option.map_eq_some_iff.mpr ⟨dad', hcopy, rfl⟩, traces_of_stored ?_ ?_⟩
    · rw [hdad, hpath, notePath_expected]
    · rw [hused]
      exact fun m hm => (hfree m hm).congr hidentity

/-! ## Runs -/

/-- One step keeps what is to hold exactly when it meets the condition. -/
theorem step_traces_iff (htraces : Traces host c) (action : Step) :
    (∃ c', step host c action = some c' ∧ Traces host c') ↔ Meets host c action := by
  cases action with
  | updateGrandmaster =>
    exact iff_of_true ⟨_, rfl, traces_of_stored StoredPath.identities_cleared
      htraces.loopFree⟩ trivial
  | other stepsRemoved pds tds ports =>
    exact iff_of_true ⟨_, rfl, traces_of_stored htraces.stored htraces.loopFree⟩ trivial
  | receive p capable datagram pool =>
    rw [step, Meets]
    by_cases hsome : ∃ m, parsed host datagram pool = some m ∧
        Stores host c (c.ports p) capable m
    · obtain ⟨m, hparsed, hstores⟩ := hsome
      obtain ⟨c', hfollows, hreceive⟩ := receive_stores hparsed hstores
      rw [hreceive, storePath_iff (hfollows.loopFree htraces.loopFree), hfollows.expected,
        ← htraces.stored]
      have hmeets : (∀ m', parsed host datagram pool = some m' →
          Stores host c (c.ports p) capable m' →
          if (c.ports p).state = .passive then Repeats host c m' else Leads host m') ↔
            if (c.ports p).state = .passive then Repeats host c m else Leads host m := by
        constructor
        · exact fun hall => hall m hparsed hstores
        · intro hthis m' hparsed' _
          obtain rfl := Option.some.inj (hparsed.symm.trans hparsed')
          exact hthis
      rw [hmeets]
      split
      · exact Iff.rfl
      · exact leads_iff hparsed hstores.announce
    · have hquiet : ∀ m, parsed host datagram pool = some m →
          ¬Stores host c (c.ports p) capable m :=
        fun m hparsed hstores => hsome ⟨m, hparsed, hstores⟩
      obtain ⟨c', hreceive, hfollows⟩ := receive_quiet hquiet
      exact iff_of_true ⟨c', hreceive, hfollows.traces htraces⟩
        fun m hparsed hstores => absurd hstores (hquiet m hparsed)

theorem created_traces : Traces host (created c) :=
  traces_of_stored StoredPath.identities_cleared (fun _ hm => absurd hm List.not_mem_nil)

theorem run_traces_iff (htraces : Traces host c) (actions : List Step) :
    (∀ before, before <+: actions → ∃ c', run host before c = some c' ∧ Traces host c') ↔
      MeetsAll host actions c := by
  induction actions generalizing c with
  | nil =>
    refine iff_of_true (fun before hbefore => ?_) trivial
    obtain rfl := List.prefix_nil.mp hbefore
    exact ⟨c, rfl, htraces⟩
  | cons action rest ih =>
    rw [MeetsAll, ← step_traces_iff htraces]
    constructor
    · intro hall
      obtain ⟨c', hrun, htraces₁⟩ := hall [action] ⟨rest, rfl⟩
      obtain ⟨c₁, hstep, hsame⟩ := Option.bind_eq_some_iff.mp hrun
      obtain rfl := Option.some.inj hsame
      refine ⟨⟨c₁, hstep, htraces₁⟩, fun c' hstep' => ?_⟩
      obtain rfl := Option.some.inj (hstep.symm.trans hstep')
      refine (ih htraces₁).mp fun before hbefore => ?_
      obtain ⟨c₂, hrun₂, htraces₂⟩ :=
        hall (action :: before) (List.cons_prefix_cons.mpr ⟨rfl, hbefore⟩)
      rw [run, hstep, Option.bind_some] at hrun₂
      exact ⟨c₂, hrun₂, htraces₂⟩
    · rintro ⟨⟨c₁, hstep, htraces₁⟩, hrest⟩ before hbefore
      cases before with
      | nil => exact ⟨c, rfl, htraces⟩
      | cons first before =>
        obtain ⟨rfl, hrestBefore⟩ := List.cons_prefix_cons.mp hbefore
        rw [run, hstep, Option.bind_some]
        exact (ih htraces₁).mpr (hrest c₁ hstep) before hrestBefore

/-- In every state of a run the stored path is that of the master, Announces with the
clock in their path have not been used and what the clock announces is the stored path
and its own identity: exactly when every Announce of the master begins with its path. -/
theorem pathTrace_iff (host : Host) (c : TracingClock) (actions : List Step) :
    (∀ before, before <+: actions →
      ∃ c', run host before (created c) = some c' ∧ Traces host c') ↔
      MeetsAll host actions (created c) :=
  run_traces_iff created_traces actions

end

/-- A clock whose ports trace paths and follow the port of another clock. -/
def tracingClock : TracingClock where
  clockIdentity := ⟨Vector.replicate 8 1⟩
  domainNumber := 0
  stepsRemoved := 1
  pds := reportedClock.pds
  tds := reportedClock.tds
  dad := .cleared
  ports _ :=
    { portIdentity := ⟨⟨Vector.replicate 8 1⟩, 1⟩
      state := .slave
      best := some ⟨⟨Vector.replicate 8 9⟩, 1⟩
      pathTraceEnabled := true
      matchTransportSpecific := false
      inhibitMulticastService := false
      transportSpecific := 0
      logAnnounceInterval := 1
      seqnumAnnounce := 0 }
  used := []
  expected := []

/-- An Announce of that clock, with an alternate time offset before its path trace. -/
def offsetFirst : List UInt8 :=
  [0x0b, 2, 0, 88] ++ List.replicate 16 0 ++ List.replicate 8 9 ++ [0, 1] ++
    List.replicate 34 0 ++ [0, 9, 0, 8, 7, 7, 7, 7, 7, 7, 7, 7] ++ [0, 8, 0, 8] ++
    List.replicate 8 9

theorem length_offsetFirst : offsetFirst.length ≤ messageDataSize := by decide

/-- The offset is stored for the path. -/
theorem not_pathTrace_offsetFirst :
    ¬∀ before, before <+: [Step.receive 0 true ⟨offsetFirst, length_offsetFirst⟩ ⟨4, 0⟩] →
      ∃ c', run smallHost before (created tracingClock) = some c' ∧
        Traces smallHost c' := by
  intro hall
  obtain ⟨c', hrun, htraces⟩ := hall _ List.prefix_rfl
  have hpaths : (run smallHost
      [Step.receive 0 true ⟨offsetFirst, length_offsetFirst⟩ ⟨4, 0⟩]
      (created tracingClock)).map (fun c' => (c'.dad.identities, c'.expected)) =
        some ([List.replicate 8 7], [List.replicate 8 9]) := by decide +kernel
  rw [hrun] at hpaths
  obtain ⟨hstored, hexpected⟩ := Prod.mk.inj (Option.some.inj hpaths)
  have hsame := hstored.symm.trans (htraces.stored.trans hexpected)
  exact absurd hsame (by decide)

end LinuxPtp.Clock.PathTrace
