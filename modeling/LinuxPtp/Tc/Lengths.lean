import LinuxPtp.Clock.MgmtForward
import LinuxPtp.Tc.Ownership
import LinuxPtp.Tc.Traffic

/-!
# The lengths that transports are given

Whatever a transparent clock hands to a transport has the length that its
header shows, and forwarding never changes that word of the header.  For a
received message it is the word on the wire, which nothing compares with the
size of the datagram; for a Follow_Up that stands in for a one-step Sync it is
what `tc_fwd_sync` has stored, in the byte order of the host.
-/

namespace LinuxPtp.Tc

open ByteOrder Access Wire Port

def datagramLength (datagram : List UInt8) : ℕ :=
  netWord (datagramMem datagram) 2 2

/-- `messageLength` of a Follow_Up that stands in for a Sync, as the wire shows
it. -/
def standInLength (env : Env) : ℕ :=
  bigValue (env.host.endian.encode 2 MsgType.followUp.pduLength)

/-- What the first bytes of a message say, by its origin. -/
def Shows (env : Env) (origin : Origin) (mem : Memory) : Prop :=
  match origin with
  | .blank => True
  | .received datagram =>
      netWord mem 2 2 = datagramLength datagram ∧
        mem 0 = datagramMem datagram 0 ∧
        fieldIsSet (datagramMem datagram) unicastFlag = false
  | .standsIn _ => netWord mem 2 2 = standInLength env

/-- What has been handed to a transport, by its origin. -/
def Fits (env : Env) (entry : Handed) : Prop :=
  match entry.origin with
  | .blank => True
  | .received datagram =>
      entry.length = datagramLength datagram ∧
        Forwards (messageType (datagramMem datagram)) ∧
        fieldIsSet (datagramMem datagram) unicastFlag = false
  | .standsIn _ => entry.length = standInLength env

/-- Headers show the lengths that go with the messages, and so did the headers
of all that has been handed to a transport. -/
structure LengthsShown (env : Env) (s : TcState) : Prop where
  msgs : ∀ m, Shows env (s.msgs m).origin (s.msgs m).mem
  handed : ∀ entry ∈ s.handed, Fits env entry

/-- The bytes of the synthesized Follow_Up around `messageLength` are those of
the format's own length. -/
theorem netWord_synthesizedFollowUp (env : Env) (sync blank : Memory) :
    netWord (synthesizedFollowUp env sync blank) 2 2 = standInLength env := by
  unfold synthesizedFollowUp standInLength
  cases env.host.endian <;> rfl

/-- Bytes behind `messageLength` may be overwritten. -/
theorem Shows.storeBytes {env : Env} {origin : Origin} {mem : Memory}
    {offset : ℕ} (bytes : List UInt8) (hoffset : 4 ≤ offset)
    (hshows : Shows env origin mem) :
    Shows env origin (storeBytes mem offset bytes) := by
  have hword : netWord (ByteOrder.storeBytes mem offset bytes) 2 2 =
      netWord mem 2 2 :=
    netWord_congr fun i _ hi => storeBytes_outside _ _ (Or.inl (by omega))
  cases origin with
  | blank => trivial
  | received datagram =>
    exact ⟨hword.trans hshows.1,
      (storeBytes_first mem bytes hoffset).trans hshows.2.1, hshows.2.2⟩
  | standsIn sync => exact hword.trans hshows

/-- One message is replaced by another that shows its length. -/
theorem LengthsShown.modifyMsg {env : Env} {s : TcState}
    (hshown : LengthsShown env s) (m : ℕ) (f : PtpMessage → PtpMessage)
    (hf : Shows env (f (s.msgs m)).origin (f (s.msgs m)).mem) :
    LengthsShown env (s.modifyMsg m f) where
  msgs m' := by
    by_cases hm : m' = m
    · subst hm
      simpa [TcState.modifyMsg] using hf
    · simpa [TcState.modifyMsg, hm] using hshown.msgs m'
  handed := hshown.handed

/-- What is handed over has the length and the type of its datagram. -/
theorem LengthsShown.hand {env : Env} {s : TcState} {m : ℕ}
    (hshown : LengthsShown env s) (p : ℕ) (bytes : List UInt8) (txts : Option ℕ)
    (htype : Forwards (messageType (s.msgs m).mem)) :
    LengthsShown env (handOver env p m bytes txts s) where
  msgs := hshown.msgs
  handed entry hentry := by
    rcases List.mem_append.mp hentry with hentry | hentry
    · exact hshown.handed entry hentry
    have hshows := hshown.msgs m
    rw [List.mem_singleton.mp hentry, Fits]
    simp only [transportLength, ntoh_hostWord]
    cases horigin : (s.msgs m).origin with
    | blank => trivial
    | received datagram =>
      rw [horigin] at hshows
      refine ⟨hshows.1, ?_, hshows.2.2⟩
      rw [messageType, show Header.tsmt.offset = 0 from rfl] at htype ⊢
      exact hshows.2.1 ▸ htype
    | standsIn sync =>
      rw [horigin] at hshows
      exact hshows

theorem lengthsShown_preserved (env : Env) : Preserved env (LengthsShown env) where
  same hsame hshown := by
    refine ⟨fun m => ?_, fun entry hentry =>
      hshown.handed entry (hsame.handed ▸ hentry)⟩
    rw [hsame.mem, hsame.origin]
    exact hshown.msgs m
  store m _ bytes hoffset hshown :=
    hshown.modifyMsg m _ ((hshown.msgs m).storeBytes bytes hoffset)
  hand p _ bytes txts htype hshown := hshown.hand p bytes txts htype
  fresh m hshown := hshown.modifyMsg m _ trivial
  fill m datagram hwts hfresh hshown := hshown.modifyMsg m _ (by
    rw [hfresh]
    trivial)
  mark m datagram hmem hunicast hshown := hshown.modifyMsg m _
    ⟨by rw [hmem, datagramLength], by rw [hmem], hunicast⟩
  standIn m fup hshown :=
    hshown.modifyMsg fup _ (netWord_synthesizedFollowUp env _ _)

/-- Every length that a transport is given in a run of a transparent clock is
the one that goes with the origin of the message. -/
theorem lengthsShown_run (env : Env) (ports : ℕ → TcPort) (failed : ℕ → Bool)
    (actions : List Action) :
    LengthsShown env (Stepping.run (step env) actions
      (TcState.initial ports failed)) :=
  (lengthsShown_preserved env).run actions
    ⟨fun _ => trivial, fun _ hentry => absurd hentry List.not_mem_nil⟩

/-! ## Follow_Ups that stand in for one-step Syncs -/

/-- A datagram that a transport was given is a Follow_Up for the Sync. -/
structure StandsIn (host : Host) (sync : Memory) (entry : Handed) : Prop where
  messageLength : datagramLength entry.bytes = MsgType.followUp.pduLength
  length : entry.length = MsgType.followUp.pduLength
  parsed : ∀ pool, ∃ final, ptpMsgReceive host entry.length
      (receivedStore entry.bytes (fun _ => 0) pool) = (.ok (), final) ∧
    typeOf final.mem = some .followUp ∧
    final.mem Header.domainNumber.offset = sync Header.domainNumber.offset ∧
    bytesAt final.mem Header.clockIdentity.offset 8 =
      bytesAt sync Header.clockIdentity.offset 8 ∧
    hostWord host.endian final.mem Header.portNumber.offset 2 =
      netWord sync Header.portNumber.offset 2 ∧
    hostWord host.endian final.mem Header.sequenceId.offset 2 =
      netWord sync Header.sequenceId.offset 2 ∧
    final.mem Header.logMessageInterval.offset =
      sync Header.logMessageInterval.offset

/-- On a little-endian host every Follow_Up that stands in for a one-step Sync
is sent with a length that is not that of a Follow_Up. -/
theorem standsIn_never (env : Env) (hlittle : env.host.endian = .little)
    (ports : ℕ → TcPort) (failed : ℕ → Bool) (actions : List Action)
    (entry : Handed) (hentry : entry ∈ (Stepping.run (step env) actions
      (TcState.initial ports failed)).handed) (sync : Memory)
    (horigin : entry.origin = .standsIn sync) :
    ¬StandsIn env.host sync entry := by
  intro hstands
  have hfits := (lengthsShown_run env ports failed actions).handed entry hentry
  rw [Fits, horigin] at hfits
  have hlength : standInLength env = 11264 := by
    rw [standInLength, hlittle]
    rfl
  have hwrong := hstands.length.symm.trans (hfits.trans hlength)
  exact absurd hwrong (by decide)

def oneStepSync : List UInt8 :=
  [0x00, 0x02, 0, 44, 0, 0, 0, 0, 0, 0, 0, 0, 0, 0, 0, 0, 0, 0, 0, 0,
    0, 0x1b, 0x19, 0xff, 0xfe, 0, 0, 1, 0, 1, 0, 7, 0, 0,
    0, 0, 0, 0, 0, 0, 0, 0, 0, 0]

def afterOneStepSync : TcState :=
  Stepping.run (step (twoPortEnv 9)) [.receive 1 oneStepSync 1000]
    (TcState.initial twoPorts fun _ => false)

/-- The last thing handed over is the Follow_Up. -/
def standInSent : Handed :=
  afterOneStepSync.handed.getLast (by decide)

theorem oneStepSync_not_standsIn :
    standInSent ∈ afterOneStepSync.handed ∧
      (∃ sync, standInSent.origin = .standsIn sync ∧
        messageType sync = some .sync ∧
        oneStep (twoPortEnv 9) sync = true ∧
        ¬StandsIn (twoPortEnv 9).host sync standInSent) ∧
      standInSent.port = 2 ∧ standInSent.length = 11264 := by
  refine ⟨List.getLast_mem _, ⟨_, rfl, by decide, by decide, fun hstands => ?_⟩,
    by decide, by decide⟩
  exact absurd hstands.length (by decide)

theorem standsIn_never_oneStepSync :
    ∃ sync, ¬StandsIn (twoPortEnv 9).host sync standInSent :=
  ⟨_, standsIn_never (twoPortEnv 9) rfl twoPorts (fun _ => false)
    [.receive 1 oneStepSync 1000] standInSent (List.getLast_mem _) _ rfl⟩

end LinuxPtp.Tc
