import LinuxPtp.Tc.ReceivedBytes
import LinuxPtp.Ordinary.BestRecord

/-!
# Announces that travel

How many transparent clocks an Announce may pass.  Each that belongs to a spanning tree
adds one to `stepsRemoved`, a 16-bit word, and the port that receives the Announce in the
end drops it from 255 on.
-/

namespace LinuxPtp.Tc

open ByteOrder Access Wire Port

def stepsRemoved (datagram : List UInt8) : ℕ :=
  netWord (datagramMem datagram) Announce.stepsRemoved.offset 2

/-- A transparent clock receives an Announce on a port of a spanning tree, in some run,
and hands the bytes `sent` to a port. -/
def Hop (datagram sent : List UInt8) : Prop :=
  messageType (datagramMem datagram) = some .announce ∧
  ∃ (env : Env) (ports : ℕ → TcPort) (failed : ℕ → Bool) (actions : List Action)
    (q : ℕ) (hwts : ℤ),
    let s := Stepping.run (step env) actions (TcState.initial ports failed)
    (s.ports q).tcSpanningTree = true ∧
      ∃ entry ∈ (tcReceive env q datagram hwts s).handed.drop s.handed.length,
        entry.bytes = sent

/-- An Announce travels through a number of transparent clocks. -/
inductive Travels : ℕ → List UInt8 → List UInt8 → Prop
  | here (datagram : List UInt8) : Travels 0 datagram datagram
  | hop {n : ℕ} {datagram between sent : List UInt8} :
      Travels n datagram between → Hop between sent → Travels (n + 1) datagram sent

/-- A port has parsed the datagram into the message. -/
structure ReadAs (host : Host) (datagram : List UInt8) (m : Ordinary.Message) :
    Prop where
  announce : messageType (datagramMem datagram) = some .announce
  parsed : ∃ pool final, ptpMsgReceive host datagram.length
      (receivedStore datagram (fun _ => 0) pool) = (.ok (), final) ∧
    m.announce.stepsRemoved.toNat =
      hostWord host.endian final.mem Announce.stepsRemoved.offset 2

/-- Some port does not just drop the Announce. -/
def Qualified (m : Ordinary.Message) : Prop :=
  ∃ env p s, Ordinary.portMsgProAnnounce env p m s ≠ (false, s)

/-! ## One hop -/

/-- A parsed Announce has all its members. -/
theorem announce_length {host : Host} {datagram : List UInt8} {pool : TlvPool}
    {final : Store ParseState}
    (hparsed : ptpMsgReceive host datagram.length
      (receivedStore datagram (fun _ => 0) pool) = (.ok (), final))
    (htype : messageType (datagramMem datagram) = some .announce) :
    64 ≤ datagram.length := by
  obtain ⟨-, type, hknown, hpdu, -⟩ := ptpMsgReceive_eq_ok host hparsed
  have hsame : some type = some .announce := hknown.symm.trans htype
  obtain rfl := Option.some.inj hsame
  exact hpdu

/-- The count of an Announce is stored as the network has it. -/
theorem netWord_countStep (env : Env) (m : ℕ) (s : TcState) :
    netWord ((countStep env m s).msgs m).mem Announce.stepsRemoved.offset 2 =
      (1 + netWord (s.msgs m).mem Announce.stepsRemoved.offset 2) % 2 ^ 16 := by
  have hbytes : ∀ (mem : Memory) (value : ℕ), netWord (storeBytes mem
      Announce.stepsRemoved.offset (bigEncode 2 value))
      Announce.stepsRemoved.offset 2 = value % 2 ^ 16 := by
    intro mem value
    have hstored := bytesAt_storeBytes mem Announce.stepsRemoved.offset
      (bigEncode 2 value)
    rw [length_bigEncode] at hstored
    rw [netWord, hstored, bigValue_bigEncode]
    norm_num
  simp only [countStep, TcState.modifyMsg, Function.update_self, Endian.encode_ntoh,
    ntoh_hostWord, hbytes, Nat.mod_mod]

/-- All that transports have been given since a state is the message `m`. -/
structure SentAs (m : ℕ) (mem : Memory) (before : ℕ) (s : TcState) : Prop where
  mem_eq : (s.msgs m).mem = mem
  recorded : before ≤ s.handed.length
  handed : ∀ entry ∈ s.handed.drop before, ∃ length, entry.bytes = bytesAt mem 0 length

theorem SentAs.same {m before : ℕ} {mem : Memory} {s s' : TcState}
    (hsent : SentAs m mem before s) (hsame : SameTraffic s s') :
    SentAs m mem before s' where
  mem_eq := (hsame.mem m).trans hsent.mem_eq
  recorded := hsame.handed ▸ hsent.recorded
  handed := hsame.handed ▸ hsent.handed

theorem SentAs.sendOrFault {env : Env} {p m before : ℕ} {mem : Memory} {s : TcState}
    (hsent : SentAs m mem before s) : SentAs m mem before (sendOrFault env p m s) := by
  have hhanded : SentAs m mem before (transportSend env p m s).2 := by
    refine ⟨hsent.mem_eq, ?_, fun entry hentry => ?_⟩
    · simp only [transportSend, List.length_append]
      exact hsent.recorded.trans (Nat.le_add_right _ _)
    · simp only [transportSend] at hentry
      rw [List.drop_append_of_le_length hsent.recorded, List.mem_append,
        List.mem_singleton] at hentry
      rcases hentry with hentry | rfl
      · exact hsent.handed entry hentry
      · exact ⟨_, by rw [hsent.mem_eq]⟩
  unfold Tc.sendOrFault
  dsimp only
  split
  · exact hhanded.same (sameTraffic_portDispatch env p _ _ _)
  · exact hhanded

theorem SentAs.tcSendAll {env : Env} {q m before : ℕ} {mem : Memory} {s : TcState}
    (hsent : SentAs m mem before s) : SentAs m mem before (tcSendAll env q m s) :=
  forEachPort_invariant (fun _ _ hsent => hsent.sendOrFault) hsent

theorem msgAllocate_ports (env : Env) (s : TcState) :
    (msgAllocate env s).2.ports = s.ports := by
  unfold msgAllocate
  split
  · rfl
  · split <;> rfl

/-- Only a message that can be parsed is duplicated. -/
theorem duplicates_parsed {env : Env} {datagram : List UInt8} {cnt : ℕ} {hwts : ℤ}
    {s : TcState} (hduplicates : duplicates env (datagramMem datagram) cnt hwts s = true) :
    ∃ pool final, ptpMsgReceive env.host cnt
      (receivedStore datagram (fun _ => 0) pool) = (.ok (), final) := by
  rcases hparsed : ptpMsgReceive env.host cnt
    (receivedStore datagram (fun _ => 0) (env.tlvPool s.calls)) with ⟨_ | _, final⟩
  · rw [receivedStore] at hparsed
    simp [duplicates, datagramMem, hparsed] at hduplicates
  · exact ⟨_, final, hparsed⟩

/-- A datagram that is not accepted leaves nothing for the transports; an accepted one
has been parsed, and lies in a message of its own. -/
theorem tcAccept_spec (env : Env) (datagram : List UInt8) (hwts : ℤ) (s : TcState) :
    (tcAccept env datagram hwts s).2.handed = s.handed ∧
    ∀ m s', tcAccept env datagram hwts s = (some m, s') →
      (s'.msgs m).mem = datagramMem datagram ∧ s'.ports = s.ports ∧
        ∃ pool final, ptpMsgReceive env.host datagram.length
          (receivedStore datagram (fun _ => 0) pool) = (.ok (), final) := by
  have hports := msgAllocate_ports env s
  unfold tcAccept
  rcases halloc : msgAllocate env s with ⟨_ | m, s₁⟩
  · exact ⟨(msgAllocate_none halloc).handed, fun m s' heq => by simp at heq⟩
  · obtain ⟨s₀, hsame, rfl⟩ := msgAllocate_fresh halloc
    rw [halloc] at hports
    have hmem : ((receiveInto m datagram hwts
        (s₀.modifyMsg m fun _ => .fresh)).msgs m).mem = datagramMem datagram := by
      simp [receiveInto, TcState.modifyMsg, PtpMessage.fresh, datagramMem]
    have hhanded : (receiveInto m datagram hwts
        (s₀.modifyMsg m fun _ => .fresh)).handed = s.handed := hsame.handed
    have hkept : (receiveInto m datagram hwts
        (s₀.modifyMsg m fun _ => .fresh)).ports = s.ports := hports
    dsimp only
    generalize receiveInto m datagram hwts (s₀.modifyMsg m fun _ => .fresh) =
      filled at hmem hhanded hkept ⊢
    split
    · exact ⟨(sameTraffic_msgPut m filled).handed.trans hhanded,
        fun m s' heq => by simp at heq⟩
    · split
      · exact ⟨(sameTraffic_msgPut m filled.called).handed.trans hhanded,
          fun m s' heq => by simp at heq⟩
      · rename_i hduplicates
        refine ⟨hhanded, fun m' s' heq => ?_⟩
        obtain ⟨hm, rfl⟩ := Prod.mk.inj heq
        obtain rfl := Option.some.inj hm
        refine ⟨?_, hkept, ?_⟩
        · simpa [markReceived, TcState.modifyMsg, TcState.called] using hmem
        · rw [hmem] at hduplicates
          exact duplicates_parsed (by simpa using (not_or.mp hduplicates).2)

/-- The bytes that a hop sends are those of the Announce, with one more step. -/
theorem Hop.stepsRemoved_eq {datagram sent : List UInt8} (hhop : Hop datagram sent)
    (hlong : 64 ≤ sent.length) :
    stepsRemoved sent = (1 + stepsRemoved datagram) % 2 ^ 16 := by
  obtain ⟨htype, env, ports, failed, actions, q, hwts, hrest⟩ := hhop
  generalize Stepping.run (step env) actions (TcState.initial ports failed) = s at hrest
  obtain ⟨htree, entry, hentry, rfl⟩ := hrest
  obtain ⟨hnone, hsome⟩ := tcAccept_spec env datagram hwts s
  unfold tcReceive at hentry
  rcases haccept : tcAccept env datagram hwts s with ⟨_ | m, s'⟩
  · rw [haccept] at hentry hnone
    rw [hnone, List.drop_length] at hentry
    exact absurd hentry List.not_mem_nil
  · obtain ⟨hmem, hports, -⟩ := hsome m s' haccept
    rw [haccept] at hentry hnone
    have hsent : SentAs m ((countStep env m s').msgs m).mem s.handed.length
        (msgPut m (tcSwitch env q m s')) := by
      have hstart : SentAs m ((countStep env m s').msgs m).mem s.handed.length
          (countStep env m s') := by
        refine ⟨rfl, le_of_eq (congrArg List.length hnone).symm, fun entry hentry => ?_⟩
        rw [show (countStep env m s').handed = s.handed from hnone,
          List.drop_length] at hentry
        exact absurd hentry List.not_mem_nil
      have hforward : tcSwitch env q m s' = tcSendAll env q m (countStep env m s') := by
        rw [tcSwitch, hmem, htype]
        dsimp only
        rw [tcForward, if_pos ⟨by rw [hports]; exact htree, by rw [hmem]; exact htype⟩]
      rw [hforward]
      exact hstart.tcSendAll.same (sameTraffic_msgPut m _)
    obtain ⟨length, hbytes⟩ := hsent.handed entry hentry
    rw [hbytes, length_bytesAt] at hlong
    have hsame : stepsRemoved entry.bytes =
        netWord ((countStep env m s').msgs m).mem Announce.stepsRemoved.offset 2 := by
      rw [stepsRemoved, hbytes]
      refine netWord_congr fun i _ hi => datagramMem_bytesAt ?_
      simp only [Announce.stepsRemoved] at hi
      omega
    rw [hsame, netWord_countStep, hmem]
    rfl

/-- What is passed on has been parsed, so that it is a whole Announce. -/
theorem Hop.length_le {datagram sent : List UInt8} (hhop : Hop datagram sent) :
    64 ≤ datagram.length := by
  obtain ⟨htype, env, ports, failed, actions, q, hwts, hrest⟩ := hhop
  generalize Stepping.run (step env) actions (TcState.initial ports failed) = s at hrest
  obtain ⟨-, entry, hentry, -⟩ := hrest
  obtain ⟨hnone, hsome⟩ := tcAccept_spec env datagram hwts s
  unfold tcReceive at hentry
  rcases haccept : tcAccept env datagram hwts s with ⟨_ | m, s'⟩
  · rw [haccept] at hentry hnone
    rw [hnone, List.drop_length] at hentry
    exact absurd hentry List.not_mem_nil
  · obtain ⟨-, -, pool, final, hparsed⟩ := hsome m s' haccept
    exact announce_length hparsed htype

/-! ## The whole way -/

theorem Travels.stepsRemoved_eq {n : ℕ} {datagram sent : List UInt8}
    (htravels : Travels n datagram sent) (hlong : 64 ≤ sent.length) :
    stepsRemoved sent = (stepsRemoved datagram + n) % 2 ^ 16 := by
  induction htravels with
  | here datagram =>
    have hlt : stepsRemoved datagram < 2 ^ 16 := netWord_lt _ _ 2
    rw [Nat.add_zero, Nat.mod_eq_of_lt hlt]
  | hop _ hhop ih =>
    rw [hhop.stepsRemoved_eq hlong, ih hhop.length_le, Nat.add_mod_mod]
    congr 1
    omega

/-- The parser gives the port the count that is on the network. -/
theorem ReadAs.stepsRemoved_eq {host : Host} {datagram : List UInt8}
    {m : Ordinary.Message} (hread : ReadAs host datagram m) :
    64 ≤ datagram.length ∧ m.announce.stepsRemoved.toNat = stepsRemoved datagram := by
  obtain ⟨htype, pool, final, hparsed, hsteps⟩ := hread
  refine ⟨announce_length hparsed htype, hsteps.trans ?_⟩
  obtain ⟨-, type, hknown, hpdu, store, hfixed, -, -, hsuffix⟩ :=
    ptpMsgReceive_eq_ok host hparsed
  have hsame : some type = some .announce := hknown.symm.trans htype
  obtain rfl := Option.some.inj hsame
  have hkept : hostWord host.endian final.mem Announce.stepsRemoved.offset 2 =
      hostWord host.endian store.mem Announce.stepsRemoved.offset 2 := by
    refine hostWord_congr _ fun i _ hi => ?_
    have hconfined := confined_suffixPostRecv host (le_refl MsgType.announce.pduLength)
      (le_refl (MsgType.announce.pduLength +
        (datagram.length - MsgType.announce.pduLength)))
    refine hconfined.mem_eq hsuffix (Or.inl ?_)
    have hpdu : MsgType.announce.pduLength = 64 := rfl
    simp only [Announce.stepsRemoved] at hi
    omega
  rw [hkept, hfixed, fixedPart]
  calc hostWord host.endian (swapAll host.endian 0 (bodyFields .announce)
        (swapAll host.endian 0 headerFields (datagramMem datagram)))
        Announce.stepsRemoved.offset 2
      = netWord (swapAll host.endian 0 headerFields (datagramMem datagram))
          Announce.stepsRemoved.offset 2 := by
        have hword := @hostWord_swapAll host.endian 0 Announce.stepsRemoved
          (bodyFields .announce) (by decide) (by decide)
          (swapAll host.endian 0 headerFields (datagramMem datagram))
        simp only [Nat.zero_add] at hword
        exact hword
    _ = stepsRemoved datagram := by
        refine netWord_congr fun i hi _ => swapAll_outside 2 32 (by decide) ?_ _
        simp only [Announce.stepsRemoved] at hi
        omega

/-- A port drops an Announce from 255 steps on, and no other. -/
theorem qualified_iff (m : Ordinary.Message) :
    Qualified m ↔ m.announce.stepsRemoved.toNat < 255 := by
  constructor
  · rintro ⟨env, p, s, hqualified⟩
    by_contra hmany
    exact hqualified (if_pos (not_lt.mp hmany))
  · intro hfew
    refine ⟨Ordinary.soloClock, 0,
      Ordinary.modifyPort 0 (fun port => { port with
        state := .listening
        foreignMasters := [] }) (Ordinary.newClock Ordinary.soloClock), fun hdropped => ?_⟩
    have hcalls := congrArg (fun result => result.2.calls) hdropped
    rw [Ordinary.portMsgProAnnounce, if_neg (not_le.mpr hfew)] at hcalls
    exact absurd hcalls (Nat.succ_ne_self 0)

/-- If it is qualified, the Announce has made fewer than 255 steps in all, and the port
sees how many. -/
def Bounded (steps : ℕ) (m : Ordinary.Message) : Prop :=
  Qualified m → steps < 255 ∧ m.announce.stepsRemoved.toNat = steps

/-- The steps of an Announce that has travelled are bounded, except where the 16-bit
count has come round to less than 255. -/
theorem travels_bounded_iff {n : ℕ} {datagram sent : List UInt8} {host : Host}
    {m : Ordinary.Message} (htravels : Travels n datagram sent)
    (hread : ReadAs host sent m) :
    Bounded (stepsRemoved datagram + n) m ↔
      ¬(2 ^ 16 ≤ stepsRemoved datagram + n ∧
        (stepsRemoved datagram + n) % 2 ^ 16 < 255) := by
  obtain ⟨hlong, hseen⟩ := hread.stepsRemoved_eq
  rw [htravels.stepsRemoved_eq hlong] at hseen
  rw [Bounded, qualified_iff, hseen]
  generalize stepsRemoved datagram + n = total
  constructor
  · rintro hbounded ⟨hround, hfew⟩
    have hsum := (hbounded hfew).1
    omega
  · intro hnot hfew
    have hsmall : total < 2 ^ 16 := by
      by_contra hround
      exact hnot ⟨not_lt.mp hround, hfew⟩
    rw [Nat.mod_eq_of_lt hsmall] at hfew ⊢
    exact ⟨hfew, rfl⟩

def announceOf (high low : UInt8) : List UInt8 :=
  [0x0b, 0x02, 0, 64, 0, 0, 0, 0, 0, 0, 0, 0, 0, 0, 0, 0, 0, 0, 0, 0,
    0, 0x1b, 0x19, 0xff, 0xfe, 0, 0, 1, 0, 1, 0, 7, 5, 1,
    0, 0, 0, 0, 0, 0, 0, 0, 0, 0, 0, 37, 0, 128, 6, 0x21, 0xff, 0xff, 128,
    0, 0x1b, 0x19, 0xff, 0xfe, 0, 0, 1, high, low, 0xa0]

/-- Its first port is to follow a master, the second one to be one. -/
def treeActions : List Action :=
  [.dispatch 1 .rsSlave false, .dispatch 2 .announceReceiptTimeoutExpires false]

theorem hop_announceOf : Hop (announceOf 255 255) (announceOf 0 0) :=
  ⟨by decide, twoPortEnv 99, fun _ => ⟨.listening, false, true, true, 0, 0, 0, []⟩,
    fun _ => false, treeActions, 1, 0, rfl,
    List.mem_map.mp (by decide +kernel : announceOf 0 0 ∈ List.map Handed.bytes _)⟩

theorem readAs_of_ok {host : Host} {datagram : List UInt8} {m : Ordinary.Message}
    {run : Except Errno Unit × Store ParseState}
    (hrun : ptpMsgReceive host datagram.length
      (receivedStore datagram (fun _ => 0) ⟨0, 0⟩) = run)
    (htype : messageType (datagramMem datagram) = some .announce) (hok : run.1 = .ok ())
    (hsteps : m.announce.stepsRemoved.toNat =
      hostWord host.endian run.2.mem Announce.stepsRemoved.offset 2) :
    ReadAs host datagram m :=
  ⟨htype, ⟨0, 0⟩, run.2, hrun.trans (Prod.ext hok rfl), hsteps⟩

theorem readAs_announceOf :
    ReadAs (twoPortEnv 99).host (announceOf 0 0) Ordinary.masterAnnounce :=
  readAs_of_ok rfl (by decide) (by decide +kernel) (by decide +kernel)

/-- One step from 65535 on, the Announce is as good as new. -/
theorem announceOf_not_bounded :
    ¬∀ (n : ℕ) (datagram sent : List UInt8) (host : Host) (m : Ordinary.Message),
      Travels n datagram sent → ReadAs host sent m →
        Bounded (stepsRemoved datagram + n) m := by
  intro hbounded
  have hwrapped := hbounded 1 _ _ _ _ (.hop (.here _) hop_announceOf) readAs_announceOf
    ((qualified_iff _).mpr (by decide))
  exact absurd hwrapped.1 (by decide)

theorem hop_fewSteps : Hop (announceOf 0 3) (announceOf 0 4) :=
  ⟨by decide, twoPortEnv 99, fun _ => ⟨.listening, false, true, true, 0, 0, 0, []⟩,
    fun _ => false, treeActions, 1, 0, rfl,
    List.mem_map.mp (by decide +kernel : announceOf 0 4 ∈ List.map Handed.bytes _)⟩

def distantAnnounce : Ordinary.Message :=
  { Ordinary.masterAnnounce with
    announce := ⟨37, 1, ⟨6, 0, 0⟩, 1, Ordinary.repeatedIdentity 2, 4, 0⟩ }

theorem readAs_fewSteps :
    ReadAs (twoPortEnv 99).host (announceOf 0 4) distantAnnounce :=
  readAs_of_ok rfl (by decide) (by decide +kernel) (by decide +kernel)

/-- Both ways after one hop: the count has come round, or it has not. -/
theorem travels_bounded_iff_announceOf :
    ¬Bounded (stepsRemoved (announceOf 255 255) + 1) Ordinary.masterAnnounce ∧
      Bounded (stepsRemoved (announceOf 0 3) + 1) distantAnnounce :=
  ⟨fun hbounded => (travels_bounded_iff (.hop (.here _) hop_announceOf)
      readAs_announceOf).mp hbounded (by decide),
    (travels_bounded_iff (.hop (.here _) hop_fewSteps) readAs_fewSteps).mpr (by decide)⟩

end LinuxPtp.Tc
