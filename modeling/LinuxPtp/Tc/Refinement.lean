import LinuxPtp.Tc.Liveness
import LinuxPtp.Tc.Relay
import LinuxPtp.Tc.Traffic

/-!
# The transparent clock refines the relay

While each descriptor has one owner, sharing one buffer between the lists of all
ports, filling buffers anew and restoring corrections cannot be told from
passing messages as values.
-/

namespace LinuxPtp.Tc

open ByteOrder Wire Port TcState Oracle

variable {env : Env} {held : List ℕ} {s s' : TcState} {p q m txd : ℕ}
variable {spare : List Bool}

/-! ## Views -/

namespace TcState

def packet (s : TcState) (m : ℕ) : Packet := ⟨(s.msgs m).mem, (s.msgs m).origin⟩

def record (s : TcState) (txd : ℕ) : Pending :=
  ⟨s.packet (s.txds txd).msg, (s.msgs (s.txds txd).msg).hostTime,
    (s.txds txd).residence, (s.txds txd).ingressPort⟩

/-- The relay that is seen when the descriptors refer to the given records. -/
def viewWith (records : ℕ → Pending) (s : TcState) (spare : List Bool) : Relay where
  ports p := { s.ports p with tcTransmitted := [] }
  pending p := (s.list p).map records
  handed := s.handed
  calls := s.calls
  spare := spare

def view (s : TcState) : List Bool → Relay := viewWith s.record s

end TcState

/-- The descriptors on the lists refer to the given records. -/
theorem view_eq {records : ℕ → Pending}
    (hrecords : ∀ p, ∀ txd ∈ s.list p, s.record txd = records txd) :
    view s spare = viewWith records s spare := by
  simp only [view, viewWith, Relay.mk.injEq, true_and, and_true]
  funext p
  exact List.map_congr_left (hrecords p)

structure SameRecords (s s' : TcState) : Prop where
  packet : ∀ m, s'.packet m = s.packet m
  hostTime : ∀ m, (s'.msgs m).hostTime = (s.msgs m).hostTime
  msg : ∀ txd, (s'.txds txd).msg = (s.txds txd).msg
  residence : ∀ txd, (s'.txds txd).residence = (s.txds txd).residence
  ingressPort : ∀ txd, (s'.txds txd).ingressPort = (s.txds txd).ingressPort

namespace SameRecords

theorem refl (s : TcState) : SameRecords s s :=
  ⟨fun _ => rfl, fun _ => rfl, fun _ => rfl, fun _ => rfl, fun _ => rfl⟩

theorem trans {first second third : TcState} (hfirst : SameRecords first second)
    (hsecond : SameRecords second third) : SameRecords first third where
  packet m := (hsecond.packet m).trans (hfirst.packet m)
  hostTime m := (hsecond.hostTime m).trans (hfirst.hostTime m)
  msg txd := (hsecond.msg txd).trans (hfirst.msg txd)
  residence txd := (hsecond.residence txd).trans (hfirst.residence txd)
  ingressPort txd := (hsecond.ingressPort txd).trans (hfirst.ingressPort txd)

theorem record (hsame : SameRecords s s') (txd : ℕ) :
    s'.record txd = s.record txd := by
  rw [TcState.record, hsame.msg, hsame.packet, hsame.hostTime, hsame.residence,
    hsame.ingressPort]
  rfl

theorem view (hsame : SameRecords s s') (spare : List Bool) :
    view s' spare = viewWith s.record s' spare :=
  view_eq fun _ txd _ => hsame.record txd

theorem tcDiscard (p txd : ℕ) (s : TcState) : SameRecords s (tcDiscard p txd s) := by
  have htraffic := sameTraffic_tcDiscard p txd s
  have htxds : ∀ other, ((Tc.tcDiscard p txd s).txds other).residence =
        (s.txds other).residence ∧
      ((Tc.tcDiscard p txd s).txds other).ingressPort =
        (s.txds other).ingressPort := by
    intro other
    by_cases hother : other = txd
    · subst hother
      simp [Tc.tcDiscard, tcRecycle, modifyTxd, tcRelease_txds, tcRemove, modifyPort]
    · simp [Tc.tcDiscard, tcRecycle, modifyTxd, tcRelease_txds, tcRemove, modifyPort,
        hother]
  refine ⟨fun m => ?_, fun m => msgPut_hostTime (tcRemove p txd s) _ m,
    tcDiscard_msg p txd s, fun other => (htxds other).1, fun other => (htxds other).2⟩
  rw [TcState.packet, htraffic.mem, htraffic.origin]
  rfl

/-- Discarding moves descriptors and changes no record. -/
theorem discardAll (txds : List ℕ) (s : TcState) :
    SameRecords s (txds.foldl (fun s txd => Tc.tcDiscard p txd s) s) := by
  induction txds generalizing s with
  | nil => exact .refl s
  | cons txd rest ih => exact (tcDiscard p txd s).trans (ih _)

theorem pruneLoop (now : Timespec) (txds : List ℕ) (s : TcState) :
    SameRecords s (tcPruneLoop p now txds s) := by
  induction txds generalizing s with
  | nil => exact .refl s
  | cons txd rest ih =>
    rw [tcPruneLoop]
    split
    · exact .refl s
    · exact (tcDiscard p txd s).trans (ih _)

theorem dispatch (event : PortEvent) (mdiff : Bool) (s : TcState) :
    SameRecords s (portDispatch env p event mdiff s) := by
  have hsteps := portDispatch_steps env p event mdiff s
  generalize portDispatch env p event mdiff s = s' at hsteps
  induction hsteps with
  | refl => exact .refl s
  | tail _ hstep ih =>
    refine ih.trans ?_
    cases hstep with
    | called => exact ⟨fun _ => rfl, fun _ => rfl, fun _ => rfl, fun _ => rfl, fun _ => rfl⟩
    | state => exact ⟨fun _ => rfl, fun _ => rfl, fun _ => rfl, fun _ => rfl, fun _ => rfl⟩
    | flush => exact discardAll _ _

theorem sendOrFault (p m : ℕ) (s : TcState) :
    SameRecords s (sendOrFault env p m s) := by
  have hsent : SameRecords s (transportSend env p m s).2 :=
    ⟨fun _ => rfl, fun _ => rfl, fun _ => rfl, fun _ => rfl, fun _ => rfl⟩
  rw [Tc.sendOrFault]
  dsimp only
  split
  · exact hsent.trans (dispatch _ _ _)
  · exact hsent

end SameRecords

/-! ## Lists -/

section

variable {records : ℕ → Pending}

theorem viewWith_tcDiscard (p txd : ℕ) (s : TcState) :
    viewWith records (tcDiscard p txd s) spare =
      Relay.modifyPending p (fun _ => ((s.list p).erase txd).map records)
        (viewWith records s spare) := by
  have hports : ∀ p', { (tcDiscard p txd s).ports p' with tcTransmitted := [] } =
      ({ s.ports p' with tcTransmitted := [] } : TcPort) := by
    intro p'
    have hput : ∀ m (s : TcState), (msgPut m s).ports = s.ports := by
      intro m s
      unfold msgPut
      dsimp only
      split <;> rfl
    have hremove : (tcDiscard p txd s).ports p' = (tcRemove p txd s).ports p' :=
      congrFun (hput _ _) p'
    rw [hremove, tcRemove]
    by_cases hp : p' = p
    · subst hp
      simp [modifyPort, modifyTxd]
    · simp [modifyPort, modifyTxd, hp]
  have hcalls : (tcDiscard p txd s).calls = s.calls := by
    have hput : ∀ m (s : TcState), (msgPut m s).calls = s.calls := by
      intro m s
      unfold msgPut
      dsimp only
      split <;> rfl
    exact hput _ _
  simp only [viewWith, Relay.modifyPending, Relay.mk.injEq]
  refine ⟨funext hports, ?_, (sameTraffic_tcDiscard p txd s).handed, hcalls, trivial⟩
  funext p'
  rw [tcDiscard_list]
  by_cases hp : p' = p
  · subst hp
    simp
  · simp [hp]

/-- A list that is discarded is forgotten. -/
theorem viewWith_discardAll {txds : List ℕ} (hlist : s.list p = txds) :
    viewWith records (txds.foldl (fun s txd => tcDiscard p txd s) s) spare =
      Relay.forget p (viewWith records s spare) := by
  induction txds generalizing s with
  | nil =>
    simp only [List.foldl_nil, Relay.forget, Relay.modifyPending]
    rw [← show (viewWith records s spare).pending p = [] by simp [viewWith, hlist],
      Function.update_eq_self]
  | cons txd rest ih =>
    have hrest : (tcDiscard p txd s).list p = rest := by
      rw [tcDiscard_list, if_pos rfl, hlist, List.erase_cons_head]
    rw [List.foldl_cons, ih hrest, viewWith_tcDiscard]
    simp [Relay.forget, Relay.modifyPending]

theorem viewWith_tcFlush (p : ℕ) (s : TcState) :
    viewWith records (tcFlush p s) spare =
      Relay.forget p (viewWith records s spare) :=
  viewWith_discardAll rfl

theorem viewWith_setState (p : ℕ) (state : PortState) (s : TcState) :
    viewWith records (s.modifyPort p fun port => { port with state := state }) spare =
      Relay.setState p state (viewWith records s spare) := by
  simp only [viewWith, Relay.setState, modifyPort, Relay.mk.injEq, and_true]
  constructor
  · funext p'
    by_cases hp : p' = p
    · subst hp
      simp
    · simp [hp]
  · funext p'
    by_cases hp : p' = p
    · subst hp
      simp [TcState.list]
    · simp [TcState.list, hp]

theorem viewWith_portPeerDelay (p : ℕ) (delay : ℤ) (s : TcState) :
    viewWith records (portPeerDelay p delay s) spare =
      Relay.setPeerDelay p delay (viewWith records s spare) := by
  have hlist := (sameDescriptors_portPeerDelay p delay s).list
  simp only [viewWith, Relay.setPeerDelay, hlist, Relay.mk.injEq]
  refine ⟨funext fun p' => ?_, trivial, rfl, rfl, trivial⟩
  by_cases hp : p' = p
  · subst hp
    simp [portPeerDelay, modifyPort]
  · simp [portPeerDelay, modifyPort, hp]

/-! ## Dispatch -/

theorem viewWith_clearFault (port : TcPort) (next : PortState) (s : TcState) :
    Relay.clearFault env { port with tcTransmitted := [] } next
        (viewWith records s spare) =
      ((clearFault env port next s).1,
        viewWith records (clearFault env port next s).2 spare) := by
  have hcalls : (viewWith records s spare).calls = s.calls := rfl
  rw [Relay.clearFault, clearFault, hcalls]
  split_ifs <;> rfl

theorem viewWith_initializePort (port : TcPort) (next : PortState) (s : TcState) :
    Relay.start env p { port with tcTransmitted := [] } next
        (viewWith records s spare) =
      ((initializePort env p port next s).1,
        viewWith records (initializePort env p port next s).2 spare) := by
  rw [Relay.start, initializePort]
  split
  · have hdisable : (if portIsEnabled port.state then
          Relay.forget p (viewWith records s spare) else viewWith records s spare) =
        viewWith records (if portIsEnabled port.state then portOpDisable p s else s)
          spare := by
      split
      · exact (viewWith_tcFlush p s).symm
      · rfl
    dsimp only
    rw [hdisable]
    generalize (if portIsEnabled port.state then portOpDisable p s else s) = disabled
    have hcalls : (viewWith records disabled spare).calls = disabled.calls := rfl
    rw [hcalls]
    split_ifs <;> rfl
  · rfl

/-- A dispatch of the code is one of the relay, in the old records. -/
theorem viewWith_portDispatch (event : PortEvent) (mdiff : Bool) (s : TcState) :
    viewWith records (portDispatch env p event mdiff s) spare =
      Relay.dispatch env p event mdiff (viewWith records s spare) := by
  have hcleared := @viewWith_clearFault env spare records (s.ports p)
    (stateMachine (s.ports p) (s.ports p).state event mdiff) s
  rw [Relay.dispatch]
  change _ = let port : TcPort := { s.ports p with tcTransmitted := [] }
    let cleared := Relay.clearFault env port
      (stateMachine (s.ports p) (s.ports p).state event mdiff)
      (viewWith records s spare)
    let final := Relay.start env p port cleared.1 cleared.2
    if final.1 = (s.ports p).state then final.2
    else
      let r := Relay.setState p final.1 final.2
      if p ≠ 0 ∧ (final.1 = .faulty ∨ final.1 = .disabled) then Relay.forget p r else r
  dsimp only
  rw [hcleared, viewWith_initializePort, portDispatch, portStateUpdate]
  generalize initializePort env p (s.ports p) _ _ = final
  obtain ⟨next, s'⟩ := final
  dsimp only
  by_cases hsame : next = (s.ports p).state
  · simp [hsame]
  · simp only [hsame, ne_eq, not_false_eq_true, if_true, if_false, Bool.true_eq_false,
      false_or, ← viewWith_setState, ← viewWith_tcFlush]
    by_cases hzero : p = 0
    · simp [hzero]
    · simp only [hzero, not_false_eq_true, true_and, if_false]
      cases next <;> simp [modifyPort, portOpDisable]

/-! ## Sending -/

/-- So is a message that is sent, or the fault when it is not. -/
theorem viewWith_sendOrFault (p m : ℕ) (s : TcState) :
    viewWith records (sendOrFault env p m s) spare =
      Relay.send env p (s.packet m) (viewWith records s spare) := by
  have hcalls : (viewWith records s spare).calls = s.calls := rfl
  have hsent : viewWith records (transportSend env p m s).2 spare =
      Relay.hand env p (s.packet m)
        (bytesAt (s.packet m).mem 0 (transportLength env (s.packet m).mem)) none
        (viewWith records s spare) := rfl
  have hcount : (transportSend env p m s).1 = env.send s.calls := rfl
  rw [sendOrFault, Relay.send, hcalls]
  dsimp only
  rw [hcount]
  split
  · rw [viewWith_portDispatch, hsent]
  · exact hsent

end

theorem setCorrection_other (value : ℤ) {m' : ℕ} (hm : m' ≠ m) :
    (setCorrection env m value s).msgs m' = s.msgs m' :=
  Function.update_of_ne hm ..

theorem setCorrection_same (value : ℤ) :
    (setCorrection env m value s).msgs m =
      { s.msgs m with
        mem := storeBytes (s.msgs m).mem Header.correction.offset
          (bigEncode 8 (value % 2 ^ 64).toNat) } := by
  simp [setCorrection, modifyMsg, Endian.encode_ntoh]

theorem correction_eq (mem : Memory) :
    correction env mem = netWord mem Header.correction.offset 8 :=
  ntoh_hostWord ..

/-- The original correction is what restoring stores. -/
theorem storeBytes_correction (mem : Memory) :
    storeBytes mem Header.correction.offset
      (bigEncode 8 ((netWord mem Header.correction.offset 8 : ℤ) % 2 ^ 64).toNat) =
        mem := by
  have hlt := netWord_lt mem Header.correction.offset 8
  have hvalue : ((netWord mem Header.correction.offset 8 : ℤ) % 2 ^ 64).toNat =
      netWord mem Header.correction.offset 8 := by omega
  have hbytes : bigEncode 8 (netWord mem Header.correction.offset 8) =
      bytesAt mem Header.correction.offset 8 := by
    have hround := bigEncode_bigValue (bytesAt mem Header.correction.offset 8)
    rwa [length_bytesAt] at hround
  rw [hvalue, hbytes, storeBytes_bytesAt]

/-- The correction that is stored is that of the packet. -/
theorem packet_setCorrection (extra : ℤ) :
    (setCorrection env m (correction env (s.msgs m).mem + extra) s).packet m =
      (s.packet m).correct extra := by
  rw [packet, setCorrection_same, correction_eq]
  rfl

/-- Every message is after the sending what it was before. -/
theorem sendCorrected_sameRecords (env : Env) (p m : ℕ) (extra : ℤ) (s : TcState) :
    SameRecords s (sendCorrected env p m extra s) := by
  have hsent := @SameRecords.sendOrFault env p m
    (setCorrection env m (correction env (s.msgs m).mem + extra) s)
  rw [sendCorrected]
  generalize sendOrFault env p m
    (setCorrection env m (correction env (s.msgs m).mem + extra) s) = s' at hsent
  have hpacket := hsent.packet m
  rw [packet_setCorrection, packet, Packet.correct, Packet.mk.injEq] at hpacket
  obtain ⟨hmem, horigin⟩ := hpacket
  refine ⟨fun m' => ?_, fun m' => ?_, hsent.msg, hsent.residence, hsent.ingressPort⟩
  · by_cases hm : m' = m
    · subst hm
      rw [packet, setCorrection_same, correction_eq]
      simp only [hmem, horigin]
      rw [storeBytes_storeBytes _ (by simp), packet, storeBytes_correction]
    · have hother := hsent.packet m'
      rw [packet, packet, setCorrection_other _ hm] at hother
      rw [packet, setCorrection_other _ hm]
      exact hother
  · have htime := hsent.hostTime m'
    by_cases hm : m' = m
    · subst hm
      rw [setCorrection_same] at htime ⊢
      exact htime
    · rw [setCorrection_other _ hm] at htime ⊢
      exact htime

/-- A message is sent with another correction. -/
theorem view_sendCorrected (p m : ℕ) (extra : ℤ) (s : TcState) :
    view (sendCorrected env p m extra s) spare =
      Relay.send env p ((s.packet m).correct extra) (view s spare) := by
  have hrestored : viewWith s.record (sendCorrected env p m extra s) spare =
      viewWith s.record (sendOrFault env p m
        (setCorrection env m (correction env (s.msgs m).mem + extra) s)) spare := rfl
  rw [(sendCorrected_sameRecords env p m extra s).view, hrestored, viewWith_sendOrFault,
    packet_setCorrection]
  rfl

/-! ## Counterparts -/

theorem sameRecords_called (s : TcState) : SameRecords s s.called :=
  ⟨fun _ => rfl, fun _ => rfl, fun _ => rfl, fun _ => rfl, fun _ => rfl⟩

/-- A dispatch does to the relay what it does to the ports. -/
theorem view_portDispatch (event : PortEvent) (mdiff : Bool) (s : TcState) :
    view (portDispatch env p event mdiff s) spare =
      Relay.dispatch env p event mdiff (view s spare) := by
  rw [(SameRecords.dispatch event mdiff s).view, viewWith_portDispatch]
  rfl

/-- The record of a message joins those of the port. -/
theorem view_tcInsert {residence : ℤ} (hfree : ∀ p, txd ∉ s.list p)
    (hlist : ∀ p, s'.list p = s.list p)
    (hports : s'.ports = s.ports) (hmsgs : s'.msgs = s.msgs)
    (htxds : ∀ other ≠ txd, s'.txds other = s.txds other)
    (hhanded : s'.handed = s.handed) :
    view (tcInsert p txd m residence q s') spare =
      Relay.modifyPending p
        (· ++ [⟨s.packet m, (s.msgs m).hostTime, residence, q⟩])
        { view s spare with calls := s'.calls } := by
  have hmessage : ∀ m', (tcInsert p txd m residence q s').packet m' = s.packet m' ∧
      ((tcInsert p txd m residence q s').msgs m').hostTime = (s.msgs m').hostTime := by
    intro m'
    by_cases hm : m' = m
    · subst hm
      simp [packet, tcInsert, msgGet, modifyPort, modifyTxd, modifyMsg, hmsgs]
    · simp [packet, tcInsert, msgGet, modifyPort, modifyTxd, modifyMsg, hmsgs, hm]
  have hold : ∀ other ≠ txd,
      (tcInsert p txd m residence q s').record other = s.record other := by
    intro other hother
    have htxd : (tcInsert p txd m residence q s').txds other = s.txds other := by
      simp [tcInsert, msgGet, modifyPort, modifyTxd, modifyMsg, hother, htxds]
    rw [record, htxd, (hmessage _).1, (hmessage _).2]
    rfl
  have hnew : (tcInsert p txd m residence q s').record txd =
      ⟨s.packet m, (s.msgs m).hostTime, residence, q⟩ := by
    have htxd : ((tcInsert p txd m residence q s').txds txd).msg = m ∧
        ((tcInsert p txd m residence q s').txds txd).residence = residence ∧
        ((tcInsert p txd m residence q s').txds txd).ingressPort = q := by
      simp [tcInsert, msgGet, modifyPort, modifyTxd, modifyMsg]
    obtain ⟨hmsg, hresidence, hingress⟩ := htxd
    rw [record, hmsg, hresidence, hingress, (hmessage m).1, (hmessage m).2]
  have hkept : ∀ p', (s.list p').map (tcInsert p txd m residence q s').record =
      (s.list p').map s.record := fun p' =>
    List.map_congr_left fun other hother =>
      hold other fun hsame => hfree p' (hsame ▸ hother)
  simp only [view, viewWith, Relay.modifyPending, Relay.mk.injEq]
  refine ⟨?_, ?_, hhanded, rfl, trivial⟩
  · funext p'
    by_cases hp : p' = p
    · subst hp
      simp [tcInsert, msgGet, modifyPort, modifyTxd, modifyMsg, hports]
    · simp [tcInsert, msgGet, modifyPort, modifyTxd, modifyMsg, hports, hp]
  · funext p'
    rw [tcInsert_list]
    by_cases hp : p' = p
    · subst hp
      rw [if_pos rfl, Function.update_self, hlist, List.map_append, hkept]
      simp [hnew]
    · rw [if_neg hp, Function.update_of_ne hp, hlist, hkept]

/-- A message in use is remembered. -/
theorem tcStash_refines (hlive : Live held s) (q p m : ℕ) (residence : ℤ) :
    Refines view
      (Relay.stash env q p (s.packet m) (s.msgs m).hostTime residence) s
      (tcStash env q p m residence s) := by
  unfold tcStash tcAllocate
  cases hpool : s.tcPool with
  | cons txd rest =>
    have hpooled : txd ∈ s.tcPool := hpool ▸ List.mem_cons_self
    refine ⟨[true], fun spare => ?_⟩
    have hinsert := @view_tcInsert
      s ({ s with tcPool := rest }.modifyTxd txd fun _ => ⟨0, 0, 0, 0, 0, 0⟩) p q m txd
      spare residence (fun p hlist => hlive.owner.notPooled hlist hpooled)
      (fun _ => rfl) rfl rfl (fun other hother => Function.update_of_ne hother ..) rfl
    exact hinsert.symm
  | nil =>
    refine ⟨[false], fun spare => ?_⟩
    by_cases hmalloc : env.malloc s.calls = true
    · have hfresh : ∀ p, s.txdCount ∉ s.list p := fun p hlist =>
        lt_irrefl _ ((hlive.owner.allocated _).mpr (Or.inr ⟨p, hlist⟩))
      have hinsert := @view_tcInsert
        s ({ s.called with txdCount := s.txdCount + 1 }.modifyTxd s.txdCount
          fun _ => ⟨0, 0, 0, 0, 0, 0⟩) p q m s.txdCount spare residence hfresh
        (fun _ => rfl) rfl rfl (fun other hother => Function.update_of_ne hother ..) rfl
      have hallocated : Relay.allocate env (view s (false :: spare)) =
          (true, (view s spare).called) := by
        rw [Relay.allocate]
        exact Prod.ext hmalloc rfl
      simp only [hmalloc, if_true, Relay.stash, List.singleton_append, hallocated]
      exact hinsert.symm
    · have hallocated : Relay.allocate env (view s (false :: spare)) =
          (false, (view s spare).called) := by
        rw [Relay.allocate]
        exact Prod.ext (Bool.eq_false_iff.mpr hmalloc) rfl
      simp only [hmalloc, Relay.stash, List.singleton_append, hallocated]
      rw [if_neg Bool.false_ne_true, if_neg Bool.false_ne_true]
      exact (view_portDispatch .faultDetected false s.called).symm

/-- The relay matches what `tc_match_syfup` matches. -/
theorem syncs_record (q m txd : ℕ) (s : TcState) :
    Pending.syncs (s.packet m) q (s.record txd) =
      decide (syfupKind q m txd s ≠ .mismatch) := by
  unfold Pending.syncs syfupKind tcMatchSyfup Packet.type record packet
  grind

/-- Of a match, the Follow_Up is the new message or the one that waited. -/
theorem syncFirst_iff (hmatch : syfupKind q m txd s ≠ .mismatch) :
    syfupKind q m txd s = .syncFup ↔ (s.packet m).type = some .followUp := by
  unfold syfupKind tcMatchSyfup Packet.type packet at *
  grind

/-- A record asks for a response exactly where the descriptor matches it. -/
theorem asks_record (p m txd : ℕ) (s : TcState) :
    Pending.asks (s.packet m) p (s.record txd) =
      decide (tcMatchDelay p (s.msgs m).mem (s.msgs (s.txds txd).msg).mem
        (s.txds txd) = .delayReqresp) := by
  unfold Pending.asks tcMatchDelay Packet.type record packet
  grind

/-- To look through the records is to look through the descriptors. -/
theorem find_map {pred : Pending → Bool} {pred' : ℕ → Bool} (txds : List ℕ)
    (hpred : ∀ txd, pred (s.record txd) = pred' txd) :
    (txds.map s.record).find? pred = (txds.find? pred').map s.record := by
  rw [List.find?_map]
  congr 2
  funext txd
  exact hpred txd

/-- The descriptor that is found is the first that matches. -/
theorem map_erase_of_find {pred : Pending → Bool} {pred' : ℕ → Bool} {txds : List ℕ}
    (hpred : ∀ txd, pred (s.record txd) = pred' txd)
    (hfound : txds.find? pred' = some txd) :
    (txds.erase txd).map s.record = (txds.map s.record).eraseP pred := by
  induction txds with
  | nil => exact absurd hfound.symm (Option.some_ne_none txd)
  | cons first rest ih =>
    rw [List.map_cons]
    by_cases hfirst : pred' first = true
    · rw [List.find?_cons_of_pos hfirst] at hfound
      obtain rfl := Option.some.inj hfound
      rw [List.erase_cons_head, List.eraseP_cons_of_pos (by rw [hpred, hfirst])]
    · rw [List.find?_cons_of_neg hfirst] at hfound
      have hne : first ≠ txd := by
        rintro rfl
        exact hfirst (List.find?_some hfound)
      rw [List.erase_cons_tail (by simpa using hne), List.map_cons, ih hfound,
        List.eraseP_cons_of_neg (by rw [hpred]; exact hfirst)]

/-! ## Completing -/

/-- The code is at work on a message that has been received at the given time.
Nothing else refers to the messages that are idle. -/
structure Works (held : List ℕ) (idle : List (ℕ × Packet)) (m : ℕ) (packet : Packet)
    (hostTime : Timespec) (s : TcState) : Prop where
  live : Live held s
  mem : m ∈ held
  packet : s.packet m = packet
  hostTime : (s.msgs m).hostTime = hostTime
  idle : ∀ entry ∈ idle,
    entry.1 ≠ m ∧ s.packet entry.1 = entry.2 ∧ s.holders entry.1 = ∅

variable {idle : List (ℕ × Packet)} {packet : Packet} {hostTime : Timespec}

/-- What leaves the records and the messages alone does not disturb the work. -/
theorem Works.of_same (hworks : Works held idle m packet hostTime s)
    (hlive : Live held s') (hsame : SameRecords s s') (hfewer : Fewer s s') :
    Works held idle m packet hostTime s' where
  live := hlive
  mem := hworks.mem
  packet := (hsame.packet m).trans hworks.packet
  hostTime := (hsame.hostTime m).trans hworks.hostTime
  idle entry hentry := by
    obtain ⟨hother, hpacket, hnone⟩ := hworks.idle entry hentry
    exact ⟨hother, (hsame.packet _).trans hpacket, hfewer.none hnone⟩

theorem sameReferences_setCorrection (value : ℤ) (s : TcState) :
    SameReferences s (setCorrection env m value s) :=
  .modifyMsg s m rfl

theorem Live.sendOrFault (hlive : Live held s) (p m : ℕ) :
    Live held (sendOrFault env p m s) := by
  have hsent : Live held (transportSend env p m s).2 :=
    hlive.congr (sameDescriptors_transportSend env p m s) ⟨fun _ => rfl, rfl, rfl⟩
  rw [Tc.sendOrFault]
  dsimp only
  split
  · exact hsent.dispatch _ _
  · exact hsent

theorem Live.setCorrection (hlive : Live held s) (m : ℕ) (value : ℤ) :
    Live held (setCorrection env m value s) :=
  hlive.congr (sameDescriptors_setCorrection m value s)
    (sameReferences_setCorrection value s)

/-- Sending a corrected message leaves the stashed ones alive. -/
theorem Live.sendCorrected (hlive : Live held s) (p m : ℕ) (extra : ℤ) :
    Live held (sendCorrected env p m extra s) :=
  ((hlive.setCorrection m _).sendOrFault p m).setCorrection m _

/-- Sending refines sending. -/
theorem sendOrFault_refines (hworks : Works held idle m packet hostTime s) (p : ℕ) :
    Works held idle m packet hostTime (sendOrFault env p m s) ∧
      Refines view (Relay.send env p packet) s (sendOrFault env p m s) := by
  have hsame := @SameRecords.sendOrFault env p m s
  refine ⟨hworks.of_same (hworks.live.sendOrFault p m) hsame (.sendOrFault p m s),
    .of_eq fun spare => ?_⟩
  rw [hsame.view, viewWith_sendOrFault, hworks.packet]
  rfl

/-- A match goes out with its correction, and its descriptor is given up. -/
theorem discard_refines (env : Env) (hworks : Works held idle m packet hostTime s) {fup : ℕ}
    {extra : ℤ} {pred : Pending → Bool} {pred' : ℕ → Bool} (p p' : ℕ)
    (hpred : ∀ txd, pred (s.record txd) = pred' txd)
    (hfound : (s.list p').find? pred' = some txd)
    (hlist : (sendCorrected env p fup extra s).list p' = s.list p') :
    Works held idle m packet hostTime
        (tcDiscard p' txd (sendCorrected env p fup extra s)) ∧
      ∀ spare, Relay.modifyPending p' (List.eraseP pred)
          (Relay.send env p ((s.packet fup).correct extra) (view s spare)) =
        view (tcDiscard p' txd (sendCorrected env p fup extra s)) spare := by
  have hsent := sendCorrected_sameRecords env p fup extra s
  have hdiscarded := SameRecords.tcDiscard p' txd (sendCorrected env p fup extra s)
  have hmem : txd ∈ (sendCorrected env p fup extra s).list p' :=
    hlist ▸ List.mem_of_find?_eq_some hfound
  refine ⟨hworks.of_same ((hworks.live.sendCorrected p fup extra).discard hmem)
    (hsent.trans hdiscarded)
    ((Fewer.sendCorrected p fup extra s).trans (.discard p' txd _)), fun spare => ?_⟩
  rw [hdiscarded.view, viewWith_tcDiscard, ← view_sendCorrected, view, hlist]
  have hrecords : (sendCorrected env p fup extra s).record = s.record :=
    funext hsent.record
  rw [hrecords, map_erase_of_find hpred hfound]
  simp only [Relay.modifyPending, viewWith, hlist]

theorem tcStash_hostTime (q p m : ℕ) (residence : ℤ) (s : TcState) (m' : ℕ) :
    ((tcStash env q p m residence s).msgs m').hostTime = (s.msgs m').hostTime := by
  have hinsert : ∀ (s : TcState) txd,
      ((tcInsert p txd m residence q s).msgs m').hostTime = (s.msgs m').hostTime := by
    intro s txd
    by_cases hm : m' = m
    · subst hm
      simp [tcInsert, msgGet, modifyPort, modifyTxd, modifyMsg]
    · simp [tcInsert, msgGet, modifyPort, modifyTxd, modifyMsg, hm]
  unfold tcStash tcAllocate
  cases s.tcPool with
  | cons txd rest => exact hinsert _ txd
  | nil =>
    by_cases hmalloc : env.malloc s.calls = true
    · simp only [hmalloc, if_true]
      exact hinsert _ s.txdCount
    · simp only [hmalloc]
      exact (SameRecords.dispatch _ _ _).hostTime m'

theorem tcStash_packet (q p m : ℕ) (residence : ℤ) (s : TcState) (m' : ℕ) :
    (tcStash env q p m residence s).packet m' = s.packet m' := by
  have htraffic := sameTraffic_tcStash env q p m residence s
  rw [packet, htraffic.mem, htraffic.origin]
  rfl

/-- A stash appends the record of the message, if a descriptor can be had. -/
theorem stash_refines (env : Env) (hworks : Works held idle m packet hostTime s) (q p : ℕ)
    (residence : ℤ) :
    Works held idle m packet hostTime (tcStash env q p m residence s) ∧
      Refines view (Relay.stash env q p packet hostTime residence) s
        (tcStash env q p m residence s) := by
  obtain ⟨hlive, hmem, rfl, rfl, hidle⟩ := hworks
  refine ⟨⟨hlive.stash hmem q p residence, hmem, tcStash_packet .., tcStash_hostTime ..,
    fun entry hentry => ?_⟩, tcStash_refines hlive q p m residence⟩
  obtain ⟨hother, hpacket, hnone⟩ := hidle entry hentry
  refine ⟨hother, (tcStash_packet ..).trans hpacket, ?_⟩
  exact Finset.subset_empty.mp (hnone ▸ tcStash_holders hother)

/-- Pairing a Sync with its Follow_Up refines that of the relay. -/
theorem completeSyfup_refines (hworks : Works held idle m packet hostTime s)
    (hmeets : SyfupMeets env q p m s) (residence : ℤ) :
    Works held idle m packet hostTime (tcCompleteSyfup env q p m residence s) ∧
      Refines view (Relay.completeSyfup env q p packet hostTime residence) s
        (tcCompleteSyfup env q p m residence s) := by
  obtain rfl := hworks.packet
  have hfind : ∀ spare, ((view s spare).pending p).find?
      (Pending.syncs (s.packet m) q) = (syfupMatch q p m s).map s.record :=
    fun _ => find_map _ fun txd => syncs_record q m txd s
  rw [tcCompleteSyfup]
  cases hmatch : syfupMatch q p m s with
  | none =>
    obtain ⟨hkept, drawn, hstash⟩ := stash_refines env hworks q p residence
    refine ⟨hkept, drawn, fun rest => ?_⟩
    rw [Relay.completeSyfup, hfind, hmatch]
    exact hstash rest
  | some txd =>
    have hkind : syfupKind q m txd s ≠ .mismatch := by
      simpa using List.find?_some hmatch
    have hfirst : decide (syfupKind q m txd s = .syncFup) =
        decide ((s.packet m).type = some .followUp) :=
      decide_eq_decide.mpr (syncFirst_iff hkind)
    have hsends := hmeets.resolve_left (by simp [hmatch])
    dsimp only
    rw [hfirst]
    obtain ⟨hkept, hsame⟩ := discard_refines env hworks p p
      (fun txd => syncs_record q m txd s) hmatch
      ((sendCorrected_same _ hsends).list p)
    refine ⟨hkept, .of_eq fun spare => ?_⟩
    rw [← hsame spare, Relay.completeSyfup, hfind, hmatch]
    cases decide ((s.packet m).type = some .followUp) <;> rfl

/-- A response finds the request that the relay finds. -/
theorem completeResponse_refines (hworks : Works held idle m packet hostTime s)
    (hports : q ≠ p) :
    Works held idle m packet hostTime (tcCompleteResponse env q p m s) ∧
      Refines view (Relay.completeResponse env q p packet) s
        (tcCompleteResponse env q p m s) := by
  obtain rfl := hworks.packet
  have hfind : ∀ spare, ((view s spare).pending q).find?
      (Pending.asks (s.packet m) p) = (delayMatch q p m s).map s.record :=
    fun _ => find_map _ fun txd => asks_record p m txd s
  rw [tcCompleteResponse]
  cases hmatch : delayMatch q p m s with
  | none =>
    refine ⟨hworks, .of_eq fun spare => ?_⟩
    rw [Relay.completeResponse, hfind, hmatch]
    rfl
  | some txd =>
    obtain ⟨hkept, hsame⟩ := discard_refines env hworks p q
      (fun txd => asks_record p m txd s) hmatch
      ((hworks.live.owner.sendCorrected p m
        (tmvToTimeInterval (s.txds txd).residence)).2 q hports)
    refine ⟨hkept, .of_eq fun spare => ?_⟩
    rw [← hsame spare, Relay.completeResponse, hfind, hmatch]
    rfl

/-- Either way, completion refines completion. -/
theorem complete_refines (hworks : Works held idle m packet hostTime s)
    (hports : q ≠ p) (hmeets : CompleteMeets env q p m s) (residence : ℤ) :
    Works held idle m packet hostTime (tcComplete env q p m residence s) ∧
      Refines view (Relay.complete env q p packet hostTime residence) s
        (tcComplete env q p m residence s) := by
  have htype : messageType (s.msgs m).mem = packet.type :=
    congrArg Packet.type hworks.packet
  unfold CompleteMeets at hmeets
  unfold tcComplete Relay.complete
  rw [htype] at hmeets ⊢
  generalize packet.type = type at hmeets ⊢
  cases type with
  | none => exact ⟨hworks, .refl s⟩
  | some type =>
    cases type with
    | sync | followUp => exact completeSyfup_refines hworks hmeets residence
    | delayReq => exact stash_refines env hworks q p residence
    | delayResp => exact completeResponse_refines hworks hports
    | pdelayReq | pdelayResp | pdelayRespFollowUp | announce | signaling
    | management => exact ⟨hworks, .refl s⟩

/-! ## Loops over the ports -/

/-- A port is passed over by both or by neither. -/
theorem blocked_eq (env : Env) (hworks : Works held idle m packet hostTime s) (q p : ℕ)
    (spare : List Bool) :
    Relay.blocked env q p packet (view s spare) = tcBlocked env q p m s := by
  obtain rfl := hworks.packet
  rfl

theorem forEachPort_refines {body : ℕ → TcState → TcState}
    {spec : ℕ → Relay → Relay} {condition : ℕ → TcState → Prop}
    (hbody : ∀ p s, q ≠ p → condition p s → Works held idle m packet hostTime s →
      Works held idle m packet hostTime (body p s) ∧ Refines view (spec p) s (body p s))
    (hmeets : ForEachPortMeets env q m body condition s)
    (hworks : Works held idle m packet hostTime s) :
    Works held idle m packet hostTime (forEachPort env q m body s) ∧
      Refines view (Relay.forEachPort env q packet spec) s
        (forEachPort env q m body s) := by
  refine Refines.run (fun s p hworks hcondition => ?_) hmeets hworks
  have hsame := blocked_eq env hworks q p
  by_cases hblocked : tcBlocked env q p m s = true
  · rw [if_pos hblocked]
    exact ⟨hworks, .ifPos (fun spare => (hsame spare).trans hblocked) (.refl s)⟩
  · rw [if_neg hblocked]
    have hfree := Bool.eq_false_iff.mpr hblocked
    obtain ⟨hkept, hrefines⟩ := hbody p s (tcBlocked_ne hfree) (hcondition hfree) hworks
    exact ⟨hkept, .ifNeg (fun spare => by rwa [hsame spare]) hrefines⟩

/-- A message goes to the same ports. -/
theorem sendAll_refines (env : Env) (hworks : Works held idle m packet hostTime s)
    (q : ℕ) :
    Works held idle m packet hostTime (tcSendAll env q m s) ∧
      Refines view (Relay.sendAll env q packet) s (tcSendAll env q m s) := by
  have hmeets : ForEachPortMeets env q m (fun p s => sendOrFault env p m s)
      (fun _ _ => True) s := forEachPortMeets_of_forall (fun _ _ => trivial) s
  exact forEachPort_refines (fun p _ _ _ hworks => sendOrFault_refines hworks p) hmeets
    hworks

/-- The stamp of a message changes nothing that a relay knows. -/
theorem sameRecords_hwts (m : ℕ) (hwts : ℤ) (s : TcState) :
    SameRecords s (s.modifyMsg m fun msg => { msg with hwts := hwts }) := by
  refine ⟨fun m' => ?_, fun m' => ?_, fun _ => rfl, fun _ => rfl, fun _ => rfl⟩ <;>
  · by_cases hm : m' = m
    · subst hm
      simp [packet, modifyMsg]
    · simp [packet, modifyMsg, hm]

/-- A message whose time stamp has been asked for on a port. -/
def TcState.asked (env : Env) (p m : ℕ) (s : TcState) : TcState :=
  { s.called with handed := s.handed ++
    [⟨p, transportLength env (s.msgs m).mem, [], (s.msgs m).origin, some s.calls⟩] }

theorem transportTxts_eq (p m : ℕ) (s : TcState) :
    transportTxts env p m s =
      match env.txts s.calls with
      | some stamp =>
          if stamp = 0 then (none, s.asked env p m)
          else (some stamp, (s.asked env p m).modifyMsg m fun msg =>
            { msg with hwts := stamp })
      | none => (none, s.asked env p m) := rfl

/-- The message that is time-stamped is handed over with the number of the call. -/
theorem asked_refines (env : Env) (hworks : Works held idle m packet hostTime s) (p : ℕ) :
    Works held idle m packet hostTime (s.asked env p m) ∧
      ∀ spare, view (s.asked env p m) spare =
        Relay.hand env p packet [] (some s.calls) (view s spare) := by
  have hsame : SameRecords s (s.asked env p m) :=
    ⟨fun _ => rfl, fun _ => rfl, fun _ => rfl, fun _ => rfl, fun _ => rfl⟩
  have hlive : Live held (s.asked env p m) :=
    hworks.live.congr ⟨rfl, rfl, rfl, fun _ => rfl⟩ ⟨fun _ => rfl, rfl, rfl⟩
  refine ⟨hworks.of_same hlive hsame (.of_same ⟨rfl, rfl, rfl, fun _ => rfl⟩),
    fun spare => ?_⟩
  obtain rfl := hworks.packet
  rfl

/-- A message that has its time stamp. -/
theorem stamped_refines (hworks : Works held idle m packet hostTime s) (p : ℕ)
    (stamp : ℤ) :
    Works held idle m packet hostTime (stampEgress p m stamp
        (s.modifyMsg m fun msg => { msg with hwts := stamp })) ∧
      (∀ spare, view (stampEgress p m stamp
        (s.modifyMsg m fun msg => { msg with hwts := stamp })) spare = view s spare) ∧
      ((stampEgress p m stamp
        (s.modifyMsg m fun msg => { msg with hwts := stamp })).msgs m).hwts =
          stamp + (s.ports p).txTimestampOffset := by
  have hstamp : ∀ hwts (s : TcState), Works held idle m packet hostTime s →
      Works held idle m packet hostTime (s.modifyMsg m fun msg => { msg with hwts := hwts }) ∧
        ∀ spare, view (s.modifyMsg m fun msg => { msg with hwts := hwts }) spare =
          view s spare := by
    intro hwts s hworks
    have hsame := sameRecords_hwts m hwts s
    have hdescriptors := sameDescriptors_modifyMsg s m fun msg =>
      { msg with hwts := hwts }
    refine ⟨hworks.of_same (hworks.live.congr hdescriptors (.modifyMsg s m rfl)) hsame
      (.of_same hdescriptors), fun spare => ?_⟩
    rw [hsame.view]
    rfl
  obtain ⟨hfirst, hfirstView⟩ := hstamp stamp s hworks
  obtain ⟨hsecond, hsecondView⟩ := hstamp (stamp + (s.ports p).txTimestampOffset) _ hfirst
  refine ⟨hsecond, fun spare => (hsecondView spare).trans (hfirstView spare), ?_⟩
  simp [stampEgress, modifyMsg]

/-- A dispatch during the work refines that of the relay. -/
theorem dispatch_refines (env : Env) (hworks : Works held idle m packet hostTime s) (p : ℕ)
    (event : PortEvent) (mdiff : Bool) :
    Works held idle m packet hostTime (portDispatch env p event mdiff s) ∧
      ∀ spare, Relay.dispatch env p event mdiff (view s spare) =
        view (portDispatch env p event mdiff s) spare :=
  ⟨hworks.of_same (hworks.live.dispatch event mdiff) (.dispatch event mdiff s)
      (.dispatch event mdiff s), fun _ => (view_portDispatch event mdiff s).symm⟩

/-- The second loop pairs the same messages with the same residence times. -/
theorem gather_refines (hworks : Works held idle m packet hostTime s) (hports : q ≠ p)
    (ingress : ℤ) (hmeets : GatherMeets env q m p s) :
    Works held idle m packet hostTime (tcGather env q m ingress p s) ∧
      Refines view (Relay.gather env q packet hostTime ingress p) s
        (tcGather env q m ingress p s) := by
  obtain ⟨hasked, hview⟩ := asked_refines env hworks p
  obtain ⟨hfault, hfaultView⟩ := dispatch_refines env hasked p .faultDetected
    false
  have hcalls : ∀ spare, (view s spare).calls = s.calls := fun _ => rfl
  rw [GatherMeets, transportTxts_eq] at hmeets
  rw [tcGather, transportTxts_eq]
  unfold Relay.gather
  cases htxts : env.txts s.calls with
  | none =>
    refine ⟨hfault, .of_eq fun spare => ?_⟩
    dsimp only
    rw [hcalls, htxts, ← hview, hfaultView]
  | some stamp =>
    rw [htxts] at hmeets
    by_cases hzero : stamp = 0
    · simp only [hzero, if_true]
      refine ⟨hfault, .of_eq fun spare => ?_⟩
      rw [hcalls, htxts, ← hview, hfaultView]
      simp [hzero]
    · simp only [hzero, if_false] at hmeets ⊢
      obtain ⟨hstamped, hstampedView, hhwts⟩ := stamped_refines hasked p stamp
      generalize stampEgress p m stamp ((s.asked env p m).modifyMsg m fun msg =>
        { msg with hwts := stamp }) = stamped at hmeets hstamped hstampedView hhwts ⊢
      have hstampedCalls : stamped.calls = s.calls + 1 :=
        congrArg Relay.calls (hstampedView [])
      obtain ⟨hkept, drawn, hrefines⟩ := complete_refines hstamped hports hmeets
        (env.rateRatio stamped.calls ((stamped.msgs m).hwts - ingress))
      refine ⟨hkept, drawn, fun rest => ?_⟩
      dsimp only
      rw [← hrefines rest, hcalls, htxts, hstampedView, hview, hhwts, hstampedCalls]
      simp only [hzero, if_false]
      rfl

/-! ## Forwarding -/

/-- The code is at work on a message that nothing else refers to. -/
structure Fresh (held : List ℕ) (idle : List (ℕ × Packet)) (m : ℕ) (packet : Packet)
    (s : TcState) : Prop where
  live : Live held s
  mem : m ∈ held
  packet : s.packet m = packet
  alone : s.holders m = ∅
  idle : ∀ entry ∈ idle,
    entry.1 ≠ m ∧ s.packet entry.1 = entry.2 ∧ s.holders entry.1 = ∅

/-- The time of its reception is set. -/
theorem Fresh.stamp (env : Env) (hfresh : Fresh held idle m packet s) :
    Works held idle m packet (env.monotonic s.calls) (stampHostTime env m s) ∧
      ∀ spare, view (stampHostTime env m s) spare = (view s spare).called := by
  have hpacket : ∀ m', (stampHostTime env m s).packet m' = s.packet m' := by
    intro m'
    by_cases hm : m' = m
    · subst hm
      simp [TcState.packet, stampHostTime, modifyMsg, called]
    · simp [TcState.packet, stampHostTime, modifyMsg, called, hm]
  have hother : ∀ m' ≠ m,
      ((stampHostTime env m s).msgs m').hostTime = (s.msgs m').hostTime := by
    intro m' hm
    simp [stampHostTime, modifyMsg, called, hm]
  refine ⟨⟨hfresh.live.congr (sameDescriptors_stampHostTime m s)
    ⟨fun m' => ?_, rfl, rfl⟩, hfresh.mem, (hpacket m).trans hfresh.packet, ?_,
    fun entry hentry => ?_⟩, fun spare => ?_⟩
  · by_cases hm : m' = m
    · subst hm
      simp [stampHostTime, modifyMsg, called]
    · simp [stampHostTime, modifyMsg, called, hm]
  · simp [stampHostTime, modifyMsg]
  · obtain ⟨hne, hidle, hnone⟩ := hfresh.idle entry hentry
    exact ⟨hne, (hpacket _).trans hidle,
      (Fewer.of_same (sameDescriptors_stampHostTime m s)).none hnone⟩
  · refine Eq.trans (@view_eq _ spare s.record fun p txd htxd => ?_) rfl
    have hm := hfresh.live.unheld hfresh.alone htxd
    have htxds : (stampHostTime env m s).txds = s.txds := rfl
    rw [record, htxds, hpacket, hother _ hm]
    rfl

/-- Forwarding an event message refines that of the relay. -/
theorem fwdEvent_refines (hfresh : Fresh held idle m packet s)
    (hmeets : FwdEventMeets env q m s) :
    Works held idle m packet (env.monotonic s.calls) (tcFwdEvent env q m s) ∧
      Refines view (Relay.fwdEvent env q packet (s.msgs m).hwts) s
        (tcFwdEvent env q m s) := by
  obtain ⟨hstamped, hview⟩ := hfresh.stamp env
  obtain ⟨hsent, hsentRefines⟩ := sendAll_refines env hstamped q
  obtain ⟨hgathered, hgatherRefines⟩ := forEachPort_refines
    (fun p _ hports hmeets hworks => gather_refines hworks hports (s.msgs m).hwts hmeets)
    hmeets hsent
  refine ⟨hgathered, ?_⟩
  obtain ⟨drawn, hboth⟩ := hsentRefines.comp hgatherRefines
  refine ⟨drawn, fun rest => Eq.trans ?_ (hboth rest)⟩
  rw [hview]
  rfl

/-- So does forwarding a Follow_Up or a response. -/
theorem fwdFolup_refines (hfresh : Fresh held idle m packet s)
    (hmeets : FwdFolupMeets env q m s) :
    Works held idle m packet (env.monotonic s.calls) (tcFwdFolup env q m s) ∧
      Refines view (Relay.fwdFolup env q packet) s (tcFwdFolup env q m s) := by
  obtain ⟨hstamped, hview⟩ := hfresh.stamp env
  obtain ⟨hcompleted, drawn, hrefines⟩ := forEachPort_refines
    (fun p _ hports hmeets hworks => complete_refines hworks hports hmeets 0)
    hmeets hstamped
  refine ⟨hcompleted, drawn, fun rest => ?_⟩
  rw [tcFwdFolup, ← hrefines rest, hview]
  rfl

/-- A message that nothing on the lists refers to is changed. -/
theorem view_modifyMsg {f : PtpMessage → PtpMessage} (hlive : Live held s)
    (hnone : s.holders m = ∅) (spare : List Bool) :
    view (s.modifyMsg m f) spare = view s spare := by
  refine Eq.trans (@view_eq _ spare s.record fun p txd htxd => ?_) rfl
  have hm := hlive.unheld hnone htxd
  have htxds : (s.modifyMsg m f).txds = s.txds := rfl
  have hmsgs : (s.modifyMsg m f).msgs (s.txds txd).msg = s.msgs (s.txds txd).msg :=
    Function.update_of_ne hm ..
  rw [record, htxds, packet, hmsgs]
  rfl

theorem msgAllocate_msgs {s' : TcState} (halloc : msgAllocate env s = (some m, s'))
    {m' : ℕ} (hm : m' ≠ m) : s'.msgs m' = s.msgs m' := by
  unfold msgAllocate at halloc
  split at halloc
  · obtain ⟨hsame, rfl⟩ := Prod.mk.inj halloc
    exact Function.update_of_ne (Option.some.inj hsame ▸ hm) ..
  · split at halloc
    · obtain ⟨hsame, rfl⟩ := Prod.mk.inj halloc
      exact Function.update_of_ne (Option.some.inj hsame ▸ hm) ..
    · exact absurd (Prod.mk.inj halloc).1 (Option.some_ne_none m).symm

/-- What a relay knows stays when a message is taken into use. -/
theorem view_msgAllocate (env : Env) (hlive : Live held s) :
    ∃ drawn, ∀ spare, Relay.allocate env (view s (drawn ++ spare)) =
      ((msgAllocate env s).1.isSome, view (msgAllocate env s).2 spare) := by
  unfold msgAllocate
  cases hpool : s.msgPool with
  | cons m rest =>
    refine ⟨[true], fun spare => ?_⟩
    have hfree := hlive.counted.free m (hpool ▸ List.mem_cons_self)
    have hnone := Finset.card_eq_zero.mp (Nat.add_eq_zero_iff.mp hfree.2).1
    have hview := @view_modifyMsg held s m (fun _ => .fresh) hlive hnone spare
    exact Prod.ext rfl hview.symm
  | nil =>
    refine ⟨[false], fun spare => ?_⟩
    by_cases hmalloc : env.malloc s.calls = true
    · simp only [hmalloc, if_true]
      have hfree := hlive.counted.unknown s.msgCount le_rfl
      have hnone := Finset.card_eq_zero.mp (Nat.add_eq_zero_iff.mp hfree).1
      have hview := @view_modifyMsg held s s.msgCount (fun _ => .fresh) hlive hnone spare
      exact Prod.ext hmalloc (congrArg Relay.called hview.symm)
    · simp only [hmalloc]
      exact Prod.ext (Bool.eq_false_iff.mpr hmalloc) rfl

theorem view_msgPut (m : ℕ) (s : TcState) :
    view (msgPut m s) spare = view s spare := by
  have hsame := sameDescriptors_msgPut m s
  have htraffic := sameTraffic_msgPut m s
  have hports : (msgPut m s).ports = s.ports ∧ (msgPut m s).calls = s.calls := by
    unfold msgPut
    dsimp only
    split <;> exact ⟨rfl, rfl⟩
  have hrecords : (msgPut m s).record = s.record := by
    funext txd
    rw [record, hsame.txds, packet, htraffic.mem, htraffic.origin, msgPut_hostTime]
    rfl
  simp only [view, viewWith, hrecords, hsame.list, htraffic.handed, hports]

theorem Live.modifyMsg (hlive : Live held s) {f : PtpMessage → PtpMessage}
    (hf : (f (s.msgs m)).refcnt = (s.msgs m).refcnt) : Live held (s.modifyMsg m f) :=
  hlive.congr (sameDescriptors_modifyMsg s m f) (.modifyMsg s m hf)

theorem holders_congr (hsame : SameDescriptors s s') (m : ℕ) :
    s'.holders m = s.holders m := by
  rw [holders, hsame.txds, hsame.txdCount, hsame.tcPool]
  rfl

/-- The Follow_Up of a one-step Sync is filled in. -/
theorem beginFollowUp_refines {fup : ℕ} (hfresh : Fresh held [] m packet s)
    (halloc : msgAllocate env s = (some fup, s')) :
    Fresh (fup :: held) [(fup, Relay.standIn env packet)] m (Relay.asTwoStep packet)
        (beginFollowUp env m fup s') ∧
      ((beginFollowUp env m fup s').msgs m).hwts = (s.msgs m).hwts ∧
      ∀ spare, view (beginFollowUp env m fup s') spare = view s' spare := by
  obtain ⟨hlive, hnone, hunheld, hblank⟩ := hfresh.live.allocate halloc
  obtain rfl := hfresh.packet
  have hne : m ≠ fup := fun hsame => hunheld (hsame ▸ hfresh.mem)
  have hkept : s'.msgs m = s.msgs m := msgAllocate_msgs halloc hne
  have hsame : SameDescriptors s s' := by
    have hallocated := sameDescriptors_msgAllocate env s
    rwa [halloc] at hallocated
  let filled := s'.modifyMsg fup fun msg => { msg with
    mem := synthesizedFollowUp env (s'.msgs m).mem msg.mem
    origin := .standsIn (s'.msgs m).mem }
  have hfilled : Live (fup :: held) filled := hlive.modifyMsg rfl
  have hbegun : beginFollowUp env m fup s' = filled.modifyMsg m fun msg => { msg with
      mem := storeBytes msg.mem Header.flagField0.offset
        [msg.mem Header.flagField0.offset ||| 2] } := rfl
  have hfilledMsg : filled.msgs m = s.msgs m :=
    (Function.update_of_ne hne ..).trans hkept
  have hsync : (beginFollowUp env m fup s').msgs m = { s.msgs m with
      mem := storeBytes (s.msgs m).mem Header.flagField0.offset
        [(s.msgs m).mem Header.flagField0.offset ||| 2] } := by
    rw [hbegun, ← hfilledMsg]
    exact Function.update_self ..
  have hfup : (beginFollowUp env m fup s').packet fup =
      Relay.standIn env (s.packet m) := by
    have hmsg : (beginFollowUp env m fup s').msgs fup = filled.msgs fup := by
      rw [hbegun]
      exact Function.update_of_ne (Ne.symm hne) ..
    have hcontent : filled.msgs fup = { s'.msgs fup with
        mem := synthesizedFollowUp env (s'.msgs m).mem (s'.msgs fup).mem
        origin := .standsIn (s'.msgs m).mem } := Function.update_self ..
    rw [TcState.packet, hmsg, hcontent, hblank, hkept]
    rfl
  have hholders : ∀ m', (beginFollowUp env m fup s').holders m' = s.holders m' :=
    fun m' => holders_congr hsame m'
  have hlive' : Live (fup :: held) (beginFollowUp env m fup s') := by
    rw [hbegun]
    exact hfilled.modifyMsg rfl
  refine ⟨⟨hlive', List.mem_cons_of_mem fup hfresh.mem, ?_, ?_, ?_⟩, ?_, fun spare => ?_⟩
  · rw [TcState.packet, hsync]
    rfl
  · rw [hholders]
    exact hfresh.alone
  · intro entry hentry
    obtain rfl := List.mem_singleton.mp hentry
    exact ⟨Ne.symm hne, hfup, (hholders fup).trans hnone⟩
  · rw [hsync]
  · rw [hbegun, view_modifyMsg hfilled ((holders_congr hsame m).trans hfresh.alone),
      view_modifyMsg hlive ((holders_congr hsame fup).trans hnone)]

theorem msgAllocate_failed (halloc : msgAllocate env s = (none, s')) :
    s' = s.called := by
  unfold msgAllocate at halloc
  split at halloc
  · exact absurd (Prod.mk.inj halloc).1 (Option.some_ne_none _)
  · split at halloc
    · exact absurd (Prod.mk.inj halloc).1 (Option.some_ne_none _)
    · exact (Prod.mk.inj halloc).2.symm

/-- Forwarding a Sync, with the Follow_Up that is made for a one-step one. -/
theorem fwdSync_refines (hfresh : Fresh held [] m packet s)
    (hmeets : FwdSyncMeets env q m s) :
    Live held (tcFwdSync env q m s).2 ∧
      Refines view (Relay.fwdSync env q packet (s.msgs m).hwts) s
        (tcFwdSync env q m s).2 := by
  obtain rfl := hfresh.packet
  unfold FwdSyncMeets at hmeets
  unfold tcFwdSync Relay.fwdSync
  by_cases hstep : oneStep env (s.msgs m).mem = true
  · have hstep' : oneStep env (s.packet m).mem = true := hstep
    simp only [hstep, hstep', if_true] at hmeets ⊢
    obtain ⟨drawn, hview⟩ := view_msgAllocate env hfresh.live
    cases halloc : msgAllocate env s with
    | mk found s' =>
      rw [halloc] at hmeets hview
      cases found with
      | none =>
        refine ⟨msgAllocate_failed halloc ▸ hfresh.live.called, drawn, fun spare => ?_⟩
        dsimp only
        rw [hview]
        rfl
      | some fup =>
        obtain ⟨hbegun, hhwts, hbegunView⟩ := beginFollowUp_refines hfresh halloc
        obtain ⟨hworks, hevent⟩ := fwdEvent_refines hbegun hmeets.1
        obtain ⟨-, hpacket, hnone⟩ := hworks.idle _ (List.mem_singleton_self _)
        have hfup : Fresh (fup :: held) [] fup (Relay.standIn env (s.packet m))
            (tcFwdEvent env q m (beginFollowUp env m fup s')) :=
          ⟨hworks.live, List.mem_cons_self, hpacket, hnone,
            fun _ hentry => absurd hentry List.not_mem_nil⟩
        obtain ⟨hdone, hfolup⟩ := fwdFolup_refines hfup hmeets.2
        obtain ⟨drawn', hboth⟩ := hevent.comp hfolup
        refine ⟨hdone.live.put, drawn ++ drawn', fun spare => ?_⟩
        dsimp only
        rw [List.append_assoc, hview, view_msgPut, ← hboth spare, ← hhwts, hbegunView]
        rfl
  · have hstep' : ¬oneStep env (s.packet m).mem = true := hstep
    simp only [hstep, hstep'] at hmeets ⊢
    obtain ⟨hworks, hevent⟩ := fwdEvent_refines hfresh hmeets
    exact ⟨hworks.live, hevent⟩

/-- All other messages are forwarded alike. -/
theorem forward_refines (hfresh : Fresh held [] m packet s) (q : ℕ) :
    Live held (tcForward env q m s) ∧
      Refines view (Relay.forward env q packet) s (tcForward env q m s) := by
  obtain rfl := hfresh.packet
  have hsends : ∀ {packet s}, Fresh held [] m packet s →
      Live held (tcSendAll env q m s) ∧
        Refines view (Relay.sendAll env q packet) s (tcSendAll env q m s) := by
    intro packet s hfresh
    have hworks : Works held [] m packet (s.msgs m).hostTime s :=
      ⟨hfresh.live, hfresh.mem, hfresh.packet, rfl, hfresh.idle⟩
    obtain ⟨hsent, hrefines⟩ := sendAll_refines env hworks q
    exact ⟨hsent.live, hrefines⟩
  have hcounted : (countStep env m s).packet m = Relay.countStep (s.packet m) := by
    have hmsg : (countStep env m s).msgs m = { s.msgs m with
        mem := storeBytes (s.msgs m).mem Announce.stepsRemoved.offset
          (env.host.endian.encode 2 (env.host.endian.ntoh 2
            ((1 + env.host.endian.ntoh 2 (hostWord env.host.endian (s.msgs m).mem
              Announce.stepsRemoved.offset 2)) % 2 ^ 16))) } := Function.update_self ..
    rw [TcState.packet, hmsg]
    simp only [Endian.encode_ntoh, ntoh_hostWord]
    rfl
  have hcountFresh : Fresh held [] m (Relay.countStep (s.packet m))
      (countStep env m s) :=
    ⟨hfresh.live.modifyMsg rfl, hfresh.mem, hcounted, hfresh.alone,
      fun _ hentry => absurd hentry List.not_mem_nil⟩
  unfold tcForward Relay.forward
  by_cases hcounts : (s.ports q).tcSpanningTree = true ∧
      messageType (s.msgs m).mem = some .announce
  · obtain ⟨hlive, drawn, hrefines⟩ := hsends hcountFresh
    rw [if_pos hcounts]
    refine ⟨hlive, drawn, fun spare => ?_⟩
    have hcounts' : ((view s (drawn ++ spare)).ports q).tcSpanningTree = true ∧
        (s.packet m).type = some .announce := hcounts
    dsimp only
    rw [← hrefines spare, countStep, view_modifyMsg hfresh.live hfresh.alone,
      if_pos hcounts']
  · obtain ⟨hlive, drawn, hrefines⟩ := hsends hfresh
    rw [if_neg hcounts]
    refine ⟨hlive, drawn, fun spare => ?_⟩
    have hcounts' : ¬(((view s (drawn ++ spare)).ports q).tcSpanningTree = true ∧
        (s.packet m).type = some .announce) := hcounts
    dsimp only
    rw [← hrefines spare, if_neg hcounts']

/-- The type of the message decides in both how it is forwarded. -/
theorem switch_refines (hfresh : Fresh held [] m packet s)
    (hmeets : SwitchMeets env q m s) :
    Live held (tcSwitch env q m s) ∧
      Refines view (Relay.switch env q packet (s.msgs m).hwts) s
        (tcSwitch env q m s) := by
  have htype : messageType (s.msgs m).mem = packet.type :=
    congrArg Packet.type hfresh.packet
  have he2e : ∀ spare, ((view s spare).ports q).e2e = (s.ports q).e2e := fun _ => rfl
  have hend : Live held s ∧ Refines view id s s := ⟨hfresh.live, .refl s⟩
  unfold SwitchMeets at hmeets
  unfold tcSwitch Relay.switch
  rw [htype] at hmeets ⊢
  generalize packet.type = type at hmeets ⊢
  cases type with
  | none => exact hend
  | some type =>
    cases type with
    | sync => exact fwdSync_refines hfresh hmeets
    | followUp =>
      obtain ⟨hdone, hrefines⟩ := fwdFolup_refines hfresh hmeets
      exact ⟨hdone.live, hrefines⟩
    | delayReq =>
      by_cases hport : (s.ports q).e2e = true
      · simp only [hport, if_true] at hmeets ⊢
        obtain ⟨hdone, hrefines⟩ := fwdEvent_refines hfresh hmeets
        exact ⟨hdone.live, .ifPos (fun spare => (he2e spare).trans hport) hrefines⟩
      · dsimp only
        rw [if_neg hport]
        exact ⟨hfresh.live, .ifNeg (fun spare => by rwa [he2e]) (.refl s)⟩
    | delayResp =>
      by_cases hport : (s.ports q).e2e = true
      · simp only [hport, if_true] at hmeets ⊢
        obtain ⟨hdone, hrefines⟩ := fwdFolup_refines hfresh hmeets
        exact ⟨hdone.live, .ifPos (fun spare => (he2e spare).trans hport) hrefines⟩
      · dsimp only
        rw [if_neg hport]
        exact ⟨hfresh.live, .ifNeg (fun spare => by rwa [he2e]) (.refl s)⟩
    | announce | signaling | management => exact forward_refines hfresh q
    | pdelayReq | pdelayResp | pdelayRespFollowUp => exact hend

/-! ## Steps -/

/-- A message that a datagram has been put into. -/
theorem receiveInto_refines (hlive : Live [m] s) (hnone : s.holders m = ∅)
    (hblank : s.msgs m = .fresh) (datagram : List UInt8) (hwts : ℤ) :
    Live [m] (receiveInto m datagram hwts s) ∧
      (receiveInto m datagram hwts s).msgs m = { PtpMessage.fresh with
        mem := datagramMem datagram
        hwts := hwts } ∧
      ∀ spare, view (receiveInto m datagram hwts s) spare = view s spare := by
  refine ⟨hlive.modifyMsg rfl, ?_, view_modifyMsg hlive hnone⟩
  have hmsg : (receiveInto m datagram hwts s).msgs m = { s.msgs m with
      mem := storeBytes (s.msgs m).mem 0 datagram
      hwts := hwts } := Function.update_self ..
  rw [hmsg, hblank]
  rfl

/-- A message is taken for forwarding. -/
theorem markReceived_refines {msg : PtpMessage} (hlive : Live [m] s)
    (hnone : s.holders m = ∅) (hmsg : s.msgs m = msg) (datagram : List UInt8) :
    Fresh [m] [] m ⟨msg.mem, .received datagram⟩ (markReceived m datagram s.called) ∧
      ((markReceived m datagram s.called).msgs m).hwts = msg.hwts ∧
      ∀ spare, view (markReceived m datagram s.called) spare =
        (view s spare).called := by
  have hmarked : (markReceived m datagram s.called).msgs m =
      { s.msgs m with origin := .received datagram } := Function.update_self ..
  refine ⟨⟨hlive.called.modifyMsg rfl, List.mem_singleton_self m, ?_, hnone,
    fun _ hentry => absurd hentry List.not_mem_nil⟩, ?_, fun spare => ?_⟩
  · rw [TcState.packet, hmarked, hmsg]
  · rw [hmarked, hmsg]
  · exact view_modifyMsg hlive.called hnone spare

/-- The same messages wait on the same ports, and the same has been sent. -/
structure SameRelay (r r' : Relay) : Prop where
  ports : r'.ports = r.ports
  pending : r'.pending = r.pending
  handed : r'.handed = r.handed

/-- A datagram is refused, or taken into a message that nothing else refers to. -/
theorem tcAccept_refines (hlive : Live [] s) (q : ℕ) (datagram : List UInt8) (hwts : ℤ) :
    match tcAccept env datagram hwts s with
    | (none, s') =>
        Live [] s' ∧ Refines view (Relay.receive env q datagram hwts) s s'
    | (some m, s') =>
        Fresh [m] [] m ⟨datagramMem datagram, .received datagram⟩ s' ∧
          (s'.msgs m).hwts = hwts ∧ SameRelay (view s []) (view s' []) ∧
          ∃ drawn, ∀ rest, Relay.receive env q datagram hwts (view s (drawn ++ rest)) =
            Relay.switch env q ⟨datagramMem datagram, .received datagram⟩ hwts
              (view s' rest) := by
  obtain ⟨drawn, hview⟩ := view_msgAllocate env hlive
  have hkept : SameRelay (view s []) (view (msgAllocate env s).2 []) := by
    have hallocated := hview []
    rw [Relay.allocate] at hallocated
    split at hallocated
    all_goals
      rw [← (Prod.mk.inj hallocated).2]
      exact ⟨rfl, rfl, rfl⟩
  unfold tcAccept
  cases halloc : msgAllocate env s with
  | mk found s' =>
    rw [halloc] at hview hkept
    cases found with
    | none =>
      refine ⟨msgAllocate_failed halloc ▸ hlive.called, drawn, fun spare => ?_⟩
      rw [Relay.receive, hview]
      rfl
    | some m =>
      obtain ⟨hlive', hnone, -, hblank⟩ := hlive.allocate halloc
      have hsame : SameDescriptors s s' := by
        have hallocated := sameDescriptors_msgAllocate env s
        rwa [halloc] at hallocated
      replace hnone := (holders_congr hsame m).trans hnone
      obtain ⟨hfilled, hmsg, hfilledView⟩ :=
        receiveInto_refines hlive' hnone hblank datagram hwts
      have hnone' : (receiveInto m datagram hwts s').holders m = ∅ := hnone
      have hspec : ∀ spare, Relay.receive env q datagram hwts (view s (drawn ++ spare)) =
          if fieldIsSet (datagramMem datagram) unicastFlag then view s' spare
          else if env.malloc s'.calls ∧
              Relay.wellFormed env datagram hwts (view s' spare) then
            Relay.switch env q ⟨datagramMem datagram, .received datagram⟩ hwts
              (view s' spare).called
          else (view s' spare).called := by
        intro spare
        rw [Relay.receive, hview]
        rfl
      have hcalls : (receiveInto m datagram hwts s').calls = s'.calls := rfl
      dsimp only
      generalize receiveInto m datagram hwts s' = filled at *
      have hwellFormed : ∀ spare, Relay.wellFormed env datagram hwts (view s' spare) =
          duplicates env (datagramMem datagram) datagram.length hwts filled := by
        intro spare
        unfold Relay.wellFormed duplicates
        rw [hcalls]
        rfl
      rw [hmsg]
      dsimp only
      by_cases hunicast : fieldIsSet (datagramMem datagram) unicastFlag = true
      · rw [if_pos hunicast]
        refine ⟨hfilled.put, drawn, fun spare => ?_⟩
        rw [hspec, if_pos hunicast, view_msgPut, hfilledView]
      · rw [if_neg hunicast]
        by_cases hrefused : env.malloc filled.calls = false ∨
            duplicates env (datagramMem datagram) datagram.length hwts filled = false
        · rw [if_pos hrefused]
          refine ⟨hfilled.called.put, drawn, fun spare => ?_⟩
          have hnot : ¬(env.malloc s'.calls = true ∧
              Relay.wellFormed env datagram hwts (view s' spare) = true) := by
            rw [hwellFormed, ← hcalls, not_and_or, Bool.not_eq_true, Bool.not_eq_true]
            exact hrefused
          have hput : view (msgPut m filled.called) spare = (view s' spare).called := by
            rw [view_msgPut, ← hfilledView]
            rfl
          rw [hspec, if_neg hunicast, if_neg hnot]
          exact hput.symm
        · rw [if_neg hrefused]
          obtain ⟨hfresh, hhwts, hmarkedView⟩ :=
            markReceived_refines hfilled hnone' hmsg datagram
          rw [not_or, Bool.not_eq_false, Bool.not_eq_false] at hrefused
          refine ⟨hfresh, hhwts, ?_, drawn, fun spare => ?_⟩
          · rw [hmarkedView, hfilledView]
            exact ⟨hkept.ports, hkept.pending, hkept.handed⟩
          · rw [hspec, if_neg hunicast, hwellFormed, ← hcalls, if_pos hrefused,
              hmarkedView, hfilledView]

/-- A datagram that is received refines the receipt of the relay. -/
theorem receive_refines (hlive : Live [] s) (datagram : List UInt8) (hwts : ℤ)
    (hmeets : StepMeets env s (.receive q datagram hwts)) :
    Live [] (tcReceive env q datagram hwts s) ∧
      Refines view (Relay.receive env q datagram hwts) s
        (tcReceive env q datagram hwts s) := by
  have haccept := @tcAccept_refines env s hlive q datagram hwts
  unfold StepMeets at hmeets
  dsimp only at hmeets
  unfold tcReceive
  cases hrun : tcAccept env datagram hwts s with
  | mk found s' =>
    rw [hrun] at hmeets haccept
    cases found with
    | none => exact haccept
    | some m =>
      obtain ⟨hfresh, hhwts, -, drawn, hreceive⟩ := haccept
      obtain ⟨hdone, drawn', hswitch⟩ := switch_refines hfresh hmeets
      refine ⟨hdone.put, drawn ++ drawn', fun spare => ?_⟩
      rw [List.append_assoc, hreceive, view_msgPut, ← hswitch spare, hhwts]

/-- The loop drops from the front the records that are too old. -/
theorem viewWith_tcPruneLoop {start : TcState} {now : Timespec} {txds : List ℕ}
    (hsame : SameRecords start s) (hlist : s.list p = txds) :
    viewWith start.record (tcPruneLoop p now txds s) spare =
      Relay.modifyPending p
        (List.dropWhile fun held => !tcCurrent held.hostTime now)
        (viewWith start.record s spare) := by
  induction txds generalizing s with
  | nil =>
    have hempty : (viewWith start.record s spare).pending p = [] := by
      simp [viewWith, hlist]
    rw [tcPruneLoop, Relay.modifyPending, hempty, List.dropWhile_nil, ← hempty,
      Function.update_eq_self]
  | cons txd rest ih =>
    have hpending : (viewWith start.record s spare).pending p =
        start.record txd :: rest.map start.record := by
      simp [viewWith, hlist]
    have htime : (start.record txd).hostTime = (s.msgs (s.txds txd).msg).hostTime :=
      congrArg Pending.hostTime (hsame.record txd).symm
    rw [tcPruneLoop]
    by_cases hcurrent : tcCurrent (s.msgs (s.txds txd).msg).hostTime now = true
    · rw [if_pos hcurrent, Relay.modifyPending, hpending,
        List.dropWhile_cons_of_neg (by rw [htime, hcurrent]; exact Bool.false_ne_true),
        ← hpending, Function.update_eq_self]
    · have hrest : (tcDiscard p txd s).list p = rest := by
        rw [tcDiscard_list, if_pos rfl, hlist, List.erase_cons_head]
      rw [if_neg hcurrent, ih (hsame.trans (.tcDiscard p txd s)) hrest,
        viewWith_tcDiscard, hlist, List.erase_cons_head]
      simp only [Relay.modifyPending, hpending, Function.update_self,
        Function.update_idem]
      rw [List.dropWhile_cons_of_pos (by simpa [htime] using hcurrent)]

/-- Pruning refines pruning. -/
theorem prune_refines (hlive : Live [] s) (p : ℕ) :
    Live [] (tcPrune env p s) ∧
      Refines view (Relay.prune env p) s (tcPrune env p s) := by
  refine ⟨hlive.called.pruneLoop rfl, .of_eq fun spare => ?_⟩
  have hsame := sameRecords_called s
  have hpruned := hsame.trans (SameRecords.pruneLoop (p := p) (env.monotonic s.calls)
    (s.ports p).tcTransmitted s.called)
  have hview := @viewWith_tcPruneLoop s.called p spare s (env.monotonic s.calls)
    (s.ports p).tcTransmitted hsame rfl
  rw [show tcPrune env p s = tcPruneLoop p (env.monotonic s.calls)
    (s.ports p).tcTransmitted s.called from rfl, hpruned.view, hview]
  rfl

/-- The peer delay is noted in both. -/
theorem peerDelay_refines (hlive : Live [] s) (p : ℕ) (delay : ℤ) :
    Live [] (portPeerDelay p delay s) ∧
      Refines view (Relay.setPeerDelay p delay) s (portPeerDelay p delay s) := by
  have hlive' : Live [] (portPeerDelay p delay s) :=
    hlive.congr (sameDescriptors_portPeerDelay p delay s) ⟨fun _ => rfl, rfl, rfl⟩
  have hrecords : ∀ p', ∀ txd ∈ (portPeerDelay p delay s).list p',
      (portPeerDelay p delay s).record txd = s.record txd := fun _ _ _ => rfl
  refine ⟨hlive', .of_eq fun spare => ?_⟩
  rw [view_eq hrecords]
  exact (viewWith_portPeerDelay p delay s).symm

/-- Every action refines that of the relay. -/
theorem step_refines (hlive : Live [] s) (action : Action)
    (hmeets : StepMeets env s action) :
    Live [] (step env s action) ∧
      Refines view (fun r => Relay.step env r action) s (step env s action) := by
  cases action with
  | receive q datagram hwts => exact receive_refines hlive datagram hwts hmeets
  | dispatch p event mdiff =>
    exact ⟨hlive.dispatch event mdiff,
      .of_eq fun _ => (view_portDispatch event mdiff s).symm⟩
  | delayTimer p => exact prune_refines hlive p
  | peerDelay p delay => exact peerDelay_refines hlive p delay

/-! ## Runs -/

theorem live_initial (ports : ℕ → TcPort) (failed : ℕ → Bool) :
    Live [] (TcState.initial ports failed) where
  owner := singleOwner_initial ports failed
  counted := by
    refine ⟨fun m hm => absurd hm (Nat.not_lt_zero m), fun m _ => ?_,
      fun m hm => absurd hm List.not_mem_nil, List.nodup_nil⟩
    simp [holders, TcState.initial]

/-- After every run each stashed message is still referred to. -/
theorem run_live {ports : ℕ → TcPort} (failed : ℕ → Bool) {actions : List Action}
    (hmeets : Stepping.Meets (step env) (StepMeets env) actions
      (TcState.initial ports failed)) :
    Live [] (Stepping.run (step env) actions (TcState.initial ports failed)) ∧
      Refines view (Stepping.run (Relay.step env) actions)
        (TcState.initial ports failed)
        (Stepping.run (step env) actions (TcState.initial ports failed)) := by
  have hrun := Refines.run (fun _ action hlive hmeets => step_refines hlive action hmeets)
    hmeets (live_initial ports failed)
  exact hrun

end LinuxPtp.Tc
