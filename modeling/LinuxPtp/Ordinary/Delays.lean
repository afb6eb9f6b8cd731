import LinuxPtp.Bmc.Ageing
import LinuxPtp.Ordinary.Requests

/-!
# Samples of the path delay

Every sample of the end-to-end or of the peer delay comes from one pending
request of its own and one answer to it, and no request is used twice.
-/

namespace LinuxPtp.Ordinary

open Bmc Cells Port Wire

variable {env : Env} {p q : ℕ} {s s' : PtpClock}

/-! ## End-to-end delay -/

/-- The request of a sample, by its port and the call that has sent it. -/
def DelaySample.key (sample : DelaySample) : ℕ × ℕ :=
  (sample.port, sample.request.sent)

/-- The response answers the request, comes from the parent of that moment and is
for this port; the time stamps are those of the two. -/
structure DelaySample.Sound (sample : DelaySample) (identity : PortIdentity) :
    Prop where
  sequence : sample.request.sequenceId = sample.response.sequenceId
  parent : sample.response.sourcePortIdentity = sample.parent
  port : sample.response.requestingPortIdentity = identity
  req : sample.req = sample.request.hwts
  rx : sample.rx = timestampToTmv sample.response.pdu -
    correctionToTmv sample.response.correction

/-- The pending requests are ordered, and none of them has been used; those used
are all different. -/
structure DelaysKept (env : Env) (s : PtpClock) : Prop where
  sent : ∀ p, ∀ request ∈ (s.ports p).delayReq, request.sent < s.calls
  time : ∀ p, ∀ request ∈ (s.ports p).delayReq,
    request.hostTime = env.bmc.monotonic request.sent
  newest : ∀ p, (s.ports p).delayReq.Pairwise
    fun newer older => older.sent < newer.sent
  past : ∀ sample ∈ s.delaySamples, sample.request.sent < s.calls
  unused : ∀ p, ∀ request ∈ (s.ports p).delayReq, ∀ sample ∈ s.delaySamples,
    sample.key ≠ (p, request.sent)
  once : (s.delaySamples.map DelaySample.key).Nodup
  sound : ∀ sample ∈ s.delaySamples,
    sample.Sound (s.ports sample.port).portIdentity

/-- Fewer requests may wait. -/
theorem DelaysKept.mono (hkept : DelaysKept env s)
    (hfewer : ∀ q, (s'.ports q).delayReq.Sublist (s.ports q).delayReq)
    (hidentity : ∀ q, (s'.ports q).portIdentity = (s.ports q).portIdentity)
    (hcalls : s.calls ≤ s'.calls)
    (hsamples : s'.delaySamples = s.delaySamples) : DelaysKept env s' where
  sent q request hrequest :=
    (hkept.sent q request ((hfewer q).subset hrequest)).trans_le hcalls
  time q request hrequest := hkept.time q request ((hfewer q).subset hrequest)
  newest q := (hkept.newest q).sublist (hfewer q)
  past sample hsample :=
    (hkept.past sample (hsamples ▸ hsample)).trans_le hcalls
  unused q request hrequest sample hsample :=
    hkept.unused q request ((hfewer q).subset hrequest) sample
      (hsamples ▸ hsample)
  once := hsamples ▸ hkept.once
  sound sample hsample := by
    rw [hidentity]
    exact hkept.sound sample (hsamples ▸ hsample)

theorem DelaysKept.sheds (hsheds : Sheds s s') (hkept : DelaysKept env s) :
    DelaysKept env s' :=
  hkept.mono (fun q => (hsheds.ports q).delayReq)
    (fun q => (hsheds.ports q).identity) hsheds.calls hsheds.delaySamples

/-- A new request is younger than all others. -/
theorem DelaysKept.keep (hkept : DelaysKept env s) {request : DelayReq}
    (hsent : request.sent = s.calls)
    (htime : request.hostTime = env.bmc.monotonic s.calls) :
    DelaysKept env (keepDelayReq p request (called s)) := by
  have hports : ∀ q, ((keepDelayReq p request (called s)).ports q).delayReq =
      if q = p then request :: (s.ports p).delayReq else (s.ports q).delayReq := by
    intro q
    split
    · rename_i hsame
      rw [hsame, keepDelayReq, modifyPort_same]
      rfl
    · rename_i hother
      rw [keepDelayReq, modifyPort_other _ hother]
      rfl
  have hmem : ∀ q, ∀ r ∈ ((keepDelayReq p request (called s)).ports q).delayReq,
      (q = p ∧ r = request) ∨ r ∈ (s.ports q).delayReq := by
    intro q r hr
    rw [hports q] at hr
    split at hr
    · rename_i hsame
      rcases List.mem_cons.mp hr with rfl | hr
      · exact Or.inl ⟨hsame, rfl⟩
      · exact Or.inr (hsame ▸ hr)
    · exact Or.inr hr
  refine ⟨fun q r hr => ?_, fun q r hr => ?_, fun q => ?_, fun sample hsample => ?_,
    fun q r hr sample hsample => ?_, hkept.once, fun sample hsample => ?_⟩
  · rcases hmem q r hr with ⟨-, rfl⟩ | hr
    · exact hsent.trans_lt (Nat.lt_succ_self _)
    · exact (hkept.sent q r hr).trans (Nat.lt_succ_self _)
  · rcases hmem q r hr with ⟨-, rfl⟩ | hr
    · rw [htime, hsent]
    · exact hkept.time q r hr
  · rw [hports q]
    split
    · refine List.pairwise_cons.mpr ⟨fun r hr => ?_, hkept.newest p⟩
      exact (hkept.sent p r hr).trans_eq hsent.symm
    · exact hkept.newest q
  · exact (hkept.past sample hsample).trans (Nat.lt_succ_self _)
  · rcases hmem q r hr with ⟨-, rfl⟩ | hr
    · intro hkey
      have hsame : sample.request.sent = r.sent := congrArg Prod.snd hkey
      have hpast := hkept.past sample hsample
      omega
    · exact hkept.unused q r hr sample hsample
  · have hidentity : ((keepDelayReq p request (called s)).ports
        sample.port).portIdentity = (s.ports sample.port).portIdentity := by
      by_cases hsame : sample.port = p
      · rw [hsame, keepDelayReq, modifyPort_same]
        rfl
      · rw [keepDelayReq, modifyPort_other _ hsame]
        rfl
    rw [hidentity]
    exact hkept.sound sample hsample

/-- The request of a sample is removed. -/
theorem DelaysKept.use (hkept : DelaysKept env s) {request : DelayReq}
    {m : Message} (hrequest : request ∈ (s.ports p).delayReq)
    (hsequence : request.sequenceId = m.sequenceId)
    (hport : m.requestingPortIdentity = (s.ports p).portIdentity)
    (hparent : s.parentPortIdentity = m.sourcePortIdentity) :
    DelaysKept env (dropDelayReq p request (ptpClockPathDelay p request m s)) := by
  have hsublist : ∀ q, ((dropDelayReq p request
      (ptpClockPathDelay p request m s)).ports q).delayReq.Sublist
      (s.ports q).delayReq := by
    intro q
    by_cases hsame : q = p
    · subst hsame
      rw [dropDelayReq, modifyPort_same]
      exact List.erase_sublist
    · rw [dropDelayReq, modifyPort_other _ hsame]
      exact List.Sublist.refl _
  have hdropped : DelaysKept env (dropDelayReq p request s) := by
    refine hkept.mono hsublist (fun q => ?_) le_rfl rfl
    by_cases hsame : q = p
    · subst hsame
      rw [dropDelayReq, modifyPort_same]
      rfl
    · rw [dropDelayReq, modifyPort_other _ hsame]
      rfl
  have hnodup : ((s.ports p).delayReq.map DelayReq.sent).Nodup := by
    rw [List.Nodup, List.pairwise_map]
    exact (hkept.newest p).imp fun hlt => hlt.ne'
  have hgone : ∀ r ∈ (s.ports p).delayReq.erase request, r.sent ≠ request.sent := by
    intro r hr hsame
    have hdistinct : (s.ports p).delayReq.Nodup := hnodup.of_map
    have hmem := List.mem_of_mem_erase hr
    obtain rfl := List.inj_on_of_nodup_map hnodup hmem hrequest hsame
    exact hdistinct.not_mem_erase hr
  refine ⟨hdropped.sent, hdropped.time, hdropped.newest, fun sample hsample => ?_,
    fun q r hr sample hsample => ?_, ?_, fun sample hsample => ?_⟩
  · rcases List.mem_cons.mp hsample with rfl | hsample
    · exact hkept.sent p request hrequest
    · exact hkept.past sample hsample
  · rcases List.mem_cons.mp hsample with rfl | hsample
    · intro hkey
      obtain rfl : p = q := congrArg Prod.fst hkey
      rw [dropDelayReq, modifyPort_same] at hr
      exact hgone r hr (congrArg Prod.snd hkey).symm
    · exact hkept.unused q r ((hsublist q).subset hr) sample hsample
  · refine List.nodup_cons.mpr ⟨fun hmem => ?_, hkept.once⟩
    obtain ⟨sample, hsample, hkey⟩ := List.mem_map.mp hmem
    exact hkept.unused p request hrequest sample hsample hkey
  · rcases List.mem_cons.mp hsample with rfl | hsample
    · have hidentity : ((dropDelayReq p request
          (ptpClockPathDelay p request m s)).ports p).portIdentity =
          (s.ports p).portIdentity := by
        rw [dropDelayReq, modifyPort_same]
        rfl
      exact ⟨hsequence, hparent.symm, hport.trans hidentity.symm, rfl, rfl⟩
    · exact hdropped.sound sample hsample

theorem keepPeerDelayReq_delayReq {request : DelayReq} (q : ℕ) :
    ((keepPeerDelayReq p request (putPeerDelayReq p (called s))).ports
        q).delayReq = (s.ports q).delayReq ∧
      ((keepPeerDelayReq p request (putPeerDelayReq p (called s))).ports
        q).portIdentity = (s.ports q).portIdentity := by
  by_cases hsame : q = p
  · subst hsame
    simp [keepPeerDelayReq]
  · have hput := (Kept.refl p s).called.putPeerDelayReq.toWithin
    rw [(hput.trans keepPeerDelayReq_within).ports q hsame]
    exact ⟨rfl, rfl⟩

theorem usePeerDelayReq_sheds : Sheds (recordPeerDelay p s)
    (putPeerDelayReq p (recordPeerDelay p s)) :=
  .putPeerDelayReq

theorem exchange_delaysKept (hexchange : Exchange env p s s')
    (hkept : DelaysKept env s) : DelaysKept env s' := by
  cases hexchange with
  | sheds hsheds => exact hkept.sheds hsheds
  | keepDelayReq hsent htime => exact hkept.keep hsent htime
  | keepPeerDelayReq =>
    refine hkept.mono (fun q => ?_) (fun q => (keepPeerDelayReq_delayReq q).2) ?_ ?_
    · rw [(keepPeerDelayReq_delayReq q).1]
    · exact ((Kept.refl p s).called.putPeerDelayReq.toWithin.trans
        keepPeerDelayReq_within).calls
    · exact ((Kept.refl p s).called.putPeerDelayReq.toWithin.trans
        keepPeerDelayReq_within).delaySamples
  | useDelayReq hrequest hsequence hport hparent =>
    exact hkept.use hrequest hsequence hport hparent
  | usePeerDelayReq =>
    have hrecorded : DelaysKept env (recordPeerDelay p s) :=
      hkept.mono (fun _ => List.Sublist.refl _) (fun _ => rfl) le_rfl rfl
    exact hrecorded.sheds usePeerDelayReq_sheds

theorem delaysKept_upholds : Upholds env (DelaysKept env) :=
  upholds_of_exchanges (fun _ _ hsheds hkept => hkept.sheds hsheds)
    fun _ _ _ => exchange_delaysKept

theorem newClock_delaysKept : DelaysKept env (newClock env) where
  sent _ _ hnone := nomatch hnone
  time _ _ hnone := nomatch hnone
  newest _ := .nil
  past _ hnone := nomatch hnone
  unused _ _ hnone := nomatch hnone
  once := .nil
  sound _ hnone := nomatch hnone

/-- Time does not go back from one reading of the clock to the next. -/
def MonotonicTime (env : Env) : Prop :=
  ∀ m n, m ≤ n →
    nanoseconds (env.bmc.monotonic m) ≤ nanoseconds (env.bmc.monotonic n)

/-- What is to be said of the end-to-end delay samples: each is sound and has a
request of its own; a response that makes one takes the request from the pending
ones; and these are ordered newest first, so that pruning leaves those that are
young enough. -/
structure DelaySamplesExact (env : Env) (s : PtpClock) : Prop where
  sound : ∀ sample ∈ s.delaySamples,
    sample.Sound (s.ports sample.port).portIdentity
  once : (s.delaySamples.map DelaySample.key).Nodup
  taken : ∀ p m, (portMsgProDelayResp env p m s).delaySamples = s.delaySamples ∨
    ∃ request ∈ (s.ports p).delayReq,
      request.sequenceId = m.sequenceId ∧
      (portMsgProDelayResp env p m s).delaySamples =
        delaySample p request m s.parentPortIdentity :: s.delaySamples ∧
      ((portMsgProDelayResp env p m s).ports p).delayReq =
        (s.ports p).delayReq.erase request ∧
      request ∉ (s.ports p).delayReq.erase request
  newest : ∀ p, (s.ports p).delayReq.Pairwise fun newer older =>
    nanoseconds older.hostTime ≤ nanoseconds newer.hostTime
  pruned : ∀ p, ((delayReqPrune env p s).ports p).delayReq =
    (s.ports p).delayReq.filter (delayReqCurrent (env.bmc.monotonic s.calls))

theorem DelaysKept.nodup (hkept : DelaysKept env s) (p : ℕ) :
    (s.ports p).delayReq.Nodup :=
  (hkept.newest p).imp fun hlt heq => hlt.ne (congrArg DelayReq.sent heq.symm)

theorem DelaysKept.ordered (hkept : DelaysKept env s) (hclock : MonotonicTime env)
    (p : ℕ) : (s.ports p).delayReq.Pairwise fun newer older =>
      nanoseconds older.hostTime ≤ nanoseconds newer.hostTime := by
  refine (hkept.newest p).imp_of_mem fun hnewer holder hlt => ?_
  rw [hkept.time p _ hnewer, hkept.time p _ holder]
  exact hclock _ _ hlt.le

/-- What a response does to the samples and the pending requests. -/
theorem portMsgProDelayResp_taken (m : Message) :
    (portMsgProDelayResp env p m s).delaySamples = s.delaySamples ∨
    ∃ request ∈ (s.ports p).delayReq,
      request.sequenceId = m.sequenceId ∧
      (portMsgProDelayResp env p m s).delaySamples =
        delaySample p request m s.parentPortIdentity :: s.delaySamples ∧
      ((portMsgProDelayResp env p m s).ports p).delayReq =
        (s.ports p).delayReq.erase request := by
  rw [portMsgProDelayResp]
  split
  · exact Or.inl rfl
  split
  · exact Or.inl rfl
  split
  · exact Or.inl rfl
  split
  · exact Or.inl rfl
  · rename_i request hfound
    refine Or.inr ⟨request, List.mem_of_find?_eq_some hfound,
      by simpa using List.find?_some hfound, ?_⟩
    have hdropped : ((dropDelayReq p request
        (ptpClockPathDelay p request m s)).ports p).delayReq =
        (s.ports p).delayReq.erase request := by
      rw [dropDelayReq, modifyPort_same]
      rfl
    dsimp only
    split_ifs
    · exact ⟨rfl, hdropped⟩
    · exact ⟨rfl, hdropped⟩
    · exact ⟨rfl, hdropped⟩
    · have hkept := @Kept.portSetDelayTmo env p _ _ (.refl p
        (setLogMinDelayReqInterval p m.logMessageInterval.toInt
          (dropDelayReq p request (ptpClockPathDelay p request m s))))
      refine ⟨hkept.delaySamples, ?_⟩
      refine (congrArg Requests.delayReq portSetDelayTmo_requests).trans ?_
      dsimp only [PtpPort.requests]
      rw [setLogMinDelayReqInterval, modifyPort_same]
      exact hdropped

theorem runClock_delaySamplesExact (env : Env) (steps : List Step)
    (hclock : MonotonicTime env) :
    DelaySamplesExact env (runClock env steps) := by
  have hkept : DelaysKept env (runClock env steps) :=
    delaysKept_upholds.runClock newClock_delaysKept steps
  refine ⟨hkept.sound, hkept.once, fun p m => ?_, hkept.ordered hclock, fun p => ?_⟩
  · rcases portMsgProDelayResp_taken m with
      hsame | ⟨request, hrequest, hsequence, hsample, hports⟩
    · exact Or.inl hsame
    · exact Or.inr ⟨request, hrequest, hsequence, hsample, hports,
        (hkept.nodup p).not_mem_erase⟩
  · rw [delayReqPrune, modifyPort_same, msgPutAll_ports]
    refine rdropWhile_eq_filter_iff.mpr ((hkept.ordered hclock p).imp ?_)
    intro newer older holder hcurrent
    simp only [delayReqCurrent, decide_eq_true_eq] at hcurrent ⊢
    omega

/-- The master answers the first Delay_Req. -/
def delayAnswer : Message :=
  { masterAnnounce with
    type := .delayResp
    logMessageInterval := 0
    pdu := ⟨0, 700⟩
    requestingPortIdentity := ⟨repeatedIdentity 1, 1⟩ }

/-- Time goes on from call to call, and the answer follows three Announces. -/
def answeredClock : Env :=
  { soloClock with
    bmc := ⟨.little, fun _ => 0, fun n => ⟨0, n⟩⟩
    receive := fun n =>
      .received (if n < 20 then masterAnnounce else delayAnswer)
    transmitTime := fun n => Int64.ofNat (10 * n) }

theorem answeredClock_monotonic : MonotonicTime answeredClock := by
  intro m n hle
  simp only [answeredClock, nanoseconds]
  omega

/-- One sample is taken, from the request that left at 210 ns. -/
theorem runClock_delaySamplesExact_answeredClock :
    DelaySamplesExact answeredClock
        (runClock answeredClock (delayRequestSteps ++ soloRound .general)) ∧
      (runClock answeredClock
        (delayRequestSteps ++ soloRound .general)).delaySamples.map
          (fun sample => (sample.req, sample.rx)) = [(210, 700)] :=
  ⟨runClock_delaySamplesExact answeredClock _ answeredClock_monotonic,
    by decide +kernel⟩

/-! ## Peer delay -/

def PeerSample.key (sample : PeerSample) : ℕ × ℕ :=
  (sample.port, sample.request.sent)

/-- The response, and the follow-up of a two-step response, belong to the request
and are for this port; the follow-up is from where the response is. -/
structure PeerSample.Sound (sample : PeerSample) (identity : PortIdentity) :
    Prop where
  sequence : sample.response.sequenceId = sample.request.sequenceId
  port : sample.response.requestingPortIdentity = identity
  twoStep : sample.followUp.isSome = sample.response.twoStep
  followUp : ∀ followUp ∈ sample.followUp,
    followUp.sequenceId = sample.request.sequenceId ∧
      followUp.requestingPortIdentity = identity ∧
      followUp.sourcePortIdentity = sample.response.sourcePortIdentity

/-- A pending request has not been used, and those used are all different. -/
structure PeerDelaysKept (s : PtpClock) : Prop where
  sent : ∀ p, ∀ request ∈ (s.ports p).peerDelayReq, request.sent < s.calls
  past : ∀ sample ∈ s.peerSamples, sample.request.sent < s.calls
  unused : ∀ p, ∀ request ∈ (s.ports p).peerDelayReq, ∀ sample ∈ s.peerSamples,
    sample.key ≠ (p, request.sent)
  once : (s.peerSamples.map PeerSample.key).Nodup
  sound : ∀ sample ∈ s.peerSamples,
    sample.Sound (s.ports sample.port).portIdentity

theorem PeerDelaysKept.mono (hkept : PeerDelaysKept s)
    (hfewer : ∀ q, ∀ request ∈ (s'.ports q).peerDelayReq,
      request ∈ (s.ports q).peerDelayReq)
    (hidentity : ∀ q, (s'.ports q).portIdentity = (s.ports q).portIdentity)
    (hcalls : s.calls ≤ s'.calls)
    (hsamples : s'.peerSamples = s.peerSamples) : PeerDelaysKept s' where
  sent q request hrequest :=
    (hkept.sent q request (hfewer q request hrequest)).trans_le hcalls
  past sample hsample :=
    (hkept.past sample (hsamples ▸ hsample)).trans_le hcalls
  unused q request hrequest sample hsample :=
    hkept.unused q request (hfewer q request hrequest) sample
      (hsamples ▸ hsample)
  once := hsamples ▸ hkept.once
  sound sample hsample := by
    rw [hidentity]
    exact hkept.sound sample (hsamples ▸ hsample)

theorem PeerDelaysKept.sheds (hsheds : Sheds s s') (hkept : PeerDelaysKept s) :
    PeerDelaysKept s' :=
  hkept.mono (fun q => (hsheds.ports q).peerDelayReq)
    (fun q => (hsheds.ports q).identity) hsheds.calls hsheds.peerSamples

/-- A new request takes the place of the one before it. -/
theorem PeerDelaysKept.keep (hkept : PeerDelaysKept s) {request : DelayReq}
    (hsent : request.sent = s.calls) :
    PeerDelaysKept
      (keepPeerDelayReq p request (putPeerDelayReq p (called s))) := by
  have hwithin := (Kept.refl p s).called.putPeerDelayReq.toWithin.trans
    (@keepPeerDelayReq_within p _ request)
  have hcalls : (keepPeerDelayReq p request
      (putPeerDelayReq p (called s))).calls = s.calls + 1 := by
    simp [keepPeerDelayReq, modifyPort, putPeerDelayReq, called]
  have hsamples := hwithin.peerSamples
  have hmem : ∀ q, ∀ r ∈ ((keepPeerDelayReq p request
      (putPeerDelayReq p (called s))).ports q).peerDelayReq,
      (q = p ∧ r = request) ∨ r ∈ (s.ports q).peerDelayReq := by
    intro q r hr
    by_cases hsame : q = p
    · subst hsame
      rw [keepPeerDelayReq, modifyPort_same] at hr
      exact Or.inl ⟨rfl, (Option.some.inj hr).symm⟩
    · rw [hwithin.ports q hsame] at hr
      exact Or.inr hr
  refine ⟨fun q r hr => ?_, fun sample hsample => ?_, fun q r hr sample hsample => ?_,
    hsamples ▸ hkept.once, fun sample hsample => ?_⟩
  · rcases hmem q r hr with ⟨-, rfl⟩ | hr
    · omega
    · exact (hkept.sent q r hr).trans_le hwithin.calls
  · exact (hkept.past sample (hsamples ▸ hsample)).trans_le hwithin.calls
  · rcases hmem q r hr with ⟨-, rfl⟩ | hr
    · intro hkey
      have hsame : sample.request.sent = r.sent := congrArg Prod.snd hkey
      have hpast := hkept.past sample (hsamples ▸ hsample)
      omega
    · exact hkept.unused q r hr sample (hsamples ▸ hsample)
  · rw [(keepPeerDelayReq_delayReq sample.port).2]
    exact hkept.sound sample (hsamples ▸ hsample)

/-- What a complete exchange is computed from. -/
theorem peerSamples_of_complete {port : PtpPort} (hcomplete : peerDelayComplete port) :
    ∃ sample : PeerSample, peerSamples p port = [sample] ∧ sample.port = p ∧
      port.peerDelayReq = some sample.request ∧
      sample.Sound port.portIdentity := by
  rw [peerDelayComplete] at hcomplete
  cases hrequest : port.peerDelayReq with
  | none => simp [hrequest] at hcomplete
  | some request =>
    cases hresponse : port.peerDelayResp with
    | none => simp [hrequest, hresponse] at hcomplete
    | some response =>
      simp only [hrequest, hresponse, Bool.and_eq_true, Bool.or_eq_true,
        decide_eq_true_eq] at hcomplete
      obtain ⟨⟨hport, hsequence⟩, hfollowUp⟩ := hcomplete
      refine ⟨⟨p, request, response,
        if response.twoStep then port.peerDelayFup else none⟩, ?_, rfl, rfl, ?_⟩
      · simp only [peerSamples, hrequest, hresponse]
      · cases htwoStep : response.twoStep with
        | false => exact ⟨hsequence, hport, by simp [htwoStep], by simp⟩
        | true =>
          cases hfup : port.peerDelayFup with
          | none => simp [htwoStep, hfup] at hfollowUp
          | some followUp =>
            simp only [htwoStep, hfup, Bool.not_true, Bool.false_eq_true,
              false_or, Bool.and_eq_true, decide_eq_true_eq] at hfollowUp
            obtain ⟨⟨hfupPort, hfupSequence⟩, hsource⟩ := hfollowUp
            refine ⟨hsequence, hport, by simp [htwoStep], ?_⟩
            rintro _ ⟨⟩
            exact ⟨hfupSequence.trans hsequence, hfupPort, hsource⟩

/-- The request of an update is given up. -/
theorem PeerDelaysKept.use (hkept : PeerDelaysKept s)
    (hcomplete : peerDelayComplete (s.ports p)) :
    PeerDelaysKept (putPeerDelayReq p (recordPeerDelay p s)) := by
  obtain ⟨sample, hsamples, hport, hrequest, hsound⟩ :=
    @peerSamples_of_complete p _ hcomplete
  have hput : Kept p (recordPeerDelay p s)
      (putPeerDelayReq p (recordPeerDelay p s)) :=
    (Kept.refl p _).putPeerDelayReq
  have hrecord : (putPeerDelayReq p (recordPeerDelay p s)).peerSamples =
      sample :: s.peerSamples := by
    rw [hput.peerSamples, recordPeerDelay, hsamples]
    rfl
  have hidentity : ∀ q, ((putPeerDelayReq p
      (recordPeerDelay p s)).ports q).portIdentity =
      (s.ports q).portIdentity :=
    fun q => (usePeerDelayReq_sheds.ports q).identity
  have hpending : ∀ q, ∀ r ∈ ((putPeerDelayReq p
      (recordPeerDelay p s)).ports q).peerDelayReq,
      q ≠ p ∧ r ∈ (s.ports q).peerDelayReq := by
    intro q r hr
    by_cases hsame : q = p
    · subst hsame
      simp [putPeerDelayReq] at hr
    · rw [hput.toWithin.ports q hsame] at hr
      exact ⟨hsame, hr⟩
  have hkey : sample.key = (p, sample.request.sent) := by rw [PeerSample.key, hport]
  refine ⟨fun q r hr => ?_, fun other hother => ?_, fun q r hr other hother => ?_,
    ?_, fun other hother => ?_⟩
  · exact (hkept.sent q r (hpending q r hr).2).trans_le hput.calls
  · rw [hrecord, List.mem_cons] at hother
    rcases hother with rfl | hother
    · exact (hkept.sent p _ hrequest).trans_le hput.calls
    · exact (hkept.past other hother).trans_le hput.calls
  · rw [hrecord, List.mem_cons] at hother
    rcases hother with rfl | hother
    · intro hsame
      exact (hpending q r hr).1
        (congrArg Prod.fst (hsame.symm.trans hkey))
    · exact hkept.unused q r (hpending q r hr).2 other hother
  · rw [hrecord]
    refine List.nodup_cons.mpr ⟨fun hmem => ?_, hkept.once⟩
    obtain ⟨other, hother, hsame⟩ := List.mem_map.mp hmem
    exact hkept.unused p sample.request hrequest other hother (hsame.trans hkey)
  · rw [hidentity]
    rw [hrecord, List.mem_cons] at hother
    rcases hother with rfl | hother
    · rw [hport]
      exact hsound
    · exact hkept.sound other hother

theorem keepDelayReq_peerDelayReq {request : DelayReq} (q : ℕ) :
    ((keepDelayReq p request (called s)).ports q).peerDelayReq =
        (s.ports q).peerDelayReq ∧
      ((keepDelayReq p request (called s)).ports q).portIdentity =
        (s.ports q).portIdentity := by
  by_cases hsame : q = p
  · subst hsame
    rw [keepDelayReq, modifyPort_same]
    exact ⟨rfl, rfl⟩
  · rw [keepDelayReq, modifyPort_other _ hsame]
    exact ⟨rfl, rfl⟩

theorem dropDelayReq_peerDelayReq {request : DelayReq} (q : ℕ) :
    ((dropDelayReq p request s).ports q).peerDelayReq =
        (s.ports q).peerDelayReq ∧
      ((dropDelayReq p request s).ports q).portIdentity =
        (s.ports q).portIdentity := by
  by_cases hsame : q = p
  · subst hsame
    rw [dropDelayReq, modifyPort_same]
    exact ⟨rfl, rfl⟩
  · rw [dropDelayReq, modifyPort_other _ hsame]
    exact ⟨rfl, rfl⟩

theorem exchange_peerDelaysKept (hexchange : Exchange env p s s')
    (hkept : PeerDelaysKept s) : PeerDelaysKept s' := by
  cases hexchange with
  | sheds hsheds => exact hkept.sheds hsheds
  | keepPeerDelayReq hsent => exact hkept.keep hsent
  | usePeerDelayReq hcomplete => exact hkept.use hcomplete
  | keepDelayReq =>
    refine hkept.mono (fun q r hr => ?_)
      (fun q => (keepDelayReq_peerDelayReq q).2) (Nat.le_succ _) rfl
    rwa [(keepDelayReq_peerDelayReq q).1] at hr
  | @useDelayReq request m =>
    refine hkept.mono (fun q r hr => ?_)
      (fun q => (@dropDelayReq_peerDelayReq p
        (ptpClockPathDelay p request m s) request q).2) le_rfl rfl
    rwa [(dropDelayReq_peerDelayReq q).1] at hr

theorem peerDelaysKept_upholds : Upholds env PeerDelaysKept :=
  upholds_of_exchanges (fun _ _ hsheds hkept => hkept.sheds hsheds)
    fun _ _ _ => exchange_peerDelaysKept

theorem newClock_peerDelaysKept : PeerDelaysKept (newClock env) where
  sent _ _ hnone := nomatch hnone
  past _ hnone := nomatch hnone
  unused _ _ hnone := nomatch hnone
  once := .nil
  sound _ hnone := nomatch hnone

/-! ## Missing messages -/

/-- `port_peer_delay` step by step, up to where all messages are there; `none` is
the dereference of a missing one. -/
def portPeerDelayStepwise (env : Env) (p : ℕ) (s : PtpClock) : Option PtpClock :=
  match (s.ports p).peerDelayResp with
  | none => some s
  | some response =>
      if response.requestingPortIdentity ≠ (s.ports p).portIdentity then some s
      else
        match (s.ports p).peerDelayReq with
        | none => none
        | some request =>
            if response.sequenceId ≠ request.sequenceId then some s
            else some (portPeerDelay env p s)

def portMsgProPDelayRespStepwise (env : Env) (p : ℕ) (m : Message)
    (s : PtpClock) : Option (Bool × PtpClock) :=
  let bad := badPeerNetwork m (s.ports p)
  let s := modifyPort p (countPeerResponse m) s
  if bad then some (false, setLastFault p .badPeerNetwork s)
  else if (s.ports p).peerDelayReq = none then some (false, s)
  else (portPeerDelayStepwise env p (storePeerDelayResp p m s)).map (true, ·)

def portMsgProPDelayRespFollowUpStepwise (env : Env) (p : ℕ) (m : Message)
    (s : PtpClock) : Option PtpClock :=
  if (s.ports p).peerDelayReq = none then some s
  else portPeerDelayStepwise env p (storePeerDelayFup p m s)

theorem portPeerDelayStepwise_eq (hrequest : (s.ports p).peerDelayReq ≠ none) :
    portPeerDelayStepwise env p s = some (portPeerDelay env p s) := by
  obtain ⟨request, hrequest⟩ := Option.ne_none_iff_exists'.mp hrequest
  rw [portPeerDelayStepwise]
  split
  · rename_i hresponse
    simp [portPeerDelay, peerDelayComplete, hrequest, hresponse]
  · rename_i response hresponse
    split
    · rename_i hport
      simp [portPeerDelay, peerDelayComplete, hrequest, hresponse, hport]
    · simp only [hrequest]
      split
      · rename_i hsequence
        simp [portPeerDelay, peerDelayComplete, hrequest, hresponse, hsequence]
      · rfl

theorem storePeerDelayResp_port (m : Message) :
    (storePeerDelayResp p m s).ports p =
      { s.ports p with peerDelayResp := some m } := by
  simp [storePeerDelayResp, putPeerDelayResp, msgGet]

theorem storePeerDelayFup_port (m : Message) :
    (storePeerDelayFup p m s).ports p =
      { s.ports p with peerDelayFup := some m } := by
  simp [storePeerDelayFup, putPeerDelayFup, msgGet]

theorem portMsgProPDelayRespStepwise_eq (m : Message) :
    portMsgProPDelayRespStepwise env p m s =
      some (portMsgProPDelayResp env p m s) := by
  rw [portMsgProPDelayRespStepwise, portMsgProPDelayResp]
  split_ifs with hbad hrequest
  · rfl
  · rfl
  · rw [portPeerDelayStepwise_eq (by rwa [storePeerDelayResp_port])]
    rfl

theorem portMsgProPDelayRespFollowUpStepwise_eq (m : Message) :
    portMsgProPDelayRespFollowUpStepwise env p m s =
      some (portMsgProPDelayRespFollowUp env p m s) := by
  rw [portMsgProPDelayRespFollowUpStepwise, portMsgProPDelayRespFollowUp]
  split_ifs with hrequest
  · rfl
  · exact portPeerDelayStepwise_eq (by rwa [storePeerDelayFup_port])

/-! ## Exact samples -/

/-- What a call of `port_peer_delay` does to the samples: it adds none, or one
from the messages of the port, and then the request is gone. -/
def PeerDelayTakes (p : ℕ) (port : PtpPort) (s s' : PtpClock) : Prop :=
  s'.peerSamples = s.peerSamples ∨
    ∃ sample : PeerSample,
      s'.peerSamples = sample :: s.peerSamples ∧
      port.peerDelayReq = some sample.request ∧
      port.peerDelayResp = some sample.response ∧
      sample.followUp = (if sample.response.twoStep then port.peerDelayFup
        else none) ∧
      sample.Sound port.portIdentity ∧
      (s'.ports p).peerDelayReq = none

theorem portPeerDelay_takes :
    PeerDelayTakes p (s.ports p) s (portPeerDelay env p s) := by
  rw [portPeerDelay]
  split_ifs with hcomplete
  · exact Or.inl rfl
  · exact Or.inl rfl
  · have hcomplete' : peerDelayComplete (s.ports p) := by simpa using hcomplete
    obtain ⟨sample, hsamples, hport, hrequest, hsound⟩ :=
      @peerSamples_of_complete p _ hcomplete'
    have hput : Kept p (recordPeerDelay p (called s))
        (putPeerDelayReq p (recordPeerDelay p (called s))) :=
      (Kept.refl p _).putPeerDelayReq
    have hresponse : (s.ports p).peerDelayResp = some sample.response ∧
        sample.followUp = if sample.response.twoStep then
          (s.ports p).peerDelayFup else none := by
      rw [peerSamples, hrequest] at hsamples
      split at hsamples
      · rename_i hpending hresponse
        obtain rfl := List.head_eq_of_cons_eq hsamples
        exact ⟨hresponse, rfl⟩
      · exact absurd hsamples (List.cons_ne_nil _ _).symm
    refine Or.inr ⟨sample, ?_, hrequest, hresponse.1, hresponse.2, hsound, ?_⟩
    · rw [hput.peerSamples, recordPeerDelay]
      exact congrArg (· ++ s.peerSamples) hsamples
    · simp [putPeerDelayReq]

/-- What is to be said of the peer delay samples: each is sound and has a request
of its own; a response or a follow-up that makes one takes the pending request;
and neither reads a missing message. -/
structure PeerSamplesExact (env : Env) (s : PtpClock) : Prop where
  sound : ∀ sample ∈ s.peerSamples,
    sample.Sound (s.ports sample.port).portIdentity
  once : (s.peerSamples.map PeerSample.key).Nodup
  response : ∀ p m, PeerDelayTakes p
    { s.ports p with peerDelayResp := some m } s
    (portMsgProPDelayResp env p m s).2
  followUp : ∀ p m, PeerDelayTakes p
    { s.ports p with peerDelayFup := some m } s
    (portMsgProPDelayRespFollowUp env p m s)
  responseReads : ∀ p m, portMsgProPDelayRespStepwise env p m s =
    some (portMsgProPDelayResp env p m s)
  followUpReads : ∀ p m, portMsgProPDelayRespFollowUpStepwise env p m s =
    some (portMsgProPDelayRespFollowUp env p m s)

theorem countPeerResponse_messages (m : Message) (port : PtpPort) :
    (countPeerResponse m port).peerDelayReq = port.peerDelayReq ∧
      (countPeerResponse m port).peerDelayFup = port.peerDelayFup ∧
      (countPeerResponse m port).portIdentity = port.portIdentity := by
  rw [countPeerResponse]
  split
  · exact ⟨rfl, rfl, rfl⟩
  · split_ifs <;> exact ⟨rfl, rfl, rfl⟩

/-- Only the messages and the identity of the port matter. -/
theorem PeerDelayTakes.of_messages {port port' : PtpPort} {s₁ : PtpClock}
    (hsamples : s₁.peerSamples = s.peerSamples)
    (hreq : port'.peerDelayReq = port.peerDelayReq)
    (hresp : port'.peerDelayResp = port.peerDelayResp)
    (hfup : port'.peerDelayFup = port.peerDelayFup)
    (hidentity : port'.portIdentity = port.portIdentity)
    (htakes : PeerDelayTakes p port s₁ s') : PeerDelayTakes p port' s s' := by
  rw [PeerDelayTakes, hsamples] at htakes
  rw [PeerDelayTakes, hreq, hresp, hfup, hidentity]
  exact htakes

theorem portMsgProPDelayResp_takes (m : Message) :
    PeerDelayTakes p { s.ports p with peerDelayResp := some m } s
      (portMsgProPDelayResp env p m s).2 := by
  rw [portMsgProPDelayResp]
  dsimp only
  split_ifs
  · exact Or.inl rfl
  · exact Or.inl rfl
  · have hcount := countPeerResponse_messages m (s.ports p)
    have hstored := @Kept.putPeerDelayResp p _ _
      (Kept.refl p (modifyPort p (countPeerResponse m) s))
    have htakes := @portPeerDelay_takes env p
      (storePeerDelayResp p m (modifyPort p (countPeerResponse m) s))
    rw [storePeerDelayResp_port, modifyPort_same] at htakes
    refine .of_messages ?_ ?_ ?_ ?_ ?_ htakes
    · exact hstored.peerSamples
    · exact hcount.1.symm
    · rfl
    · exact hcount.2.1.symm
    · exact hcount.2.2.symm

theorem portMsgProPDelayRespFollowUp_takes (m : Message) :
    PeerDelayTakes p { s.ports p with peerDelayFup := some m } s
      (portMsgProPDelayRespFollowUp env p m s) := by
  rw [portMsgProPDelayRespFollowUp]
  split_ifs
  · exact Or.inl rfl
  · have hstored := (Kept.refl p s).putPeerDelayFup
    have htakes := @portPeerDelay_takes env p (storePeerDelayFup p m s)
    rw [storePeerDelayFup_port] at htakes
    exact htakes.of_messages hstored.peerSamples rfl rfl rfl rfl

theorem runClock_peerSamplesExact (env : Env) (steps : List Step) :
    PeerSamplesExact env (runClock env steps) := by
  have hkept : PeerDelaysKept (runClock env steps) :=
    peerDelaysKept_upholds.runClock newClock_peerDelaysKept steps
  exact ⟨hkept.sound, hkept.once, fun _ => portMsgProPDelayResp_takes,
    fun _ => portMsgProPDelayRespFollowUp_takes,
    fun _ => portMsgProPDelayRespStepwise_eq,
    fun _ => portMsgProPDelayRespFollowUpStepwise_eq⟩

end LinuxPtp.Ordinary
