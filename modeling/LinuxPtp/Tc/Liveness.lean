import LinuxPtp.Tc.Pruning

/-!
# Messages that are still referred to

The references of a message are those of the descriptors on the lists, and those
of the code that is at work on it.  While each descriptor has one owner, no
message that is referred to is given up, so none is filled anew.
-/

namespace LinuxPtp.Tc

open Wire Port TcState
open Relation (ReflTransGen)

/-! ## References -/

/-- The messages have the given numbers of references; those in the pool have
none. -/
structure Counted (total : ℕ → ℕ) (s : TcState) : Prop where
  refcnt : ∀ m < s.msgCount, (s.msgs m).refcnt = total m
  unknown : ∀ m, s.msgCount ≤ m → total m = 0
  free : ∀ m ∈ s.msgPool, m < s.msgCount ∧ total m = 0
  nodup : s.msgPool.Nodup

structure SameReferences (s s' : TcState) : Prop where
  refcnt : ∀ m, (s'.msgs m).refcnt = (s.msgs m).refcnt
  msgCount : s'.msgCount = s.msgCount
  msgPool : s'.msgPool = s.msgPool

namespace SameReferences

theorem refl (s : TcState) : SameReferences s s := ⟨fun _ => rfl, rfl, rfl⟩

theorem trans {first second third : TcState} (hfirst : SameReferences first second)
    (hsecond : SameReferences second third) : SameReferences first third where
  refcnt m := (hsecond.refcnt m).trans (hfirst.refcnt m)
  msgCount := hsecond.msgCount.trans hfirst.msgCount
  msgPool := hsecond.msgPool.trans hfirst.msgPool

theorem modifyMsg (s : TcState) (m : ℕ) {f : PtpMessage → PtpMessage}
    (hf : (f (s.msgs m)).refcnt = (s.msgs m).refcnt) :
    SameReferences s (s.modifyMsg m f) where
  refcnt m' := by
    by_cases hm : m' = m
    · subst hm
      simpa [TcState.modifyMsg] using hf
    · simp [TcState.modifyMsg, hm]
  msgCount := rfl
  msgPool := rfl

end SameReferences

namespace Counted

variable {env : Env} {total : ℕ → ℕ} {s s' : TcState}

theorem congr (hcounted : Counted total s) (hsame : SameReferences s s') :
    Counted total s' where
  refcnt m hm := (hsame.refcnt m).trans (hcounted.refcnt m (hsame.msgCount ▸ hm))
  unknown m hm := hcounted.unknown m (hsame.msgCount ▸ hm)
  free m hm := by
    rw [hsame.msgCount]
    exact hcounted.free m (hsame.msgPool ▸ hm)
  nodup := hsame.msgPool ▸ hcounted.nodup

theorem known (hcounted : Counted total s) {m : ℕ} (hm : 0 < total m) :
    m < s.msgCount := by
  by_contra hunknown
  exact hm.ne' (hcounted.unknown m (Nat.le_of_not_lt hunknown))

/-- A reference that is taken is counted. -/
theorem get (hcounted : Counted total s) {m : ℕ} (hm : 0 < total m) :
    Counted (Function.update total m (total m + 1)) (msgGet m s) where
  refcnt m' hm' := by
    by_cases hsame : m' = m
    · subst hsame
      simpa [msgGet, modifyMsg] using hcounted.refcnt m' hm'
    · simpa [msgGet, modifyMsg, hsame] using hcounted.refcnt m' hm'
  unknown m' hm' := by
    have hother : m' ≠ m := by
      rintro rfl
      exact absurd (hcounted.known hm) (Nat.not_lt_of_le hm')
    rw [Function.update_of_ne hother]
    exact hcounted.unknown m' hm'
  free m' hm' := by
    obtain ⟨hlt, hnone⟩ := hcounted.free m' hm'
    have hother : m' ≠ m := by
      rintro rfl
      exact hm.ne' hnone
    exact ⟨hlt, (Function.update_of_ne hother ..).trans hnone⟩
  nodup := hcounted.nodup

/-- A message that nothing refers to any more goes into the pool. -/
theorem put (hcounted : Counted total s) {m : ℕ} (hm : 0 < total m) :
    Counted (Function.update total m (total m - 1)) (msgPut m s) := by
  have hknown := hcounted.known hm
  have hrefcnt := hcounted.refcnt m hknown
  have hother : ∀ m' ∈ s.msgPool, m' ≠ m := by
    rintro m' hm' rfl
    exact hm.ne' (hcounted.free m' hm').2
  have hcount : (msgPut m s).msgCount = s.msgCount := by
    unfold msgPut
    dsimp only
    split <;> rfl
  have hpool : (msgPut m s).msgPool =
      if total m = 1 then m :: s.msgPool else s.msgPool := by
    have hleft : ((s.modifyMsg m fun msg =>
        { msg with refcnt := msg.refcnt - 1 }).msgs m).refcnt = (total m : ℤ) - 1 := by
      simp [modifyMsg, hrefcnt]
    rw [msgPut, hleft]
    by_cases hone : total m = 1
    · simp [hone, modifyMsg]
    · rw [if_neg hone, if_pos (by omega)]
      rfl
  refine ⟨fun m' hm' => ?_, fun m' hm' => ?_, fun m' hm' => ?_, ?_⟩
  · rw [msgPut_refcnt, hcounted.refcnt m' (hcount ▸ hm')]
    by_cases hsame : m' = m
    · subst hsame
      rw [if_pos rfl, Function.update_self]
      omega
    · rw [if_neg (Ne.symm hsame), Function.update_of_ne hsame, sub_zero]
  · rw [hcount] at hm'
    rw [Function.update_of_ne (hknown.trans_le hm').ne']
    exact hcounted.unknown m' hm'
  · rw [hpool] at hm'
    rw [hcount]
    split at hm'
    · rename_i hone
      rcases List.mem_cons.mp hm' with rfl | hm'
      · exact ⟨hknown, by rw [Function.update_self, hone]⟩
      · rw [Function.update_of_ne (hother m' hm')]
        exact hcounted.free m' hm'
    · rw [Function.update_of_ne (hother m' hm')]
      exact hcounted.free m' hm'
  · rw [hpool]
    split
    · exact List.nodup_cons.mpr ⟨fun hm' => hother m hm' rfl, hcounted.nodup⟩
    · exact hcounted.nodup

/-- A message that is taken into use has had no reference. -/
theorem allocate (hcounted : Counted total s) {m : ℕ}
    (halloc : msgAllocate env s = (some m, s')) :
    total m = 0 ∧ s'.msgs m = .fresh ∧ Counted (Function.update total m 1) s' := by
  unfold msgAllocate at halloc
  split at halloc
  · rename_i m' rest hpool
    obtain ⟨hm, rfl⟩ := Prod.mk.inj halloc
    obtain rfl := Option.some.inj hm
    have hmember : m' ∈ s.msgPool := hpool ▸ List.mem_cons_self
    obtain ⟨hlt, hnone⟩ := hcounted.free m' hmember
    have hnodup := List.nodup_cons.mp (hpool ▸ hcounted.nodup)
    refine ⟨hnone, by simp [modifyMsg], fun m hm => ?_, fun m hm => ?_,
      fun m hm => ?_, hnodup.2⟩
    · by_cases hsame : m = m'
      · subst hsame
        simp [modifyMsg, PtpMessage.fresh]
      · simpa [modifyMsg, hsame] using hcounted.refcnt m hm
    · rw [Function.update_of_ne (hlt.trans_le hm).ne']
      exact hcounted.unknown m hm
    · have hother : m ≠ m' := fun hsame => hnodup.1 (hsame ▸ hm)
      rw [Function.update_of_ne hother]
      exact hcounted.free m (hpool ▸ List.mem_cons_of_mem m' hm)
  · rename_i hpool
    split at halloc
    · obtain ⟨hm, rfl⟩ := Prod.mk.inj halloc
      obtain rfl := Option.some.inj hm
      refine ⟨hcounted.unknown _ le_rfl, by simp [modifyMsg], fun m hm => ?_,
        fun m hm => ?_, fun m hm => ?_, hcounted.nodup⟩
      · by_cases hsame : m = s.msgCount
        · subst hsame
          simp [modifyMsg, PtpMessage.fresh]
        · have hlt : m < s.msgCount :=
            Nat.lt_of_le_of_ne (Nat.le_of_lt_succ hm) hsame
          simpa [modifyMsg, hsame, called] using hcounted.refcnt m hlt
      · rw [Function.update_of_ne (Nat.ne_of_gt hm)]
        exact hcounted.unknown m (Nat.le_of_succ_le hm)
      · obtain ⟨hlt, hnone⟩ := hcounted.free m hm
        exact ⟨Nat.lt_succ_of_lt hlt, (Function.update_of_ne hlt.ne ..).trans hnone⟩
    · exact absurd (Prod.mk.inj halloc).1 (Option.some_ne_none m).symm

end Counted

/-! ## Holders -/

def TcState.holders (s : TcState) (m : ℕ) : Finset ℕ :=
  (Finset.range s.txdCount).filter fun txd =>
    txd ∉ s.tcPool ∧ (s.txds txd).msg = m

theorem mem_holders {s : TcState} {m txd : ℕ} :
    txd ∈ s.holders m ↔
      txd < s.txdCount ∧ txd ∉ s.tcPool ∧ (s.txds txd).msg = m := by
  simp [holders]

/-- Each descriptor has one owner, and every reference is counted; `held` are
those of the code at work. -/
structure Live (held : List ℕ) (s : TcState) : Prop where
  owner : SingleOwner s
  counted : Counted (fun m => (s.holders m).card + held.count m) s

namespace Live

variable {env : Env} {held : List ℕ} {s s' : TcState} {p q m txd : ℕ}

theorem holds (hlive : Live held s) (htxd : txd ∈ s.list p) :
    txd ∈ s.holders (s.txds txd).msg :=
  mem_holders.mpr ⟨(hlive.owner.allocated txd).mpr (Or.inr ⟨p, htxd⟩),
    hlive.owner.notPooled htxd, rfl⟩

/-- A message without references is on no list. -/
theorem unheld (hlive : Live held s) (hnone : s.holders m = ∅)
    (htxd : txd ∈ s.list p) : (s.txds txd).msg ≠ m := by
  rintro rfl
  exact Finset.notMem_empty txd (hnone ▸ hlive.holds htxd)

theorem congr (hlive : Live held s) (hdescriptors : SameDescriptors s s')
    (hreferences : SameReferences s s') : Live held s' := by
  have hholders : ∀ m, s'.holders m = s.holders m := by
    intro m
    rw [holders, hdescriptors.txds, hdescriptors.txdCount, hdescriptors.tcPool]
    rfl
  refine ⟨hlive.owner.congr hdescriptors, ?_⟩
  simp only [hholders]
  exact hlive.counted.congr hreferences

/-- A descriptor is taken off its list. -/
theorem discard (hlive : Live held s) (htxd : txd ∈ s.list p) :
    Live held (tcDiscard p txd s) := by
  have hholds := hlive.holds htxd
  have hholders : ∀ m, (tcDiscard p txd s).holders m = (s.holders m).erase txd := by
    intro m
    ext other
    rw [Finset.mem_erase, mem_holders, mem_holders, tcDiscard_txdCount,
      tcDiscard_tcPool, tcDiscard_msg, List.mem_cons, not_or]
    tauto
  have hremoved : SameReferences s (tcRemove p txd s) := ⟨fun _ => rfl, rfl, rfl⟩
  have hmsg : ((tcRemove p txd s).txds txd).msg = (s.txds txd).msg := by
    simp [tcRemove, modifyTxd, modifyPort]
  have hput := (hlive.counted.congr hremoved).put (m := (s.txds txd).msg)
    (Nat.add_pos_left (Finset.card_pos.mpr ⟨txd, hholds⟩) _)
  have hafter : SameReferences (msgPut (s.txds txd).msg (tcRemove p txd s))
      (tcDiscard p txd s) := by
    rw [← hmsg]
    exact ⟨fun _ => rfl, rfl, rfl⟩
  have htotal : (fun m => ((tcDiscard p txd s).holders m).card + held.count m) =
      Function.update (fun m => (s.holders m).card + held.count m) (s.txds txd).msg
        ((s.holders (s.txds txd).msg).card + held.count (s.txds txd).msg - 1) := by
    funext m
    rw [hholders]
    by_cases hm : m = (s.txds txd).msg
    · subst hm
      rw [Function.update_self, Finset.card_erase_of_mem hholds]
      have hpos := Finset.card_pos.mpr ⟨txd, hholds⟩
      omega
    · rw [Function.update_of_ne hm, Finset.erase_eq_of_notMem]
      exact fun hmem => hm (mem_holders.mp hmem).2.2.symm
  refine ⟨hlive.owner.discard htxd, ?_⟩
  rw [htotal]
  exact hput.congr hafter

theorem discardAll {txds : List ℕ} (hlive : Live held s) (hlist : s.list p = txds) :
    Live held (txds.foldl (fun s txd => tcDiscard p txd s) s) := by
  induction txds generalizing s with
  | nil => exact hlive
  | cons txd rest ih =>
    refine ih (hlive.discard (hlist ▸ List.mem_cons_self)) ?_
    rw [tcDiscard_list, if_pos rfl, hlist, List.erase_cons_head]

theorem flush (hlive : Live held s) (p : ℕ) : Live held (tcFlush p s) :=
  hlive.discardAll rfl

/-- The loop that discards the old ones keeps it, too. -/
theorem pruneLoop {now : Timespec} {txds : List ℕ} (hlive : Live held s)
    (hlist : s.list p = txds) : Live held (tcPruneLoop p now txds s) := by
  induction txds generalizing s with
  | nil => exact hlive
  | cons txd rest ih =>
    rw [tcPruneLoop]
    split
    · exact hlive
    · refine ih (hlive.discard (hlist ▸ List.mem_cons_self)) ?_
      rw [tcDiscard_list, if_pos rfl, hlist, List.erase_cons_head]

theorem called (hlive : Live held s) : Live held s.called :=
  hlive.congr (sameDescriptors_called s) ⟨fun _ => rfl, rfl, rfl⟩

end Live

/-! ## Dispatch -/

/-- What a dispatch is made of. -/
inductive DispatchStep (p : ℕ) (s : TcState) : TcState → Prop
  | called : DispatchStep p s s.called
  | state (state : PortState) :
      DispatchStep p s (s.modifyPort p fun port => { port with state := state })
  | flush : DispatchStep p s (tcFlush p s)

/-- A dispatch does nothing to a list but flush it. -/
theorem portDispatch_steps (env : Env) (p : ℕ) (event : PortEvent) (mdiff : Bool)
    (s : TcState) :
    ReflTransGen (DispatchStep p) s (portDispatch env p event mdiff s) := by
  have hclear : ∀ next, ReflTransGen (DispatchStep p) s
      (clearFault env (s.ports p) next s).2 := by
    intro next
    rw [clearFault]
    split_ifs
    · exact .single .called
    · exact .single .called
    · exact .refl
  have hstart : ∀ next s', ReflTransGen (DispatchStep p) s'
      (initializePort env p (s.ports p) next s').2 := by
    intro next s'
    rw [initializePort]
    split
    · have hdisable : ReflTransGen (DispatchStep p) s'
          (if portIsEnabled (s.ports p).state then portOpDisable p s' else s') := by
        split
        · exact .single .flush
        · exact .refl
      dsimp only
      generalize (if portIsEnabled (s.ports p).state then portOpDisable p s'
        else s') = disabled at hdisable ⊢
      split <;> exact hdisable.tail .called
    · exact .refl
  have hupdate : ReflTransGen (DispatchStep p) s
      (portStateUpdate env p event mdiff s).2 := by
    rw [portStateUpdate]
    split
    · exact ((hclear _).trans (hstart ..)).tail (.state _)
    · exact (hclear _).trans (hstart ..)
  rw [portDispatch]
  split
  · exact hupdate
  · split
    · exact hupdate.tail .flush
    · exact hupdate.tail .flush
    · exact hupdate

namespace Live

variable {env : Env} {held : List ℕ} {s s' : TcState} {p q m txd : ℕ}

theorem dispatch (hlive : Live held s) (event : PortEvent) (mdiff : Bool) :
    Live held (portDispatch env p event mdiff s) := by
  have hsteps := portDispatch_steps env p event mdiff s
  generalize portDispatch env p event mdiff s = s' at hsteps
  induction hsteps with
  | refl => exact hlive
  | tail _ hstep ih =>
    cases hstep with
    | called => exact ih.called
    | state state =>
      exact ih.congr (sameDescriptors_setState _ p state) ⟨fun _ => rfl, rfl, rfl⟩
    | flush => exact ih.flush p

/-! ## Messages -/

/-- The code at work gives a message up. -/
theorem put (hlive : Live (m :: held) s) : Live held (msgPut m s) := by
  refine ⟨hlive.owner.congr (sameDescriptors_msgPut m s), ?_⟩
  have hput := hlive.counted.put (m := m) (by simp)
  have hholders : ∀ m', (msgPut m s).holders m' = s.holders m' := by
    intro m'
    have hsame := sameDescriptors_msgPut m s
    rw [holders, hsame.txds, hsame.txdCount, hsame.tcPool]
    rfl
  have htotal : (fun m' => ((msgPut m s).holders m').card + held.count m') =
      Function.update (fun m' => (s.holders m').card + (m :: held).count m') m
        ((s.holders m).card + (m :: held).count m - 1) := by
    funext m'
    rw [hholders]
    by_cases hm : m' = m
    · subst hm
      simp
    · simp [hm, List.count_cons_of_ne (Ne.symm hm)]
  rw [htotal]
  exact hput

/-- The code at work takes a message into use. -/
theorem allocate (hlive : Live held s) (halloc : msgAllocate env s = (some m, s')) :
    Live (m :: held) s' ∧ s.holders m = ∅ ∧ m ∉ held ∧ s'.msgs m = .fresh := by
  obtain ⟨hnone, hfresh, hcounted⟩ := hlive.counted.allocate halloc
  obtain ⟨hholders, hheld⟩ := Nat.add_eq_zero_iff.mp hnone
  have hsame : SameDescriptors s s' := by
    have := sameDescriptors_msgAllocate env s
    rwa [halloc] at this
  have hagain : ∀ m', s'.holders m' = s.holders m' := by
    intro m'
    rw [holders, hsame.txds, hsame.txdCount, hsame.tcPool]
    rfl
  refine ⟨⟨hlive.owner.congr hsame, ?_⟩, Finset.card_eq_zero.mp hholders,
    List.count_eq_zero.mp hheld, hfresh⟩
  have htotal : (fun m' => (s'.holders m').card + (m :: held).count m') =
      Function.update (fun m' => (s.holders m').card + held.count m') m 1 := by
    funext m'
    rw [hagain]
    by_cases hm : m' = m
    · subst hm
      simp [hholders, hheld]
    · simp [hm, List.count_cons_of_ne (Ne.symm hm)]
  rw [htotal]
  exact hcounted

/-- A descriptor that was not in use refers to a message in use. -/
theorem insert {residence : ℤ} (hlive : Live held s)
    (howner : SingleOwner (tcInsert p txd m residence q s'))
    (hm : m ∈ held) (hfree : txd ∈ s.tcPool ∨ s.txdCount ≤ txd)
    (hcount : ∀ other, other < s'.txdCount ↔ other < s.txdCount ∨ other = txd)
    (hpool : ∀ other, other ∈ s'.tcPool ↔ other ∈ s.tcPool ∧ other ≠ txd)
    (htxds : ∀ other ≠ txd, s'.txds other = s.txds other)
    (hreferences : SameReferences s s') :
    Live held (tcInsert p txd m residence q s') := by
  have hunused : ∀ m', txd ∉ s.holders m' := by
    intro m' hmem
    obtain ⟨hlt, hnot, -⟩ := mem_holders.mp hmem
    exact hfree.elim hnot (Nat.not_le_of_lt hlt)
  have hmem : ∀ m' other, other ∈ (tcInsert p txd m residence q s').holders m' ↔
      other = txd ∧ m = m' ∨ other ∈ s.holders m' := by
    intro m' other
    have hadded : other ∈ (tcInsert p txd m residence q s').holders m' ↔
        other < s'.txdCount ∧ other ∉ s'.tcPool ∧
          (if other = txd then m else (s'.txds other).msg) = m' := by
      rw [mem_holders]
      by_cases hother : other = txd
      · subst hother
        simp [tcInsert, msgGet, modifyPort, modifyTxd, modifyMsg]
      · simp [tcInsert, msgGet, modifyPort, modifyTxd, modifyMsg, hother]
    rw [hadded, hcount, hpool]
    by_cases hother : other = txd
    · subst hother
      simp [hunused m']
    · rw [if_neg hother, htxds other hother, mem_holders]
      simp [hother]
  have hget := (hlive.counted.congr hreferences).get (m := m)
    (Nat.add_pos_right _ (List.count_pos_iff.mpr hm))
  have hafter : SameReferences (msgGet m s') (tcInsert p txd m residence q s') :=
    ⟨fun _ => rfl, rfl, rfl⟩
  have htotal : (fun m' => ((tcInsert p txd m residence q s').holders m').card +
        held.count m') =
      Function.update (fun m' => (s.holders m').card + held.count m') m
        ((s.holders m).card + held.count m + 1) := by
    funext m'
    by_cases hsame : m' = m
    · subst hsame
      have hinsert : (tcInsert p txd m' residence q s').holders m' =
          Insert.insert txd (s.holders m') := by
        ext other
        rw [hmem, Finset.mem_insert]
        simp
      rw [Function.update_self, hinsert, Finset.card_insert_of_notMem (hunused m')]
      omega
    · have hkept : (tcInsert p txd m residence q s').holders m' = s.holders m' := by
        ext other
        rw [hmem]
        simp [Ne.symm hsame]
      rw [Function.update_of_ne hsame, hkept]
  refine ⟨howner, ?_⟩
  rw [htotal]
  exact hget.congr hafter

/-- A message in use is kept for its counterpart. -/
theorem stash (hlive : Live held s) (hm : m ∈ held) (q p : ℕ) (residence : ℤ) :
    Live held (tcStash env q p m residence s) := by
  have howner : SingleOwner (tcStash env q p m residence s) :=
    hlive.owner.stash q p m residence
  unfold tcStash tcAllocate at howner ⊢
  cases hpool : s.tcPool with
  | cons txd rest =>
    simp only [hpool] at howner ⊢
    have hnodup := List.nodup_cons.mp (hpool ▸ hlive.owner.poolNodup)
    have hpooled : txd ∈ s.tcPool := hpool ▸ List.mem_cons_self
    have hlt := (hlive.owner.allocated txd).mpr (Or.inl hpooled)
    refine hlive.insert howner hm (Or.inl hpooled) (fun other => ?_) (fun other => ?_)
      (fun other hother => ?_) ⟨fun _ => rfl, rfl, rfl⟩
    · exact ⟨Or.inl, fun hlt' => hlt'.elim id fun hsame => hsame ▸ hlt⟩
    · rw [hpool, List.mem_cons]
      refine ⟨fun hmem => ⟨Or.inr hmem, fun hsame => hnodup.1 (hsame ▸ hmem)⟩, ?_⟩
      exact fun ⟨hmem, hother⟩ => hmem.resolve_left hother
    · exact Function.update_of_ne hother ..
  | nil =>
    simp only [hpool] at howner ⊢
    by_cases hmalloc : env.malloc s.calls = true
    · simp only [hmalloc, if_true] at howner ⊢
      refine hlive.insert howner hm (Or.inr le_rfl) (fun other => ?_) (fun other => ?_)
        (fun other hother => ?_) ⟨fun _ => rfl, rfl, rfl⟩
      · exact Nat.lt_succ_iff_lt_or_eq
      · have hnone : s.called.tcPool = [] := hpool
        simp [modifyTxd, hnone, hpool]
      · exact Function.update_of_ne hother ..
    · simp only [hmalloc]
      exact hlive.called.dispatch _ _

end Live

/-! ## Holders that go -/

/-- No descriptor has come to hold a message. -/
def Fewer (s s' : TcState) : Prop :=
  ∀ m, s'.holders m ⊆ s.holders m

namespace Fewer

variable {env : Env} {s s' : TcState} {p m : ℕ}

theorem refl (s : TcState) : Fewer s s := fun _ => Finset.Subset.refl _

theorem trans {first second third : TcState} (hfirst : Fewer first second)
    (hsecond : Fewer second third) : Fewer first third :=
  fun m => (hsecond m).trans (hfirst m)

theorem of_same (hsame : SameDescriptors s s') : Fewer s s' := by
  intro m
  rw [holders, hsame.txds, hsame.txdCount, hsame.tcPool]
  exact Finset.Subset.refl _

theorem none (hfewer : Fewer s s') (hnone : s.holders m = ∅) : s'.holders m = ∅ :=
  Finset.subset_empty.mp (hnone ▸ hfewer m)

theorem discard (p txd : ℕ) (s : TcState) : Fewer s (tcDiscard p txd s) := by
  intro m other hmem
  rw [mem_holders, tcDiscard_txdCount, tcDiscard_tcPool, tcDiscard_msg,
    List.mem_cons, not_or] at hmem
  exact mem_holders.mpr ⟨hmem.1, hmem.2.1.2, hmem.2.2⟩

theorem discardAll (txds : List ℕ) (s : TcState) :
    Fewer s (txds.foldl (fun s txd => tcDiscard p txd s) s) := by
  induction txds generalizing s with
  | nil => exact .refl s
  | cons txd rest ih => exact (discard p txd s).trans (ih _)

theorem dispatch (event : PortEvent) (mdiff : Bool) (s : TcState) :
    Fewer s (portDispatch env p event mdiff s) := by
  have hsteps := portDispatch_steps env p event mdiff s
  generalize portDispatch env p event mdiff s = s' at hsteps
  induction hsteps with
  | refl => exact .refl s
  | tail _ hstep ih =>
    refine ih.trans ?_
    cases hstep with
    | called => exact of_same (sameDescriptors_called _)
    | state state => exact of_same (sameDescriptors_setState _ p state)
    | flush => exact discardAll _ _

theorem sendOrFault (p m : ℕ) (s : TcState) : Fewer s (sendOrFault env p m s) := by
  have hsent := of_same (sameDescriptors_transportSend env p m s)
  rw [Tc.sendOrFault]
  dsimp only
  split
  · exact hsent.trans (dispatch _ _ _)
  · exact hsent

theorem sendCorrected (p m : ℕ) (extra : ℤ) (s : TcState) :
    Fewer s (sendCorrected env p m extra s) :=
  ((of_same (sameDescriptors_setCorrection m _ s)).trans
    (sendOrFault p m _)).trans (of_same (sameDescriptors_setCorrection m _ _))

end Fewer

/-- Keeping a message adds a holder of that message alone. -/
theorem tcStash_holders {env : Env} {s : TcState} {q p m m' : ℕ} {residence : ℤ}
    (hm : m' ≠ m) :
    (tcStash env q p m residence s).holders m' ⊆ s.holders m' := by
  have hinsert : ∀ (s' : TcState) txd, (txd ∈ s.tcPool ∨ s.txdCount ≤ txd) →
      (∀ other, other < s'.txdCount → other < s.txdCount ∨ other = txd) →
      (∀ other, other ∈ s.tcPool → other ∈ s'.tcPool ∨ other = txd) →
      (∀ other ≠ txd, s'.txds other = s.txds other) →
      (tcInsert p txd m residence q s').holders m' ⊆ s.holders m' := by
    intro s' txd hfree hcount hpool htxds other hmem
    obtain ⟨hlt, hnot, hmsg⟩ := mem_holders.mp hmem
    have hother : other ≠ txd := by
      rintro rfl
      refine hm (hmsg.symm.trans ?_)
      simp [tcInsert, msgGet, modifyPort, modifyTxd, modifyMsg]
    have hkept : (tcInsert p txd m residence q s').txds other = s.txds other := by
      simp [tcInsert, msgGet, modifyPort, modifyTxd, modifyMsg, hother, htxds]
    rw [hkept] at hmsg
    refine mem_holders.mpr ⟨(hcount other hlt).resolve_right hother, fun hpooled => ?_,
      hmsg⟩
    exact hnot ((hpool other hpooled).resolve_right hother)
  unfold tcStash tcAllocate
  cases hpool : s.tcPool with
  | cons txd rest =>
    have hpooled : txd ∈ s.tcPool := hpool ▸ List.mem_cons_self
    refine hinsert _ txd (Or.inl hpooled) (fun _ hlt => Or.inl hlt)
      (fun other hmem => ?_) (fun other hother => Function.update_of_ne hother ..)
    rw [hpool] at hmem
    exact (List.mem_cons.mp hmem).symm
  | nil =>
    by_cases hmalloc : env.malloc s.calls = true
    · simp only [hmalloc, if_true]
      refine hinsert _ s.txdCount (Or.inr le_rfl)
        (fun other hlt => Nat.lt_succ_iff_lt_or_eq.mp hlt)
        (fun other hmem => Or.inl hmem)
        (fun other hother => Function.update_of_ne hother ..)
    · simp only [hmalloc]
      exact @Fewer.dispatch env p .faultDetected false s.called m'

end LinuxPtp.Tc
