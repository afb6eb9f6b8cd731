import LinuxPtp.Tc.Forward

/-!
# One owner for every descriptor

A descriptor is on the list of one port or in the pool.  Going from the list
to the pool it is removed, recycled and releases its message once.  The
invariant survives every call but one: a Follow_Up that cannot be sent takes
its port down, and the descriptor it completes is then given up twice.
-/

namespace LinuxPtp.Tc

open ByteOrder Wire Port

def TcState.list (s : TcState) (p : ℕ) : List ℕ :=
  (s.ports p).tcTransmitted

/-- How often a descriptor has been removed, recycled and made to release its
message since it was allocated. -/
def Txd.uses (txd : Txd) : ℕ × ℕ × ℕ :=
  (txd.removals, txd.recycles, txd.releases)

/-- Every allocated descriptor is either on the list of exactly one port, and
has not been given up, or in the pool, and has been given up once. -/
structure SingleOwner (s : TcState) : Prop where
  allocated : ∀ txd, txd < s.txdCount ↔
    txd ∈ s.tcPool ∨ ∃ p, txd ∈ s.list p
  poolNodup : s.tcPool.Nodup
  listNodup : ∀ p, (s.list p).Nodup
  notPooled : ∀ {p txd}, txd ∈ s.list p → txd ∉ s.tcPool
  exclusive : ∀ {p p' txd}, txd ∈ s.list p → txd ∈ s.list p' → p = p'
  uses : ∀ txd, (s.txds txd).uses =
    if txd ∈ s.tcPool then (1, 1, 1) else (0, 0, 0)

/-! ## Calls that leave descriptors alone -/

/-- Descriptors, their pool and the lists of the ports are the same. -/
structure SameDescriptors (s s' : TcState) : Prop where
  txds : s'.txds = s.txds
  txdCount : s'.txdCount = s.txdCount
  tcPool : s'.tcPool = s.tcPool
  list : ∀ p, s'.list p = s.list p

namespace SameDescriptors

theorem refl (s : TcState) : SameDescriptors s s :=
  ⟨rfl, rfl, rfl, fun _ => rfl⟩

theorem trans {first second third : TcState}
    (hfirst : SameDescriptors first second)
    (hsecond : SameDescriptors second third) : SameDescriptors first third where
  txds := hsecond.txds.trans hfirst.txds
  txdCount := hsecond.txdCount.trans hfirst.txdCount
  tcPool := hsecond.tcPool.trans hfirst.tcPool
  list p := (hsecond.list p).trans (hfirst.list p)

end SameDescriptors

/-- Ownership is a matter of the descriptors. -/
theorem SingleOwner.congr {s s' : TcState} (howner : SingleOwner s)
    (hsame : SameDescriptors s s') : SingleOwner s' where
  allocated txd := by
    rw [hsame.txdCount, hsame.tcPool]
    simp only [hsame.list]
    exact howner.allocated txd
  poolNodup := hsame.tcPool ▸ howner.poolNodup
  listNodup p := hsame.list p ▸ howner.listNodup p
  notPooled {p txd} htxd := by
    rw [hsame.list] at htxd
    exact hsame.tcPool ▸ howner.notPooled htxd
  exclusive {p p' txd} htxd htxd' := by
    rw [hsame.list] at htxd htxd'
    exact howner.exclusive htxd htxd'
  uses txd := by
    rw [hsame.txds, hsame.tcPool]
    exact howner.uses txd

theorem sameDescriptors_modifyMsg (s : TcState) (m : ℕ)
    (f : PtpMessage → PtpMessage) : SameDescriptors s (s.modifyMsg m f) :=
  ⟨rfl, rfl, rfl, fun _ => rfl⟩

theorem sameDescriptors_called (s : TcState) : SameDescriptors s s.called :=
  ⟨rfl, rfl, rfl, fun _ => rfl⟩

theorem sameDescriptors_msgAllocate (env : Env) (s : TcState) :
    SameDescriptors s (msgAllocate env s).2 := by
  unfold msgAllocate
  split
  · exact ⟨rfl, rfl, rfl, fun _ => rfl⟩
  · split
    · exact ⟨rfl, rfl, rfl, fun _ => rfl⟩
    · exact sameDescriptors_called s

theorem sameDescriptors_msgPut (m : ℕ) (s : TcState) :
    SameDescriptors s (msgPut m s) := by
  unfold msgPut
  dsimp only
  split
  · exact sameDescriptors_modifyMsg s m _
  · exact ⟨rfl, rfl, rfl, fun _ => rfl⟩

theorem sameDescriptors_transportSend (env : Env) (p m : ℕ) (s : TcState) :
    SameDescriptors s (transportSend env p m s).2 :=
  ⟨rfl, rfl, rfl, fun _ => rfl⟩

theorem sameDescriptors_transportTxts (env : Env) (p m : ℕ) (s : TcState) :
    SameDescriptors s (transportTxts env p m s).2 := by
  unfold transportTxts
  split
  · split <;> exact ⟨rfl, rfl, rfl, fun _ => rfl⟩
  · exact ⟨rfl, rfl, rfl, fun _ => rfl⟩

/-- The state of a port may change. -/
theorem sameDescriptors_setState (s : TcState) (p : ℕ) (state : PortState) :
    SameDescriptors s (s.modifyPort p fun port =>
      { port with state := state }) where
  txds := rfl
  txdCount := rfl
  tcPool := rfl
  list p' := by
    by_cases hp : p' = p
    · subst hp
      simp [TcState.list, TcState.modifyPort]
    · simp [TcState.list, TcState.modifyPort, hp]

theorem sameDescriptors_portPeerDelay (p : ℕ) (delay : ℤ) (s : TcState) :
    SameDescriptors s (portPeerDelay p delay s) where
  txds := rfl
  txdCount := rfl
  tcPool := rfl
  list p' := by
    by_cases hp : p' = p
    · subst hp
      simp [TcState.list, portPeerDelay, TcState.modifyPort]
    · simp [TcState.list, portPeerDelay, TcState.modifyPort, hp]

/-! ## Giving descriptors up -/

/-- A discarded descriptor leaves its list only. -/
theorem tcDiscard_list (p txd p' : ℕ) (s : TcState) :
    (tcDiscard p txd s).list p' =
      if p' = p then (s.list p).erase txd else s.list p' := by
  have hput : (tcDiscard p txd s).list p' = (tcRemove p txd s).list p' :=
    (sameDescriptors_msgPut _ (tcRemove p txd s)).list p'
  rw [hput]
  by_cases hp : p' = p
  · subst hp
    simp [TcState.list, tcRemove, TcState.modifyPort, TcState.modifyTxd]
  · simp [TcState.list, tcRemove, TcState.modifyPort, TcState.modifyTxd, hp]

theorem tcDiscard_tcPool (p txd : ℕ) (s : TcState) :
    (tcDiscard p txd s).tcPool = txd :: s.tcPool :=
  congrArg (txd :: ·) (sameDescriptors_msgPut _ (tcRemove p txd s)).tcPool

theorem tcDiscard_txdCount (p txd : ℕ) (s : TcState) :
    (tcDiscard p txd s).txdCount = s.txdCount :=
  (sameDescriptors_msgPut _ (tcRemove p txd s)).txdCount

theorem tcRelease_txds (txd : ℕ) (s : TcState) :
    (tcRelease txd s).txds = Function.update s.txds txd
      { s.txds txd with releases := (s.txds txd).releases + 1 } := by
  have hput := (sameDescriptors_msgPut (s.txds txd).msg s).txds
  simp only [tcRelease, TcState.modifyTxd, hput]

/-- A discarded descriptor has been removed, recycled and released once more. -/
theorem tcDiscard_uses (p txd other : ℕ) (s : TcState) :
    ((tcDiscard p txd s).txds other).uses =
      if other = txd then (s.txds txd).uses + (1, 1, 1)
      else (s.txds other).uses := by
  by_cases hother : other = txd
  · subst hother
    simp [tcDiscard, tcRecycle, TcState.modifyTxd, tcRelease_txds, tcRemove,
      TcState.modifyPort, Txd.uses]
  · simp [tcDiscard, tcRecycle, TcState.modifyTxd, tcRelease_txds, tcRemove,
      TcState.modifyPort, Txd.uses, hother]

/-- A descriptor on the list of the port moves into the pool. -/
theorem SingleOwner.discard {s : TcState} (howner : SingleOwner s) {p txd : ℕ}
    (htxd : txd ∈ s.list p) : SingleOwner (tcDiscard p txd s) where
  allocated other := by
    rw [tcDiscard_txdCount, tcDiscard_tcPool, howner.allocated]
    simp only [tcDiscard_list, List.mem_cons]
    by_cases hother : other = txd
    · subst hother
      exact ⟨fun _ => Or.inl (Or.inl rfl), fun _ => Or.inr ⟨p, htxd⟩⟩
    · have hlist : ∀ p', (other ∈ if p' = p then (s.list p).erase txd
          else s.list p') ↔ other ∈ s.list p' := by
        intro p'
        split
        · rename_i hp
          rw [hp, List.mem_erase_of_ne hother]
        · rfl
      simp only [hother, false_or, hlist]
  poolNodup := by
    rw [tcDiscard_tcPool]
    exact List.nodup_cons.mpr ⟨howner.notPooled htxd, howner.poolNodup⟩
  listNodup p' := by
    rw [tcDiscard_list]
    split
    · exact (howner.listNodup p).erase txd
    · exact howner.listNodup p'
  notPooled {p' other} hmember := by
    rw [tcDiscard_list] at hmember
    rw [tcDiscard_tcPool, List.mem_cons, not_or]
    split at hmember
    · have hne := (howner.listNodup p).mem_erase_iff.mp hmember
      exact ⟨hne.1, howner.notPooled hne.2⟩
    · rename_i hp
      refine ⟨fun hother => hp ?_, howner.notPooled hmember⟩
      exact howner.exclusive hmember (hother ▸ htxd)
  exclusive {p' p'' other} hmember hmember' := by
    have hsub : ∀ p', other ∈ (tcDiscard p txd s).list p' →
        other ∈ s.list p' := by
      intro p' hmember
      rw [tcDiscard_list] at hmember
      split at hmember
      · rename_i hp
        exact hp ▸ List.mem_of_mem_erase hmember
      · exact hmember
    exact howner.exclusive (hsub p' hmember) (hsub p'' hmember')
  uses other := by
    rw [tcDiscard_uses, tcDiscard_tcPool]
    by_cases hother : other = txd
    · subst hother
      simp [howner.uses, howner.notPooled htxd]
    · simp [hother, howner.uses]

/-- `tc_flush` empties the list of its port. -/
theorem SingleOwner.discardAll {p : ℕ} {txds : List ℕ} {s : TcState}
    (howner : SingleOwner s) (hlist : s.list p = txds) :
    let s' := txds.foldl (fun s txd => tcDiscard p txd s) s
    SingleOwner s' ∧ s'.list p = [] ∧ ∀ p' ≠ p, s'.list p' = s.list p' := by
  induction txds generalizing s with
  | nil => exact ⟨howner, hlist, fun _ _ => rfl⟩
  | cons txd rest ih =>
    have htxd : txd ∈ s.list p := hlist ▸ List.mem_cons_self ..
    have hrest : (tcDiscard p txd s).list p = rest := by
      rw [tcDiscard_list, if_pos rfl, hlist, List.erase_cons_head]
    obtain ⟨howner', hempty, hothers⟩ := ih (howner.discard htxd) hrest
    refine ⟨howner', hempty, fun p' hp => ?_⟩
    rw [List.foldl_cons, hothers p' hp, tcDiscard_list, if_neg hp]

theorem SingleOwner.flush {s : TcState} (howner : SingleOwner s) (p : ℕ) :
    SingleOwner (tcFlush p s) :=
  (howner.discardAll rfl).1

/-- A port that is flushed leaves the lists of the others alone. -/
theorem tcFlush_others {s : TcState} (howner : SingleOwner s) {p p' : ℕ}
    (hp : p' ≠ p) : (tcFlush p s).list p' = s.list p' :=
  (howner.discardAll rfl).2.2 p' hp

/-- Pruning discards descriptors that the port owns. -/
theorem SingleOwner.prune {p : ℕ} {now : Timespec} {txds : List ℕ}
    {s : TcState} (howner : SingleOwner s) (hlist : s.list p = txds) :
    SingleOwner (tcPruneLoop p now txds s) := by
  induction txds generalizing s with
  | nil => exact howner
  | cons txd rest ih =>
    unfold tcPruneLoop
    split
    · exact howner
    · refine ih (howner.discard (hlist ▸ List.mem_cons_self ..)) ?_
      rw [tcDiscard_list, if_pos rfl, hlist, List.erase_cons_head]

/-! ## Taking descriptors into use -/

theorem tcInsert_list (p txd m : ℕ) (residence : ℤ) (q p' : ℕ) (s : TcState) :
    (tcInsert p txd m residence q s).list p' =
      if p' = p then s.list p ++ [txd] else s.list p' := by
  by_cases hp : p' = p
  · subst hp
    simp [TcState.list, tcInsert, msgGet, TcState.modifyPort, TcState.modifyTxd,
      TcState.modifyMsg]
  · simp [TcState.list, tcInsert, msgGet, TcState.modifyPort, TcState.modifyTxd,
      TcState.modifyMsg, hp]

/-- A descriptor that is on no list and has not been used joins the list of the
port. -/
theorem SingleOwner.insert {s : TcState} (howner : SingleOwner s) (txd : ℕ)
    (s' : TcState)
    (hfree : ∀ p, txd ∉ s.list p) (hlist : ∀ p, s'.list p = s.list p)
    (hpool : ∀ other, other ∈ s'.tcPool ↔ other ∈ s.tcPool ∧ other ≠ txd)
    (hnodup : s'.tcPool.Nodup)
    (hcount : ∀ other, other < s'.txdCount ↔ other < s.txdCount ∨ other = txd)
    (htxds : s'.txds = Function.update s.txds txd ⟨0, 0, 0, 0, 0, 0⟩)
    (p m : ℕ) (residence : ℤ) (q : ℕ) :
    SingleOwner (tcInsert p txd m residence q s') where
  allocated other := by
    have hcount' : other < (tcInsert p txd m residence q s').txdCount ↔
      other < s'.txdCount := Iff.rfl
    have hpool' : other ∈ (tcInsert p txd m residence q s').tcPool ↔
      other ∈ s'.tcPool := Iff.rfl
    rw [hcount', hpool', hcount, hpool, howner.allocated]
    simp only [tcInsert_list, hlist]
    by_cases hother : other = txd
    · subst hother
      simp only [or_true, true_iff]
      exact Or.inr ⟨p, by simp⟩
    · have hmember : ∀ p', (other ∈ if p' = p then s.list p ++ [txd]
          else s.list p') ↔ other ∈ s.list p' := by
        intro p'
        split
        · rename_i hp
          simp [hp, hother]
        · rfl
      simp only [hother, or_false, ne_eq, not_false_eq_true, and_true, hmember]
  poolNodup := hnodup
  listNodup p' := by
    rw [tcInsert_list]
    simp only [hlist]
    split
    · refine List.nodup_append.mpr ⟨howner.listNodup p, by simp, ?_⟩
      intro other hother txd' htxd'
      rw [List.mem_singleton] at htxd'
      rintro rfl
      exact hfree p (htxd' ▸ hother)
    · exact howner.listNodup p'
  notPooled {p' other} hmember := by
    have hpool' : other ∈ (tcInsert p txd m residence q s').tcPool ↔
      other ∈ s'.tcPool := Iff.rfl
    rw [hpool', hpool]
    rw [tcInsert_list] at hmember
    simp only [hlist] at hmember
    rintro ⟨hpooled, hother⟩
    split at hmember
    · rcases List.mem_append.mp hmember with hmember | hmember
      · exact howner.notPooled hmember hpooled
      · exact hother (List.mem_singleton.mp hmember)
    · exact howner.notPooled hmember hpooled
  exclusive {p' p'' other} hmember hmember' := by
    have hcases : ∀ p', other ∈ (tcInsert p txd m residence q s').list p' →
        other ∈ s.list p' ∨ p' = p ∧ other = txd := by
      intro p' hmember
      rw [tcInsert_list] at hmember
      simp only [hlist] at hmember
      split at hmember
      · rename_i hp
        rcases List.mem_append.mp hmember with hmember | hmember
        · exact Or.inl (hp ▸ hmember)
        · exact Or.inr ⟨hp, List.mem_singleton.mp hmember⟩
      · exact Or.inl hmember
    rcases hcases p' hmember with hold | ⟨rfl, rfl⟩
    · rcases hcases p'' hmember' with hold' | ⟨rfl, rfl⟩
      · exact howner.exclusive hold hold'
      · exact absurd hold (hfree p')
    · rcases hcases p'' hmember' with hold' | ⟨rfl, -⟩
      · exact absurd hold' (hfree p'')
      · rfl
  uses other := by
    have hpool' : other ∈ (tcInsert p txd m residence q s').tcPool ↔
      other ∈ s'.tcPool := Iff.rfl
    simp only [hpool', hpool]
    by_cases hother : other = txd
    · subst hother
      simp [tcInsert, msgGet, TcState.modifyPort, TcState.modifyTxd,
        TcState.modifyMsg, htxds, Txd.uses]
    · have huses := howner.uses other
      simp only [Txd.uses] at huses
      simp [tcInsert, msgGet, TcState.modifyPort, TcState.modifyTxd,
        TcState.modifyMsg, htxds, Txd.uses, hother, huses]

/-! ## State changes -/

section

variable {env : Env} {p : ℕ}

/-- A dispatch does to descriptors what flushes of its port do. -/
theorem portDispatch_induction {inv : TcState → Prop}
    (hsame : ∀ s s', SameDescriptors s s' → s'.msgs = s.msgs → inv s → inv s')
    (hflush : ∀ s, inv s → inv (tcFlush p s)) (event : PortEvent)
    (mdiff : Bool) {s : TcState} (hinv : inv s) :
    inv (portDispatch env p event mdiff s) := by
  have hclear : ∀ next, inv (clearFault env (s.ports p) next s).2 := by
    intro next
    unfold clearFault
    split
    · split <;> exact hsame s s.called (sameDescriptors_called s) rfl hinv
    · exact hinv
  have hinit : ∀ next s', inv s' →
      inv (initializePort env p (s.ports p) next s').2 := by
    intro next s' hinv'
    unfold initializePort
    split
    · have hdisable : inv (if portIsEnabled (s.ports p).state then
          portOpDisable p s' else s') := by
        split
        · exact hflush s' hinv'
        · exact hinv'
      dsimp only
      generalize (if portIsEnabled (s.ports p).state then
        portOpDisable p s' else s') = disabled at hdisable ⊢
      split <;> exact hsame disabled _ (sameDescriptors_called _) rfl hdisable
    · exact hinv'
  have hupdate : inv (portStateUpdate env p event mdiff s).2 := by
    unfold portStateUpdate
    dsimp only
    split
    · exact hsame _ _ (sameDescriptors_setState _ p _) rfl (hinit _ _ (hclear _))
    · exact hinit _ _ (hclear _)
  unfold portDispatch
  dsimp only
  split
  · exact hupdate
  · split
    · exact hflush _ hupdate
    · exact hflush _ hupdate
    · exact hupdate

/-- A dispatch may flush the list of its port. -/
theorem SingleOwner.dispatch {s : TcState} (howner : SingleOwner s)
    (event : PortEvent) (mdiff : Bool) :
    SingleOwner (portDispatch env p event mdiff s) :=
  portDispatch_induction (fun _ _ hsame _ howner => howner.congr hsame)
    (fun _ howner => howner.flush p) event mdiff howner

/-- A dispatch leaves the lists of the other ports alone. -/
theorem portDispatch_others {s : TcState} (howner : SingleOwner s) {p' : ℕ}
    (hp : p' ≠ p) (event : PortEvent) (mdiff : Bool) :
    (portDispatch env p event mdiff s).list p' = s.list p' := by
  have hinv := @portDispatch_induction env p
    (fun s' => SingleOwner s' ∧ s'.list p' = s.list p')
    (fun s' s'' hsame _ hinv => ⟨hinv.1.congr hsame, (hsame.list p').trans hinv.2⟩)
    (fun s' hinv => ⟨hinv.1.flush p, (tcFlush_others hinv.1 hp).trans hinv.2⟩)
    event mdiff s ⟨howner, rfl⟩
  exact hinv.2

/-- A port that is down already does not flush when it meets a fault. -/
theorem portDispatch_down {s : TcState}
    (hdown : (s.ports p).state = .faulty ∨ (s.ports p).state = .disabled) :
    SameDescriptors s (portDispatch env p .faultDetected false s) := by
  have hfaulty : ∀ port, stateMachine port .faulty .faultDetected false =
      .faulty ∧ stateMachine port .faulty .faultCleared false = .initializing ∧
      stateMachine port .disabled .faultDetected false = .disabled ∧
      stateMachine port .initializing .initComplete false = .listening ∧
      stateMachine port .initializing .faultDetected false = .faulty := by
    intro port
    unfold stateMachine
    split <;> exact ⟨rfl, rfl, rfl, rfl, rfl⟩
  obtain ⟨hstay, hclear, hdisabled, hup, hagain⟩ := hfaulty (s.ports p)
  have hsame : SameDescriptors s s.called.called :=
    (sameDescriptors_called s).trans (sameDescriptors_called _)
  rcases hdown with hstate | hstate
  · have hset := hsame.trans
      (sameDescriptors_setState s.called.called p .listening)
    cases hasap : env.clearFaultAsap s.calls
    · simpa [portDispatch, portStateUpdate, clearFault, initializePort, hstate,
        hstay, hasap] using sameDescriptors_called s
    · cases hinit : env.portInitialize s.called.calls
      · simpa [portDispatch, portStateUpdate, clearFault, initializePort,
          hstate, hstay, hasap, hclear, portIsEnabled, hinit, hagain] using hsame
      · simpa [portDispatch, portStateUpdate, clearFault, initializePort,
          hstate, hstay, hasap, hclear, portIsEnabled, hinit, hup,
          TcState.modifyPort] using hset
  · simpa [portDispatch, portStateUpdate, clearFault, initializePort, hstate,
      hdisabled] using SameDescriptors.refl s

end

/-! ## Completing -/

section

variable {env : Env}

/-- A new descriptor has no owner before. -/
theorem SingleOwner.stash {s : TcState} (howner : SingleOwner s) (q p m : ℕ)
    (residence : ℤ) : SingleOwner (tcStash env q p m residence s) := by
  unfold tcStash tcAllocate
  cases hpool : s.tcPool with
  | cons txd rest =>
    have hnodup := hpool ▸ howner.poolNodup
    have hmember : txd ∈ s.tcPool := hpool ▸ List.mem_cons_self ..
    refine howner.insert txd
      ({ s with tcPool := rest }.modifyTxd txd fun _ => ⟨0, 0, 0, 0, 0, 0⟩)
      (fun p' hlist => howner.notPooled hlist hmember) (fun _ => rfl)
      (fun other => ?_) hnodup.of_cons (fun other => ?_) rfl p m residence q
    · simp only [TcState.modifyTxd, hpool, List.mem_cons]
      constructor
      · intro hother
        exact ⟨Or.inr hother, fun h => (List.nodup_cons.mp hnodup).1 (h ▸ hother)⟩
      · rintro ⟨hsame | hother, hne⟩
        · exact absurd hsame hne
        · exact hother
    · have hcount := (howner.allocated txd).mpr (Or.inl hmember)
      simp only [TcState.modifyTxd]
      constructor
      · exact Or.inl
      · rintro (hlt | rfl)
        · exact hlt
        · exact hcount
  | nil =>
    by_cases halloc : env.malloc s.calls = true
    · simp only [halloc, if_true]
      have hfresh : ∀ {other}, (other ∈ s.tcPool ∨ ∃ p, other ∈ s.list p) →
          other ≠ s.txdCount := fun hother heq =>
        Nat.lt_irrefl _ (heq ▸ (howner.allocated _).mpr hother)
      refine howner.insert s.txdCount
        ({ s.called with txdCount := s.txdCount + 1 }.modifyTxd s.txdCount
          fun _ => ⟨0, 0, 0, 0, 0, 0⟩) (fun p' hlist => hfresh (Or.inr ⟨p', hlist⟩) rfl) (fun _ => rfl)
        (fun other => ?_) howner.poolNodup (fun other => ?_) rfl p m residence q
      · exact ⟨fun hother => ⟨hother, hfresh (Or.inl hother)⟩, fun h => h.1⟩
      · simp only [TcState.modifyTxd]
        exact Nat.lt_succ_iff_lt_or_eq
    · simp only [halloc]
      exact (howner.congr (sameDescriptors_called s)).dispatch _ _

/-- Sending does to descriptors what at most a dispatch does. -/
theorem SingleOwner.send {s : TcState} (howner : SingleOwner s) (p m : ℕ) :
    SingleOwner (sendOrFault env p m s) ∧
      ∀ p' ≠ p, (sendOrFault env p m s).list p' = s.list p' := by
  have hsame := sameDescriptors_transportSend env p m s
  have howner' := howner.congr hsame
  unfold sendOrFault
  dsimp only
  split
  · exact ⟨howner'.dispatch _ _, fun p' hp =>
      (portDispatch_others howner' hp _ _).trans (hsame.list p')⟩
  · exact ⟨howner', fun p' _ => hsame.list p'⟩

/-- A send that succeeds, or whose port is down already, leaves descriptors
alone. -/
theorem sendOrFault_same {s : TcState} {p m : ℕ}
    (hsend : 0 < env.send s.calls ∨ (s.ports p).state = .faulty ∨
      (s.ports p).state = .disabled) :
    SameDescriptors s (sendOrFault env p m s) := by
  have hsame := sameDescriptors_transportSend env p m s
  unfold sendOrFault
  dsimp only
  split
  · rename_i hfail
    have hdown := hsend.resolve_left (not_lt.mpr hfail)
    exact hsame.trans (portDispatch_down hdown)
  · exact hsame

theorem sameDescriptors_setCorrection (m : ℕ) (value : ℤ) (s : TcState) :
    SameDescriptors s (setCorrection env m value s) :=
  sameDescriptors_modifyMsg s m _

theorem SingleOwner.sendCorrected {s : TcState} (howner : SingleOwner s)
    (p m : ℕ) (extra : ℤ) :
    SingleOwner (sendCorrected env p m extra s) ∧
      ∀ p' ≠ p, (sendCorrected env p m extra s).list p' = s.list p' := by
  have hcorrect := @sameDescriptors_setCorrection env m
    (correction env (s.msgs m).mem + extra) s
  have hsent := @SingleOwner.send env _ (howner.congr hcorrect) p m
  have hrestore := @sameDescriptors_setCorrection env m
    (correction env (s.msgs m).mem) (sendOrFault env p m
      (setCorrection env m (correction env (s.msgs m).mem + extra) s))
  exact ⟨hsent.1.congr hrestore, fun p' hp =>
    (hrestore.list p').trans ((hsent.2 p' hp).trans (hcorrect.list p'))⟩

/-- A message that is sent, or not worth a fault, changes no list. -/
theorem sendCorrected_same {s : TcState} {p m : ℕ} (extra : ℤ)
    (hsend : 0 < env.send s.calls ∨ (s.ports p).state = .faulty ∨
      (s.ports p).state = .disabled) :
    SameDescriptors s (sendCorrected env p m extra s) := by
  have hcorrect := @sameDescriptors_setCorrection env m
    (correction env (s.msgs m).mem + extra) s
  have hrestore := @sameDescriptors_setCorrection env m
    (correction env (s.msgs m).mem) (sendOrFault env p m
      (setCorrection env m (correction env (s.msgs m).mem + extra) s))
  exact (hcorrect.trans (sendOrFault_same hsend)).trans hrestore

/-- A response gives up a descriptor of the ingress port, which the fault of
the egress port does not touch. -/
theorem SingleOwner.completeResponse {s : TcState} (howner : SingleOwner s)
    {q p resp : ℕ} (hports : q ≠ p) :
    SingleOwner (tcCompleteResponse env q p resp s) := by
  unfold tcCompleteResponse
  cases hmatch : delayMatch q p resp s with
  | none => exact howner
  | some txd =>
    have hmember : txd ∈ s.list q := List.mem_of_find?_eq_some hmatch
    obtain ⟨hsent, hothers⟩ := @SingleOwner.sendCorrected env s howner p resp
      (tmvToTimeInterval (s.txds txd).residence)
    exact hsent.discard ((hothers q hports).symm ▸ hmember)

/-! ## The condition -/

/-- The Follow_Up that a call completes can be sent, or its port is down
already. -/
def SyfupMeets (env : Env) (q p msg : ℕ) (s : TcState) : Prop :=
  syfupMatch q p msg s = none ∨ 0 < env.send s.calls ∨
    (s.ports p).state = .faulty ∨ (s.ports p).state = .disabled

/-- Under the condition, a Sync or Follow_Up gives up the descriptor it
completes once. -/
theorem SingleOwner.completeSyfup {s : TcState} (howner : SingleOwner s)
    {q p msg : ℕ} (residence : ℤ) (hmeets : SyfupMeets env q p msg s) :
    SingleOwner (tcCompleteSyfup env q p msg residence s) := by
  unfold tcCompleteSyfup
  cases hmatch : syfupMatch q p msg s with
  | none => exact howner.stash q p msg residence
  | some txd =>
    have hmember : txd ∈ s.list p := List.mem_of_find?_eq_some hmatch
    have hsend := hmeets.resolve_left (by simp [hmatch])
    have hsame := @sendCorrected_same env s p
      (if syfupKind q msg txd s = .syncFup then msg else (s.txds txd).msg)
      (tmvToTimeInterval (if syfupKind q msg txd s = .syncFup then
          (s.txds txd).residence else residence) +
        tmvToTimeInterval (s.ports q).peerDelay + (s.ports q).asymmetry) hsend
    have hdiscard := (howner.congr hsame).discard (hsame.list p ▸ hmember)
    simpa using hdiscard

/-- The condition on one call of `tc_complete`. -/
def CompleteMeets (env : Env) (q p m : ℕ) (s : TcState) : Prop :=
  match messageType (s.msgs m).mem with
  | some .sync | some .followUp => SyfupMeets env q p m s
  | _ => True

/-- A descriptor that completes a pair is discarded once, where its port is not flushed
first. -/
theorem SingleOwner.complete {s : TcState} (howner : SingleOwner s)
    {q p m : ℕ} (hports : q ≠ p) (residence : ℤ)
    (hmeets : CompleteMeets env q p m s) :
    SingleOwner (tcComplete env q p m residence s) := by
  unfold CompleteMeets at hmeets
  unfold tcComplete
  split <;> simp_all only
  · exact howner.completeSyfup residence hmeets
  · exact howner.completeSyfup residence hmeets
  · exact howner.stash q p m residence
  · exact howner.completeResponse hports

/-! ## Loops over the ports -/

/-- The condition on every turn of a loop that is not skipped. -/
def ForEachPortMeets (env : Env) (q m : ℕ) (body : ℕ → TcState → TcState)
    (condition : ℕ → TcState → Prop) (s : TcState) : Prop :=
  Stepping.Meets (fun s p => if tcBlocked env q p m s then s else body p s)
    (fun s p => tcBlocked env q p m s = false → condition p s) env.clkPorts s

theorem tcBlocked_ne {q p m : ℕ} {s : TcState}
    (hblocked : tcBlocked env q p m s = false) : q ≠ p := by
  rintro rfl
  simp [tcBlocked] at hblocked

/-- The loop over the ports keeps ownership, if its body does. -/
theorem SingleOwner.forEachPort {s : TcState} (howner : SingleOwner s)
    {q m : ℕ} {body : ℕ → TcState → TcState}
    {condition : ℕ → TcState → Prop}
    (hbody : ∀ p s, q ≠ p → condition p s → SingleOwner s →
      SingleOwner (body p s))
    (hmeets : ForEachPortMeets env q m body condition s) :
    SingleOwner (forEachPort env q m body s) := by
  refine Stepping.Meets.invariant (fun s p hcondition howner => ?_) hmeets howner
  split
  · exact howner
  · rename_i hblocked
    have hblocked := Bool.eq_false_iff.mpr hblocked
    exact hbody p s (tcBlocked_ne hblocked) (hcondition hblocked) howner

theorem SingleOwner.sendAll {s : TcState} (howner : SingleOwner s) (q m : ℕ) :
    SingleOwner (tcSendAll env q m s) := by
  refine Stepping.run_invariant (fun s p howner => ?_) env.clkPorts howner
  split
  · exact howner
  · exact (howner.send p m).1

/-- The condition on one turn of the loop that gathers time stamps. -/
def GatherMeets (env : Env) (q m p : ℕ) (s : TcState) : Prop :=
  match transportTxts env p m s with
  | (none, _) => True
  | (some stamp, s) => CompleteMeets env q p m (stampEgress p m stamp s)

/-- The second loop of an event message keeps it. -/
theorem SingleOwner.gather {s : TcState} (howner : SingleOwner s) {q m p : ℕ}
    (hports : q ≠ p) (ingress : ℤ) (hmeets : GatherMeets env q m p s) :
    SingleOwner (tcGather env q m ingress p s) := by
  have htxts := howner.congr (sameDescriptors_transportTxts env p m s)
  unfold GatherMeets at hmeets
  unfold tcGather
  rcases hrun : transportTxts env p m s with ⟨_ | stamp, s'⟩
  · rw [hrun] at htxts
    exact htxts.dispatch _ _
  · rw [hrun] at htxts hmeets
    exact (htxts.congr (sameDescriptors_modifyMsg s' m _)).complete hports _ hmeets

/-! ## Forwarding -/

def FwdEventMeets (env : Env) (q m : ℕ) (s : TcState) : Prop :=
  ForEachPortMeets env q m (tcGather env q m (s.msgs m).hwts)
    (GatherMeets env q m) (tcSendAll env q m (stampHostTime env m s))

theorem sameDescriptors_stampHostTime (m : ℕ) (s : TcState) :
    SameDescriptors s (stampHostTime env m s) :=
  (sameDescriptors_called s).trans (sameDescriptors_modifyMsg s.called m _)

/-- Forwarding an event message keeps every owner the only one, -/
theorem SingleOwner.fwdEvent {s : TcState} (howner : SingleOwner s) {q m : ℕ}
    (hmeets : FwdEventMeets env q m s) : SingleOwner (tcFwdEvent env q m s) := by
  have hstamped := howner.congr (@sameDescriptors_stampHostTime env m s)
  have hsent := @SingleOwner.sendAll env _ hstamped q m
  exact hsent.forEachPort (fun p s hports hgather howner =>
    howner.gather hports _ hgather) hmeets

def FwdFolupMeets (env : Env) (q m : ℕ) (s : TcState) : Prop :=
  ForEachPortMeets env q m (fun p s => tcComplete env q p m 0 s)
    (fun p s => CompleteMeets env q p m s) (stampHostTime env m s)

/-- a Follow_Up or a response, -/
theorem SingleOwner.fwdFolup {s : TcState} (howner : SingleOwner s) {q m : ℕ}
    (hmeets : FwdFolupMeets env q m s) : SingleOwner (tcFwdFolup env q m s) :=
  (howner.congr (sameDescriptors_stampHostTime m s)).forEachPort
    (fun _ _ hports hcomplete howner => howner.complete hports 0 hcomplete) hmeets

def FwdSyncMeets (env : Env) (q m : ℕ) (s : TcState) : Prop :=
  if oneStep env (s.msgs m).mem then
    match msgAllocate env s with
    | (none, _) => True
    | (some fup, s) =>
        let s := beginFollowUp env m fup s
        FwdEventMeets env q m s ∧ FwdFolupMeets env q fup (tcFwdEvent env q m s)
  else FwdEventMeets env q m s

/-- and a Sync. -/
theorem SingleOwner.fwdSync {s : TcState} (howner : SingleOwner s) {q m : ℕ}
    (hmeets : FwdSyncMeets env q m s) :
    SingleOwner (tcFwdSync env q m s).2 := by
  unfold FwdSyncMeets at hmeets
  unfold tcFwdSync
  split
  · rename_i hstep
    rw [if_pos hstep] at hmeets
    have hallocated := howner.congr (sameDescriptors_msgAllocate env s)
    rcases halloc : msgAllocate env s with ⟨_ | fup, s'⟩
    · rw [halloc] at hallocated
      exact hallocated
    · rw [halloc] at hallocated hmeets
      obtain ⟨hevent, hfolup⟩ := hmeets
      have hbegin : SameDescriptors s' (beginFollowUp env m fup s') :=
        ⟨rfl, rfl, rfl, fun _ => rfl⟩
      have hforwarded := ((hallocated.congr hbegin).fwdEvent hevent).fwdFolup hfolup
      exact hforwarded.congr (sameDescriptors_msgPut fup _)
  · rename_i hstep
    rw [if_neg hstep] at hmeets
    exact howner.fwdEvent hmeets

def SwitchMeets (env : Env) (q m : ℕ) (s : TcState) : Prop :=
  match messageType (s.msgs m).mem with
  | some .sync => FwdSyncMeets env q m s
  | some .followUp => FwdFolupMeets env q m s
  | some .delayReq =>
      if (s.ports q).e2e then FwdEventMeets env q m s else True
  | some .delayResp =>
      if (s.ports q).e2e then FwdFolupMeets env q m s else True
  | _ => True

theorem sameDescriptors_countStep (m : ℕ) (s : TcState) :
    SameDescriptors s (countStep env m s) :=
  sameDescriptors_modifyMsg s m _

/-- Whatever a message is, ownership is kept. -/
theorem SingleOwner.switch {s : TcState} (howner : SingleOwner s) {q m : ℕ}
    (hmeets : SwitchMeets env q m s) : SingleOwner (tcSwitch env q m s) := by
  have hforward : SingleOwner (tcForward env q m s) := by
    unfold tcForward
    dsimp only
    split
    · exact (howner.congr (sameDescriptors_countStep m s)).sendAll q m
    · exact howner.sendAll q m
  unfold SwitchMeets at hmeets
  unfold tcSwitch
  split <;> simp_all only
  · exact howner.fwdSync hmeets
  · exact howner.fwdFolup hmeets
  · split
    · rename_i he2e
      rw [if_pos he2e] at hmeets
      exact howner.fwdEvent hmeets
    · exact howner
  · split
    · rename_i he2e
      rw [if_pos he2e] at hmeets
      exact howner.fwdFolup hmeets
    · exact howner

/-! ## Steps -/

theorem sameDescriptors_tcAccept (datagram : List UInt8) (hwts : ℤ)
    (s : TcState) : SameDescriptors s (tcAccept env datagram hwts s).2 := by
  have hsame := sameDescriptors_msgAllocate env s
  unfold tcAccept
  rcases halloc : msgAllocate env s with ⟨_ | m, s'⟩
  · rw [halloc] at hsame
    exact hsame
  · rw [halloc] at hsame
    have hreceived := hsame.trans (sameDescriptors_modifyMsg s' m _ :
      SameDescriptors s' (receiveInto m datagram hwts s'))
    dsimp only
    split
    · exact hreceived.trans (sameDescriptors_msgPut m _)
    · split
      · exact (hreceived.trans (sameDescriptors_called _)).trans
          (sameDescriptors_msgPut m _)
      · exact (hreceived.trans (sameDescriptors_called _)).trans
          ⟨rfl, rfl, rfl, fun _ => rfl⟩

/-- The condition on a step: every Follow_Up that completes a descriptor in it
can be sent, or its egress port is down already. -/
def StepMeets (env : Env) (s : TcState) : Action → Prop
  | .receive q datagram hwts =>
      match tcAccept env datagram hwts s with
      | (none, _) => True
      | (some m, s) => SwitchMeets env q m s
  | .dispatch _ _ _ => True
  | .delayTimer _ => True
  | .peerDelay _ _ => True

theorem SingleOwner.step {s : TcState} (howner : SingleOwner s)
    (action : Action) (hmeets : StepMeets env s action) :
    SingleOwner (step env s action) := by
  cases action with
  | receive q datagram hwts =>
    have haccept := howner.congr (@sameDescriptors_tcAccept env
      datagram hwts s)
    simp only [StepMeets] at hmeets
    simp only [Tc.step, tcReceive]
    rcases hrun : tcAccept env datagram hwts s with ⟨_ | m, s'⟩
    · rw [hrun] at haccept
      exact haccept
    · rw [hrun] at haccept hmeets
      exact (haccept.switch hmeets).congr (sameDescriptors_msgPut m _)
  | dispatch p event mdiff => exact howner.dispatch event mdiff
  | delayTimer p =>
    have hcalled := howner.congr (sameDescriptors_called s)
    exact hcalled.prune rfl
  | peerDelay p delay => exact howner.congr (sameDescriptors_portPeerDelay p delay s)

theorem singleOwner_initial (ports : ℕ → TcPort) (failed : ℕ → Bool) :
    SingleOwner (TcState.initial ports failed) where
  allocated txd := by simp [TcState.initial, TcState.list]
  poolNodup := List.nodup_nil
  listNodup _ := List.nodup_nil
  notPooled hmember := absurd hmember List.not_mem_nil
  exclusive hmember := absurd hmember List.not_mem_nil
  uses _ := rfl

/-! ## When no send fails -/

theorem forEachPortMeets_of_forall {q m : ℕ} {body : ℕ → TcState → TcState}
    {condition : ℕ → TcState → Prop} (hcondition : ∀ p s, condition p s)
    (s : TcState) : ForEachPortMeets env q m body condition s := by
  unfold ForEachPortMeets
  generalize env.clkPorts = ports
  induction ports generalizing s with
  | nil => trivial
  | cons p rest ih => exact ⟨fun _ => hcondition p s, ih _⟩

theorem completeMeets_of_send (hsend : ∀ call, 0 < env.send call)
    (q p m : ℕ) (s : TcState) : CompleteMeets env q p m s := by
  unfold CompleteMeets
  split
  · exact Or.inr (Or.inl (hsend _))
  · exact Or.inr (Or.inl (hsend _))
  · trivial

/-- The condition holds in every step when every send succeeds. -/
theorem stepMeets_of_send (hsend : ∀ call, 0 < env.send call) (s : TcState)
    (action : Action) : StepMeets env s action := by
  have hcomplete := completeMeets_of_send hsend
  have hevent : ∀ q m s, FwdEventMeets env q m s := fun q m s =>
    forEachPortMeets_of_forall (fun p s => by
      unfold GatherMeets
      split
      · trivial
      · exact hcomplete q p m _) _
  have hfolup : ∀ q m s, FwdFolupMeets env q m s := fun q m s =>
    forEachPortMeets_of_forall (fun p s => hcomplete q p m s) _
  have hsync : ∀ q m s, FwdSyncMeets env q m s := fun q m s => by
    unfold FwdSyncMeets
    split
    · split
      · trivial
      · exact ⟨hevent q m _, hfolup q _ _⟩
    · exact hevent q m s
  cases action with
  | receive q datagram hwts =>
    unfold StepMeets
    dsimp only
    split
    · trivial
    · unfold SwitchMeets
      split
      · exact hsync q _ _
      · exact hfolup q _ _
      · split
        · exact hevent q _ _
        · trivial
      · split
        · exact hfolup q _ _
        · trivial
      · trivial
  | dispatch p event mdiff => trivial
  | delayTimer p => trivial
  | peerDelay p delay => trivial

theorem meets_of_send (hsend : ∀ call, 0 < env.send call)
    (actions : List Action) (s : TcState) :
    Stepping.Meets (step env) (StepMeets env) actions s := by
  induction actions generalizing s with
  | nil => trivial
  | cons action rest ih => exact ⟨stepMeets_of_send hsend s action, ih _⟩

end

/-! ## Runs of two ports -/

/-- A two-step Sync of sequence 7 and its Follow_Up. -/
def syncOf (type control : UInt8) : List UInt8 :=
  [type, 0x02, 0, 44, 0, 0, 0x02, 0, 0, 0, 0, 0, 0, 0, 0, 0, 0, 0, 0, 0,
    0, 0x1b, 0x19, 0xff, 0xfe, 0, 0, 1, 0, 1, 0, 7, control, 0,
    0, 0, 0, 0, 0, 0, 0, 0, 0, 0]

/-- Two end-to-end ports; the send with number `failing` fails. -/
def twoPortEnv (failing : ℕ) : Env where
  host := { endian := .little, calloc := fun _ => true, monotonic := ⟨1, 0⟩ }
  clkPorts := [1, 2]
  domainNumber := 0
  assumeTwoStep := false
  malloc _ := true
  tlvPool _ := ⟨0, 0⟩
  monotonic _ := ⟨1, 0⟩
  send call := if call = failing then 0 else 44
  txts _ := some 2000
  rateRatio _ residence := residence
  clearFaultAsap _ := false
  portInitialize _ := true

def twoPorts : ℕ → TcPort := fun _ => ⟨.listening, false, true, false, 0, 0, 0, []⟩

def syncThenFollowUp : List Action :=
  [.receive 1 (syncOf 0x00 0) 1000, .receive 1 (syncOf 0x08 2) 0]

/-! ## One owner in every run -/

/-- In every run in which the Follow_Ups that complete a descriptor can be
sent, or find their port down already, every descriptor has one owner. -/
theorem run_singleOwner (env : Env) (ports : ℕ → TcPort) (failed : ℕ → Bool)
    (actions : List Action)
    (hmeets : Stepping.Meets (step env) (StepMeets env) actions
      (TcState.initial ports failed)) :
    SingleOwner (Stepping.run (step env) actions
      (TcState.initial ports failed)) :=
  hmeets.invariant (fun _ action hcondition howner =>
    howner.step action hcondition) (singleOwner_initial ports failed)

theorem run_singleOwner_syncThenFollowUp :
    SingleOwner (Stepping.run (step { twoPortEnv 0 with send := fun _ => 44 })
      syncThenFollowUp (TcState.initial twoPorts fun _ => false)) :=
  run_singleOwner { twoPortEnv 0 with send := fun _ => 44 } twoPorts
    (fun _ => false) syncThenFollowUp (meets_of_send (fun _ => show (0 : ℤ) < 44 by decide) _ _)

/-- The Follow_Up cannot be sent: its descriptor has been given up twice. -/
theorem syncThenFollowUp_not_singleOwner :
    ¬SingleOwner (Stepping.run (step (twoPortEnv 9)) syncThenFollowUp
      (TcState.initial twoPorts fun _ => false)) := by
  intro howner
  have htwice : ((Stepping.run (step (twoPortEnv 9)) syncThenFollowUp
      (TcState.initial twoPorts fun _ => false)).txds 0).uses = (2, 2, 2) := by decide
  have huses := howner.uses 0
  rw [htwice] at huses
  split at huses
  · exact absurd huses (by decide)
  · exact absurd huses (by decide)

end LinuxPtp.Tc
