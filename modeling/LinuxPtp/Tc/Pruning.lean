import LinuxPtp.Tc.Ownership

/-!
# Old records

A record is kept until its counterpart comes, and at most for a second.  Pruning stops at
the first record that is young enough.  That is exact where the records of a port lie in
the order in which their messages were received.
-/

namespace LinuxPtp.Tc

open Wire Port

/-! ## Ages -/

def hostNanoseconds (time : Timespec) : ℤ :=
  time.tvSec * 10 ^ 9 + time.tvNsec

namespace TcState

def references (s : TcState) (txds : List ℕ) (m : ℕ) : ℕ :=
  txds.countP fun txd => (s.txds txd).msg = m

/-- The records have gone into the pool, and each message has lost one reference for each
record that referred to it. -/
structure Released (s s' : TcState) (txds : List ℕ) : Prop where
  refcnt : ∀ m, (s'.msgs m).refcnt = (s.msgs m).refcnt - s.references txds m
  tcPool : s'.tcPool = txds.reverse ++ s.tcPool

end TcState

open TcState

section

variable (p txd : ℕ) (s : TcState)

/-- Where a message goes that nothing refers to any more does not matter to the messages. -/
theorem msgPut_msgs (m : ℕ) :
    (msgPut m s).msgs =
      (s.modifyMsg m fun msg => { msg with refcnt := msg.refcnt - 1 }).msgs := by
  unfold msgPut
  dsimp only
  split <;> rfl

theorem msgPut_hostTime (m other : ℕ) :
    ((msgPut m s).msgs other).hostTime = (s.msgs other).hostTime := by
  rw [msgPut_msgs, modifyMsg]
  by_cases hother : other = m
  · subst hother
    simp
  · simp [hother]

/-- One reference less to the message, and to no other. -/
theorem msgPut_refcnt (m other : ℕ) :
    ((msgPut m s).msgs other).refcnt =
      (s.msgs other).refcnt - if m = other then 1 else 0 := by
  rw [msgPut_msgs, modifyMsg]
  by_cases hother : other = m
  · subst hother
    simp
  · simp [hother, Ne.symm hother]

theorem tcDiscard_msg (other : ℕ) :
    ((tcDiscard p txd s).txds other).msg = (s.txds other).msg := by
  by_cases hother : other = txd
  · subst hother
    simp [tcDiscard, tcRecycle, modifyTxd, tcRelease_txds, tcRemove, modifyPort]
  · simp [tcDiscard, tcRecycle, modifyTxd, tcRelease_txds, tcRemove, modifyPort, hother]

/-- To discard a descriptor puts its message. -/
theorem tcDiscard_refcnt (m : ℕ) :
    ((tcDiscard p txd s).msgs m).refcnt =
      (s.msgs m).refcnt - if (s.txds txd).msg = m then 1 else 0 := by
  have hput := msgPut_refcnt (tcRemove p txd s) ((tcRemove p txd s).txds txd).msg m
  have hmsg : ((tcRemove p txd s).txds txd).msg = (s.txds txd).msg := by
    simp [tcRemove, modifyTxd, modifyPort]
  refine Eq.trans hput ?_
  rw [hmsg]
  rfl

end

theorem TcState.references_cons (s : TcState) (txd : ℕ) (rest : List ℕ) (m : ℕ) :
    s.references (txd :: rest) m =
      s.references rest m + if (s.txds txd).msg = m then 1 else 0 := by
  simp only [references, List.countP_cons, decide_eq_true_eq]

theorem tcDiscard_references (p txd : ℕ) (s : TcState) (txds : List ℕ) (m : ℕ) :
    (tcDiscard p txd s).references txds m = s.references txds m := by
  simp only [references, tcDiscard_msg]

theorem TcState.Released.refl (s : TcState) : Released s s [] where
  refcnt _ := by simp [references]
  tcPool := rfl

/-- A record that is given up, and others after it. -/
theorem TcState.Released.cons {p txd : ℕ} {s s' : TcState} {rest : List ℕ}
    (hrest : Released (tcDiscard p txd s) s' rest) : Released s s' (txd :: rest) where
  refcnt m := by
    rw [hrest.refcnt, tcDiscard_references, tcDiscard_refcnt, references_cons]
    split <;> push_cast <;> ring
  tcPool := by
    rw [hrest.tcPool, tcDiscard_tcPool, List.reverse_cons, List.append_assoc]
    rfl

/-! ## Pruning and flushing -/

end LinuxPtp.Tc
