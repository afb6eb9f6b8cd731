import LinuxPtp.Tc.Corrections

/-!
# Old records in every run

What a port remembers lies in the order in which it was received: each message is
appended behind those received before, and taking one out leaves the others in order.
That is proved of the relay, which remembers what the clock remembers, and makes pruning
exact in every run.
-/

namespace LinuxPtp.Tc

open Wire Port TcState Oracle

variable {env : Env} {q p last : ℕ} {packet : Packet} {hostTime : Timespec}
variable {ingress residence : ℤ} {r r' : Relay}

/-- The clock of the machine does not go back. -/
def Steady (env : Env) : Prop :=
  Monotone fun call => hostNanoseconds (env.monotonic call)

/-- Each port remembers messages in the order of their reception, none of which was
later than the given call. -/
structure InOrder (env : Env) (last : ℕ) (r : Relay) : Prop where
  sorted : ∀ p, (r.pending p).Pairwise fun a b =>
    hostNanoseconds a.hostTime ≤ hostNanoseconds b.hostTime
  past : ∀ p, ∀ held ∈ r.pending p, ∃ call ≤ last, held.hostTime = env.monotonic call
  calls : last ≤ r.calls

namespace InOrder

theorem later (horder : InOrder env last r) : InOrder env r.calls r where
  sorted := horder.sorted
  past p held hheld := by
    obtain ⟨call, hcall, htime⟩ := horder.past p held hheld
    exact ⟨call, hcall.trans horder.calls, htime⟩
  calls := le_rfl

/-- Taking messages out leaves the others in order. -/
theorem sublist (horder : InOrder env last r)
    (hpending : ∀ p, (r'.pending p).Sublist (r.pending p)) (hcalls : r.calls ≤ r'.calls) :
    InOrder env last r' where
  sorted p := (horder.sorted p).sublist (hpending p)
  past p held hheld := horder.past p held ((hpending p).subset hheld)
  calls := horder.calls.trans hcalls

theorem forgets (horder : InOrder env last r) (hforgets : Forgets r r') :
    InOrder env last r' :=
  horder.sublist hforgets.pending hforgets.calls

/-- What is handed over has nothing to do with the order. -/
theorem hand (horder : InOrder env last r) (p : ℕ) (packet : Packet) (bytes : List UInt8)
    (txts : Option ℕ) : InOrder env last (Relay.hand env p packet bytes txts r) :=
  horder.sublist (fun _ => List.Sublist.refl _) (Nat.le_succ _)

theorem send (horder : InOrder env last r) (p : ℕ) (packet : Packet) :
    InOrder env last (Relay.send env p packet r) := by
  rw [Relay.send]
  split
  · exact (horder.hand p packet _ _).forgets (.dispatch env p _ _ _)
  · exact horder.hand p packet _ _

/-- The message that is received last joins the end. -/
theorem stash (hsteady : Steady env) (horder : InOrder env last r) (q p : ℕ)
    (packet : Packet) (residence : ℤ) :
    InOrder env last
      (Relay.stash env q p packet (env.monotonic last) residence r) := by
  have hallocated := horder.forgets (.allocate env r)
  rw [Relay.stash]
  split
  · refine ⟨fun p' => ?_, fun p' held hheld => ?_, hallocated.calls⟩
    · by_cases hp : p' = p
      · subst hp
        rw [Relay.modifyPending_same]
        refine List.pairwise_append.mpr
          ⟨hallocated.sorted p', List.pairwise_singleton _ _, fun held hheld new hnew => ?_⟩
        obtain ⟨call, hcall, htime⟩ := hallocated.past p' held hheld
        rw [List.mem_singleton.mp hnew, htime]
        exact hsteady hcall
      · rw [Relay.modifyPending_other hp]
        exact hallocated.sorted p'
    · by_cases hp : p' = p
      · subst hp
        rw [Relay.modifyPending_same] at hheld
        rcases List.mem_append.mp hheld with hheld | hheld
        · exact hallocated.past p' held hheld
        · exact ⟨last, le_rfl, by rw [List.mem_singleton.mp hheld]⟩
      · rw [Relay.modifyPending_other hp] at hheld
        exact hallocated.past p' held hheld
  · exact hallocated.forgets (.dispatch env p _ _ _)

/-- A record that is appended is of a reading at least as late as all others. -/
theorem complete (hsteady : Steady env) (horder : InOrder env last r) (q p : ℕ)
    (packet : Packet) (residence : ℤ) :
    InOrder env last
      (Relay.complete env q p packet (env.monotonic last) residence r) := by
  have hsyfup : InOrder env last
      (Relay.completeSyfup env q p packet (env.monotonic last) residence r) := by
    rw [Relay.completeSyfup]
    split
    · exact horder.stash hsteady q p packet residence
    · exact (horder.send p _).forgets (.modifyPending (fun _ => List.eraseP_sublist) p _)
  have hresponse : InOrder env last (Relay.completeResponse env q p packet r) := by
    rw [Relay.completeResponse]
    split
    · exact horder
    · exact (horder.send p _).forgets (.modifyPending (fun _ => List.eraseP_sublist) q _)
  rw [Relay.complete]
  split
  · exact hsyfup
  · exact hsyfup
  · exact horder.stash hsteady q p packet residence
  · exact hresponse
  · exact horder

/-- So are those that the second loop appends. -/
theorem gather (hsteady : Steady env) (horder : InOrder env last r) (q p : ℕ)
    (packet : Packet) (ingress : ℤ) :
    InOrder env last
      (Relay.gather env q packet (env.monotonic last) ingress p r) := by
  have hasked := horder.hand p packet [] (some r.calls)
  rw [Relay.gather]
  split
  · exact hasked.forgets (.dispatch env p _ _ _)
  · split
    · exact hasked.forgets (.dispatch env p _ _ _)
    · exact hasked.complete hsteady q p packet _

theorem forEachPort {body : ℕ → Relay → Relay}
    (hbody : ∀ p r, InOrder env last r → InOrder env last (body p r))
    (horder : InOrder env last r) (q : ℕ) (packet : Packet) :
    InOrder env last (Relay.forEachPort env q packet body r) := by
  refine Stepping.run_invariant (fun r p horder => ?_) _ horder
  split
  · exact horder
  · exact hbody p r horder

theorem sendAll (horder : InOrder env last r) (q : ℕ) (packet : Packet) :
    InOrder env last (Relay.sendAll env q packet r) :=
  horder.forEachPort (fun p _ horder => horder.send p packet) q packet

/-- A message is stamped with the time before it is forwarded. -/
theorem stamp (horder : InOrder env last r) : InOrder env r.calls r.called :=
  horder.later.forgets (.called r)

/-- The readings of an event message are as late as its receipt. -/
theorem fwdEvent (hsteady : Steady env) (horder : InOrder env last r) (q : ℕ)
    (packet : Packet) (ingress : ℤ) :
    InOrder env r.calls (Relay.fwdEvent env q packet ingress r) :=
  (horder.stamp.sendAll q packet).forEachPort
    (fun p _ horder => horder.gather hsteady q p packet ingress) q packet

theorem fwdFolup (hsteady : Steady env) (horder : InOrder env last r) (q : ℕ)
    (packet : Packet) : InOrder env r.calls (Relay.fwdFolup env q packet r) :=
  horder.stamp.forEachPort (fun p _ horder => horder.complete hsteady q p packet 0) q packet

theorem fwdSync (hsteady : Steady env) (horder : InOrder env last r) (q : ℕ)
    (packet : Packet) (ingress : ℤ) :
    InOrder env (Relay.fwdSync env q packet ingress r).calls
      (Relay.fwdSync env q packet ingress r) := by
  have hallocated := horder.forgets (.allocate env r)
  rw [Relay.fwdSync]
  split
  · dsimp only
    split
    · exact ((hallocated.fwdEvent hsteady q _ ingress).fwdFolup hsteady q _).later
    · exact hallocated.later
  · exact (horder.fwdEvent hsteady q packet ingress).later

theorem switch (hsteady : Steady env) (horder : InOrder env last r) (q : ℕ)
    (packet : Packet) (ingress : ℤ) :
    InOrder env (Relay.switch env q packet ingress r).calls
      (Relay.switch env q packet ingress r) := by
  rw [Relay.switch]
  split
  · exact horder.fwdSync hsteady q packet ingress
  · exact (horder.fwdFolup hsteady q packet).later
  · split
    · exact (horder.fwdEvent hsteady q packet ingress).later
    · exact horder.later
  · split
    · exact (horder.fwdFolup hsteady q packet).later
    · exact horder.later
  · exact (horder.sendAll q _).later
  · exact (horder.sendAll q _).later
  · exact (horder.sendAll q _).later
  all_goals exact horder.later

/-- Every action keeps the lists in order of receipt. -/
theorem step (hsteady : Steady env) (horder : InOrder env last r) (action : Action) :
    InOrder env (Relay.step env r action).calls (Relay.step env r action) := by
  cases action with
  | receive q datagram hwts =>
    have hallocated := horder.forgets (.allocate env r)
    change InOrder env (Relay.receive env q datagram hwts r).calls
      (Relay.receive env q datagram hwts r)
    rw [Relay.receive]
    dsimp only
    split
    · split
      · exact hallocated.later
      · split
        · exact (hallocated.forgets (.called _)).switch hsteady q _ hwts
        · exact (hallocated.forgets (.called _)).later
    · exact hallocated.later
  | dispatch p event mdiff => exact (horder.forgets (.dispatch env p event mdiff r)).later
  | delayTimer p =>
    exact ((horder.forgets (.called r)).forgets
      (.modifyPending (fun _ => List.dropWhile_sublist _) p _)).later
  | peerDelay p delay =>
    have hsame : InOrder env last (Relay.setPeerDelay p delay r) :=
      horder.sublist (fun _ => List.Sublist.refl _) le_rfl
    exact hsame.later

end InOrder

/-! ## Runs -/

end LinuxPtp.Tc
