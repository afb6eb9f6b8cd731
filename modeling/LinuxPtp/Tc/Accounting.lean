import LinuxPtp.Tc.Corrections

/-!
# What a transparent clock sends when a message has come

While messages can be sent, stamped and remembered, a Sync, a Follow_Up and a
Delay_Resp make a clock send what is due on each port that they go to, once, and
nothing else.  It depends on that port alone: what happens on the others before is
without effect there.
-/

namespace LinuxPtp.Tc

open ByteOrder Wire Port TcState Oracle

variable {env : Env} {q p : ℕ} {packet : Packet} {hostTime : Timespec}
variable {ingress residence : ℤ} {r r' : Relay}

structure Healthy (env : Env) : Prop where
  send : ∀ call, 0 < env.send call
  txts : ∀ call, ∃ stamp, env.txts call = some stamp ∧ stamp ≠ 0
  malloc : ∀ call, env.malloc call = true
  nodup : env.clkPorts.Nodup

namespace Relay

/-! ## What is due -/

def served (env : Env) (q : ℕ) (packet : Packet) (r : Relay) : List ℕ :=
  env.clkPorts.filter fun p => !blocked env q p packet r

/-- What goes out on a port when a Follow_Up comes: itself, if its Sync has left
there. -/
def followUpSent (env : Env) (q p : ℕ) (packet : Packet) (r : Relay) : List Handed :=
  (((r.pending p).find? (Pending.syncs packet q)).map fun held =>
    sent env p (packet.correct (syncDelay q held.residence r))).toList

/-- What goes out on a port when a Sync has left there: its Follow_Up, if that has
come before. -/
def syncSent (env : Env) (q p : ℕ) (packet : Packet) (residence : ℤ) (r : Relay) :
    List Handed :=
  (((r.pending p).find? (Pending.syncs packet q)).map fun held =>
    sent env p (held.packet.correct (syncDelay q residence r))).toList

/-- What goes out on a port when a Delay_Resp comes: itself, if its Delay_Req came in
there. -/
def responseSent (env : Env) (q p : ℕ) (packet : Packet) (r : Relay) : List Handed :=
  (((r.pending q).find? (Pending.asks packet p)).map fun held =>
    sent env p (packet.correct (tmvToTimeInterval held.residence))).toList

/-- What a port remembers after a Sync or a Follow_Up has gone there: either the
counterpart is forgotten, or the message waits for it. -/
def settled (packet : Packet) (hostTime : Timespec) (residence : ℤ) (q : ℕ)
    (pending : List Pending) : List Pending :=
  if (pending.find? (Pending.syncs packet q)).isSome then
    pending.eraseP (Pending.syncs packet q)
  else pending ++ [⟨packet, hostTime, residence, q⟩]

def settle (env : Env) (q : ℕ) (packet : Packet) (hostTime : Timespec)
    (residence : ℕ → ℤ) (r : Relay) (p : ℕ) : List Pending :=
  if blocked env q p packet r ∨ p ∉ env.clkPorts then r.pending p
  else settled packet hostTime (residence p) q (r.pending p)

/-- What is remembered of requests after the response has gone to the given ports: each
port's own request is forgotten. -/
def answered (packet : Packet) (ports : List ℕ) (pending : List Pending) : List Pending :=
  ports.foldl (fun pending p => pending.eraseP (Pending.asks packet p)) pending

structure Adds (entries : List Handed) (r r' : Relay) : Prop where
  ports : r'.ports = r.ports
  handed : r'.handed = r.handed ++ entries

/-- A Sync, a Follow_Up or a Delay_Resp makes the clock send what is due. -/
structure Exact (env : Env) (q : ℕ) (packet : Packet) (ingress : ℤ) (r r' : Relay) :
    Prop where
  followUp : packet.type = some .followUp →
    Adds ((served env q packet r).flatMap fun p => followUpSent env q p packet r) r r' ∧
      ∃ now, r'.pending = settle env q packet (env.monotonic now) (fun _ => 0) r
  response : packet.type = some .delayResp → (r.ports q).e2e = true →
    Adds ((served env q packet r).flatMap fun p => responseSent env q p packet r) r r' ∧
      r'.pending = Function.update r.pending q
        (answered packet (served env q packet r) (r.pending q))
  sync : packet.type = some .sync → oneStep env packet.mem = false →
    ∃ (residence : ℕ → ℤ) (call : ℕ → ℕ),
      (∀ p ∈ served env q packet r,
        Resides env (r.ports p).txTimestampOffset ingress (call p) (residence p)) ∧
      Adds ((served env q packet r).map (sent env · packet) ++
        (served env q packet r).flatMap fun p =>
          stamped env p packet (call p) :: syncSent env q p packet (residence p) r) r r' ∧
      ∃ now, r'.pending = settle env q packet (env.monotonic now) residence r

/-! ## One port -/

theorem Adds.refl (r : Relay) : Adds [] r r := ⟨rfl, (List.append_nil _).symm⟩

/-- What one part adds comes before what the next one adds. -/
theorem Adds.trans {r'' : Relay} {first second : List Handed} (hfirst : Adds first r r')
    (hsecond : Adds second r' r'') : Adds (first ++ second) r r'' where
  ports := hsecond.ports.trans hfirst.ports
  handed := by rw [hsecond.handed, hfirst.handed, List.append_assoc]

/-- Where all goes well, a message is handed over and that is all. -/
theorem send_healthy (hhealthy : Healthy env) (p : ℕ) (packet : Packet) (r : Relay) :
    send env p packet r = { r.called with handed := r.handed ++ [sent env p packet] } := by
  rw [send]
  exact if_neg (not_le_of_gt (hhealthy.send r.calls))

/-- A message that is remembered stands behind the earlier ones. -/
theorem stash_healthy (hhealthy : Healthy env) (r : Relay) :
    Adds [] r (stash env q p packet hostTime residence r) ∧
      (stash env q p packet hostTime residence r).pending =
        Function.update r.pending p
          (r.pending p ++ [⟨packet, hostTime, residence, q⟩]) := by
  have hallocated : (allocate env r).1 = true ∧ (allocate env r).2.ports = r.ports ∧
      (allocate env r).2.pending = r.pending ∧
      (allocate env r).2.handed = r.handed := by
    rw [allocate]
    split
    · exact ⟨rfl, rfl, rfl, rfl⟩
    · exact ⟨hhealthy.malloc _, rfl, rfl, rfl⟩
    · exact ⟨hhealthy.malloc _, rfl, rfl, rfl⟩
  obtain ⟨hok, hports, hpending, hhanded⟩ := hallocated
  rw [stash, if_pos hok]
  refine ⟨⟨hports, ?_⟩, ?_⟩
  · rw [List.append_nil]
    exact hhanded
  · rw [modifyPending, hpending]

/-- What a Sync or a Follow_Up does on the port where it goes. -/
structure Settles (packet : Packet) (hostTime : Timespec) (residence : ℤ) (q p : ℕ)
    (entries : List Handed) (r r' : Relay) : Prop extends Adds entries r r' where
  here : r'.pending p = settled packet hostTime residence q (r.pending p)
  elsewhere : ∀ p' ≠ p, r'.pending p' = r.pending p'

theorem completeSyfup_healthy (hhealthy : Healthy env) (r : Relay) :
    Settles packet hostTime residence q p
      (if packet.type = some .followUp then followUpSent env q p packet r
        else syncSent env q p packet residence r) r
      (completeSyfup env q p packet hostTime residence r) := by
  rw [completeSyfup, followUpSent, syncSent]
  cases hfind : (r.pending p).find? (Pending.syncs packet q) with
  | none =>
    obtain ⟨hadds, hpending⟩ := @stash_healthy env q p packet hostTime residence hhealthy r
    refine ⟨?_, ?_, fun p' hp => ?_⟩
    · simpa using hadds
    · dsimp only
      rw [hpending, Function.update_self, settled, hfind]
      rfl
    · dsimp only
      rw [hpending, Function.update_of_ne hp]
  | some held =>
    dsimp only
    rw [send_healthy hhealthy]
    refine ⟨⟨rfl, ?_⟩, ?_, fun p' hp => modifyPending_other hp ..⟩
    · by_cases htype : packet.type = some .followUp
      · simp only [htype, decide_true, if_true]
        rfl
      · simp only [htype, decide_false, if_false]
        rfl
    · rw [modifyPending_same, settled, hfind]
      rfl

/-- A Follow_Up takes the Sync it matches, or waits. -/
theorem completeFollowUp_healthy (hhealthy : Healthy env)
    (htype : packet.type = some .followUp) (r : Relay) :
    Settles packet hostTime residence q p (followUpSent env q p packet r) r
      (complete env q p packet hostTime residence r) := by
  have hsettles := @completeSyfup_healthy env q p packet hostTime residence hhealthy r
  rw [if_pos htype] at hsettles
  rw [complete, htype]
  exact hsettles

/-- A Sync takes the Follow_Up that waits for it, or waits itself. -/
theorem completeSync_healthy (hhealthy : Healthy env)
    (htype : packet.type = some .sync) (r : Relay) :
    Settles packet hostTime residence q p (syncSent env q p packet residence r) r
      (complete env q p packet hostTime residence r) := by
  have hsettles := @completeSyfup_healthy env q p packet hostTime residence hhealthy r
  rw [if_neg (by rw [htype]; decide)] at hsettles
  rw [complete, htype]
  exact hsettles

/-- Its residence is that of its own time stamp. -/
theorem gather_healthy (hhealthy : Healthy env) (htype : packet.type = some .sync)
    (r : Relay) :
    ∃ residence, Resides env (r.ports p).txTimestampOffset ingress r.calls residence ∧
      Settles packet hostTime residence q p
        (stamped env p packet r.calls :: syncSent env q p packet residence r) r
        (gather env q packet hostTime ingress p r) := by
  obtain ⟨stamp, hstamp, hvalid⟩ := hhealthy.txts r.calls
  rw [gather, hstamp]
  dsimp only
  rw [if_neg hvalid]
  have hasked : Adds [stamped env p packet r.calls] r
      (hand env p packet [] (some r.calls) r) := ⟨rfl, rfl⟩
  have hsettles := @completeSync_healthy env q p packet hostTime
    (env.rateRatio (r.calls + 1) (stamp + (r.ports p).txTimestampOffset - ingress))
    hhealthy htype (hand env p packet [] (some r.calls) r)
  exact ⟨_, ⟨stamp, hstamp, hvalid, rfl⟩, hasked.trans hsettles.toAdds,
    hsettles.here, hsettles.elsewhere⟩

theorem find_eraseP {α : Type} {first second : α → Bool} {entries : List α}
    (hdisjoint : ∀ entry, first entry = true → second entry = false) :
    (entries.eraseP first).find? second = entries.find? second := by
  induction entries with
  | nil => rfl
  | cons entry rest ih =>
    by_cases hfirst : first entry = true
    · rw [List.eraseP_cons_of_pos hfirst, List.find?_cons_of_neg]
      rw [hdisjoint entry hfirst]
      exact Bool.false_ne_true
    · rw [List.eraseP_cons_of_neg hfirst, List.find?_cons, List.find?_cons, ih]

/-- A Delay_Req came in on one port. -/
theorem asks_disjoint {p p' : ℕ} (hp : p' ≠ p) {held : Pending}
    (hasks : Pending.asks packet p held = true) : Pending.asks packet p' held = false := by
  rw [Pending.asks] at hasks ⊢
  simp only [Bool.and_eq_true, decide_eq_true_eq] at hasks
  rw [hasks.1.1.1, decide_eq_false (Ne.symm hp)]
  rfl

/-- A response takes its request, or is gone. -/
theorem completeResponse_healthy (hhealthy : Healthy env)
    (htype : packet.type = some .delayResp) (r : Relay) :
    Adds (responseSent env q p packet r) r
        (complete env q p packet hostTime residence r) ∧
      (complete env q p packet hostTime residence r).pending =
        Function.update r.pending q ((r.pending q).eraseP (Pending.asks packet p)) := by
  rw [complete, htype]
  dsimp only
  rw [completeResponse, responseSent]
  cases hfind : (r.pending q).find? (Pending.asks packet p) with
  | none =>
    refine ⟨.refl r, ?_⟩
    rw [List.eraseP_of_forall_not fun held hheld =>
      by simpa using List.find?_eq_none.mp hfind held hheld]
    exact (Function.update_eq_self q r.pending).symm
  | some held =>
    dsimp only
    rw [send_healthy hhealthy]
    exact ⟨⟨rfl, rfl⟩, rfl⟩

/-! ## All ports -/

/-- Which ports are passed over depends on the ports alone. -/
theorem blocked_congr (hports : r'.ports = r.ports) (q p : ℕ) (packet : Packet) :
    blocked env q p packet r' = blocked env q p packet r := by
  rw [blocked, blocked, hports]

theorem served_congr (hports : r'.ports = r.ports) (q : ℕ) (packet : Packet) :
    served env q packet r' = served env q packet r := by
  simp only [served, blocked_congr hports]

/-- What holds of a port, and what the loop does on other ports keeps, holds after the
loop has been on other ports. -/
theorem loop_keeps {body : ℕ → Relay → Relay} {inv : Relay → Prop} {p : ℕ}
    (hkeep : ∀ p' ≠ p, ∀ r, inv r → inv (body p' r)) {ports : List ℕ}
    (hp : p ∉ ports) (hinv : inv r) :
    inv (Stepping.run
      (fun r p => if blocked env q p packet r then r else body p r) ports r) := by
  induction ports generalizing r with
  | nil => exact hinv
  | cons p' ports ih =>
    obtain ⟨hother, hrest⟩ := not_or.mp (mt List.mem_cons.mpr hp)
    refine ih hrest ?_
    dsimp only
    split
    · exact hinv
    · exact hkeep p' (Ne.symm hother) r hinv

/-- What the loop does on a port it does there at once: neither what it has done on
other ports nor what it does there later matters. -/
theorem forEachPort_each {body : ℕ → Relay → Relay}
    {effect : ℕ → Relay → Relay → List Handed → Prop}
    (hbody : ∀ p r, ∃ entries, Adds entries r (body p r) ∧ effect p r (body p r) entries)
    (hearlier : ∀ {p p' r r' entries}, p' ≠ p → effect p' (body p r) r' entries →
      effect p' r r' entries)
    (hlater : ∀ {p p' r r' entries}, p' ≠ p → effect p' r r' entries →
      effect p' r (body p r') entries)
    (hnodup : env.clkPorts.Nodup) (r : Relay) :
    ∃ entries : ℕ → List Handed,
      Adds ((served env q packet r).flatMap entries) r
        (forEachPort env q packet body r) ∧
      ∀ p ∈ served env q packet r,
        effect p r (forEachPort env q packet body r) (entries p) := by
  unfold forEachPort served
  generalize env.clkPorts = ports at hnodup
  induction ports generalizing r with
  | nil => exact ⟨fun _ => [], .refl r, fun _ hp => absurd hp List.not_mem_nil⟩
  | cons p ports ih =>
    obtain ⟨hfirst, hrest⟩ := List.nodup_cons.mp hnodup
    rw [Stepping.run_cons]
    by_cases hblocked : blocked env q p packet r = true
    · rw [if_pos hblocked, List.filter_cons_of_neg (by simp [hblocked])]
      exact ih r hrest
    · rw [if_neg hblocked, List.filter_cons_of_pos (by simpa using hblocked)]
      obtain ⟨added, hadds, heffect⟩ := hbody p r
      obtain ⟨entries, hthen, hall⟩ := ih (body p r) hrest
      simp only [blocked_congr hadds.ports] at hthen hall
      have hothers : ∀ p' ∈ ports.filter fun p => !blocked env q p packet r,
          p' ≠ p := fun p' hp' hsame =>
        hfirst (hsame ▸ List.mem_of_mem_filter hp')
      have hkept : ∀ p' ∈ ports.filter fun p => !blocked env q p packet r,
          Function.update entries p added p' = entries p' := fun p' hp' =>
        Function.update_of_ne (hothers p' hp') ..
      refine ⟨Function.update entries p added, ?_, fun p' hp' => ?_⟩
      · rw [List.flatMap_cons, Function.update_self, List.flatMap_congr hkept]
        exact hadds.trans hthen
      · rcases List.mem_cons.mp hp' with rfl | hp'
        · rw [Function.update_self]
          have hkeep : ∀ p ≠ p', ∀ r', effect p' r r' added →
              effect p' r (body p r') added := fun p hp r' => hlater (Ne.symm hp)
          exact loop_keeps hkeep hfirst heffect
        · rw [hkept p' hp']
          exact hearlier (hothers p' hp') (hall p' hp')

theorem mem_served (hp : ¬(blocked env q p packet r = true ∨ p ∉ env.clkPorts)) :
    p ∈ served env q packet r := by
  rw [not_or, not_not, Bool.not_eq_true] at hp
  rw [served, List.mem_filter, hp.1]
  exact ⟨hp.2, rfl⟩

/-- A loop that settles each port where the message goes. -/
structure Settling (packet : Packet) (hostTime : Timespec) (q : ℕ)
    (body : ℕ → Relay → Relay) (entries : ℕ → ℤ → ℕ → Relay → List Handed)
    (measured : ℕ → Relay → ℕ → ℤ → Prop) : Prop where
  body : ∀ p r, ∃ residence call, measured p r call residence ∧
    Settles packet hostTime residence q p (entries p residence call r) r (body p r)
  entries : ∀ {p r r' residence call}, r'.ports = r.ports →
    r'.pending p = r.pending p → entries p residence call r' = entries p residence call r
  measured : ∀ {p r r' residence call}, r'.ports = r.ports →
    measured p r' call residence → measured p r call residence

variable {body : ℕ → Relay → Relay} {entries : ℕ → ℤ → ℕ → Relay → List Handed}
variable {measured : ℕ → Relay → ℕ → ℤ → Prop}

theorem Settling.keeps (hsettling : Settling packet hostTime q body entries measured)
    {p p' : ℕ} (hp : p' ≠ p) (r : Relay) :
    (body p r).ports = r.ports ∧ (body p r).pending p' = r.pending p' := by
  obtain ⟨_, _, -, hsettles⟩ := hsettling.body p r
  exact ⟨hsettles.ports, hsettles.elsewhere p' hp⟩

/-- Where the message does not go, all is remembered as it was. -/
theorem Settling.unserved (hsettling : Settling packet hostTime q body entries measured)
    (hp : blocked env q p packet r = true ∨ p ∉ env.clkPorts) :
    (forEachPort env q packet body r).pending p = r.pending p := by
  unfold forEachPort
  generalize hclk : env.clkPorts = ports at hp
  clear hclk
  induction ports generalizing r with
  | nil => rfl
  | cons p' ports ih =>
    rw [Stepping.run_cons]
    split
    · exact ih (hp.imp_right (mt (List.mem_cons_of_mem p')))
    · next hnot =>
      have hother : p ≠ p' := by
        rintro rfl
        exact hp.elim hnot fun habsent => habsent List.mem_cons_self
      obtain ⟨hports, hpending⟩ := hsettling.keeps hother r
      rw [ih (by
        rw [blocked_congr hports]
        exact hp.imp_right (mt (List.mem_cons_of_mem p'))), hpending]

/-- What a body does for one port, the loop does for each. -/
theorem Settling.all (hsettling : Settling packet hostTime q body entries measured)
    (hnodup : env.clkPorts.Nodup) (r : Relay) :
    ∃ (residence : ℕ → ℤ) (call : ℕ → ℕ),
      (∀ p ∈ served env q packet r, measured p r (call p) (residence p)) ∧
        Adds ((served env q packet r).flatMap fun p =>
          entries p (residence p) (call p) r) r (forEachPort env q packet body r) ∧
        (forEachPort env q packet body r).pending =
          settle env q packet hostTime residence r := by
  obtain ⟨added, hadds, heach⟩ := @forEachPort_each env q packet body
    (fun p r r' added => ∃ residence call, measured p r call residence ∧
      added = entries p residence call r ∧
      r'.pending p = settled packet hostTime residence q (r.pending p))
    (fun p r => by
      obtain ⟨residence, call, hmeasured, hsettles⟩ := hsettling.body p r
      exact ⟨_, hsettles.toAdds, residence, call, hmeasured, rfl, hsettles.here⟩)
    (fun {p p' r r' added} hp heffect => by
      obtain ⟨hports, hpending⟩ := hsettling.keeps hp r
      obtain ⟨residence, call, hmeasured, hadded, hafter⟩ := heffect
      refine ⟨residence, call, hsettling.measured hports hmeasured, ?_, ?_⟩
      · rw [hadded, hsettling.entries hports hpending]
      · rw [hafter, hpending])
    (fun {p p' r r' added} hp heffect => by
      obtain ⟨residence, call, hmeasured, hadded, hafter⟩ := heffect
      exact ⟨residence, call, hmeasured, hadded, (hsettling.keeps hp r').2.trans hafter⟩)
    hnodup r
  choose! residence call hmeasured hadded hafter using heach
  refine ⟨residence, call, hmeasured, ?_, ?_⟩
  · rwa [← List.flatMap_congr hadded]
  · funext p
    rw [settle]
    split
    · next hp => exact hsettling.unserved hp
    · next hp => exact hafter p (mem_served hp)

/-- Each port to which a response goes has its own request forgotten. -/
theorem forEachPort_answered (hhealthy : Healthy env)
    (htype : packet.type = some .delayResp) (r : Relay) :
    (forEachPort env q packet (fun p r => complete env q p packet hostTime 0 r) r).pending =
      Function.update r.pending q
        (answered packet (served env q packet r) (r.pending q)) := by
  unfold forEachPort served
  generalize env.clkPorts = ports
  induction ports generalizing r with
  | nil => exact (Function.update_eq_self q r.pending).symm
  | cons p ports ih =>
    rw [Stepping.run_cons]
    by_cases hblocked : blocked env q p packet r = true
    · rw [if_pos hblocked, List.filter_cons_of_neg (by simp [hblocked])]
      exact ih r
    · obtain ⟨hadds, hpending⟩ := @completeResponse_healthy env q p packet hostTime 0
        hhealthy htype r
      rw [if_neg hblocked, List.filter_cons_of_pos (by simpa using hblocked), ih, hpending,
        Function.update_idem, Function.update_self]
      simp only [blocked_congr hadds.ports]
      rfl

/-! ## Messages -/

theorem settling_followUp (hhealthy : Healthy env)
    (htype : packet.type = some .followUp) :
    Settling packet hostTime q (fun p r => complete env q p packet hostTime 0 r)
      (fun p _ _ r => followUpSent env q p packet r)
      fun _ _ _ residence => residence = 0 where
  body _ r := ⟨0, 0, rfl, completeFollowUp_healthy hhealthy htype r⟩
  entries hports hpending := by
    simp only [followUpSent, syncDelay, hports, hpending]
  measured _ hmeasured := hmeasured

theorem settling_sync (hhealthy : Healthy env) (htype : packet.type = some .sync) :
    Settling packet hostTime q (gather env q packet hostTime ingress)
      (fun p residence call r =>
        stamped env p packet call :: syncSent env q p packet residence r)
      fun p r => Resides env (r.ports p).txTimestampOffset ingress where
  body _ r := by
    obtain ⟨residence, hresides, hsettles⟩ := gather_healthy hhealthy htype r
    exact ⟨residence, r.calls, hresides, hsettles⟩
  entries hports hpending := by
    simp only [syncSent, syncDelay, hports, hpending]
  measured hports hmeasured := hports ▸ hmeasured

/-- All that a Follow_Up has the relay do. -/
theorem fwdFolup_exact (hhealthy : Healthy env) (htype : packet.type = some .followUp)
    (r : Relay) :
    Adds ((served env q packet r).flatMap fun p => followUpSent env q p packet r) r
        (fwdFolup env q packet r) ∧
      ∃ call, (fwdFolup env q packet r).pending =
        settle env q packet (env.monotonic call) (fun _ => 0) r := by
  obtain ⟨residence, -, hzero, hadds, hpending⟩ :=
    (@settling_followUp env q packet (env.monotonic r.calls) hhealthy htype).all
      hhealthy.nodup r.called
  refine ⟨⟨hadds.ports, hadds.handed⟩, r.calls, hpending.trans (funext fun p => ?_)⟩
  rw [settle, settle]
  split
  · next hp => exact (if_pos hp).symm
  · next hp =>
    rw [hzero p (mem_served hp)]
    exact (if_neg hp).symm

/-- All that a response does. -/
theorem fwdResponse_exact (hhealthy : Healthy env)
    (htype : packet.type = some .delayResp) (r : Relay) :
    Adds ((served env q packet r).flatMap fun p => responseSent env q p packet r) r
        (fwdFolup env q packet r) ∧
      (fwdFolup env q packet r).pending = Function.update r.pending q
        (answered packet (served env q packet r) (r.pending q)) := by
  obtain ⟨added, hadds, heach⟩ := @forEachPort_each env q packet
    (fun p r' => complete env q p packet (env.monotonic r.calls) 0 r')
    (fun p r _ added => added = responseSent env q p packet r)
    (fun p r => ⟨_, (completeResponse_healthy hhealthy htype r).1, rfl⟩)
    (fun {p p' r _ added} hp heffect => by
      obtain ⟨-, hpending⟩ := @completeResponse_healthy env q p packet
        (env.monotonic _) 0 hhealthy htype r
      rw [heffect, responseSent, hpending, Function.update_self,
        find_eraseP fun _ => asks_disjoint hp, responseSent])
    (fun _ heffect => heffect) hhealthy.nodup r.called
  rw [List.flatMap_congr heach] at hadds
  exact ⟨⟨hadds.ports, hadds.handed⟩, forEachPort_answered hhealthy htype r.called⟩

/-- All that a message does of which nothing is remembered. -/
theorem sendAll_exact (hhealthy : Healthy env) (r : Relay) :
    Adds ((served env q packet r).map (sent env · packet)) r (sendAll env q packet r) ∧
      (sendAll env q packet r).pending = r.pending := by
  constructor
  · obtain ⟨added, hadds, heach⟩ := @forEachPort_each env q packet
      (fun p r => send env p packet r) (fun p _ _ added => added = [sent env p packet])
      (fun p r => by
        rw [send_healthy hhealthy]
        exact ⟨_, ⟨rfl, rfl⟩, rfl⟩)
      (fun _ heffect => heffect) (fun _ heffect => heffect) hhealthy.nodup r
    rw [List.flatMap_congr heach, ← List.map_eq_flatMap] at hadds
    exact hadds
  · refine @Stepping.run_invariant _ _ _ (fun r' => r'.pending = r.pending)
      (fun r' p hkept => ?_) env.clkPorts r rfl
    split
    · exact hkept
    · dsimp only
      rw [send_healthy hhealthy]
      exact hkept

/-- All that a Sync does. -/
theorem fwdEvent_exact (hhealthy : Healthy env) (htype : packet.type = some .sync)
    (r : Relay) :
    ∃ (residence : ℕ → ℤ) (call : ℕ → ℕ),
      (∀ p ∈ served env q packet r,
        Resides env (r.ports p).txTimestampOffset ingress (call p) (residence p)) ∧
      Adds ((served env q packet r).map (sent env · packet) ++
        (served env q packet r).flatMap fun p =>
          stamped env p packet (call p) :: syncSent env q p packet (residence p) r) r
        (fwdEvent env q packet ingress r) ∧
      ∃ now, (fwdEvent env q packet ingress r).pending =
        settle env q packet (env.monotonic now) residence r := by
  obtain ⟨hsends, hkept⟩ := @sendAll_exact env q packet hhealthy r.called
  obtain ⟨residence, call, hresides, hadds, hpending⟩ :=
    (@settling_sync env q packet (env.monotonic r.calls) ingress hhealthy htype).all
      hhealthy.nodup (sendAll env q packet r.called)
  have hports : (sendAll env q packet r.called).ports = r.ports := hsends.ports
  rw [served_congr hports] at hresides hadds
  refine ⟨residence, call, fun p hp => hports ▸ hresides p hp, ?_, r.calls, ?_⟩
  · have hentries : ∀ p ∈ served env q packet r,
        (stamped env p packet (call p) ::
          syncSent env q p packet (residence p) (sendAll env q packet r.called)) =
        stamped env p packet (call p) :: syncSent env q p packet (residence p) r := by
      intro p _
      simp only [syncSent, syncDelay, hports, hkept]
      rfl
    rw [List.flatMap_congr hentries] at hadds
    have hboth := hsends.trans hadds
    exact ⟨hboth.ports, hboth.handed⟩
  · refine hpending.trans (funext fun p => ?_)
    rw [settle, settle, blocked_congr hports, hkept]
    rfl

theorem switch_exact (hhealthy : Healthy env) (q : ℕ) (packet : Packet) (ingress : ℤ)
    (r : Relay) : Exact env q packet ingress r (switch env q packet ingress r) where
  followUp htype := by
    rw [switch, htype]
    exact fwdFolup_exact hhealthy htype r
  response htype he2e := by
    rw [switch, htype]
    dsimp only
    rw [if_pos he2e]
    exact fwdResponse_exact hhealthy htype r
  sync htype htwoStep := by
    rw [switch, htype]
    dsimp only
    rw [fwdSync, if_neg (by rw [htwoStep]; exact Bool.false_ne_true)]
    exact fwdEvent_exact hhealthy htype r

/-- The number of the call that made the relay what it is does not matter. -/
theorem Exact.congr {first : Relay} (hsame : SameRelay first r)
    (hexact : Exact env q packet ingress r r') : Exact env q packet ingress first r' := by
  obtain ⟨ports, pending, handed, calls, spare⟩ := r
  obtain ⟨ports', pending', handed', calls', spare'⟩ := first
  obtain ⟨rfl, rfl, rfl⟩ := hsame
  exact ⟨fun htype => by
      obtain ⟨hadds, hpending⟩ := hexact.followUp htype
      exact ⟨⟨hadds.ports, hadds.handed⟩, hpending⟩,
    fun htype he2e => by
      obtain ⟨hadds, hpending⟩ := hexact.response htype he2e
      exact ⟨⟨hadds.ports, hadds.handed⟩, hpending⟩,
    fun htype htwoStep => by
      obtain ⟨residence, call, hresides, hadds, hpending⟩ := hexact.sync htype htwoStep
      exact ⟨residence, call, hresides, ⟨hadds.ports, hadds.handed⟩, hpending⟩⟩

end Relay

/-! ## Runs -/

/-- In every run in which messages can be sent, stamped and remembered, a message that
is taken for forwarding makes the clock send what is due, and nothing else. -/
theorem run_sendsDue (env : Env) (hhealthy : Healthy env) (ports : ℕ → TcPort)
    (failed : ℕ → Bool) (actions : List Action) (q : ℕ) (datagram : List UInt8)
    (hwts : ℤ)
    (haccept : ((tcAccept env datagram hwts (Stepping.run (step env) actions
      (TcState.initial ports failed))).1).isSome) :
    Relay.Exact env q (.ofDatagram datagram) hwts
      (view (Stepping.run (step env) actions (TcState.initial ports failed)) [])
      (view (Stepping.run (step env) (actions ++ [.receive q datagram hwts])
        (TcState.initial ports failed)) []) := by
  obtain ⟨hlive, -⟩ := run_live failed (meets_of_send hhealthy.send actions
    (TcState.initial ports failed))
  rw [Stepping.run_append]
  generalize Stepping.run (step env) actions (TcState.initial ports failed) = s at *
  have hmeets := stepMeets_of_send hhealthy.send s (.receive q datagram hwts)
  have hrefines := @tcAccept_refines env s hlive q datagram hwts
  unfold StepMeets at hmeets
  dsimp only at hmeets
  change Relay.Exact env q (.ofDatagram datagram) hwts (view s [])
    (view (tcReceive env q datagram hwts s) [])
  unfold tcReceive
  cases hrun : tcAccept env datagram hwts s with
  | mk found s' =>
    rw [hrun] at hmeets hrefines haccept
    cases found with
    | none => exact absurd haccept Bool.false_ne_true
    | some m =>
      obtain ⟨hfresh, hhwts, hsame, -⟩ := hrefines
      obtain ⟨-, drawn, hswitch⟩ := switch_refines hfresh hmeets
      have hexact := Relay.switch_exact hhealthy q (.ofDatagram datagram) hwts
        (view s' (drawn ++ []))
      have hfirst : SameRelay (view s []) (view s' (drawn ++ [])) :=
        ⟨hsame.ports, hsame.pending, hsame.handed⟩
      rw [hhwts] at hswitch
      rw [show Relay.switch env q (.ofDatagram datagram) hwts (view s' (drawn ++ [])) =
        view (tcSwitch env q m s') [] from hswitch []] at hexact
      dsimp only
      rw [view_msgPut]
      exact hexact.congr hfirst

theorem run_sendsDue_syncThenFollowUp :
    Relay.Exact { twoPortEnv 0 with send := fun _ => 44 } 1
      (.ofDatagram (syncOf 0x08 2)) 0
      (view (Stepping.run (step { twoPortEnv 0 with send := fun _ => 44 })
        [.receive 1 (syncOf 0x00 0) 1000] (TcState.initial twoPorts fun _ => false)) [])
      (view (Stepping.run (step { twoPortEnv 0 with send := fun _ => 44 })
        syncThenFollowUp (TcState.initial twoPorts fun _ => false)) []) :=
  run_sendsDue { twoPortEnv 0 with send := fun _ => 44 }
    ⟨fun _ => show (0 : ℤ) < 44 by decide, fun _ => ⟨2000, rfl, by decide⟩, fun _ => rfl,
      by decide⟩
    twoPorts (fun _ => false) [.receive 1 (syncOf 0x00 0) 1000] 1 (syncOf 0x08 2) 0
    (by decide +kernel)

end LinuxPtp.Tc
