import LinuxPtp.Phc.Node

/-!
# Reconfiguration is sound

Whatever the management client brings in while the clocks are walked, a clock is changed
by its own turn only, so that the counters of the loop agree with the states that the
clocks end up in.  Soundness of the selection follows from the counters.
-/

namespace LinuxPtp.Phc

open Port

variable {env : PhcEnv} {node before after final : PhcNode} {c d : ℕ}

/-! ## What a question to the management client changes -/

/-- Other clocks than `c` may at most get a new state to take over, and the state of `c`
is its own. -/
structure KeepsBut (c : ℕ) (before after : PhcNode) : Prop where
  clocks : after.clocks = before.clocks
  dstClocks : after.dstClocks = before.dstClocks
  others : ∀ d, d ≠ c →
    after.heap d = { before.heap d with newState := (after.heap d).newState }
  state : (after.heap c).state = (before.heap c).state
  destOnly : (after.heap c).destOnly = (before.heap c).destOnly

namespace KeepsBut

theorem refl (c : ℕ) (node : PhcNode) : KeepsBut c node node :=
  ⟨rfl, rfl, fun _ _ => rfl, rfl, rfl⟩

theorem trans (hfirst : KeepsBut c before after) (hsecond : KeepsBut c after final) :
    KeepsBut c before final where
  clocks := hsecond.clocks.trans hfirst.clocks
  dstClocks := hsecond.dstClocks.trans hfirst.dstClocks
  others d hd := by rw [hsecond.others d hd, hfirst.others d hd]
  state := hsecond.state.trans hfirst.state
  destOnly := hsecond.destOnly.trans hfirst.destOnly

/-- Only the lists and the clocks matter. -/
theorem of_eq (hclocks : after.clocks = before.clocks)
    (hdst : after.dstClocks = before.dstClocks) (hheap : after.heap = before.heap) :
    KeepsBut c before after :=
  ⟨hclocks, hdst, fun _ _ => by rw [hheap], by rw [hheap], by rw [hheap]⟩

/-- A clock that keeps its state and its kind. -/
theorem setClock {value : PhcClock} (hstate : value.state = (node.heap c).state)
    (hdestOnly : value.destOnly = (node.heap c).destOnly) :
    KeepsBut c node (node.setClock c value) where
  clocks := rfl
  dstClocks := rfl
  others d hd := by simp only [PhcNode.setClock, Function.update_of_ne hd]
  state := by simp only [PhcNode.setClock, Function.update_self, hstate]
  destOnly := by simp only [PhcNode.setClock, Function.update_self, hdestOnly]

/-- A new state to take over. -/
theorem setNewState (c d : ℕ) (newState : Option PortState) :
    KeepsBut c node (node.setClock d { node.heap d with newState := newState }) where
  clocks := rfl
  dstClocks := rfl
  others other _ := by
    by_cases hsame : other = d
    · subst hsame
      simp only [PhcNode.setClock, Function.update_self]
    · simp only [PhcNode.setClock, Function.update_of_ne hsame]
  state := by
    by_cases hsame : c = d
    · subst hsame
      simp only [PhcNode.setClock, Function.update_self]
    · simp only [PhcNode.setClock, Function.update_of_ne hsame]
  destOnly := by
    by_cases hsame : c = d
    · subst hsame
      simp only [PhcNode.setClock, Function.update_self]
    · simp only [PhcNode.setClock, Function.update_of_ne hsame]

/-- What each step keeps, a loop keeps. -/
theorem foldl {β : Type} {step : PhcNode → β → PhcNode}
    (hstep : ∀ node item, KeepsBut c node (step node item)) (items : List β)
    (node : PhcNode) : KeepsBut c node (items.foldl step node) := by
  induction items generalizing node with
  | nil => exact .refl c node
  | cons item items ih => exact (hstep node item).trans (ih _)

end KeepsBut

theorem pmcRecvSubscribed_keepsBut (c : ℕ) (node : PhcNode) (number : ℕ)
    (portState : PortState) : KeepsBut c node (pmcRecvSubscribed node number portState) := by
  unfold pmcRecvSubscribed
  split
  · exact .refl c node
  split
  · exact .refl c node
  split
  · exact .refl c node
  rename_i i _ _ port _ _
  have hport : KeepsBut c node (node.setPortState i (psysNormalizeState portState)) :=
    .of_eq rfl rfl rfl
  dsimp only
  split
  · exact (hport.trans (.setNewState c port.clock _)).trans (.of_eq rfl rfl rfl)
  · exact hport

theorem psysPmcGetPortProperties_keepsBut (c : ℕ) (node : PhcNode) (number : ℕ) :
    KeepsBut c node (psysPmcGetPortProperties env node number).1 := by
  have hasked : KeepsBut c node { node with calls := node.calls + 1 } := .of_eq rfl rfl rfl
  exact hasked.trans (.foldl (fun node (notice : ℕ × PortState) =>
    pmcRecvSubscribed_keepsBut c node notice.1 notice.2)
      (env.portProperties node.calls number).notified _)

theorem reinitPort_keepsBut (c clock : ℕ) (found : PhcNode × Option PortProperties)
    (i : ℕ) : KeepsBut c found.1 (reinitPort env clock found i).1 := by
  unfold reinitPort
  split
  · exact .refl c found.1
  rename_i p _
  split
  · have hasked := @psysPmcGetPortProperties_keepsBut env c found.1 p.number
    dsimp only
    split
    · exact hasked.trans (.of_eq rfl rfl rfl)
    · exact hasked
  · exact .refl c found.1

theorem reinitPorts_keepsBut (c clock : ℕ) (indices : List ℕ)
    (found : PhcNode × Option PortProperties) :
    KeepsBut c found.1 (indices.foldl (reinitPort env clock) found).1 := by
  induction indices generalizing found with
  | nil => exact .refl c found.1
  | cons i indices ih => exact (reinitPort_keepsBut c clock found i).trans (ih _)

theorem reopen_keepsBut (node : PhcNode) (c : ℕ) (iface : String) :
    KeepsBut c node (reopen env node c iface) := by
  have hdevice : KeepsBut c node
      (node.setClock c { node.heap c with device := iface }) := .setClock rfl rfl
  unfold reopen
  dsimp only
  split
  · exact hdevice
  split
  · exact hdevice
  split
  · exact hdevice
  · exact hdevice.trans (.setClock rfl rfl)

/-- Reinitialising a clock does not touch the others. -/
theorem psysClockReinit_keepsBut (node : PhcNode) (c : ℕ) :
    KeepsBut c node (psysClockReinit env node c) := by
  have hports := @reinitPorts_keepsBut env c c (List.range node.ports.length) (node, none)
  unfold psysClockReinit
  dsimp only
  split
  · split
    · exact hports
    · exact hports.trans (reopen_keepsBut _ c _)
  · exact hports

/-! ## One turn of the walk -/

structure TurnOf (c : ℕ) (before after : PhcNode) : Prop where
  clocks : after.clocks = before.clocks
  others : ∀ d, d ≠ c →
    after.heap d = { before.heap d with newState := (after.heap d).newState }
  destOnly : (after.heap c).destOnly = (before.heap c).destOnly

theorem takeNewState_turnOf (node : PhcNode) (c : ℕ) :
    TurnOf c node (takeNewState env node c) ∧
      (takeNewState env node c).dstClocks = node.dstClocks := by
  unfold takeNewState
  split
  · exact ⟨⟨rfl, fun _ _ => rfl, rfl⟩, rfl⟩
  have hkeeps := @psysClockReinit_keepsBut env node c
  refine ⟨⟨hkeeps.clocks, fun d hd => ?_, ?_⟩, hkeeps.dstClocks⟩
  · simp only [PhcNode.setClock, Function.update_of_ne hd]
    exact hkeeps.others d hd
  · simp only [PhcNode.setClock, Function.update_self]
    exact hkeeps.destOnly

/-! ## The walk -/

def IsSystem (start : PhcNode) (c : ℕ) : Prop :=
  (start.heap c).clkid = clockRealtime

instance (start : PhcNode) : DecidablePred (IsSystem start) :=
  fun _ => inferInstanceAs (Decidable (_ = _))

def inState (start : PhcNode) (heap : ℕ → PhcClock) (state : PortState) (c : ℕ) : Bool :=
  decide (¬IsSystem start c) && (heap c).state == some state

/-- Clocks whose turn is still to come are as they were, system clocks always are, and
the destinations are PHC clocks with different indices. -/
structure Placed (start : PhcNode) (visited : List ℕ) (node : PhcNode) : Prop where
  clocks : node.clocks = start.clocks
  kept : ∀ d, d ∉ visited ∨ IsSystem start d →
    node.heap d = { start.heap d with newState := (node.heap d).newState }
  dst : ∀ d ∈ node.dstClocks, d ∈ visited ∧ ¬IsSystem start d
  apart : node.dstClocks.Pairwise fun left right =>
    (node.heap left).phcIndex ≠ (node.heap right).phcIndex

/-- The local variables say what has been seen. -/
structure Counted (start : PhcNode) (visited : List ℕ) (heap : ℕ → PhcClock)
    (sel : Selection) : Prop where
  noRt : sel.rt = none → ∀ d ∈ visited, ¬IsSystem start d
  rt : ∀ rt, sel.rt = some rt → rt ∈ visited ∧ IsSystem start rt
  last : ∀ last, sel.last = some last → last ∈ visited
  hasLast : sel.last = none → sel.dstCnt = 0
  src : ∀ src, sel.src = some src → src ∈ visited
  noSrc : sel.src = none ↔ visited.countP (inState start heap .slave) = 0
  srcCnt : sel.srcCnt = visited.countP (inState start heap .slave) +
    visited.countP (inState start heap .uncalibrated)

variable {start : PhcNode} {visited : List ℕ} {sel : Selection}

theorem Placed.turn (hplaced : Placed start visited before) (hphc : ¬IsSystem start c)
    (hvisited : c ∉ visited) (hturn : TurnOf c before after)
    (hdst : after.dstClocks = before.dstClocks) :
    Placed start (visited ++ [c]) after where
  clocks := hturn.clocks.trans hplaced.clocks
  kept d hd := by
    have hne : d ≠ c := by
      rintro rfl
      simp [hphc] at hd
    rw [hturn.others d hne, hplaced.kept d (hd.imp_left fun hnot hmem =>
      hnot (List.mem_append_left _ hmem))]
  dst d hd := by
    obtain ⟨hmem, hd⟩ := hplaced.dst d (hdst ▸ hd)
    exact ⟨List.mem_append_left _ hmem, hd⟩
  apart := by
    rw [hdst]
    refine hplaced.apart.imp_of_mem fun {left right} hleft hright hne => ?_
    have hsame : ∀ d ∈ before.dstClocks,
        (after.heap d).phcIndex = (before.heap d).phcIndex := fun d hd => by
      have hother : d ≠ c := fun heq => hvisited (heq ▸ (hplaced.dst d hd).1)
      rw [hturn.others d hother]
    rwa [hsame left hleft, hsame right hright]

/-- A clock becomes a destination when there is none with its index yet. -/
theorem Placed.insert (hplaced : Placed start visited node) (hmem : c ∈ visited)
    (hphc : ¬IsSystem start c)
    (hnone : findDestClock node (node.heap c).phcIndex = none) :
    Placed start visited { node with dstClocks := c :: node.dstClocks } where
  clocks := hplaced.clocks
  kept := hplaced.kept
  dst := List.forall_mem_cons.mpr ⟨⟨hmem, hphc⟩, hplaced.dst⟩
  apart := by
    refine List.pairwise_cons.mpr ⟨fun d hd heq => ?_, hplaced.apart⟩
    have hfind := List.find?_eq_none.mp hnone d hd
    exact hfind (beq_iff_eq.mpr heq.symm)

/-- What a turn does to the counts. -/
theorem countP_turn (hvisited : c ∉ visited) (hphc : ¬IsSystem start c)
    (hturn : TurnOf c before after) (state : PortState) :
    (visited ++ [c]).countP (inState start after.heap state) =
      visited.countP (inState start before.heap state) +
        if (after.heap c).state = some state then 1 else 0 := by
  rw [List.countP_append]
  congr 1
  · refine List.countP_congr fun d hd => ?_
    have hother : d ≠ c := fun heq => hvisited (heq ▸ hd)
    rw [inState, inState, hturn.others d hother]
  · simp [List.countP_cons, inState, hphc]

/-- The local variables after the turn of a PHC clock. -/
theorem Counted.turn (hcounted : Counted start visited before.heap sel) (hvisited : c ∉ visited)
    (hphc : ¬IsSystem start c) (hturn : TurnOf c before after) {src : Option ℕ}
    {srcCnt : ℕ} (dstCnt : ℕ) (hsrc : ∀ s, src = some s → s = c ∨ sel.src = some s)
    (hnoSrc : src = none ↔ sel.src = none ∧ (after.heap c).state ≠ some .slave)
    (hsrcCnt : srcCnt = sel.srcCnt +
      ((if (after.heap c).state = some .slave then 1 else 0) +
        if (after.heap c).state = some .uncalibrated then 1 else 0)) :
    Counted start (visited ++ [c]) after.heap
      { rt := sel.rt, src := src, last := some c, srcCnt := srcCnt, dstCnt := dstCnt } where
  noRt hnone d hd := by
    rcases List.mem_append.mp hd with hd | hd
    · exact hcounted.noRt hnone d hd
    · exact List.mem_singleton.mp hd ▸ hphc
  rt rt hrt := (hcounted.rt rt hrt).imp_left (List.mem_append_left _)
  last last hlast := by
    obtain rfl := Option.some.inj hlast
    simp
  hasLast hnone := absurd hnone (Option.some_ne_none c)
  src s hs := by
    rcases hsrc s hs with rfl | hbefore
    · simp
    · exact List.mem_append_left _ (hcounted.src s hbefore)
  noSrc := by
    rw [hnoSrc, hcounted.noSrc, countP_turn hvisited hphc hturn]
    split <;> simp_all
  srcCnt := by
    rw [hsrcCnt, hcounted.srcCnt, countP_turn hvisited hphc hturn,
      countP_turn hvisited hphc hturn, Nat.add_add_add_comm]

theorem Placed.system (hplaced : Placed start visited node) :
    Placed start (visited ++ [c]) node where
  clocks := hplaced.clocks
  kept d hd := hplaced.kept d (hd.imp_left fun hnot hmem =>
    hnot (List.mem_append_left _ hmem))
  dst d hd := (hplaced.dst d hd).imp_left (List.mem_append_left _)
  apart := hplaced.apart

theorem Counted.system (hcounted : Counted start visited node.heap sel)
    (hsystem : IsSystem start c) :
    Counted start (visited ++ [c]) node.heap { sel with rt := some c } := by
  have hcount : ∀ state, (visited ++ [c]).countP (inState start node.heap state) =
      visited.countP (inState start node.heap state) := fun state => by
    simp [List.countP_append, inState, hsystem]
  exact {
    noRt := fun hnone => absurd hnone (Option.some_ne_none c)
    rt := fun rt hrt => by
      obtain rfl := Option.some.inj hrt
      exact ⟨by simp, hsystem⟩
    last := fun last hlast => List.mem_append_left _ (hcounted.last last hlast)
    hasLast := hcounted.hasLast
    src := fun src hsrc => List.mem_append_left _ (hcounted.src src hsrc)
    noSrc := hcounted.noSrc.trans (by rw [hcount])
    srcCnt := hcounted.srcCnt.trans (by rw [hcount, hcount]) }

/-- One turn keeps the account. -/
theorem visitClock_walked (hplaced : Placed start visited node)
    (hcounted : Counted start visited node.heap sel) (hvisited : c ∉ visited) :
    Placed start (visited ++ [c]) (visitClock env (node, sel) c).1 ∧
      Counted start (visited ++ [c]) (visitClock env (node, sel) c).1.heap
        (visitClock env (node, sel) c).2 := by
  have hclkid : (node.heap c).clkid = (start.heap c).clkid := by
    rw [hplaced.kept c (Or.inl hvisited)]
  unfold visitClock
  dsimp only
  split
  · rename_i hsystem
    exact ⟨hplaced.system, hcounted.system (hclkid.symm.trans hsystem)⟩
  rename_i hphc
  rw [hclkid] at hphc
  obtain ⟨hturn, hdst⟩ := @takeNewState_turnOf env node c
  generalize takeNewState env node c = taken at hturn hdst ⊢
  have htaken := hplaced.turn hphc hvisited hturn hdst
  have hmem : c ∈ visited ++ [c] := by simp
  have hnext := fun src srcCnt => @Counted.turn node taken c start visited sel hcounted
    hvisited hphc hturn src srcCnt
  cases hstate : (taken.heap c).state with
  | none =>
    simp only [hstate, reduceCtorEq, if_false, add_zero, ne_eq, not_false_eq_true,
      and_true] at hnext
    simp only [selectClock, hstate]
    exact ⟨htaken, hnext _ _ _ (fun _ => Or.inr) Iff.rfl rfl⟩
  | some state =>
    simp only [hstate, Option.some.injEq] at hnext
    cases state with
    | initializing | grandMaster =>
      simp only [selectClock, hstate]
      exact ⟨htaken, hnext _ _ _ (fun _ => Or.inr) (by simp) (by simp)⟩
    | uncalibrated =>
      simp only [selectClock, hstate]
      exact ⟨htaken, hnext _ _ _ (fun _ => Or.inr) (by simp) (by simp)⟩
    | slave =>
      simp only [selectClock, hstate]
      exact ⟨htaken, hnext _ _ _ (fun _ hs => Or.inl (Option.some.inj hs).symm)
        (by simp) (by simp)⟩
    | faulty | disabled | listening | preMaster | master | passive =>
      simp only [selectClock, hstate]
      split
      · rename_i hnone
        exact ⟨htaken.insert hmem hphc hnone,
          hnext _ _ _ (fun _ => Or.inr) (by simp) (by simp)⟩
      · exact ⟨htaken, hnext _ _ _ (fun _ => Or.inr) (by simp) (by simp)⟩

theorem visitClocks_walked {clocks : List ℕ} (hplaced : Placed start visited node)
    (hcounted : Counted start visited node.heap sel) (hnodup : (visited ++ clocks).Nodup) :
    Placed start (visited ++ clocks) (clocks.foldl (visitClock env) (node, sel)).1 ∧
      Counted start (visited ++ clocks) (clocks.foldl (visitClock env) (node, sel)).1.heap
        (clocks.foldl (visitClock env) (node, sel)).2 := by
  induction clocks generalizing visited node sel with
  | nil => rw [List.append_nil]; exact ⟨hplaced, hcounted⟩
  | cons c clocks ih =>
    have hvisited : c ∉ visited := fun hmem =>
      List.disjoint_of_nodup_append hnodup hmem (List.mem_cons_self ..)
    obtain ⟨hplaced', hcounted'⟩ := @visitClock_walked env node c start visited sel
      hplaced hcounted hvisited
    rw [List.append_cons] at hnodup ⊢
    exact ih hplaced' hcounted' hnodup

/-- The account at the end of the loop. -/
theorem walkClocks_walked (env : PhcEnv) (start : PhcNode) :
    Placed start start.clocks (walkClocks env start).1 ∧
      Counted start start.clocks (walkClocks env start).1.heap
        (walkClocks env start).2 := by
  have hstart : Placed start [] { start with stateChanged := false, dstClocks := [] } :=
    ⟨rfl, fun _ _ => rfl, by simp, List.Pairwise.nil⟩
  have hnothing : Counted start [] start.heap {} :=
    ⟨by simp, by simp, by simp, fun _ => rfl, by simp, by simp, rfl⟩
  exact visitClocks_walked hstart hnothing start.nodup

/-! ## The selection -/

/-- The PHC clocks in a state, once new states have been taken over. -/
def clocksIn (env : PhcEnv) (start : PhcNode) (state : PortState) : List ℕ :=
  start.clocks.filter (inState start (walkClocks env start).1.heap state)

/-- A sound assignment of a source and of sinks to the clocks of `start`. -/
structure SoundAssignment (env : PhcEnv) (start after : PhcNode) : Prop where
  clocks : after.clocks = start.clocks
  master : ∀ m, after.master = some m → m ∈ start.clocks
  dst : ∀ c ∈ after.dstClocks, c ∈ start.clocks
  apart : (after.dstClocks.filter fun c => decide (¬IsSystem start c)).Pairwise
    fun left right => (after.heap left).phcIndex ≠ (after.heap right).phcIndex
  system : (∃ c ∈ after.dstClocks, IsSystem start c) ↔
    (∃ c ∈ start.clocks, IsSystem start c) ∧ (clocksIn env start .slave).length = 1 ∧
      clocksIn env start .uncalibrated = []
  states : ∀ c, ¬IsSystem start c →
    (after.heap c).state = ((walkClocks env start).1.heap c).state ∨
      after.master = some c ∧ clocksIn env start .slave = []
  steered : ∀ c, steers after c = true → after.master ≠ some c ∧
    ∀ m, after.master = some m → 0 ≤ (after.heap c).phcIndex →
      (after.heap c).phcIndex ≠ (after.heap m).phcIndex

/-- The main loop leaves the master alone, and the clocks that share its index. -/
theorem steers_apart (hsteers : steers node c = true) :
    node.master ≠ some c ∧ ∀ m, node.master = some m → 0 ≤ (node.heap c).phcIndex →
      (node.heap c).phcIndex ≠ (node.heap m).phcIndex := by
  unfold steers at hsteers
  cases hmaster : node.master with
  | none => simp [hmaster] at hsteers
  | some master =>
    simp only [hmaster, Bool.and_eq_true, Bool.not_eq_true', Bool.or_eq_false_iff,
      beq_eq_false_iff_ne, ne_eq, Bool.and_eq_false_iff, decide_eq_false_iff_not] at hsteers
    obtain ⟨-, ⟨hclkid, hindex⟩, -⟩ := hsteers
    refine ⟨fun hsame => hclkid ?_, fun m hm hnonneg => ?_⟩
    · rw [Option.some.inj hsame]
    · obtain rfl := Option.some.inj hm
      exact hindex.resolve_left (not_not.mpr hnonneg)

section

variable (hplaced : Placed start start.clocks (walkClocks env start).1)

include hplaced

/-- What the choice of the master has to keep to for the assignment to be sound. -/
theorem Placed.sound (hclocks : after.clocks = (walkClocks env start).1.clocks)
    (hdst : ∀ c ∈ after.dstClocks, c ∈ start.clocks)
    (hphc : (after.dstClocks.filter fun c => decide (¬IsSystem start c)) =
      (walkClocks env start).1.dstClocks)
    (hindex : ∀ d, ¬IsSystem start d →
      (after.heap d).phcIndex = ((walkClocks env start).1.heap d).phcIndex)
    (hmaster : ∀ m, after.master = some m → m ∈ start.clocks)
    (hsystem : (∃ c ∈ after.dstClocks, IsSystem start c) ↔
      (∃ c ∈ start.clocks, IsSystem start c) ∧ (clocksIn env start .slave).length = 1 ∧
        clocksIn env start .uncalibrated = [])
    (hstates : ∀ c, ¬IsSystem start c →
      (after.heap c).state = ((walkClocks env start).1.heap c).state ∨
        after.master = some c ∧ clocksIn env start .slave = []) :
    SoundAssignment env start after where
  clocks := hclocks.trans hplaced.clocks
  master := hmaster
  dst := hdst
  apart := by
    rw [hphc]
    refine hplaced.apart.imp_of_mem fun {left right} hleft hright hne => ?_
    rwa [hindex left (hplaced.dst left hleft).2, hindex right (hplaced.dst right hright).2]
  system := hsystem
  states := hstates
  steered _ := steers_apart

theorem Placed.filter_phc :
    ((walkClocks env start).1.dstClocks.filter fun c => decide (¬IsSystem start c)) =
      (walkClocks env start).1.dstClocks :=
  List.filter_eq_self.mpr fun c hc => decide_eq_true (hplaced.dst c hc).2

/-- Without the system clock among the destinations. -/
theorem Placed.not_system (hdst : after.dstClocks = (walkClocks env start).1.dstClocks) :
    ¬∃ c ∈ after.dstClocks, IsSystem start c := by
  rintro ⟨c, hc, hsystem⟩
  exact (hplaced.dst c (hdst ▸ hc)).2 hsystem

/-- Without a destination that is a system clock, the choice keeps the walk's clocks. -/
theorem Placed.sound_of_dst (hclocks : after.clocks = (walkClocks env start).1.clocks)
    (hdst : after.dstClocks = (walkClocks env start).1.dstClocks)
    (hindex : ∀ d, ¬IsSystem start d →
      (after.heap d).phcIndex = ((walkClocks env start).1.heap d).phcIndex)
    (hmaster : ∀ m, after.master = some m → m ∈ start.clocks)
    (hnot : ¬((∃ c ∈ start.clocks, IsSystem start c) ∧
      (clocksIn env start .slave).length = 1 ∧ clocksIn env start .uncalibrated = []))
    (hstates : ∀ c, ¬IsSystem start c →
      (after.heap c).state = ((walkClocks env start).1.heap c).state ∨
        after.master = some c ∧ clocksIn env start .slave = []) :
    SoundAssignment env start after :=
  hplaced.sound hclocks (fun c hc => (hplaced.dst c (hdst ▸ hc)).1)
    (by rw [hdst]; exact hplaced.filter_phc) hindex hmaster
    (iff_of_false (hplaced.not_system hdst) hnot) hstates

/-- Nothing is synchronized. -/
theorem Placed.sound_idle
    (hnot : ¬((∃ c ∈ start.clocks, IsSystem start c) ∧
      (clocksIn env start .slave).length = 1 ∧ clocksIn env start .uncalibrated = [])) :
    SoundAssignment env start { (walkClocks env start).1 with master := none } :=
  hplaced.sound_of_dst rfl rfl (fun _ _ => rfl)
    (fun _ hm => absurd hm (by simp)) hnot fun _ _ => Or.inl rfl

end

theorem setState_heap (node : PhcNode) (c d : ℕ) (state newState : Option PortState) :
    ((node.setClock c
        { node.heap c with state := state, newState := newState }).heap d).phcIndex =
      (node.heap d).phcIndex ∧
      (d ≠ c → ((node.setClock c
        { node.heap c with state := state, newState := newState }).heap d) =
          node.heap d) := by
  by_cases hsame : d = c
  · subst hsame
    simp [PhcNode.setClock]
  · simp [PhcNode.setClock, Function.update_of_ne hsame]

theorem selectDefault_heap (node : PhcNode) (last d : ℕ) (rt : Option ℕ) :
    ((selectDefault node last rt).heap d).phcIndex = (node.heap d).phcIndex ∧
      (d ≠ last → rt ≠ some d →
        ((selectDefault node last rt).heap d).state = (node.heap d).state) := by
  let chosen : PhcNode := { node.setClock last
    { node.heap last with newState := (node.heap last).state, state := some .slave } with
      master := some last }
  have hchosen : (chosen.heap d).phcIndex = (node.heap d).phcIndex ∧
      (d ≠ last → chosen.heap d = node.heap d) :=
    setState_heap node last d (some .slave) (node.heap last).state
  cases rt with
  | none => exact ⟨hchosen.1, fun hne _ => congrArg PhcClock.state (hchosen.2 hne)⟩
  | some rt =>
    obtain ⟨hindex, hstate⟩ := setState_heap chosen rt d (some .slave)
      (chosen.heap rt).newState
    refine ⟨hindex.trans hchosen.1, fun hne hrt => ?_⟩
    have hsame := (hstate fun heq => hrt (congrArg some heq.symm)).trans (hchosen.2 hne)
    exact congrArg PhcClock.state hsame

theorem selectDefault_lists (node : PhcNode) (last : ℕ) (rt : Option ℕ) :
    (selectDefault node last rt).clocks = node.clocks ∧
      (selectDefault node last rt).dstClocks = node.dstClocks ∧
      (selectDefault node last rt).master = some last := by
  cases rt <;> exact ⟨rfl, rfl, rfl⟩

/-- The system clock becomes a destination; the other clocks stay as they are. -/
theorem selectRt_keeps (node : PhcNode) (rt : ℕ) :
    (selectRt env node rt).clocks = node.clocks ∧
      (selectRt env node rt).dstClocks = rt :: node.dstClocks ∧
      ∀ d, d ≠ rt → (selectRt env node rt).heap d =
        { node.heap d with newState := ((selectRt env node rt).heap d).newState } := by
  unfold selectRt
  dsimp only
  split
  · exact ⟨rfl, rfl, fun _ _ => rfl⟩
  · let mastered := node.setClock rt { node.heap rt with state := some .master }
    have hkeeps : KeepsBut rt mastered (psysClockReinit env mastered rt) :=
      psysClockReinit_keepsBut mastered rt
    refine ⟨hkeeps.clocks, congrArg (rt :: ·) hkeeps.dstClocks, fun d hd => ?_⟩
    have hother : mastered.heap d = node.heap d := Function.update_of_ne hd _ _
    rw [← hother]
    exact hkeeps.others d hd

/-- `psysReconfigure` dereferences no missing clock and leaves a sound assignment, for
every list of clocks in any states and whatever comes in meanwhile. -/
theorem psysReconfigure_sound (env : PhcEnv) (start : PhcNode) :
    ∃ after, psysReconfigure env start = .ok after ∧ SoundAssignment env start after := by
  obtain ⟨hplaced, hcounted⟩ := walkClocks_walked env start
  have hslaves : (clocksIn env start .slave).length =
      start.clocks.countP (inState start (walkClocks env start).1.heap .slave) :=
    (List.countP_eq_length_filter ..).symm
  have huncalibrated : (clocksIn env start .uncalibrated).length =
      start.clocks.countP (inState start (walkClocks env start).1.heap .uncalibrated) :=
    (List.countP_eq_length_filter ..).symm
  have hnoSrc := hcounted.noSrc
  have hsrcCnt := hcounted.srcCnt
  rw [← hslaves] at hnoSrc hsrcCnt
  rw [← huncalibrated] at hsrcCnt
  unfold psysReconfigure chooseMaster
  dsimp only
  split
  · -- the default clock
    rename_i hdefault
    obtain ⟨hdstCnt, hsrc, -⟩ := hdefault
    cases hlast : (walkClocks env start).2.last with
    | none =>
      rw [hcounted.hasLast hlast] at hdstCnt
      omega
    | some last =>
      obtain ⟨hclocks, hdst, hmaster⟩ := selectDefault_lists (walkClocks env start).1 last
        (walkClocks env start).2.rt
      have hnone : clocksIn env start .slave = [] :=
        List.eq_nil_of_length_eq_zero (hnoSrc.mp hsrc)
      refine ⟨_, rfl, hplaced.sound_of_dst hclocks hdst
        (fun d _ => (selectDefault_heap _ last d _).1) (fun m hm => ?_)
        (fun ⟨_, hone, _⟩ => by simp [hnone] at hone) fun c hphc => ?_⟩
      · obtain rfl := Option.some.inj (hmaster.symm.trans hm)
        exact hcounted.last last hlast
      · by_cases hsame : c = last
        · exact Or.inr ⟨hsame ▸ hmaster, hnone⟩
        · exact Or.inl ((selectDefault_heap _ last c _).2 hsame fun hrt =>
            hphc (hcounted.rt c hrt).2)
  split
  · exact ⟨_, rfl, hplaced.sound_idle fun ⟨_, hone, hnone⟩ => by
      rw [hone, hnone] at hsrcCnt
      simp at hsrcCnt
      omega⟩
  split
  · rename_i hsrc
    exact ⟨_, rfl, hplaced.sound_idle fun ⟨_, hone, _⟩ => by
      have := hnoSrc.mp hsrc.2
      omega⟩
  split
  · exact ⟨_, rfl, hplaced.sound_idle fun ⟨_, hone, _⟩ => by omega⟩
  split
  · rename_i hnothing
    refine ⟨_, rfl, hplaced.sound_idle fun ⟨⟨c, hc, hsystem⟩, hone, _⟩ => ?_⟩
    rcases hnothing with ⟨hnone, -⟩ | ⟨-, hnone⟩
    · omega
    · exact hcounted.noRt hnone c hc hsystem
  rename_i hwaiting _ hnothing
  split
  · -- the system clock is the source
    rename_i hzero
    cases hrt : (walkClocks env start).2.rt with
    | none => exact absurd (Or.inl ⟨hzero, by rw [hrt]; rfl⟩) hnothing
    | some rt =>
      obtain ⟨hmem, hsystem⟩ := hcounted.rt rt hrt
      have hheap := fun d => setState_heap (walkClocks env start).1 rt d (some .slave)
        ((walkClocks env start).1.heap rt).newState
      refine ⟨_, rfl, hplaced.sound_of_dst rfl rfl (fun d _ => (hheap d).1)
        (fun m hm => Option.some.inj hm ▸ hmem) (fun ⟨_, hone, _⟩ => by omega)
        fun c hphc => Or.inl ?_⟩
      exact congrArg PhcClock.state ((hheap c).2 fun heq => hphc (heq ▸ hsystem))
  · -- a PHC clock is the source
    rename_i hsome
    cases hsrc : (walkClocks env start).2.src with
    | none => exact absurd ⟨Nat.pos_of_ne_zero hsome, hsrc⟩ hwaiting
    | some src =>
      have hsrcMem := hcounted.src src hsrc
      have hone : (clocksIn env start .slave).length = 1 ∧
          (clocksIn env start .uncalibrated).length = 0 := by
        have := mt hnoSrc.mpr (by rw [hsrc]; exact Option.some_ne_none src)
        omega
      cases hrt : (walkClocks env start).2.rt with
      | none =>
        exact ⟨_, rfl, hplaced.sound_of_dst rfl rfl (fun _ _ => rfl)
          (fun m hm => Option.some.inj hm ▸ hsrcMem)
          (fun ⟨⟨c, hc, hsystem⟩, _⟩ => hcounted.noRt hrt c hc hsystem)
          fun _ _ => Or.inl rfl⟩
      | some rt =>
        obtain ⟨hmem, hsystem⟩ := hcounted.rt rt hrt
        obtain ⟨hclocks, hdst, hothers⟩ := @selectRt_keeps env (walkClocks env start).1 rt
        have hother : ∀ d, ¬IsSystem start d → d ≠ rt := fun d hphc heq =>
          hphc (heq ▸ hsystem)
        refine ⟨_, rfl, hplaced.sound hclocks ?_ ?_ (fun d hphc => ?_)
          (fun m hm => Option.some.inj hm ▸ hsrcMem) ?_ fun d hphc => Or.inl ?_⟩
        · rw [hdst]
          exact List.forall_mem_cons.mpr ⟨hmem, fun c hc => (hplaced.dst c hc).1⟩
        · rw [hdst, List.filter_cons_of_neg (by simpa using hsystem)]
          exact hplaced.filter_phc
        · rw [hothers d (hother d hphc)]
        · rw [hdst]
          exact iff_of_true ⟨rt, List.mem_cons_self .., hsystem⟩
            ⟨⟨rt, hmem, hsystem⟩, hone.1, List.eq_nil_of_length_eq_zero hone.2⟩
        · rw [hothers d (hother d hphc)]

end LinuxPtp.Phc
