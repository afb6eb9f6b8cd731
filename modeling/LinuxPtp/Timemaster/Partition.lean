import LinuxPtp.Lib.Grouping
import LinuxPtp.Timemaster.Script

/-!
# Interfaces and resources of the instances

The loop with marks makes the classes of interfaces that share a clock.  The counters
give every instance a segment of its own, and the list of allocated clocks keeps a clock
from serving two sources.
-/

namespace LinuxPtp.Timemaster

open CheckedInt Grouping

/-! ## The loop with marks -/

def clockOf (phcs : ℕ → ℤ) (i : ℕ) : Option ℤ :=
  if phcs i ≥ 0 then some (phcs i) else none

def unused (phcs : ℕ → ℤ) (l : List ℕ) : List ℕ := l.filter fun i => phcs i ≠ -2

/-- Instances for groups of interfaces, with segments from one on. -/
def instancesOf (source : ℕ) (ptp : PtpDomain) :
    ℤ → List (Option ℤ × List ℕ) → List Instance
  | _, [] => []
  | segment, group :: rest =>
      { source := source, domain := ptp, positions := group.2, phc := group.1,
        segment := segment } :: instancesOf source ptp (segment + 1) rest

section

variable {env : Env} {config : TimemasterConfig} {source : ℕ} {ptp : PtpDomain}
variable {st st' : Progress} {inst : Instance} {phcs : ℕ → ℤ} {l : List ℕ}

def startAll (env : Env) (config : TimemasterConfig) :
    List Instance → Progress → Option Progress
  | [], st => some st
  | inst :: rest, st => (startInstance env config inst st).bind (startAll env config rest)

structure Started (env : Env) (config : TimemasterConfig) (inst : Instance)
    (st st' : Progress) : Prop where
  instances : st'.script.instances = st.script.instances ++ [inst]
  commands : st'.script.commands = st.script.commands ++ inst.commands env config
  configs : st'.script.configs = st.script.configs ++ [inst.configFile config]
  path : st'.script.ntpConfig.path = st.script.ntpConfig.path
  shmSegment : st'.shmSegment = st.shmSegment + 1
  allocatedPhcs : st'.allocatedPhcs = st.allocatedPhcs ++ inst.phc.toList

theorem startInstance_eq_some (hstart : startInstance env config inst st = some st') :
    Started env config inst st st' := by
  simp only [startInstance, Option.bind_eq_bind, Option.bind_eq_some_iff] at hstart
  obtain ⟨commandGroup, -, shmSegment, hsegment, hpure⟩ := hstart
  obtain rfl := Option.some.inj hpure
  exact ⟨rfl, rfl, rfl, rfl, (checked_eq_some_iff.mp hsegment).2, rfl⟩

theorem startInstance_bind {next : Progress → Option Progress} {rest : List Instance}
    (hnext : ∀ st', Started env config inst st st' →
      next st' = startAll env config rest st') :
    (startInstance env config inst st).bind next =
      startAll env config (inst :: rest) st := by
  rw [startAll]
  cases hrun : startInstance env config inst st with
  | none => rfl
  | some st' => exact hnext st' (startInstance_eq_some hrun)

theorem clockOf_eq_some {i : ℕ} {k : ℤ} :
    clockOf phcs i = some k ↔ 0 ≤ k ∧ phcs i = k := by
  rw [clockOf]
  split
  · rename_i hnonneg
    rw [Option.some_inj]
    exact ⟨fun hsame => ⟨hsame ▸ hnonneg, hsame⟩, And.right⟩
  · rename_i hneg
    refine iff_of_false (Option.some_ne_none _).symm ?_
    rintro ⟨hnonneg, rfl⟩
    exact hneg hnonneg

/-- The interfaces that the inner loop finds are those with the clock. -/
theorem shared_eq_withKey {i : ℕ} (hclock : clockOf phcs i = some (phcs i)) :
    shared phcs i l = withKey (clockOf phcs) (phcs i) (unused phcs l) := by
  have hnonneg := (clockOf_eq_some.mp hclock).1
  rw [shared, if_pos hnonneg, withKey, unused, List.filter_filter]
  refine List.filter_congr fun j _ => ?_
  rw [← Bool.decide_and]
  refine decide_eq_decide.mpr ?_
  rw [clockOf_eq_some]
  omega

/-- Marking takes the interfaces with the clock away. -/
theorem unused_marked {i : ℕ} (hclock : clockOf phcs i = some (phcs i)) :
    unused (marked phcs (shared phcs i l)) l =
      others (clockOf phcs) (phcs i) (unused phcs l) := by
  have hnonneg := (clockOf_eq_some.mp hclock).1
  rw [unused, others, unused, List.filter_filter]
  refine List.filter_congr fun j hj => ?_
  rw [← Bool.decide_and]
  refine decide_eq_decide.mpr ?_
  rw [Ne, Ne, clockOf_eq_some, marked, shared, if_pos hnonneg]
  simp only [List.mem_filter, hj, true_and, decide_eq_true_eq]
  split <;> omega

theorem clockOf_marked {used : List ℕ} {i : ℕ}
    (hunused : i ∈ unused (marked phcs used) l) :
    clockOf (marked phcs used) i = clockOf phcs i := by
  have hnot := (List.mem_filter.mp hunused).2
  rw [decide_eq_true_eq, marked] at hnot
  split at hnot
  · exact absurd rfl hnot
  · rename_i hfree
    rw [clockOf, clockOf, marked, if_neg hfree]

theorem shared_nil {i : ℕ} (hclock : clockOf phcs i = none) : shared phcs i l = [] := by
  rw [clockOf] at hclock
  split at hclock
  · exact absurd hclock (Option.some_ne_none _)
  · rename_i hneg
    rw [shared, if_neg hneg]

theorem marked_nil : marked phcs [] = phcs := by
  funext j
  rw [marked, if_neg List.not_mem_nil]

/-- The loop starts one instance for each class of interfaces. -/
theorem addInterfaces_eq :
    addInterfaces env config source ptp phcs l st =
      startAll env config (instancesOf source ptp st.shmSegment
        (classes (clockOf phcs) (unused phcs l))) st := by
  induction l generalizing phcs st with
  | nil => rw [unused, List.filter_nil, classes_nil]; rfl
  | cons i later ih =>
    rw [addInterfaces]
    split
    · rename_i hused
      rw [unused, List.filter_cons_of_neg (by simp [hused])]
      exact ih
    rename_i hfree
    have hunused : unused phcs (i :: later) = i :: unused phcs later :=
      List.filter_cons_of_pos (by simp [hfree])
    have hclockOf : (if phcs i ≥ 0 then some (phcs i) else none) = clockOf phcs i := rfl
    rw [hunused, hclockOf]
    cases hclock : clockOf phcs i with
    | none =>
      rw [classes_cons_none hclock, shared_nil hclock, marked_nil]
      refine startInstance_bind fun st' hstarted => ?_
      rw [ih, hstarted.shmSegment]
    | some k =>
      obtain ⟨-, rfl⟩ := clockOf_eq_some.mp hclock
      rw [classes_cons_some hclock, ← shared_eq_withKey hclock, ← unused_marked hclock]
      refine startInstance_bind fun st' hstarted => ?_
      rw [ih, hstarted.shmSegment, classes_congr fun j hj => clockOf_marked hj]

/-! ## Hardware clocks -/

/-- An interface of a source is stamped in hardware, by this clock. -/
def HasClock (env : Env) (source position : ℕ) (name : String) (k : ℤ) : Prop :=
  ∃ tsInfo, env.tsInfo source position (tsInterface env source position name) = some tsInfo ∧
    tsInfo.soTimestamping &&& hwTs = hwTs ∧ tsInfo.phcIndex = k

/-- The kernel numbers hardware clocks from 0 on, and reports -1 where there is none. -/
def NumbersClocks (env : Env) : Prop :=
  ∀ source position name tsInfo, env.tsInfo source position name = some tsInfo →
    -1 ≤ tsInfo.phcIndex

variable {position : ℕ} {name : String} {names : List String} {allocatedPhcs : List ℤ}

theorem getPhc_eq_some {phc : ℤ}
    (hget : getPhc env source position name allocatedPhcs = some phc) :
    phc = -1 ∨ HasClock env source position name phc ∧ phc ∉ allocatedPhcs := by
  unfold getPhc at hget
  split at hget
  · exact absurd hget (Option.some_ne_none _).symm
  rename_i tsInfo hinfo
  split at hget
  · split at hget
    · exact absurd hget (Option.some_ne_none _).symm
    · exact Or.inl (Option.some.inj hget).symm
  rename_i hhardware
  split at hget
  · exact Or.inl (Option.some.inj hget).symm
  · rename_i hfree
    obtain rfl := Option.some.inj hget
    exact Or.inr ⟨⟨tsInfo, hinfo, not_not.mp hhardware, rfl⟩, hfree⟩

theorem getPhcs_eq_some {phcs : List ℤ}
    (hget : getPhcs env source allocatedPhcs position names = some phcs) :
    ∀ i < names.length,
      getPhc env source (position + i) (names.getD i "") allocatedPhcs =
        some (phcs.getD i (-1)) := by
  induction names generalizing position phcs with
  | nil => exact fun i hi => absurd hi (Nat.not_lt_zero i)
  | cons name names ih =>
    simp only [getPhcs, Option.bind_eq_bind, Option.bind_eq_some_iff] at hget
    obtain ⟨phc, hfirst, rest, hrest, hpure⟩ := hget
    obtain rfl := Option.some.inj hpure
    intro i hi
    cases i with
    | zero => exact hfirst
    | succ i =>
      have := ih hrest i (Nat.lt_of_succ_lt_succ hi)
      rwa [Nat.add_assoc, Nat.add_comm 1 i] at this

/-! ## Counters and lists -/

/-- What the counters and the lists of the script have of its instances. -/
structure Consistent (env : Env) (config : TimemasterConfig) (st : Progress) : Prop where
  commands : st.script.commands =
    ntpCommand config :: st.script.instances.flatMap (Instance.commands env config)
  configs : st.script.configs = st.script.instances.map (Instance.configFile config)
  path : st.script.ntpConfig.path = (ntpConfig config).path
  clocks : st.script.instances.filterMap Instance.phc = st.allocatedPhcs
  nodup : st.allocatedPhcs.Nodup
  below : ∀ inst ∈ st.script.instances, inst.segment < st.shmSegment
  segments : (st.script.instances.map Instance.segment).Pairwise (· < ·)

theorem Consistent.start (hconsistent : Consistent env config st)
    (hstarted : Started env config inst st st') (hsegment : inst.segment = st.shmSegment)
    (hfresh : ∀ k ∈ inst.phc, k ∉ st.allocatedPhcs) : Consistent env config st' where
  commands := by
    rw [hstarted.commands, hstarted.instances, hconsistent.commands, List.flatMap_append,
      List.flatMap_singleton]
    rfl
  configs := by
    rw [hstarted.configs, hstarted.instances, hconsistent.configs, List.map_append]
    rfl
  path := hstarted.path.trans hconsistent.path
  clocks := by
    rw [hstarted.instances, hstarted.allocatedPhcs, List.filterMap_append,
      hconsistent.clocks]
    cases hphc : inst.phc <;> simp [hphc]
  nodup := by
    rw [hstarted.allocatedPhcs]
    cases hphc : inst.phc with
    | none => simpa using hconsistent.nodup
    | some k =>
      refine List.nodup_append.mpr ⟨hconsistent.nodup, List.nodup_singleton k, ?_⟩
      rintro a ha b hb rfl
      obtain rfl := List.mem_singleton.mp hb
      exact hfresh a hphc ha
  below := by
    rw [hstarted.instances, hstarted.shmSegment]
    intro other hother
    rcases List.mem_append.mp hother with hother | hother
    · exact (hconsistent.below other hother).trans (Int.lt_succ _)
    · obtain rfl := List.mem_singleton.mp hother
      rw [hsegment]
      exact Int.lt_succ _
  segments := by
    rw [hstarted.instances, List.map_append]
    refine List.pairwise_append.mpr ⟨hconsistent.segments, List.pairwise_singleton _ _, ?_⟩
    intro segment hmem last hlast
    obtain ⟨other, hother, rfl⟩ := List.mem_map.mp hmem
    obtain rfl := List.mem_singleton.mp hlast
    rw [hsegment]
    exact hconsistent.below other hother

theorem startAll_consistent {groups : List (Option ℤ × List ℕ)}
    (hconsistent : Consistent env config st) (hnodup : (groups.filterMap Prod.fst).Nodup)
    (hfresh : ∀ k ∈ groups.filterMap Prod.fst, k ∉ st.allocatedPhcs)
    (hrun : startAll env config (instancesOf source ptp st.shmSegment groups) st =
      some st') :
    Consistent env config st' ∧
      st'.script.instances =
        st.script.instances ++ instancesOf source ptp st.shmSegment groups := by
  induction groups generalizing st with
  | nil =>
    obtain rfl := Option.some.inj hrun
    exact ⟨hconsistent, (List.append_nil _).symm⟩
  | cons group rest ih =>
    rw [instancesOf, startAll] at hrun
    obtain ⟨st₁, hstart, hrun⟩ := Option.bind_eq_some_iff.mp hrun
    have hstarted := startInstance_eq_some hstart
    have hfirst : ∀ k ∈ group.1, k ∉ st.allocatedPhcs ∧ k ∉ rest.filterMap Prod.fst := by
      intro k hk
      rw [List.filterMap_cons, Option.mem_def.mp hk] at hnodup hfresh
      exact ⟨hfresh k List.mem_cons_self, (List.nodup_cons.mp hnodup).1⟩
    have hrest : (rest.filterMap Prod.fst).Nodup ∧
        ∀ k ∈ rest.filterMap Prod.fst, k ∉ st.allocatedPhcs := by
      have hsub : (rest.filterMap Prod.fst).Sublist ((group :: rest).filterMap Prod.fst) :=
        (List.sublist_cons_self group rest).filterMap _
      exact ⟨hnodup.sublist hsub, fun k hk => hfresh k (hsub.subset hk)⟩
    have hconsistent₁ := hconsistent.start hstarted rfl fun k hk => (hfirst k hk).1
    rw [← hstarted.shmSegment] at hrun
    obtain ⟨hfinal, hinstances⟩ := ih hconsistent₁ hrest.1 (fun k hk hallocated => by
      rw [hstarted.allocatedPhcs] at hallocated
      rcases List.mem_append.mp hallocated with hold | hnew
      · exact hrest.2 k hk hold
      · exact (hfirst k (Option.mem_toList.mp hnew)).2 hk) hrun
    refine ⟨hfinal, ?_⟩
    rw [hinstances, hstarted.instances, hstarted.shmSegment, List.append_assoc]
    rfl

end

end LinuxPtp.Timemaster
