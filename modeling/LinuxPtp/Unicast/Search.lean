import LinuxPtp.Unicast.Contracts

/-!
# The loops over the intervals

A request looks for the interval with its rate and clears stale contracts from the others;
a cancel takes away the first contract it finds.  Either edits the clients of the
intervals only.
-/

namespace LinuxPtp.Unicast

open Function KeyedList Wire

variable {Address : Type} (addreq : Address → Address → Bool)

/-- The clients of these intervals are edited.  Where there is a target, contracts of this
kind are new at most there, and in no other interval is one left. -/
structure Edits (granted : Address → ℕ → Prop) (target : Option ℕ) (intervals : List ℕ)
    (node node' : ℕ → Interval Address) : Prop where
  frame : ∀ i ∈ intervals, node' i = { node i with clients := (node' i).clients }
  wellKept : ∀ i ∈ intervals,
    WellKept addreq (node i).clients → WellKept addreq (node' i).clients
  contracts : ∀ i ∈ intervals, ∀ address mtype,
    Contracted addreq (node' i).clients address mtype →
      Contracted addreq (node i).clients address mtype ∨
        target = some i ∧ granted address mtype
  cleared : ∀ i ∈ intervals, target ≠ some i → ∀ address mtype, granted address mtype →
    ¬Contracted addreq (node' i).clients address mtype

def clearIntervals (address : Address) (mask : BitVec 32) (intervals : List ℕ)
    (node : ℕ → Interval Address) (i : ℕ) : Interval Address :=
  if i ∈ intervals then
    { node i with clients := (node i).clients.filterMap (clearStale addreq address mask) }
  else node i

/-- One of the clients has this address and one of these contracts. -/
def Offered (address : Address) (mask : BitVec 32) (clients : List (Client Address)) : Prop :=
  ∃ client ∈ clients, addreq client.addr address ∧ client.messageTypes &&& mask ≠ 0

/-- What the loop over the intervals finds where it passes them all: the interval with the
rate of the request, and the last record there with its address. -/
structure Finds (address : Address) (mask : BitVec 32) (logPeriod : ℤ) (intervals : List ℕ)
    (node : ℕ → Interval Address) (found : Search Address) : Prop where
  edits : Edits addreq (requested addreq address mask) found.interval intervals node found.node
  mem : ∀ i, found.interval = some i → i ∈ intervals ∧ (node i).logPeriod = logPeriod
  absent : found.interval = none → ∀ i ∈ intervals, (node i).logPeriod ≠ logPeriod
  client : ∀ i place, found.client = some (i, place) → found.interval = some i ∧
    ∃ ctmp, (found.node i).clients[place]? = some ctmp ∧ addreq ctmp.addr address
  noClient : found.client = none → ∀ i, found.interval = some i →
    ∀ ctmp ∈ (found.node i).clients, ¬addreq ctmp.addr address

section

variable {addreq} {intervals intervals' : List ℕ} {node node' : ℕ → Interval Address}
  {address : Address} {mask : BitVec 32} {granted : Address → ℕ → Prop}
  {target : Option ℕ} {i : ℕ} {clients : List (Client Address)}

@[simp]
theorem setClients_self : setClients node i clients i = { node i with clients } :=
  update_self ..

theorem setClients_of_ne {j : ℕ} (hne : j ≠ i) : setClients node i clients j = node j :=
  update_of_ne hne ..

theorem Edits.refl : Edits addreq nothing none intervals node node :=
  ⟨fun _ _ => rfl, fun _ _ => id, fun _ _ _ _ => Or.inl, fun _ _ _ _ _ => False.elim⟩

/-- After other edits the clients of one interval are edited: of the target, or without a
new contract. -/
theorem Edits.setClients (hedits : Edits addreq granted target intervals node node')
    (hone : Edited addreq nothing (node' i).clients clients ∨
      target = some i ∧ Edited addreq granted (node' i).clients clients) :
    Edits addreq granted target intervals node (setClients node' i clients) := by
  have hkept : WellKept addreq (node' i).clients → WellKept addreq clients :=
    hone.elim Edited.wellKept fun hone => hone.2.wellKept
  have hnew : ∀ address mtype, Contracted addreq clients address mtype →
      Contracted addreq (node' i).clients address mtype ∨
        target = some i ∧ granted address mtype := by
    intro address mtype hcontracted
    rcases hone with hone | ⟨htarget, hone⟩
    · exact Or.inl ((hone.contracts address mtype hcontracted).resolve_right id)
    · exact (hone.contracts address mtype hcontracted).imp_right fun hgranted =>
        ⟨htarget, hgranted⟩
  constructor <;> intro j hj
  case frame =>
    by_cases hji : j = i
    · subst hji
      rw [setClients_self, hedits.frame j hj]
    · rw [setClients_of_ne hji]
      exact hedits.frame j hj
  case wellKept =>
    intro hwell
    by_cases hji : j = i
    · subst hji
      rw [setClients_self]
      exact hkept (hedits.wellKept j hj hwell)
    · rw [setClients_of_ne hji]
      exact hedits.wellKept j hj hwell
  case contracts =>
    intro address mtype hcontracted
    by_cases hji : j = i
    · subst hji
      rw [setClients_self] at hcontracted
      exact (hnew address mtype hcontracted).elim (hedits.contracts j hj address mtype) Or.inr
    · rw [setClients_of_ne hji] at hcontracted
      exact hedits.contracts j hj address mtype hcontracted
  case cleared =>
    intro htarget address mtype hgranted hcontracted
    by_cases hji : j = i
    · subst hji
      rw [setClients_self] at hcontracted
      rcases hnew address mtype hcontracted with hold | ⟨hsome, -⟩
      · exact hedits.cleared j hj htarget address mtype hgranted hold
      · exact htarget hsome
    · rw [setClients_of_ne hji] at hcontracted
      exact hedits.cleared j hj htarget address mtype hgranted hcontracted

/-! ## Requests -/

/-- Clearing an interval of a client makes no contract. -/
theorem edited_clearIntervals (cleared : List ℕ) :
    Edited addreq nothing (node i).clients
      (clearIntervals addreq address mask cleared node i).clients := by
  rw [clearIntervals]
  split
  · exact edited_clearStale
  · exact Edited.refl

/-- Clearing the stale contracts grants none. -/
theorem edits_clearIntervals {cleared : List ℕ}
    (hothers : ∀ i ∈ intervals, target ≠ some i → ∀ other mtype, granted other mtype →
      ¬Contracted addreq (clearIntervals addreq address mask cleared node i).clients
        other mtype) :
    Edits addreq granted target intervals node
      (clearIntervals addreq address mask cleared node) where
  frame i _ := by
    rw [clearIntervals]
    split <;> rfl
  wellKept _ _ := (edited_clearIntervals cleared).wellKept
  contracts _ _ other mtype hcontracted :=
    Or.inl (((edited_clearIntervals cleared).contracts other mtype
      hcontracted).resolve_right id)
  cleared := hothers

/-- Other intervals stay as they are. -/
theorem clearIntervals_of_notMem {cleared : List ℕ} (hmem : i ∉ cleared) :
    clearIntervals addreq address mask cleared node i = node i :=
  if_neg hmem

/-- Intervals may be cleared in two parts. -/
theorem clearIntervals_append {before after : List ℕ} (hdisjoint : before.Disjoint after) :
    clearIntervals addreq address mask after
        (clearIntervals addreq address mask before node) =
      clearIntervals addreq address mask (before ++ after) node := by
  funext i
  by_cases hafter : i ∈ after
  · have hbefore : i ∉ before := fun hbefore => hdisjoint hbefore hafter
    rw [clearIntervals, if_pos hafter, clearIntervals_of_notMem hbefore, clearIntervals,
      if_pos (List.mem_append_right before hafter)]
  · rw [clearIntervals_of_notMem hafter]
    simp only [clearIntervals, List.mem_append, hafter, or_false]

theorem clearIntervals_cons {first : ℕ} {rest : List ℕ} (hfirst : first ∉ rest) :
    clearIntervals addreq address mask rest (setClients node first
        ((node first).clients.filterMap (clearStale addreq address mask))) =
      clearIntervals addreq address mask (first :: rest) node := by
  funext i
  unfold clearIntervals
  by_cases hi : i = first
  · subst hi
    rw [if_neg hfirst, if_pos List.mem_cons_self, setClients_self]
  · simp only [List.mem_cons, hi, false_or, setClients_of_ne hi]

/-- The loop passes intervals with other rates and clears them. -/
theorem searchIntervals_append {clock : Option Reading} {req : RequestUnicastXmit}
    {before : List ℕ} (rest : List ℕ) {found : Search Address} (hnodup : before.Nodup)
    (hother : ∀ i ∈ before,
      (found.node i).logPeriod ≠ req.logInterMessagePeriod.toInt) :
    searchIntervals addreq clock req address mask (before ++ rest) found =
      searchIntervals addreq clock req address mask rest
        { found with node := clearIntervals addreq address mask before found.node } := by
  induction before generalizing found with
  | nil => rfl
  | cons first before ih =>
    obtain ⟨hfirst, hnodup⟩ := List.nodup_cons.mp hnodup
    obtain ⟨hperiod, hother⟩ := List.forall_mem_cons.mp hother
    rw [List.cons_append, searchIntervals, if_neg hperiod, ih hnodup fun i hi => ?_]
    · rw [clearIntervals_cons hfirst]
    · have hsame := @setClients_of_ne _ found.node first
        ((found.node first).clients.filterMap (clearStale addreq address mask)) i
        (ne_of_mem_of_not_mem hi hfirst)
      simpa only [hsame] using hother i hi

/-- The loop scans the interval with the rate of the request and clears the others: those
before it, and those behind it unless it returns. -/
theorem searchIntervals_split {clock : Option Reading} {req : RequestUnicastXmit}
    {before after : List ℕ} (hnodup : (before ++ i :: after).Nodup)
    (hperiod : (node i).logPeriod = req.logInterMessagePeriod.toInt)
    (hother : ∀ j ∈ before ++ after,
      (node j).logPeriod ≠ req.logInterMessagePeriod.toInt) :
    searchIntervals addreq clock req address mask (before ++ i :: after) ⟨node, none, none⟩ =
      match scanClients addreq address mask (node i).clients 0 none with
      | .unchanged place =>
          .inl (setClients (clearIntervals addreq address mask before node) i
            ((node i).clients.modify place (unicastServiceExtend clock req)))
      | .passed client =>
          .inr ⟨clearIntervals addreq address mask (before ++ after) node, some i,
            client.map fun place => (i, place)⟩ := by
  obtain ⟨hbefore, hrest, hdisjoint⟩ := List.nodup_append'.mp hnodup
  obtain ⟨-, hafter⟩ := List.nodup_cons.mp hrest
  have hnotBefore : i ∉ before := fun hmem => hdisjoint hmem List.mem_cons_self
  have hsame := @clearIntervals_of_notMem _ addreq node address mask i before hnotBefore
  rw [searchIntervals_append _ hbefore fun j hj => hother j (List.mem_append_left after hj),
    searchIntervals]
  simp only [hsame, if_pos hperiod]
  cases scanClients addreq address mask (node i).clients 0 none with
  | unchanged place => rfl
  | passed client =>
    have hlast := @searchIntervals_append _ addreq address mask clock req after []
      ⟨clearIntervals addreq address mask before node, some i,
        client.map fun place => (i, place)⟩ hafter fun j hj => by
          have hclear : j ∉ before := fun hmem =>
            hdisjoint hmem (List.mem_cons_of_mem i hj)
          simpa only [clearIntervals_of_notMem hclear] using
            hother j (List.mem_append_right before hj)
    rw [List.append_nil, clearIntervals_append fun j hbefore hafter =>
      hdisjoint hbefore (List.mem_cons_of_mem i hafter)] at hlast
    simp only [Option.or_none]
    exact hlast

/-- The contract that stops a scan is still there when it is extended. -/
theorem offered_extend {clock : Option Reading} {req : RequestUnicastXmit} {place : ℕ}
    (hscan : scanClients addreq address mask clients 0 none = .unchanged place) :
    Offered addreq address mask
      (clients.modify place (unicastServiceExtend clock req)) := by
  obtain ⟨offset, ctmp, rfl, hctmp, haddress, hbit⟩ := scanClients_eq_unchanged hscan
  obtain ⟨haddr, htypes⟩ := unicastServiceExtend_types clock req ctmp
  rw [Nat.zero_add]
  exact ⟨unicastServiceExtend clock req ctmp, mem_modify hctmp, by rwa [haddr],
    by rwa [htypes]⟩

/-- The loop finds a contract that is unchanged, or the interval and the record to use. -/
theorem searchIntervals_spec (hcompares : Compares addreq)
    {clock : Option Reading} {req : RequestUnicastXmit}
    (hunique : Unique (fun i => (node i).logPeriod) intervals) :
    (∃ node', searchIntervals addreq clock req address mask intervals ⟨node, none, none⟩ =
        .inl node' ∧ Edits addreq nothing none intervals node node' ∧
      ∃ i ∈ intervals, (node i).logPeriod = req.logInterMessagePeriod.toInt ∧
        Offered addreq address mask (node' i).clients) ∨
      ∃ found, searchIntervals addreq clock req address mask intervals ⟨node, none, none⟩ =
        .inr found ∧
          Finds addreq address mask req.logInterMessagePeriod.toInt intervals node found := by
  have hnodup : intervals.Nodup := List.Nodup.of_map _ hunique
  by_cases hexists : ∃ i ∈ intervals, (node i).logPeriod = req.logInterMessagePeriod.toInt
  case neg =>
    have habsent : ∀ i ∈ intervals, (node i).logPeriod ≠ req.logInterMessagePeriod.toInt :=
      fun i hi hperiod => hexists ⟨i, hi, hperiod⟩
    have hsearch := @searchIntervals_append _ addreq address mask clock req intervals []
      ⟨node, none, none⟩ hnodup habsent
    rw [List.append_nil] at hsearch
    refine Or.inr ⟨_, hsearch, edits_clearIntervals fun i hi _ other mtype hgranted => ?_,
      fun i hi => ?_, fun _ => habsent, fun i place hi => ?_, fun _ i hi => ?_⟩
    · rw [clearIntervals, if_pos hi]
      exact not_contracted_clearStale hcompares hgranted
    all_goals cases hi
  case pos =>
    obtain ⟨i, hmem, hperiod⟩ := hexists
    obtain ⟨before, after, rfl⟩ := List.append_of_mem hmem
    have hnotCleared : i ∉ before ++ after := (List.nodup_middle.mp hnodup).notMem
    have hmiddle : ∀ j, j ∈ before ++ i :: after ↔ j = i ∨ j ∈ before ++ after := by
      intro j
      rw [List.mem_append, List.mem_cons, List.mem_append]
      tauto
    have hother : ∀ j ∈ before ++ after,
        (node j).logPeriod ≠ req.logInterMessagePeriod.toInt := fun j hj hsame =>
      hnotCleared (hunique.eq_of_key ((hmiddle j).mpr (Or.inr hj)) hmem
        (hsame.trans hperiod.symm) ▸ hj)
    rw [searchIntervals_split hnodup hperiod hother]
    cases hscan : scanClients addreq address mask (node i).clients 0 none with
    | unchanged place =>
      have hsame := @clearIntervals_of_notMem _ addreq node address mask i before
        fun hi => hnotCleared (List.mem_append_left after hi)
      refine Or.inl ⟨_, rfl, Edits.setClients
        (edits_clearIntervals fun _ _ _ _ _ => False.elim) (Or.inl ?_), i, hmem, hperiod, ?_⟩
      · rw [hsame]
        exact edited_extend clock req place
      · rw [setClients_self]
        exact offered_extend hscan
    | passed client =>
      have hscanned := scanClients_eq_passed hscan
      have hsame := @clearIntervals_of_notMem _ addreq node address mask i _ hnotCleared
      refine Or.inr ⟨_, rfl, edits_clearIntervals fun j hj hne other mtype hgranted => ?_,
        fun j hj => ?_, fun hnone => ?_, fun j place hj => ?_, fun hnone j hj => ?_⟩
      · have hcleared := ((hmiddle j).mp hj).resolve_left fun hji => hne (hji ▸ rfl)
        rw [clearIntervals, if_pos hcleared]
        exact not_contracted_clearStale hcompares hgranted
      · obtain rfl := Option.some.inj hj
        exact ⟨hmem, hperiod⟩
      · cases hnone
      · obtain ⟨place', hclient, hpair⟩ := Option.map_eq_some_iff.mp hj
        obtain ⟨rfl, rfl⟩ := Prod.mk.inj hpair
        rcases hscanned with ⟨rfl, -⟩ | ⟨offset, ctmp, rfl, hctmp, haddress⟩
        · cases hclient
        · obtain rfl := Option.some.inj hclient
          exact ⟨rfl, ctmp, by simpa only [hsame, Nat.zero_add] using hctmp, haddress⟩
      · obtain rfl := Option.some.inj hj
        rcases hscanned with ⟨-, habsent⟩ | ⟨offset, ctmp, rfl, -⟩
        · simpa only [hsame] using habsent
        · cases hnone

/-! ## Cancels -/

/-- A cancellation edits the clients of the intervals. -/
theorem edits_removeFromIntervals :
    Edits addreq nothing none intervals node
      (removeFromIntervals addreq address mask intervals' node) := by
  induction intervals' with
  | nil => exact Edits.refl
  | cons first rest ih =>
    rw [removeFromIntervals]
    cases hremove : removeContract addreq address mask (node first).clients with
    | none => exact ih
    | some clients =>
      exact Edits.setClients Edits.refl (Or.inl (edited_removeContract hremove))

end

end LinuxPtp.Unicast
