import LinuxPtp.Filter.Average

/-!
# The moving median

`struct mmedian` of `ptpTimestampProc.c`: the cells of a circular buffer, and their
indices in the order of the values.  A sample takes the index of the cell written over
out of the order and puts it in again where its new value belongs.
-/

namespace LinuxPtp.Filter

open Ring

def tmvCmp (a b : Int64) : ℤ :=
  if a = b then 0 else if b < a then 1 else -1

theorem tmvCmp_nonpos_iff (a b : Int64) : tmvCmp a b ≤ 0 ↔ a.toInt ≤ b.toInt := by
  simp only [tmvCmp, Int64.lt_iff_toInt_lt, ← Int64.toInt_inj]
  split
  · omega
  · split <;> omega

/-- `struct mmedian`; `order` and `samples` are its arrays of `len` entries. -/
structure Mmedian where
  cnt : ℕ
  len : ℕ
  index : ℕ
  order : ℕ → ℕ
  samples : ℕ → Int64

/-! ## The loops over the order -/

/-- The place of an index in the order, from place `i` on: the first of `left` places
that has it, or else the one after them. -/
def findIndex (order : ℕ → ℕ) (index i : ℕ) : ℕ → ℕ
  | 0 => i
  | left + 1 => if order i = index then i else findIndex order index (i + 1) left

/-- Moves each of the `left` entries after place `i` one place down. -/
def closeGap (order : ℕ → ℕ) (i : ℕ) : ℕ → ℕ → ℕ
  | 0 => order
  | left + 1 => closeGap (Function.update order i (order (i + 1))) (i + 1) left

/-- Moves the entries below place `i` up as long as their value is greater than that of
`index`, and writes `index` below them. -/
def insertIndex (samples : ℕ → Int64) (index : ℕ) (order : ℕ → ℕ) : ℕ → ℕ → ℕ
  | 0 => Function.update order 0 index
  | i + 1 =>
      if tmvCmp (samples (order i)) (samples index) ≤ 0 then
        Function.update order (i + 1) index
      else insertIndex samples index (Function.update order (i + 1) (order i)) i

def mmedianSample (m : Mmedian) (sample : Int64) : Int64 × Mmedian :=
  let samples := Function.update m.samples m.index sample
  let cnt := if m.cnt < m.len then m.cnt + 1 else m.cnt
  let removed :=
    if m.cnt < m.len then m.order
    else
      let i := findIndex m.order m.index 0 m.cnt
      closeGap m.order i (m.cnt - 1 - i)
  let order := insertIndex samples m.index removed (cnt - 1)
  (if cnt % 2 = 1 then samples (order (cnt / 2))
    else tmvDiv (samples (order (cnt / 2 - 1)) + samples (order (cnt / 2))) 2,
    { m with
      cnt := cnt
      index := (1 + m.index) % m.len
      order := order
      samples := samples })

def mmedianReset (m : Mmedian) : Mmedian :=
  { m with cnt := 0, index := 0 }

/-- `_mmedianCreate`, with the memory for it. -/
def mmedianCreate (length : Int32) : Option Mmedian :=
  if length < 1 then none
  else some ⟨0, length.toInt.toNat, 0, fun _ => 0, fun _ => 0⟩

def mmedian : PtpFilter Mmedian where
  sample := mmedianSample
  reset := mmedianReset

/-! ## What the loops do -/

def entries {α : Type} (array : ℕ → α) (cnt : ℕ) : List α :=
  (List.range cnt).map array

@[simp]
theorem length_entries {α : Type} (array : ℕ → α) (cnt : ℕ) :
    (entries array cnt).length = cnt := by
  rw [entries, List.length_map, List.length_range]

@[simp]
theorem getElem_entries {α : Type} (array : ℕ → α) (cnt i : ℕ)
    (hi : i < (entries array cnt).length) : (entries array cnt)[i] = array i := by
  simp [entries]

theorem findIndex_eq_add_idxOf (order : ℕ → ℕ) (index i left : ℕ) :
    findIndex order index i left =
      i + ((List.range' i left).map order).idxOf index := by
  induction left generalizing i with
  | zero => rfl
  | succ left ih =>
    rw [findIndex, List.range'_succ, List.map_cons, List.idxOf_cons]
    by_cases hhere : order i = index
    · rw [if_pos hhere, hhere, beq_self_eq_true, cond_true, Nat.add_zero]
    · rw [if_neg hhere, ih, beq_false_of_ne hhere, cond_false]
      omega

theorem closeGap_apply (order : ℕ → ℕ) (i left j : ℕ) :
    closeGap order i left j =
      if i ≤ j ∧ j < i + left then order (j + 1) else order j := by
  induction left generalizing order i with
  | zero =>
    rw [closeGap, if_neg (by omega)]
  | succ left ih =>
    rw [closeGap, ih]
    rcases Nat.lt_trichotomy j i with hbelow | rfl | habove
    · rw [if_neg (by omega), if_neg (by omega), Function.update_of_ne hbelow.ne]
    · rw [if_neg (by omega), if_pos (by omega), Function.update_self]
    · rw [Function.update_of_ne habove.ne', Function.update_of_ne (by omega)]
      exact if_congr (by omega) rfl rfl

/-- The gap closed, the entries are those before without the one at the gap. -/
theorem entries_closeGap (order : ℕ → ℕ) {i cnt : ℕ} (hi : i < cnt) :
    entries (closeGap order i (cnt - 1 - i)) (cnt - 1) =
      (entries order cnt).eraseIdx i := by
  refine List.ext_getElem ?_ fun j hj _ => ?_
  · rw [List.length_eraseIdx, length_entries, length_entries, if_pos hi]
  · rw [length_entries] at hj
    rw [getElem_entries, closeGap_apply, List.getElem_eraseIdx]
    split <;> split <;> first | omega | simp

/-- The loop that looks for an index and the one that closes the gap erase it. -/
theorem entries_removed (order : ℕ → ℕ) {index cnt : ℕ}
    (hmem : index ∈ entries order cnt) :
    entries (closeGap order (findIndex order index 0 cnt)
        (cnt - 1 - findIndex order index 0 cnt)) (cnt - 1) =
      (entries order cnt).erase index := by
  have hplace : findIndex order index 0 cnt = (entries order cnt).idxOf index := by
    rw [findIndex_eq_add_idxOf, Nat.zero_add, ← List.range_eq_range']
    rfl
  have hlt : findIndex order index 0 cnt < cnt := by
    have := List.idxOf_lt_length_of_mem hmem
    rwa [length_entries, ← hplace] at this
  rw [entries_closeGap order hlt, hplace, List.erase_eq_eraseIdx_of_idxOf rfl]

theorem entries_succ {α : Type} (array : ℕ → α) (cnt : ℕ) :
    entries array (cnt + 1) = entries array cnt ++ [array cnt] := by
  rw [entries, List.range_succ, List.map_append]
  rfl

theorem entries_update {α : Type} (array : ℕ → α) {cnt i : ℕ} (hi : cnt ≤ i)
    (value : α) : entries (Function.update array i value) cnt = entries array cnt :=
  List.map_congr_left fun _ hj =>
    Function.update_of_ne ((List.mem_range.mp hj).trans_le hi).ne _ _

theorem insertIndex_above (samples : ℕ → Int64) (index : ℕ) (order : ℕ → ℕ) {i j : ℕ}
    (hj : i < j) : insertIndex samples index order i j = order j := by
  induction i generalizing order with
  | zero => exact Function.update_of_ne hj.ne' _ _
  | succ i ih =>
    rw [insertIndex]
    split
    · exact Function.update_of_ne hj.ne' _ _
    · rw [ih _ (by omega), Function.update_of_ne hj.ne']

def Sorted (samples : ℕ → Int64) (indices : List ℕ) : Prop :=
  indices.Pairwise fun i j => (samples i).toInt ≤ (samples j).toInt

/-- The index goes above the values that are not greater, and below those that are. -/
theorem entries_insertIndex (samples : ℕ → Int64) (index : ℕ) (order : ℕ → ℕ) (i : ℕ)
    (hsorted : Sorted samples (entries order i)) :
    ∃ below above,
      entries order i = below ++ above ∧
      entries (insertIndex samples index order i) (i + 1) = below ++ index :: above ∧
      (∀ j ∈ below, (samples j).toInt ≤ (samples index).toInt) ∧
      ∀ j ∈ above, (samples index).toInt < (samples j).toInt := by
  induction i generalizing order with
  | zero =>
    refine ⟨[], [], rfl, ?_, List.forall_mem_nil _, List.forall_mem_nil _⟩
    rw [entries_succ, insertIndex, Function.update_self]
    rfl
  | succ i ih =>
    rw [entries_succ, Sorted, List.pairwise_append] at hsorted
    obtain ⟨hfirst, -, hlast⟩ := hsorted
    rw [insertIndex]
    split
    case isTrue hle =>
      rw [tmvCmp_nonpos_iff] at hle
      refine ⟨entries order (i + 1), [], (List.append_nil _).symm, ?_, fun j hj => ?_,
        List.forall_mem_nil _⟩
      · rw [entries_succ, entries_update _ le_rfl, Function.update_self]
      · rw [entries_succ, List.mem_append, List.mem_singleton] at hj
        rcases hj with hj | rfl
        · exact (hlast j hj _ (List.mem_singleton_self _)).trans hle
        · exact hle
    case isFalse hgt =>
      rw [tmvCmp_nonpos_iff, not_le] at hgt
      have hkept := entries_update order (Nat.le_succ i) (order i)
      obtain ⟨below, above, hbefore, hafter, hless, hgreater⟩ :=
        ih (Function.update order (i + 1) (order i)) (by rwa [hkept])
      refine ⟨below, above ++ [order i], ?_, ?_, hless, fun j hj => ?_⟩
      · rw [entries_succ, ← hkept, hbefore, List.append_assoc]
      · rw [entries_succ, hafter, insertIndex_above _ _ _ (Nat.lt_succ_self i),
          Function.update_self, List.append_assoc]
        rfl
      · rw [List.mem_append, List.mem_singleton] at hj
        rcases hj with hj | rfl
        · exact hgreater j hj
        · exact hgt

/-- The loop that puts an index in keeps the order of the values. -/
theorem sorted_insertIndex {samples : ℕ → Int64} {order : ℕ → ℕ} {i : ℕ} (index : ℕ)
    (hsorted : Sorted samples (entries order i)) :
    Sorted samples (entries (insertIndex samples index order i) (i + 1)) ∧
      (entries (insertIndex samples index order i) (i + 1)).Perm
        (index :: entries order i) := by
  obtain ⟨below, above, hbefore, hafter, hless, hgreater⟩ :=
    entries_insertIndex samples index order i hsorted
  rw [hbefore, Sorted, List.pairwise_append] at hsorted
  obtain ⟨hbelow, habove, hacross⟩ := hsorted
  rw [hafter, hbefore]
  refine ⟨?_, List.perm_middle⟩
  rw [Sorted, List.pairwise_append, List.pairwise_cons]
  refine ⟨hbelow, ⟨fun j hj => (hgreater j hj).le, habove⟩, fun j hj k hk => ?_⟩
  rcases List.mem_cons.mp hk with rfl | hk
  · exact hless j hj
  · exact hacross j hj k hk

/-! ## What the filter has of the samples -/

/-- The filter after the samples of a history. -/
structure Mmedian.Has (m : Mmedian) (history : List Int64) : Prop where
  len_pos : 0 < m.len
  cnt_eq : m.cnt = min history.length m.len
  index_eq : m.index = history.length % m.len
  held : Holds m.samples m.len history
  perm : (entries m.order m.cnt).Perm (List.range m.cnt)
  sorted : Sorted m.samples (entries m.order m.cnt)

/-- The order with the index of the cell taken out, before the new sample's is put in:
`removed` of `mmedianSample`. -/
def Mmedian.removed (m : Mmedian) : ℕ → ℕ :=
  if m.cnt < m.len then m.order
  else
    let i := findIndex m.order m.index 0 m.cnt
    closeGap m.order i (m.cnt - 1 - i)

/-- With the cell's index out, the order has every other filled cell. -/
theorem Mmedian.Has.removed_spec {m : Mmedian} {history : List Int64}
    (hhas : m.Has history) :
    let left := min (history.length + 1) m.len - 1
    (m.index :: entries m.removed left).Perm (List.range (left + 1)) ∧
      Sorted m.samples (entries m.removed left) := by
  have hcnt := hhas.cnt_eq
  have hpos := hhas.len_pos
  have hindex := hhas.index_eq
  rcases Nat.lt_or_ge history.length m.len with hfew | hfull
  · have hleft : min (history.length + 1) m.len - 1 = m.cnt := by omega
    rw [Nat.mod_eq_of_lt hfew] at hindex
    have hall : m.cnt = m.index := by omega
    rw [hleft, Mmedian.removed, if_pos (by omega)]
    refine ⟨?_, hhas.sorted⟩
    rw [List.range_succ, ← hall]
    exact (hhas.perm.cons _).trans (List.perm_append_singleton _ _).symm
  · have hleft : min (history.length + 1) m.len - 1 = m.cnt - 1 := by omega
    have hmem : m.index ∈ List.range m.cnt := by
      rw [List.mem_range]
      have := Nat.mod_lt history.length hpos
      omega
    rw [hleft, Mmedian.removed, if_neg (by omega)]
    dsimp only
    rw [entries_removed m.order (hhas.perm.mem_iff.mpr hmem),
      Nat.sub_add_cancel (by omega)]
    constructor
    · exact (List.perm_cons_erase (hhas.perm.mem_iff.mpr hmem)).symm.trans hhas.perm
    · exact hhas.sorted.sublist List.erase_sublist

theorem sorted_update {samples : ℕ → Int64} {indices : List ℕ} {index : ℕ}
    (hnot : index ∉ indices) (value : Int64) (hsorted : Sorted samples indices) :
    Sorted (Function.update samples index value) indices := by
  refine hsorted.imp_of_mem fun {i j} hi hj hle => ?_
  rw [Function.update_of_ne (ne_of_mem_of_not_mem hi hnot),
    Function.update_of_ne (ne_of_mem_of_not_mem hj hnot)]
  exact hle

theorem mmedianSample_has {m : Mmedian} {history : List Int64} (hhas : m.Has history)
    (sample : Int64) : (mmedianSample m sample).2.Has (history ++ [sample]) := by
  have hcnt : (if m.cnt < m.len then m.cnt + 1 else m.cnt) =
      min (history.length + 1) m.len := by
    have := hhas.cnt_eq
    split <;> omega
  have hpos := hhas.len_pos
  obtain ⟨hperm, hsorted⟩ := hhas.removed_spec
  have hnot : m.index ∉ entries m.removed (min (history.length + 1) m.len - 1) :=
    (List.nodup_cons.mp (hperm.nodup_iff.mpr List.nodup_range)).1
  obtain ⟨hnewSorted, hnewPerm⟩ :=
    sorted_insertIndex m.index (sorted_update hnot sample hsorted)
  rw [Nat.sub_add_cancel (by omega)] at hperm hnewSorted hnewPerm
  have hfilter : (mmedianSample m sample).2 =
      ⟨min (history.length + 1) m.len, m.len, (1 + m.index) % m.len,
        insertIndex (Function.update m.samples m.index sample) m.index m.removed
          (min (history.length + 1) m.len - 1),
        Function.update m.samples m.index sample⟩ := by
    simp only [mmedianSample, hcnt]
    rfl
  rw [hfilter]
  exact {
    len_pos := hpos
    cnt_eq := by rw [List.length_append, List.length_singleton]
    index_eq := by
      rw [List.length_append, List.length_singleton, hhas.index_eq, Nat.add_mod_mod,
        Nat.add_comm]
    held := by
      rw [hhas.index_eq]
      exact hhas.held.concat sample
    perm := hnewPerm.trans hperm
    sorted := hnewSorted }

theorem mmedianReset_has {m : Mmedian} {history : List Int64} (hhas : m.Has history) :
    (mmedianReset m).Has [] where
  len_pos := hhas.len_pos
  cnt_eq := by simp [mmedianReset]
  index_eq := by simp [mmedianReset]
  held := holds_nil _ _
  perm := .refl _
  sorted := .nil

theorem mmedianCreate_some {length : Int32} (hlength : 1 ≤ length) :
    ∃ m, mmedianCreate length = some m := by
  rw [mmedianCreate, if_neg (Int32.not_lt.mpr hlength)]
  exact ⟨_, rfl⟩

theorem mmedianCreate_has {length : Int32} {m : Mmedian}
    (hcreate : mmedianCreate length = some m) :
    m.Has [] ∧ m.len = length.toInt.toNat := by
  rw [mmedianCreate] at hcreate
  split at hcreate
  case isTrue => exact nomatch hcreate
  case isFalse hlength =>
    rw [Int32.lt_iff_toInt_lt, show (1 : Int32).toInt = 1 from rfl] at hlength
    obtain rfl := Option.some.inj hcreate
    refine ⟨⟨?_, ?_, ?_, holds_nil _ _, .refl _, .nil⟩, rfl⟩
    · change 0 < length.toInt.toNat
      omega
    · simp
    · simp

theorem mmedian_run_has {length : Int32} {m : Mmedian}
    (hcreate : mmedianCreate length = some m) (calls : List Call) :
    (mmedian.run m calls).Has (sinceReset calls) :=
  @PtpFilter.run_keeps _ mmedian Mmedian.Has
    (fun _ _ sample hhas => mmedianSample_has hhas sample)
    (fun _ _ hhas => mmedianReset_has hhas) _ (mmedianCreate_has hcreate).1 calls

theorem mmedian_run_len (m : Mmedian) (calls : List Call) :
    (mmedian.run m calls).len = m.len := by
  induction calls using List.reverseRecOn with
  | nil => rfl
  | append_singleton calls last ih =>
    rw [PtpFilter.run, List.foldl_append]
    cases last <;> exact ih

/-! ## The median of the window -/

/-- The median of whole numbers: the middle one, or the mean of the two in the middle,
cut off towards zero. -/
def median (values : List ℤ) : ℤ :=
  let sorted := values.insertionSort (· ≤ ·)
  if values.length % 2 = 1 then sorted.getD (values.length / 2) 0
  else truncatedMean
    [sorted.getD (values.length / 2 - 1) 0, sorted.getD (values.length / 2) 0]

/-- What `__mmedianSample` returns, of the filter it leaves. -/
def Mmedian.middle (m : Mmedian) : Int64 :=
  if m.cnt % 2 = 1 then m.samples (m.order (m.cnt / 2))
  else tmvDiv (m.samples (m.order (m.cnt / 2 - 1)) + m.samples (m.order (m.cnt / 2))) 2

/-- The samples in the order kept are the window, sorted. -/
theorem Mmedian.Has.values_eq {m : Mmedian} {history : List Int64}
    (hhas : m.Has history) :
    (entries m.order m.cnt).map (fun i => (m.samples i).toInt) =
      ((window m.len history).map Int64.toInt).insertionSort (· ≤ ·) := by
  have hcells := hhas.held.perm
  rw [← hhas.cnt_eq] at hcells
  have hwindow : ((entries m.order m.cnt).map (fun i => (m.samples i).toInt)).Perm
      ((window m.len history).map Int64.toInt) := by
    have hvalues := (hhas.perm.map m.samples).trans hcells
    have hints := hvalues.map Int64.toInt
    rwa [List.map_map] at hints
  refine List.Perm.eq_of_pairwise' ?_ (List.pairwise_insertionSort (· ≤ ·) _)
    (hwindow.trans (List.perm_insertionSort _ _).symm)
  exact List.pairwise_map.mpr hhas.sorted

/-- The sample in a place of the order. -/
theorem Mmedian.Has.value_eq {m : Mmedian} {history : List Int64}
    (hhas : m.Has history) {i : ℕ} (hi : i < m.cnt) :
    (((window m.len history).map Int64.toInt).insertionSort (· ≤ ·)).getD i 0 =
      (m.samples (m.order i)).toInt := by
  rw [← hhas.values_eq, List.getD_eq_getElem _ _ (by rwa [List.length_map, length_entries]),
    List.getElem_map, getElem_entries]

/-- Numbers any two of which have a 64-bit sum. -/
def PairsFit (values : List ℤ) : Prop :=
  values.Pairwise fun a b => FitsInt64 (a + b)

instance (values : List ℤ) : Decidable (PairsFit values) :=
  inferInstanceAs (Decidable (List.Pairwise _ _))

theorem Mmedian.Has.middle_eq {m : Mmedian} {history : List Int64}
    (hhas : m.Has history) (hsome : history ≠ [])
    (hfits : m.cnt % 2 = 0 → PairsFit ((window m.len history).map Int64.toInt)) :
    m.middle.toInt = median ((window m.len history).map Int64.toInt) := by
  have hlength : ((window m.len history).map Int64.toInt).length = m.cnt := by
    rw [List.length_map, length_window, hhas.cnt_eq]
  have hpos : 0 < m.cnt := by
    have := List.length_pos_of_ne_nil hsome
    have := hhas.len_pos
    have := hhas.cnt_eq
    omega
  simp only [Mmedian.middle, median, hlength]
  by_cases hodd : m.cnt % 2 = 1
  · rw [if_pos hodd, if_pos hodd, hhas.value_eq (by omega)]
  · have hsum : FitsInt64 ((m.samples (m.order (m.cnt / 2 - 1))).toInt +
        (m.samples (m.order (m.cnt / 2))).toInt) := by
      have hsorted : PairsFit
          (((window m.len history).map Int64.toInt).insertionSort (· ≤ ·)) := by
        refine (List.Perm.pairwise_iff ?_ (List.perm_insertionSort _ _)).mpr
          (hfits (by omega))
        intro a b hab
        rwa [add_comm]
      rw [← hhas.values_eq, PairsFit, List.pairwise_map, List.pairwise_iff_getElem]
        at hsorted
      have hpair := hsorted (m.cnt / 2 - 1) (m.cnt / 2)
        (by rw [length_entries]; omega) (by rw [length_entries]; omega) (by omega)
      rwa [getElem_entries, getElem_entries] at hpair
    rw [if_neg hodd, if_neg hodd, hhas.value_eq (by omega), hhas.value_eq (by omega),
      toInt_tmvDiv _ (by decide), toInt_add hsum, truncatedMean]
    simp

/-- After any samples and resets, the order has each filled cell once, in the order of
the values, and a sample returns the median of the last samples since the last reset,
where the sums of two of them are 64-bit numbers. -/
theorem mmedian_median {length : Int32} (hlength : 1 ≤ length) :
    ∃ m, mmedianCreate length = some m ∧ ∀ (calls : List Call) (sample : Int64),
      ((entries (mmedian.run m calls).order (mmedian.run m calls).cnt).Perm
          (List.range (mmedian.run m calls).cnt) ∧
        Sorted (mmedian.run m calls).samples
          (entries (mmedian.run m calls).order (mmedian.run m calls).cnt)) ∧
      (((window length.toInt.toNat (sinceReset calls ++ [sample])).length % 2 = 0 →
          PairsFit ((window length.toInt.toNat
            (sinceReset calls ++ [sample])).map Int64.toInt)) →
        (mmedian.sample (mmedian.run m calls) sample).1.toInt =
          median ((window length.toInt.toNat
            (sinceReset calls ++ [sample])).map Int64.toInt)) := by
  obtain ⟨m, hcreate⟩ := mmedianCreate_some hlength
  refine ⟨m, hcreate, fun calls sample => ?_⟩
  have hhas := mmedian_run_has hcreate calls
  have hlen : (mmedian.run m calls).len = length.toInt.toNat :=
    (mmedian_run_len m calls).trans (mmedianCreate_has hcreate).2
  have hnext := mmedianSample_has hhas sample
  refine ⟨⟨hhas.perm, hhas.sorted⟩, fun hfits => ?_⟩
  rw [← hlen, length_window] at hfits
  rw [← hlen]
  refine hnext.middle_eq (by simp) fun heven => hfits ?_
  have hcnt := hnext.cnt_eq
  rw [hcnt] at heven
  exact heven

/-- Two cells, a reset on the way, and a value written over. -/
theorem mmedian_median_wrapped :
    ∃ m, mmedianCreate 2 = some m ∧
      (mmedian.sample (mmedian.run m
        [.sample 9, .reset, .sample 5, .sample (-8)]) 3).1.toInt = -2 := by
  obtain ⟨m, hcreate, hmedian⟩ := @mmedian_median 2 (by decide)
  refine ⟨m, hcreate, ?_⟩
  exact ((hmedian [.sample 9, .reset, .sample 5, .sample (-8)] 3).2
    fun _ => by decide).trans (by decide)

end LinuxPtp.Filter
