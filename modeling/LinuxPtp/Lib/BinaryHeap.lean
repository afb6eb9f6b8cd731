import Mathlib

/-!
# Binary heaps in an array

The entries of an array before a length, each at most the one at its parent's index.  An
insertion moves a hole from the end towards the root, a removal lets the last entry sink
from the root.  Either restores the order and keeps the entries.
-/

namespace BinaryHeap

open Function

variable {α : Type*}

def parent (index : ℕ) : ℕ := (1 + index) / 2 - 1

def left (index : ℕ) : ℕ := 2 * (1 + index) - 1

def right (index : ℕ) : ℕ := 2 * (1 + index)

theorem parent_lt {index : ℕ} (hpos : 0 < index) : parent index < index := by
  unfold parent
  omega

/-- The children of an index are its left and its right. -/
theorem parent_eq_iff {child index : ℕ} (hpos : 0 < child) :
    parent child = index ↔ child = left index ∨ child = right index := by
  unfold parent left right
  omega

/-- The entries before the length. -/
def contents (data : ℕ → α) (length : ℕ) : Multiset α :=
  (Multiset.range length).map data

section

variable {data data' : ℕ → α} {length i j : ℕ} {entry : α}

theorem contents_congr (hsame : ∀ index < length, data index = data' index) :
    contents data length = contents data' length :=
  Multiset.map_congr rfl fun index hindex => hsame index (Multiset.mem_range.mp hindex)

theorem contents_succ : contents data (length + 1) = data length ::ₘ contents data length := by
  rw [contents, Multiset.range_succ, Multiset.map_cons, contents]

theorem mem_contents : entry ∈ contents data length ↔ ∃ index < length, data index = entry := by
  simp [contents]

/-- Entries behind the length do not count. -/
theorem contents_update_of_le (hle : length ≤ i) :
    contents (update data i entry) length = contents data length :=
  contents_congr fun index hindex => update_of_ne (by omega) _ _

theorem swap_lt {index : ℕ} (hi : i < length) (hj : j < length) (hindex : index < length) :
    Equiv.swap i j index < length := by
  rw [Equiv.swap_apply_def]
  split_ifs <;> assumption

/-- Exchanging two entries keeps them all. -/
theorem contents_swap (hi : i < length) (hj : j < length) :
    contents (data ∘ Equiv.swap i j) length = contents data length := by
  have hnodup : ((Multiset.range length).map (Equiv.swap i j)).Nodup :=
    (Multiset.nodup_map_iff_of_injective (Equiv.swap i j).injective).mpr
      (Multiset.nodup_range length)
  have hrange : (Multiset.range length).map (Equiv.swap i j) = Multiset.range length := by
    refine (Multiset.Nodup.ext hnodup (Multiset.nodup_range length)).mpr fun index => ?_
    simp only [Multiset.mem_map, Multiset.mem_range]
    constructor
    · rintro ⟨source, hsource, rfl⟩
      exact swap_lt hi hj hsource
    · intro hindex
      exact ⟨Equiv.swap i j index, swap_lt hi hj hindex, Equiv.swap_apply_self i j index⟩
  rw [contents, ← Multiset.map_map, hrange, contents]

/-- Two writes that exchange two entries. -/
theorem update_update_eq_swap :
    update (update data i (data j)) j (data i) = data ∘ Equiv.swap i j := by
  funext index
  by_cases hj : index = j
  · rw [hj, update_self, comp_apply, Equiv.swap_apply_right]
  rw [update_of_ne hj]
  by_cases hi : index = i
  · rw [hi, update_self, comp_apply, Equiv.swap_apply_left]
  · rw [update_of_ne hi, comp_apply, Equiv.swap_apply_of_ne_of_ne hi hj]

end

/-! ## The two directions -/

section Sift

variable (le : α → α → Prop) [DecidableRel le]

/-- Move the hole at the index towards the root as long as the entry belongs higher, and
put the entry there. -/
def siftUp (data : ℕ → α) (index : ℕ) (entry : α) : ℕ → α :=
  if 0 < index ∧ ¬le entry (data (parent index)) then
    siftUp (update data index (data (parent index))) (parent index) entry
  else update data index entry
termination_by index
decreasing_by exact parent_lt (by tauto)

def greater (data : ℕ → α) (length other index : ℕ) : ℕ :=
  if other < length ∧ ¬le (data other) (data index) then other else index

def greatest (data : ℕ → α) (length index : ℕ) : ℕ :=
  greater le data length (right index) (greater le data length (left index) index)

/-- The greatest of three is one of them. -/
theorem greatest_cases (data : ℕ → α) (length index : ℕ) :
    greatest le data length index = index ∨
      (greatest le data length index = left index ∨
        greatest le data length index = right index) ∧
        greatest le data length index < length := by
  unfold greatest greater
  split_ifs <;> tauto

theorem index_lt_greatest {data : ℕ → α} {length index : ℕ}
    (hne : greatest le data length index ≠ index) :
    index < greatest le data length index ∧ greatest le data length index < length := by
  have hcases := greatest_cases le data length index
  unfold left right at hcases
  omega

/-- Let the entry at the index sink as long as a child is greater. -/
def siftDown (data : ℕ → α) (length index : ℕ) : ℕ → α :=
  let child := greatest le data length index
  if child = index then data
  else siftDown (data ∘ Equiv.swap index child) length child
termination_by length - index
decreasing_by
  have := index_lt_greatest le ‹_›
  omega

/-! ## The order -/

variable {le} {data : ℕ → α} {length index : ℕ} {entry : α}

/-- Below the root every entry is at most its parent. -/
def Ordered (le : α → α → Prop) (data : ℕ → α) (length : ℕ) : Prop :=
  ∀ child < length, 0 < child → le (data child) (data (parent child))

/-- The order with a hole at the index, where the entry may stand but for its parent. -/
structure OrderedBelow (le : α → α → Prop) (data : ℕ → α) (length index : ℕ) (entry : α) :
    Prop where
  others : ∀ child < length, 0 < child → child ≠ index → parent child ≠ index →
    le (data child) (data (parent child))
  children : ∀ child < length, 0 < child → parent child = index → le (data child) entry
  across : 0 < index → ∀ child < length, 0 < child → parent child = index →
    le (data child) (data (parent index))

/-- The order except that the entry at the index may be less than its children. -/
structure OrderedAbove (le : α → α → Prop) (data : ℕ → α) (length index : ℕ) : Prop where
  others : ∀ child < length, 0 < child → parent child ≠ index →
    le (data child) (data (parent child))
  across : 0 < index → ∀ child < length, 0 < child → parent child = index →
    le (data child) (data (parent index))

omit [DecidableRel le] in
/-- No entry is greater than the root. -/
theorem Ordered.le_root [Std.Refl le] [IsTrans α le] (hordered : Ordered le data length) :
    ∀ index < length, le (data index) (data 0) := by
  intro index
  induction index using Nat.strongRecOn with
  | ind index ih =>
    intro hindex
    rcases Nat.eq_zero_or_pos index with rfl | hpos
    · exact Std.Refl.refl _
    · have hlt := parent_lt hpos
      exact IsTrans.trans _ _ _ (hordered index hindex hpos) (ih _ hlt (by omega))

/-! ## Towards the root -/

omit [DecidableRel le] in
/-- The hole moves over a parent that is less than the entry. -/
theorem OrderedBelow.up [IsTrans α le] (hbelow : OrderedBelow le data length index entry)
    (hindex : index < length) (hpos : 0 < index) (hle : le (data (parent index)) entry) :
    OrderedBelow le (update data index (data (parent index))) length (parent index)
      entry := by
  have hparent := parent_lt hpos
  have hup : 0 < parent index →
      le (data (parent index)) (data (parent (parent index))) := fun hpos' =>
    hbelow.others _ (by omega) hpos' hparent.ne ((parent_lt hpos').trans hparent).ne
  constructor
  · intro child hchild hcpos hne hpne
    have hci : child ≠ index := fun heq => hpne (heq ▸ rfl)
    rw [update_of_ne hci]
    by_cases hpi : parent child = index
    · rw [hpi, update_self]
      exact hbelow.across hpos child hchild hcpos hpi
    · rw [update_of_ne hpi]
      exact hbelow.others child hchild hcpos hci hpi
  · intro child hchild hcpos hpc
    by_cases hci : child = index
    · rwa [hci, update_self]
    · rw [update_of_ne hci]
      have hsibling := hbelow.others child hchild hcpos hci (by omega)
      rw [hpc] at hsibling
      exact IsTrans.trans _ _ _ hsibling hle
  · intro hpos' child hchild hcpos hpc
    have hlt := parent_lt hpos'
    rw [update_of_ne (show parent (parent index) ≠ index by omega)]
    by_cases hci : child = index
    · rw [hci, update_self]
      exact hup hpos'
    · rw [update_of_ne hci]
      have hsibling := hbelow.others child hchild hcpos hci (by omega)
      rw [hpc] at hsibling
      exact IsTrans.trans _ _ _ hsibling (hup hpos')

omit [DecidableRel le] in
/-- The entry stands where its parent is not less. -/
theorem OrderedBelow.ordered (hbelow : OrderedBelow le data length index entry)
    (hparent : 0 < index → le entry (data (parent index))) :
    Ordered le (update data index entry) length := by
  intro child hchild hcpos
  have hlt := parent_lt hcpos
  by_cases hci : child = index
  · subst hci
    rw [update_self, update_of_ne hlt.ne]
    exact hparent hcpos
  rw [update_of_ne hci]
  by_cases hpi : parent child = index
  · rw [hpi, update_self]
    exact hbelow.children child hchild hcpos hpi
  · rw [update_of_ne hpi]
    exact hbelow.others child hchild hcpos hci hpi

/-- An entry that is sifted up leaves an ordered heap, -/
theorem siftUp_ordered [Std.Total le] [IsTrans α le] (hindex : index < length)
    (hbelow : OrderedBelow le data length index entry) :
    Ordered le (siftUp le data index entry) length := by
  fun_induction siftUp le data index entry with
  | case1 data index hmove ih =>
    obtain ⟨hpos, hless⟩ := hmove
    have hle := (Std.Total.total entry (data (parent index))).resolve_left hless
    exact ih ((parent_lt hpos).trans hindex) (hbelow.up hindex hpos hle)
  | case2 data index hstop =>
    exact hbelow.ordered fun hpos => by tauto

/-- with the same entries. -/
theorem siftUp_contents (hindex : index < length) :
    contents (siftUp le data index entry) length =
      contents (update data index entry) length := by
  fun_induction siftUp le data index entry with
  | case1 data index hmove ih =>
    have hlt := parent_lt hmove.1
    have hexchange : update (update data index (data (parent index))) (parent index) entry =
        update data index entry ∘ Equiv.swap index (parent index) := by
      rw [← update_update_eq_swap, update_idem, update_self, update_of_ne hlt.ne]
    rw [ih (hlt.trans hindex), hexchange, contents_swap hindex (hlt.trans hindex)]
  | case2 => rfl

/-! ## Away from the root -/

theorem le_greater [Std.Total le] {other : ℕ} :
    le (data index) (data (greater le data length other index)) ∧
      (other < length → le (data other) (data (greater le data length other index))) := by
  have hrefl : ∀ entry : α, le entry entry := fun entry => by
    simpa using Std.Total.total (r := le) entry entry
  unfold greater
  split
  case isTrue hgreater =>
    exact ⟨(Std.Total.total _ _).resolve_right hgreater.2, fun _ => hrefl _⟩
  case isFalse hgreater =>
    exact ⟨hrefl _, fun hother => by tauto⟩

/-- The greatest of three is at least as great as each. -/
theorem le_greatest [Std.Total le] [IsTrans α le] :
    le (data index) (data (greatest le data length index)) ∧
      ∀ child < length, 0 < child → parent child = index →
        le (data child) (data (greatest le data length index)) := by
  obtain ⟨hself, hleft⟩ := @le_greater _ le _ data length index _ (left index)
  obtain ⟨hfirst, hright⟩ := @le_greater _ le _ data length
    (greater le data length (left index) index) _ (right index)
  refine ⟨IsTrans.trans _ _ _ hself hfirst, fun child hchild hpos hparent => ?_⟩
  rcases (parent_eq_iff hpos).mp hparent with rfl | rfl
  · exact IsTrans.trans _ _ _ (hleft hchild) hfirst
  · exact hright hchild

omit [DecidableRel le] in
theorem OrderedAbove.ordered (habove : OrderedAbove le data length index)
    (hchildren : ∀ child < length, 0 < child → parent child = index →
      le (data child) (data index)) :
    Ordered le data length := by
  intro child hchild hpos
  by_cases hparent : parent child = index
  · rw [hparent]
    exact hchildren child hchild hpos hparent
  · exact habove.others child hchild hpos hparent

omit [DecidableRel le] in
/-- The entry sinks below a child that is at least the entry and the other child. -/
theorem OrderedAbove.down (habove : OrderedAbove le data length index) {child : ℕ}
    (hchild : child < length) (hpos : 0 < child) (hparent : parent child = index)
    (hself : le (data index) (data child))
    (hchildren : ∀ other < length, 0 < other → parent other = index →
      le (data other) (data child)) :
    OrderedAbove le (data ∘ Equiv.swap index child) length child := by
  have hlt : index < child := hparent ▸ parent_lt hpos
  have hhigh : (data ∘ Equiv.swap index child) index = data child := by
    rw [comp_apply, Equiv.swap_apply_left]
  have hlow : (data ∘ Equiv.swap index child) child = data index := by
    rw [comp_apply, Equiv.swap_apply_right]
  have hother : ∀ i, i ≠ index → i ≠ child → (data ∘ Equiv.swap index child) i = data i :=
    fun i hi hc => by rw [comp_apply, Equiv.swap_apply_of_ne_of_ne hi hc]
  constructor
  · intro i hi hipos hne
    have hpi := parent_lt hipos
    by_cases hic : i = child
    · rw [hic, hparent, hlow, hhigh]
      exact hself
    by_cases hii : i = index
    · subst hii
      rw [hhigh, hother _ (by omega) (by omega)]
      exact habove.across hipos child hchild hpos hparent
    by_cases hpii : parent i = index
    · rw [hpii, hhigh, hother _ hii hic]
      exact hchildren i hi hipos hpii
    · rw [hother _ hii hic, hother _ hpii hne]
      exact habove.others i hi hipos hpii
  · intro _ i hi hipos hpi
    have hpi' := parent_lt hipos
    rw [hparent, hhigh, hother _ (by omega) (by omega), ← hpi]
    exact habove.others i hi hipos (by omega)

/-- The greatest of the entry and its children is a child unless it is the entry. -/
theorem greatest_child (hne : greatest le data length index ≠ index) :
    greatest le data length index < length ∧ 0 < greatest le data length index ∧
      parent (greatest le data length index) = index := by
  obtain ⟨hlt, hlength⟩ := index_lt_greatest le hne
  have hpos : 0 < greatest le data length index := by omega
  obtain heq | ⟨hchild, -⟩ := greatest_cases le data length index
  · exact absurd heq hne
  · exact ⟨hlength, hpos, (parent_eq_iff hpos).mpr hchild⟩

/-- An entry that is sifted down leaves an ordered heap, -/
theorem siftDown_ordered [Std.Total le] [IsTrans α le]
    (habove : OrderedAbove le data length index) :
    Ordered le (siftDown le data length index) length := by
  fun_induction siftDown le data length index with
  | case1 data index child hstop =>
    obtain ⟨-, hchildren⟩ := @le_greatest _ le _ data length index _ _
    rw [show greatest le data length index = index from hstop] at hchildren
    exact habove.ordered hchildren
  | case2 data index child hmove ih =>
    obtain ⟨hself, hchildren⟩ := @le_greatest _ le _ data length index _ _
    obtain ⟨hlength, hpos, hparent⟩ := greatest_child hmove
    exact ih (habove.down hlength hpos hparent hself hchildren)

/-- with the same entries as before. -/
theorem siftDown_contents (hindex : index < length) :
    contents (siftDown le data length index) length = contents data length := by
  fun_induction siftDown le data length index with
  | case1 => rfl
  | case2 data index child hmove ih =>
    obtain ⟨hlength, -⟩ := greatest_child hmove
    rw [ih hlength, contents_swap hindex hlength]

/-! ## The two operations -/

section Operations

variable [Std.Total le] [IsTrans α le]

/-- Insertion at the end. -/
theorem insert_spec (hordered : Ordered le data length) :
    Ordered le (siftUp le data length entry) (length + 1) ∧
      contents (siftUp le data length entry) (length + 1) =
        entry ::ₘ contents data length := by
  have hnone : ∀ child < length + 1, 0 < child → parent child ≠ length := by
    intro child hchild hpos
    have := parent_lt hpos
    omega
  refine ⟨siftUp_ordered (by omega) ⟨?_, ?_, ?_⟩, ?_⟩
  · intro child hchild hpos hne _
    exact hordered child (by omega) hpos
  · intro child hchild hpos hparent
    exact absurd hparent (hnone child hchild hpos)
  · intro _ child hchild hpos hparent
    exact absurd hparent (hnone child hchild hpos)
  · rw [siftUp_contents (by omega), contents_succ, update_self, contents_update_of_le le_rfl]

/-- Removal of the root, for which the last entry comes. -/
theorem remove_spec (hordered : Ordered le data (length + 1)) :
    Ordered le (siftDown le (update data 0 (data length)) length 0) length ∧
      data 0 ::ₘ contents (siftDown le (update data 0 (data length)) length 0) length =
        contents data (length + 1) := by
  have habove : OrderedAbove le (update data 0 (data length)) length 0 := by
    refine ⟨fun child hchild hpos hparent => ?_, fun hzero => absurd hzero (by omega)⟩
    rw [update_of_ne hpos.ne', update_of_ne hparent]
    exact hordered child (by omega) hpos
  refine ⟨siftDown_ordered habove, ?_⟩
  rcases Nat.eq_zero_or_pos length with rfl | hpos
  · simp [contents]
  · have hexchange : contents (update data 0 (data length)) length =
        contents (data ∘ Equiv.swap 0 length) length := by
      refine contents_congr fun index hindex => ?_
      rw [← update_update_eq_swap, update_of_ne (show index ≠ length by omega)]
    have hlast : (data ∘ Equiv.swap 0 length) length = data 0 := by
      rw [comp_apply, Equiv.swap_apply_right]
    rw [siftDown_contents hpos, hexchange, ← hlast, ← contents_succ,
      contents_swap (by omega) (by omega)]

end Operations

end Sift

end BinaryHeap
