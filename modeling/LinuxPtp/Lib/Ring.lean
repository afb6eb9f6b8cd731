import Mathlib

/-!
# Circular buffers

A buffer written round and round, one cell for each value of a history.  It holds the
values written last, as many as it has cells.
-/

namespace Ring

variable {α : Type*}

/-- The last values of a history, at most as many as there are cells. -/
def window (len : ℕ) (history : List α) : List α :=
  history.drop (history.length - len)

/-- The buffer has each value of the window in the cell it was written to. -/
def Holds (buffer : ℕ → α) (len : ℕ) (history : List α) : Prop :=
  ∀ (j : ℕ) (hj : j < history.length), history.length - len ≤ j →
    buffer (j % len) = history[j]

theorem holds_nil (buffer : ℕ → α) (len : ℕ) : Holds buffer len [] :=
  fun j hj => absurd hj (Nat.not_lt_zero j)

theorem length_window (len : ℕ) (history : List α) :
    (window len history).length = min history.length len := by
  rw [window, List.length_drop]
  omega

/-- Two positions less than a round apart are different cells. -/
theorem mod_ne_of_lt {i j len : ℕ} (hlt : i < j) (hround : j < i + len) :
    i % len ≠ j % len := by
  intro hsame
  have hdiff : (j - i) % len = 0 := Nat.sub_mod_eq_zero_of_mod_eq hsame.symm
  rw [Nat.mod_eq_of_lt (by omega)] at hdiff
  omega

/-- The next value goes to the next cell, in place of the oldest one. -/
theorem Holds.concat {buffer : ℕ → α} {len : ℕ} {history : List α}
    (hheld : Holds buffer len history) (value : α) :
    Holds (Function.update buffer (history.length % len) value) len
      (history ++ [value]) := by
  intro j hj hrecent
  rw [List.length_append, List.length_singleton] at hj hrecent
  rcases Nat.lt_succ_iff_lt_or_eq.mp hj with hold | hnew
  · have hcell : j % len ≠ history.length % len :=
      mod_ne_of_lt hold (by omega)
    rw [Function.update_of_ne hcell, hheld j hold (by omega),
      List.getElem_append_left hold]
  · subst hnew
    rw [Function.update_self, List.getElem_concat_length rfl]

/-- The cell the next value goes to has the oldest one of a full window. -/
theorem Holds.oldest {buffer : ℕ → α} {len : ℕ} {history : List α} (hlen : 0 < len)
    (hheld : Holds buffer len history) (hfull : len ≤ history.length) :
    window len history =
      buffer (history.length % len) ::
        history.drop (history.length - len + 1) := by
  have hj : history.length - len < history.length := by omega
  have hcell : (history.length - len) % len = history.length % len :=
    (Nat.mod_eq_sub_mod hfull).symm
  rw [window, List.drop_eq_getElem_cons hj, ← hheld _ hj le_rfl, hcell]

/-- With the next value, a full window loses its oldest one. -/
theorem window_concat_full {len : ℕ} {history : List α} (hlen : 0 < len)
    (hfull : len ≤ history.length) (value : α) :
    window len (history ++ [value]) =
      history.drop (history.length - len + 1) ++ [value] := by
  rw [window, List.length_append, List.length_singleton,
    List.drop_append_of_le_length (by omega)]
  congr 2
  omega

/-- A window that is not full has the whole history. -/
theorem window_of_le {len : ℕ} {history : List α} (hfew : history.length ≤ len) :
    window len history = history := by
  rw [window, Nat.sub_eq_zero_of_le hfew, List.drop_zero]

/-- The positions of the window go to all filled cells, each to one. -/
theorem perm_cells {count len : ℕ} :
    ((List.range' (count - len) (min count len)).map (· % len)).Perm
      (List.range (min count len)) := by
  rcases Nat.le_total count len with hfew | hfull
  · rw [Nat.min_eq_left hfew, Nat.sub_eq_zero_of_le hfew, ← List.range_eq_range']
    refine List.Perm.of_eq ((List.map_congr_left fun j hj => ?_).trans (List.map_id _))
    exact Nat.mod_eq_of_lt ((List.mem_range.mp hj).trans_le hfew)
  · rw [Nat.min_eq_right hfull]
    have hround := Nat.multiset_Ico_map_mod (count - len) len
    have hcells : Multiset.Ico (count - len) (count - len + len) =
        (List.range' (count - len) len : Multiset ℕ) := by
      change (List.range' (count - len) (count - len + len - (count - len)) :
        Multiset ℕ) = _
      rw [Nat.add_sub_cancel_left]
    rw [hcells] at hround
    exact Multiset.coe_eq_coe.mp hround

/-- The filled cells have the values of the window, in some order. -/
theorem Holds.perm {buffer : ℕ → α} {len : ℕ} {history : List α}
    (hheld : Holds buffer len history) :
    ((List.range (min history.length len)).map buffer).Perm (window len history) := by
  have hwindow : window len history =
      ((List.range' (history.length - len) (min history.length len)).map
        (· % len)).map buffer := by
    refine List.ext_getElem ?_ fun j hj _ => ?_
    · simp [length_window]
    · rw [length_window] at hj
      simp only [List.map_map, List.getElem_map, List.getElem_range', Function.comp_apply,
        Nat.one_mul, window, List.getElem_drop]
      exact (hheld _ (by omega) (by omega)).symm
  rw [hwindow]
  exact (perm_cells.symm).map buffer

end Ring
