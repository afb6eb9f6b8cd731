import Mathlib

/-!
# Lists with a key

A list in which no key occurs twice, and what it means there to change or to remove the
first entry with a key: the one entry that has it.
-/

namespace KeyedList

variable {α K : Type*} (key : α → K)

/-- No two entries have the same key. -/
def Unique (entries : List α) : Prop :=
  (entries.map key).Nodup

variable {key}

/-- A new entry keeps the keys unique if its key is new. -/
theorem unique_cons {a : α} {entries : List α} :
    Unique key (a :: entries) ↔ (∀ b ∈ entries, key b ≠ key a) ∧ Unique key entries := by
  simp only [Unique, List.map_cons, List.nodup_cons, List.mem_map, not_exists, not_and]

/-- Two entries with the same key are one. -/
theorem Unique.eq_of_key {entries : List α} (hunique : Unique key entries) {a b : α}
    (ha : a ∈ entries) (hb : b ∈ entries) (hkey : key a = key b) : a = b :=
  List.inj_on_of_nodup_map hunique ha hb hkey

/-- Fewer entries have unique keys, too. -/
theorem Unique.filter {entries : List α} (hunique : Unique key entries) (p : α → Bool) :
    Unique key (entries.filter p) :=
  List.Nodup.sublist (List.filter_sublist.map key) hunique

/-- A change that leaves the keys alone. -/
theorem Unique.map {entries : List α} (hunique : Unique key entries) {f : α → α}
    (hkey : ∀ a, key (f a) = key a) : Unique key (entries.map f) := by
  rw [Unique, List.map_map]
  exact (List.map_congr_left fun a _ => hkey a) ▸ hunique

variable [DecidableEq K]

/-- The entries with the key of one of them are that one. -/
theorem Unique.filter_key {entries : List α} (hunique : Unique key entries) {a : α}
    (ha : a ∈ entries) : (entries.filter fun b => key b = key a) = [a] := by
  induction entries with
  | nil => exact absurd ha List.not_mem_nil
  | cons b entries ih =>
    obtain ⟨hfirst, hrest⟩ := unique_cons.mp hunique
    rcases List.mem_cons.mp ha with rfl | hmem
    · rw [List.filter_cons_of_pos (by simp),
        List.filter_eq_nil_iff.mpr fun c hc => by simpa using hfirst c hc]
    · rw [List.filter_cons_of_neg (by simpa using (hfirst a hmem).symm), ih hrest hmem]

/-- To remove the first entry with a key is to remove all. -/
theorem Unique.eraseIdx_eq {entries : List α} (hunique : Unique key entries) {k : K}
    {i : ℕ} (hfound : entries.findIdx? (fun a => key a == k) = some i) :
    entries.eraseIdx i = entries.filter fun a => key a ≠ k := by
  induction entries generalizing i with
  | nil => simp at hfound
  | cons a entries ih =>
    obtain ⟨hfirst, hrest⟩ := unique_cons.mp hunique
    rw [List.findIdx?_cons] at hfound
    by_cases hkey : key a = k
    · subst hkey
      rw [if_pos (beq_self_eq_true _)] at hfound
      obtain rfl := Option.some.inj hfound
      rw [List.eraseIdx_cons_zero, List.filter_cons_of_neg (by simp),
        List.filter_eq_self.mpr fun b hb => by simpa using hfirst b hb]
    · rw [if_neg (by simpa using hkey)] at hfound
      obtain ⟨j, hj, rfl⟩ := Option.map_eq_some_iff.mp hfound
      rw [List.eraseIdx_cons_succ, List.filter_cons_of_pos (by simpa using hkey),
        ih hrest hj]

/-- To change the first entry with a key is to change all. -/
theorem Unique.modify_eq {entries : List α} (hunique : Unique key entries) {k : K}
    {i : ℕ} (hfound : entries.findIdx? (fun a => key a == k) = some i) (f : α → α) :
    entries.modify i f = entries.map fun a => if key a = k then f a else a := by
  induction entries generalizing i with
  | nil => simp at hfound
  | cons a entries ih =>
    obtain ⟨hfirst, hrest⟩ := unique_cons.mp hunique
    rw [List.findIdx?_cons] at hfound
    by_cases hkey : key a = k
    · subst hkey
      rw [if_pos (beq_self_eq_true _)] at hfound
      obtain rfl := Option.some.inj hfound
      have hothers : (entries.map fun b => if key b = key a then f b else b) = entries :=
        (List.map_congr_left fun b hb => if_neg (hfirst b hb)).trans (List.map_id _)
      rw [List.modify_zero_cons, List.map_cons, if_pos rfl, hothers]
    · rw [if_neg (by simpa using hkey)] at hfound
      obtain ⟨j, hj, rfl⟩ := Option.map_eq_some_iff.mp hfound
      rw [List.modify_succ_cons, List.map_cons, if_neg hkey, ih hrest hj]

/-- To change an entry and to read all of them commute. -/
theorem modify_map {β : Type*} (f : α → β) {g : α → α} {h : β → β}
    (hcomm : ∀ a, h (f a) = f (g a)) (entries : List α) (i : ℕ) :
    (entries.map f).modify i h = (entries.modify i g).map f := by
  induction entries generalizing i with
  | nil => simp
  | cons a entries ih =>
    cases i with
    | zero => simp [hcomm]
    | succ i => simpa using ih i

end KeyedList
