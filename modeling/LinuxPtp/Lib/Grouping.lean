import Mathlib

/-!
# Grouping by a partial key

Elements with the same key come together, and an element without a key stays alone.
Every element is in exactly one class, and no two classes have the same key.
-/

namespace Grouping

variable {ι κ : Type} [DecidableEq κ] {key key' : ι → Option κ} {l : List ι}

def withKey (key : ι → Option κ) (k : κ) (l : List ι) : List ι :=
  l.filter fun i => key i = some k

def others (key : ι → Option κ) (k : κ) (l : List ι) : List ι :=
  l.filter fun i => key i ≠ some k

theorem length_others_le (key : ι → Option κ) (k : κ) (l : List ι) :
    (others key k l).length ≤ l.length :=
  List.length_filter_le _ l

/-- The classes, each with its key, in the order of their first elements. -/
def classes (key : ι → Option κ) : List ι → List (Option κ × List ι)
  | [] => []
  | i :: rest =>
      match key i with
      | none => (none, [i]) :: classes key rest
      | some k => (some k, i :: withKey key k rest) :: classes key (others key k rest)
termination_by l => l.length
decreasing_by
  · exact Nat.lt_succ_self _
  · exact Nat.lt_succ_of_le (length_others_le key k rest)

theorem classes_nil : classes key [] = [] := by rw [classes]

theorem classes_cons_none {i : ι} (hkey : key i = none) :
    classes key (i :: l) = (none, [i]) :: classes key l := by
  rw [classes, hkey]

theorem classes_cons_some {i : ι} {k : κ} (hkey : key i = some k) :
    classes key (i :: l) =
      (some k, i :: withKey key k l) :: classes key (others key k l) := by
  rw [classes, hkey]

/-- An induction along the classes. -/
theorem classes_induction {motive : List ι → Prop} (key : ι → Option κ)
    (nil : motive [])
    (alone : ∀ i rest, key i = none → motive rest → motive (i :: rest))
    (shared : ∀ i rest k, key i = some k → motive (others key k rest) →
      motive (i :: rest)) (l : List ι) : motive l := by
  induction hlength : l.length using Nat.strong_induction_on generalizing l with
  | _ length ih =>
    cases l with
    | nil => exact nil
    | cons i rest =>
      have hrest : ∀ smaller : List ι, smaller.length ≤ rest.length → motive smaller :=
        fun smaller hle => ih smaller.length (by
          rw [← hlength]
          exact Nat.lt_succ_of_le hle) smaller rfl
      cases hkey : key i with
      | none => exact alone i rest hkey (hrest rest le_rfl)
      | some k =>
        exact shared i rest k hkey (hrest _ (length_others_le key k rest))

theorem mem_others {i : ι} {k : κ} : i ∈ others key k l ↔ i ∈ l ∧ key i ≠ some k := by
  simp [others]

theorem mem_withKey {i : ι} {k : κ} : i ∈ withKey key k l ↔ i ∈ l ∧ key i = some k := by
  simp [withKey]

/-- Every element is in exactly one class. -/
theorem flatten_classes (key : ι → Option κ) (l : List ι) :
    ((classes key l).flatMap Prod.snd).Perm l := by
  induction l using classes_induction key with
  | nil => rw [classes_nil]; exact .refl _
  | alone i rest hkey ih =>
    rw [classes_cons_none hkey]
    exact ih.cons i
  | shared i rest k hkey ih =>
    rw [classes_cons_some hkey]
    have hsplit : (withKey key k rest ++ others key k rest).Perm rest := by
      have := List.filter_append_perm (fun i => decide (key i = some k)) rest
      simpa only [withKey, others, ← decide_not] using this
    exact ((ih.append_left _).trans hsplit).cons i

/-- The elements of a class have its key, and those without a key are alone. -/
theorem key_of_mem_classes {c : Option κ × List ι} (hclass : c ∈ classes key l) :
    ∀ i ∈ c.2, i ∈ l ∧ key i = c.1 := by
  induction l using classes_induction key with
  | nil => rw [classes_nil] at hclass; exact absurd hclass List.not_mem_nil
  | alone i rest hkey ih =>
    rw [classes_cons_none hkey] at hclass
    rcases List.mem_cons.mp hclass with rfl | hclass
    · intro j hj
      obtain rfl := List.mem_singleton.mp hj
      exact ⟨List.mem_cons_self, hkey⟩
    · exact fun j hj => ⟨List.mem_cons_of_mem _ (ih hclass j hj).1, (ih hclass j hj).2⟩
  | shared i rest k hkey ih =>
    rw [classes_cons_some hkey] at hclass
    rcases List.mem_cons.mp hclass with rfl | hclass
    · intro j hj
      rcases List.mem_cons.mp hj with rfl | hj
      · exact ⟨List.mem_cons_self, hkey⟩
      · obtain ⟨hrest, hsame⟩ := mem_withKey.mp hj
        exact ⟨List.mem_cons_of_mem _ hrest, hsame⟩
    · intro j hj
      obtain ⟨hother, hsame⟩ := ih hclass j hj
      exact ⟨List.mem_cons_of_mem _ (mem_others.mp hother).1, hsame⟩

/-- A class has an element. -/
theorem ne_nil_of_mem_classes {c : Option κ × List ι} (hclass : c ∈ classes key l) :
    c.2 ≠ [] := by
  induction l using classes_induction key with
  | nil => rw [classes_nil] at hclass; exact absurd hclass List.not_mem_nil
  | alone i rest hkey ih =>
    rw [classes_cons_none hkey] at hclass
    rcases List.mem_cons.mp hclass with rfl | hclass
    · exact List.cons_ne_nil _ _
    · exact ih hclass
  | shared i rest k hkey ih =>
    rw [classes_cons_some hkey] at hclass
    rcases List.mem_cons.mp hclass with rfl | hclass
    · exact List.cons_ne_nil _ _
    · exact ih hclass

/-- The key of a class is the key of an element. -/
theorem exists_key_of_mem {k : κ} (hk : k ∈ (classes key l).filterMap Prod.fst) :
    ∃ i ∈ l, key i = some k := by
  obtain ⟨c, hclass, hkey⟩ := List.mem_filterMap.mp hk
  obtain ⟨i, hi⟩ := List.exists_mem_of_ne_nil _ (ne_nil_of_mem_classes hclass)
  obtain ⟨hmem, hsame⟩ := key_of_mem_classes hclass i hi
  exact ⟨i, hmem, hsame.trans hkey⟩

/-- No two classes have the same key. -/
theorem nodup_keys (key : ι → Option κ) (l : List ι) :
    ((classes key l).filterMap Prod.fst).Nodup := by
  induction l using classes_induction key with
  | nil => rw [classes_nil]; exact List.nodup_nil
  | alone i rest hkey ih =>
    rw [classes_cons_none hkey]
    exact ih
  | shared i rest k hkey ih =>
    rw [classes_cons_some hkey]
    refine List.nodup_cons.mpr ⟨fun hk => ?_, ih⟩
    obtain ⟨j, hj, hsame⟩ := exists_key_of_mem hk
    exact (mem_others.mp hj).2 hsame

/-- Only the keys of the elements matter. -/
theorem classes_congr (hsame : ∀ i ∈ l, key i = key' i) :
    classes key l = classes key' l := by
  induction l using classes_induction key with
  | nil => rw [classes_nil, classes_nil]
  | alone i rest hkey ih =>
    obtain ⟨hfirst, hrest⟩ := List.forall_mem_cons.mp hsame
    rw [classes_cons_none hkey, classes_cons_none (hfirst.symm.trans hkey), ih hrest]
  | shared i rest k hkey ih =>
    obtain ⟨hfirst, hrest⟩ := List.forall_mem_cons.mp hsame
    have hwith : withKey key k rest = withKey key' k rest :=
      List.filter_congr fun j hj => by rw [hrest j hj]
    have hothers : others key k rest = others key' k rest :=
      List.filter_congr fun j hj => by rw [hrest j hj]
    rw [classes_cons_some hkey, classes_cons_some (hfirst.symm.trans hkey), hwith,
      ← hothers, ih fun j hj => hrest j (mem_others.mp hj).1]

end Grouping
