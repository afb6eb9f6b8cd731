import LinuxPtp.Config.Store

/-!
# Keys of items

The names of a section and of an option make one key.  Which names they were can be
told from the key, because no option ends in a dot and the name of another one.
-/

namespace LinuxPtp.Config

/-! ## Names with a separator -/

section

variable {α : Type*} {sep : α} {left right head tail : List α}

/-- Two ways to write a word with a separator. -/
theorem append_sep_cases (heq : left ++ sep :: head = right ++ sep :: tail) :
    left = right ∧ head = tail ∨
      (∃ middle, right = left ++ sep :: middle ∧ head = middle ++ sep :: tail) ∨
      ∃ middle, left = right ++ sep :: middle ∧ tail = middle ++ sep :: head := by
  rcases List.append_eq_append_iff.mp heq with ⟨middle, hright, hmiddle⟩ |
    ⟨middle, hleft, hmiddle⟩
  · cases middle with
    | nil => exact Or.inl ⟨by simpa using hright.symm, by simpa using hmiddle⟩
    | cons first middle =>
      rw [List.cons_append, List.cons.injEq] at hmiddle
      obtain ⟨rfl, hmiddle⟩ := hmiddle
      exact Or.inr (Or.inl ⟨middle, hright, hmiddle⟩)
  · cases middle with
    | nil => exact Or.inl ⟨by simpa using hleft, by simpa using hmiddle.symm⟩
    | cons first middle =>
      rw [List.cons_append, List.cons.injEq] at hmiddle
      obtain ⟨rfl, hmiddle⟩ := hmiddle
      exact Or.inr (Or.inr ⟨middle, hleft, hmiddle⟩)

/-- Both parts can be told when neither last part ends in the other after a
separator. -/
theorem append_sep_inj (hhead : ¬sep :: tail <:+ head) (htail : ¬sep :: head <:+ tail)
    (heq : left ++ sep :: head = right ++ sep :: tail) : left = right ∧ head = tail := by
  rcases append_sep_cases heq with hsame | ⟨middle, -, hmiddle⟩ | ⟨middle, -, hmiddle⟩
  · exact hsame
  · exact absurd ⟨middle, hmiddle.symm⟩ hhead
  · exact absurd ⟨middle, hmiddle.symm⟩ htail

end

/-! ## Sections -/

/-- The name of a section as it is read: not that of the global section, and of no more
than the 16 characters that are taken of it. -/
structure SectionName (sect : Str) : Prop where
  short : sect.length ≤ 16
  notGlobal : sect ≠ globalName

/-- The name does not look like a part of the global section. -/
def Plain (sect : Str) : Prop :=
  ¬globalName ++ [46] <+: sect

instance (sect : Str) : Decidable (Plain sect) :=
  inferInstanceAs (Decidable ¬_)

/-- What has a key in a plain section has none in the global one. -/
theorem key_ne_global {sect : Str} (hsect : sect ≠ globalName) (hplain : Plain sect)
    (option name : Str) : sect ++ 46 :: option ≠ globalName ++ 46 :: name := by
  intro heq
  rcases append_sep_cases heq with ⟨hsame, -⟩ | ⟨middle, hglobal, -⟩ | ⟨middle, hlong, -⟩
  · exact hsect hsame
  · have hdot : (46 : UInt8) ∈ globalName := by
      rw [hglobal]
      simp
    exact absurd hdot (by decide)
  · exact hplain ⟨middle, by rw [hlong]; simp⟩

/-! ## Labels -/

/-- Labels that fit, and that can be told from the end of a key. -/
structure LabelsApart (labels : List Str) : Prop where
  short : ∀ label ∈ labels, label.length ≤ 30
  nodup : labels.Nodup
  apart : ∀ left ∈ labels, ∀ right ∈ labels, ¬46 :: left <:+ right

/-- Doubles that carry nothing. -/
def noDoubles : Doubles Unit where
  strtod str := ⟨(), str, false⟩
  lt _ _ := false
  constant _ := ()

theorem labels_noDoubles :
    let labels := (configTab noDoubles []).map ConfigItem.label
    (∀ label ∈ labels, label.length ≤ 30) ∧ labels.Nodup ∧
      ∀ right ∈ labels, 46 ∈ right → ∀ left ∈ labels, ¬46 :: left <:+ right := by
  decide +kernel

/-- The labels of the table of options are apart. -/
theorem labelsApart_configTab {D : Type} (doubles : Doubles D) (runHome : Str) :
    LabelsApart ((configTab doubles runHome).map ConfigItem.label) where
  short := labels_noDoubles.1
  nodup := labels_noDoubles.2.1
  apart left hleft right hright hsuffix :=
    labels_noDoubles.2.2 right hright (hsuffix.subset (List.mem_cons_self ..)) left
      hleft hsuffix

section

variable {labels : List Str}

theorem itemKey_eq {size : ℕ} {sect name : Str}
    (hshort : sect.length + name.length + 2 ≤ size) :
    itemKey size sect name = sect ++ 46 :: name := by
  refine List.take_of_length_le ?_
  rw [List.length_append, List.length_cons]
  omega

/-- A key of an option tells its section. -/
theorem LabelsApart.key_inj (hlabels : LabelsApart labels) {sect sect' name name' : Str}
    (hname : name ∈ labels) (hname' : name' ∈ labels)
    (heq : sect ++ 46 :: name = sect' ++ 46 :: name') :
    sect = sect' ∧ name = name' :=
  append_sep_inj (hlabels.apart name' hname' name hname)
    (hlabels.apart name hname name' hname') heq

end

end LinuxPtp.Config
