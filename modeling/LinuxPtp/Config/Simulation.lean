import LinuxPtp.Config.Overrides

/-!
# The store and its overrides

The store of the code has the item of an option under the name of the global section,
and that of a section under the name of the section.  Its operations are those of
options with overrides, as long as no section looks like a part of the global one.
-/

namespace LinuxPtp.Config

section

variable {D : Type} {doubles : Doubles D} {tab : List (ConfigItem D)} {P : Str → Prop}
variable {cfg cfg' : PtpConfig D} {st : Overrides D} {memory : Supply}
variable {entry : ConfigItem D} {name : Str} {sect : Option Str} {val : Value D}

/-! ## Tables -/

def Value.Fits : Value D → ConfigType D → Prop
  | .int _, .int _ _ | .int _, .enum _ => True
  | .double _, .double _ _ => True
  | .string _, .string => True
  | _, _ => False

/-- What the store needs of a table of options. -/
structure SoundTable (tab : List (ConfigItem D)) : Prop where
  apart : LabelsApart (tab.map ConfigItem.label)
  faults : ∀ fault ∈ faultOptions, ∃ entry ∈ tab,
    entry.label = fault.1 ∧ ∃ min max, entry.type = .int min max
  fits : ∀ entry ∈ tab, entry.val.Fits entry.type
  unlocked : ∀ entry ∈ tab, entry.locked = false

theorem SoundTable.entryOf_eq_some (htab : SoundTable tab) :
    entryOf tab name = some entry ↔ entry ∈ tab ∧ entry.label = name := by
  constructor
  · intro hfind
    exact ⟨List.mem_of_find?_eq_some hfind, by simpa using List.find?_some hfind⟩
  · rintro ⟨hmem, rfl⟩
    cases hfind : entryOf tab entry.label with
    | none =>
      have := List.find?_eq_none.mp hfind entry hmem
      exact absurd (beq_self_eq_true _) this
    | some other =>
      have hlabel : other.label = entry.label := by simpa using List.find?_some hfind
      exact congrArg some (List.inj_on_of_nodup_map htab.apart.nodup
        (List.mem_of_find?_eq_some hfind) hmem hlabel)

theorem entryOf_eq_none (hnone : entryOf tab name = none) :
    ∀ entry ∈ tab, entry.label ≠ name := fun entry hmem hlabel =>
  absurd (beq_iff_eq.mpr hlabel) (List.find?_eq_none.mp hnone entry hmem)

theorem SoundTable.short (htab : SoundTable tab) (hentry : entry ∈ tab) :
    entry.label.length ≤ 30 :=
  htab.apart.short _ (List.mem_map_of_mem hentry)

/-! ## Keys -/

def keyOf (sect : Option Str) (name : Str) : Str := sect.getD globalName ++ 46 :: name

/-- A section that settings may have. -/
def Apart (P : Str → Prop) (sect : Option Str) : Prop := ∀ s ∈ sect, SectionName s ∧ P s

theorem length_sect (hsect : ∀ s ∈ sect, SectionName s) :
    (sect.getD globalName).length ≤ 16 := by
  cases sect with
  | none => decide
  | some s => exact (hsect s rfl).short

theorem itemKey_eq_keyOf (hsect : ∀ s ∈ sect, SectionName s) (hshort : name.length ≤ 30) :
    itemKey (configLabelSize + maxIfnameSize) (sect.getD globalName) name =
      keyOf sect name := by
  have := length_sect hsect
  exact itemKey_eq (by simp only [configLabelSize, maxIfnameSize]; omega)

/-- Keys of options tell the section and the option. -/
theorem SoundTable.keyOf_inj (htab : SoundTable tab) {sect' : Option Str}
    {entry' : ConfigItem D} (hsect : ∀ s ∈ sect, SectionName s)
    (hsect' : ∀ s ∈ sect', SectionName s) (hentry : entry ∈ tab) (hentry' : entry' ∈ tab)
    (hsame : keyOf sect entry.label = keyOf sect' entry'.label) :
    sect = sect' ∧ entry.label = entry'.label := by
  obtain ⟨hnames, hlabels⟩ := htab.apart.key_inj (List.mem_map_of_mem hentry)
    (List.mem_map_of_mem hentry') hsame
  refine ⟨?_, hlabels⟩
  cases sect with
  | none =>
    cases sect' with
    | none => rfl
    | some s' => exact absurd hnames.symm (hsect' s' rfl).notGlobal
  | some s =>
    cases sect' with
    | none => exact absurd hnames (hsect s rfl).notGlobal
    | some s' => exact congrArg some hnames

/-- No option but its own leads to the key of an option in the global section. -/
theorem itemKey_global_eq_keyOf (hsect : Apart Plain sect) (hshort : entry.label.length ≤ 30)
    (hsame : itemKey (configLabelSize + maxIfnameSize) globalName name =
      keyOf sect entry.label) : name = entry.label := by
  have hlength := length_sect fun s hs => (hsect s hs).1
  have hfits : name.length ≤ 100 := by
    have hlong := congrArg List.length hsame
    have hglobal : globalName.length = 6 := by decide
    simp only [itemKey, keyOf, List.length_take, List.length_append, List.length_cons,
      configLabelSize, maxIfnameSize, hglobal] at hlong
    omega
  have hplain : itemKey (configLabelSize + maxIfnameSize) globalName name =
      globalName ++ 46 :: name :=
    itemKey_eq (by
      have hglobal : globalName.length = 6 := by decide
      simp only [configLabelSize, maxIfnameSize, hglobal]
      omega)
  rw [hplain, keyOf] at hsame
  cases sect with
  | none =>
    exact (List.cons.inj (List.append_cancel_left hsame)).2
  | some s =>
    obtain ⟨hname, hs⟩ := hsect s rfl
    exact absurd hsame.symm (key_ne_global hname.notGlobal hs _ _)

/-! ## The relation -/

/-- The store has these options, locks and overrides. -/
structure Refines (P : Str → Prop) (doubles : Doubles D) (tab : List (ConfigItem D))
    (cfg : PtpConfig D) (st : Overrides D) : Prop where
  placed : cfg.Placed
  whole : ∀ entry ∈ tab, ∃ val, st.value none entry.label = some val ∧
    cfg.itemAt (keyOf none entry.label) = some (entry.with val (st.locked entry.label))
  parts : ∀ entry ∈ tab, ∀ sect, SectionName sect →
    cfg.itemAt (keyOf (some sect) entry.label) =
      (st.value (some sect) entry.label).map fun val =>
        (newItem doubles entry.label entry.type).with val false
  known : ∀ key item, cfg.itemAt key = some item →
    ∃ sect, Apart P sect ∧ ∃ entry ∈ tab, key = keyOf sect entry.label
  fits : ∀ entry ∈ tab, ∀ sect val, st.value sect entry.label = some val →
    val.Fits entry.type

theorem Refines.global (hrefines : Refines P doubles tab cfg st) (htab : SoundTable tab)
    (hentry : entry ∈ tab) :
    ∃ ref val, st.value none entry.label = some val ∧
      cfg.At (keyOf none entry.label) ref (entry.with val (st.locked entry.label)) ∧
      configGlobalItem cfg entry.label =
        some ⟨ref, entry.with val (st.locked entry.label)⟩ := by
  obtain ⟨val, hval, hitem⟩ := hrefines.whole entry hentry
  obtain ⟨ref, hat⟩ := PtpConfig.exists_at hitem
  refine ⟨ref, val, hval, hat, PtpConfig.configSectionItem_eq_some.mpr ?_⟩
  have hkey := @itemKey_eq_keyOf entry.label none (fun s hs => by cases hs)
    (htab.short hentry)
  exact ⟨(congrArg _ hkey).trans hat.lookup, hat.item⟩

/-- An option that the table does not have is not found. -/
def Unknown (tab : List (ConfigItem D)) (cfg : PtpConfig D) (name : Str) : Prop :=
  entryOf tab name = none → configGlobalItem cfg name = none

theorem Refines.unknown (hrefines : Refines Plain doubles tab cfg st)
    (htab : SoundTable tab) : Unknown tab cfg name := by
  intro hname
  refine (PtpConfig.configSectionItem_eq_none hrefines.placed).mpr ?_
  cases hitem : cfg.itemAt (itemKey (configLabelSize + maxIfnameSize) globalName name) with
  | none => rfl
  | some item =>
    obtain ⟨sect, hsect, entry, hentry, hkey⟩ := hrefines.known _ item hitem
    exact absurd (itemKey_global_eq_keyOf hsect (htab.short hentry) hkey).symm
      (entryOf_eq_none hname entry hentry)

/-! ## Storing a value -/

theorem with_with (ci : ConfigItem D) (first second : Value D) (locks more : Bool) :
    (ci.with first locks).with second more = ci.with second (locks || more) := by
  rw [ConfigItem.with, ConfigItem.with, ConfigItem.with, Bool.or_assoc]

theorem get_put_self {locks : Bool} : (st.put sect name val locks).value sect name = some val :=
  if_pos ⟨rfl, rfl⟩

theorem get_put_other {locks : Bool} {sect' : Option Str} {name' : Str}
    (hother : ¬(sect' = sect ∧ name' = name)) :
    (st.put sect name val locks).value sect' name' = st.value sect' name' :=
  if_neg hother

theorem locked_put_other {locks : Bool} {name' : Str}
    (hother : ¬(none = sect ∧ name' = name)) :
    (st.put sect name val locks).locked name' = st.locked name' := by
  cases sect with
  | none =>
    have hname : (name' == name) = false :=
      beq_eq_false_iff_ne.mpr fun hsame => hother ⟨rfl, hsame⟩
    simp [Overrides.put, hname]
  | some s => simp [Overrides.put]

/-- A value that is stored for an option or for a section is what the relation wants. -/
theorem Refines.put (hrefines : Refines P doubles tab cfg st) (htab : SoundTable tab)
    (hsect : Apart P sect) (hentry : entry ∈ tab) (hfits : val.Fits entry.type)
    {locks : Bool} {item : ConfigItem D}
    (hitem : item = match sect with
      | none => entry.with val (st.locked entry.label || locks)
      | some _ => (newItem doubles entry.label entry.type).with val false)
    (hchanges : PtpConfig.Changes cfg cfg' (keyOf sect entry.label) item) :
    Refines P doubles tab cfg' (st.put sect entry.label val locks) where
  placed := hchanges.placed
  whole other hother := by
    by_cases hsame : none = sect ∧ other.label = entry.label
    · obtain ⟨rfl, hlabel⟩ := hsame
      obtain rfl : other = entry :=
        List.inj_on_of_nodup_map htab.apart.nodup hother hentry hlabel
      refine ⟨val, get_put_self, ?_⟩
      rw [hchanges.itemAt_same, hitem]
      simp [Overrides.put]
    · obtain ⟨old, hold, hat⟩ := hrefines.whole other hother
      refine ⟨old, (get_put_other hsame).trans hold, ?_⟩
      rw [hchanges.itemAt_other fun hkey => hsame ?_, hat, locked_put_other hsame]
      · exact htab.keyOf_inj (fun s hs => by cases hs) (fun s hs => (hsect s hs).1)
          hother hentry hkey
  parts other hother sect' hsect' := by
    by_cases hsame : some sect' = sect ∧ other.label = entry.label
    · obtain ⟨rfl, hlabel⟩ := hsame
      obtain rfl : other = entry :=
        List.inj_on_of_nodup_map htab.apart.nodup hother hentry hlabel
      rw [hchanges.itemAt_same, hitem, get_put_self]
      rfl
    · rw [get_put_other hsame, ← hrefines.parts other hother sect' hsect']
      refine hchanges.itemAt_other fun hkey => hsame ?_
      exact htab.keyOf_inj (fun s hs => Option.some.inj hs ▸ hsect')
        (fun s hs => (hsect s hs).1) hother hentry hkey
  known key other hother := by
    rw [hchanges.itemAt] at hother
    split at hother
    · rename_i hkey
      exact ⟨sect, hsect, entry, hentry, hkey⟩
    · exact hrefines.known key other hother
  fits other hother sect' val' hval' := by
    by_cases hsame : sect' = sect ∧ other.label = entry.label
    · obtain ⟨rfl, hlabel⟩ := hsame
      obtain rfl : other = entry :=
        List.inj_on_of_nodup_map htab.apart.nodup hother hentry hlabel
      rw [get_put_self] at hval'
      exact Option.some.inj hval' ▸ hfits
    · rw [get_put_other hsame] at hval'
      exact hrefines.fits other hother sect' val' hval'

/-! ## Settings -/

def Agrees (P : Str → Prop) (doubles : Doubles D) (tab : List (ConfigItem D))
    (result : Except Refusal Unit × PtpConfig D) (expected : Bool × Overrides D) : Prop :=
  result.1.isOk = expected.1 ∧ Refines P doubles tab result.2 expected.2

/-- Storing a value in the item of a section, which may have to be allocated. -/
def storePart (doubles : Doubles D) (memory : Supply) (cfg : PtpConfig D) (s name : Str)
    (type : ConfigType D) (val : Value D) (failure : Refusal) :
    Except Refusal Unit × PtpConfig D :=
  match configSectionItem cfg s name with
  | some dst => storeValue memory cfg dst.ref false val
  | none =>
      match configItemAlloc doubles memory cfg s name type with
      | none => (.error failure, cfg)
      | some (ref, cfg) => storeValue memory cfg ref false val

/-- A section that has or gets an item of its own. -/
theorem Refines.part (hrefines : Refines P doubles tab cfg st) (htab : SoundTable tab)
    {s : Str} (hsect : Apart P (some s)) (hentry : entry ∈ tab) (hfits : val.Fits entry.type)
    (hheld : val.Held memory) {yields : Bool} {failure : Refusal} :
    Agrees P doubles tab
      (storePart doubles memory cfg s entry.label entry.type val failure)
      (st.accept memory (some s) entry.label val yields) := by
  rw [storePart, Overrides.accept_part]
  have hshort := htab.short hentry
  have hname := (hsect s rfl).1
  have hkey := @itemKey_eq_keyOf entry.label (some s) (fun t ht => Option.some.inj ht ▸ hname)
    hshort
  have hpart := hrefines.parts entry hentry s hname
  cases hvalue : st.value (some s) entry.label with
  | some old =>
    rw [hvalue] at hpart
    obtain ⟨ref, hat⟩ := PtpConfig.exists_at hpart
    have hfound : configSectionItem cfg s entry.label = some ⟨ref, _⟩ :=
      PtpConfig.configSectionItem_eq_some.mpr ⟨(congrArg _ hkey).trans hat.lookup, hat.item⟩
    rw [hfound]
    simp only [storeValue_eq hheld, Option.isNone_some, Bool.false_and]
    refine ⟨rfl, hrefines.put htab hsect hentry hfits ?_
      (PtpConfig.changes_update hrefines.placed hat _)⟩
    rw [with_with]
    rfl
  | none =>
    rw [hvalue, Option.map_none] at hpart
    rw [keyOf, Option.getD_some] at hkey
    have hnew : cfg.itemAt (itemKey (configLabelSize + maxIfnameSize) s entry.label) =
        none := (congrArg _ hkey).trans hpart
    rw [(PtpConfig.configSectionItem_eq_none hrefines.placed).mpr hnew]
    by_cases hroom : memory.room = true
    · obtain ⟨ref, cfg', halloc, hchanges, hat⟩ :=
        @configItemAlloc_of_room D doubles cfg memory s entry.label entry.type
          hrefines.placed (Nat.lt_of_le_of_lt hshort (by decide)) hroom hnew
      have hstored := hchanges.trans
        (PtpConfig.changes_update hchanges.placed hat fun ci => ci.with val false)
      simp only [halloc, storeValue_eq hheld, hroom, Bool.not_true, Bool.and_false]
      rw [hkey] at hstored
      exact ⟨rfl, hrefines.put htab hsect hentry hfits rfl hstored⟩
    · have hfull : memory.room = false := Bool.eq_false_iff.mpr hroom
      simp only [configItemAlloc_of_full hroom, hfull, Option.isNone_none, Bool.not_false,
        Bool.and_true, if_true]
      exact ⟨rfl, hrefines⟩

theorem setInt_locks_eq (val : ℤ) :
    (fun ci : ConfigItem D => { ci with locked := true, val := .int val }) =
      fun ci => ci.with (.int val) true := by
  funext ci
  rw [ConfigItem.with, Bool.or_true]

/-- An integer is stored where the option takes integers. -/
theorem Refines.setInt (hrefines : Refines P doubles tab cfg st) (htab : SoundTable tab)
    (hsect : Apart P sect) (hentry : entry ∈ tab) {i : ℤ}
    (hfits : (Value.int i : Value D).Fits entry.type) :
    Agrees P doubles tab (configSetSectionInt doubles memory cfg sect entry.label i)
      (st.accept memory sect entry.label (.int i) false) := by
  obtain ⟨ref, old, -, hat, hglobal⟩ := hrefines.global htab hentry
  have hfind : configFindItem cfg none entry.label = some ⟨ref, _⟩ := hglobal
  have htype : (entry.with old (st.locked entry.label)).type = entry.type := rfl
  have hinteger : (∃ min max, entry.type = .int min max) ∨ ∃ values, entry.type = .enum values := by
    cases hkind : entry.type with
    | int min max => exact Or.inl ⟨min, max, rfl⟩
    | enum values => exact Or.inr ⟨values, rfl⟩
    | double min max => rw [hkind] at hfits; exact hfits.elim
    | string => rw [hkind] at hfits; exact hfits.elim
  cases sect with
  | none =>
    have hstore : configSetSectionInt doubles memory cfg none entry.label i =
        (.ok (), cfg.update ref fun ci => ci.with (.int i) true) := by
      rw [configSetSectionInt, hfind, ← setInt_locks_eq]
      rcases hinteger with ⟨min, max, hkind⟩ | ⟨values, hkind⟩ <;>
        simp only [htype, hkind]
    rw [hstore, Overrides.accept_whole]
    refine ⟨rfl, hrefines.put htab hsect hentry hfits ?_
      (PtpConfig.changes_update hrefines.placed hat _)⟩
    rw [with_with]
    rfl
  | some s =>
    have hstore : configSetSectionInt doubles memory cfg (some s) entry.label i =
        storePart doubles memory cfg s entry.label entry.type (.int i) .refused := by
      rw [configSetSectionInt, hfind, storePart]
      cases hpart : configSectionItem cfg s entry.label with
      | some dst =>
        rcases hinteger with ⟨min, max, hkind⟩ | ⟨values, hkind⟩ <;>
          simp only [htype, hkind, hpart, storeValue, Bool.or_false]
      | none =>
        cases halloc : configItemAlloc doubles memory cfg s entry.label entry.type with
        | none =>
          rcases hinteger with ⟨min, max, hkind⟩ | ⟨values, hkind⟩ <;>
            rw [hkind] at halloc <;> simp only [htype, hkind, hpart, halloc]
        | some made =>
          rcases hinteger with ⟨min, max, hkind⟩ | ⟨values, hkind⟩ <;>
            rw [hkind] at halloc <;>
            simp only [htype, hkind, hpart, halloc, storeValue, Bool.or_false]
    rw [hstore]
    exact hrefines.part htab hsect hentry hfits trivial

/-- A text that has a value is stored as this value. -/
theorem Refines.storeText (hrefines : Refines P doubles tab cfg st) (htab : SoundTable tab)
    (hsect : Apart P sect) (hentry : entry ∈ tab) (hfits : val.Fits entry.type)
    (hheld : val.Held memory) {value : Str} {commandline : Bool}
    (hcommandline : commandline = true → sect = none)
    (hword : parseFaultInterval doubles memory cfg sect entry.label value = none)
    (hport : ¬(sect.isSome ∧ entry.port = false))
    (hparse : parseValue doubles entry.type value = .ok val) :
    Agrees P doubles tab (parseItem doubles memory cfg commandline sect entry.label value)
      (st.accept memory sect entry.label val !commandline) := by
  obtain ⟨ref, old, -, hat, hglobal⟩ := hrefines.global htab hentry
  have htype : (entry.with old (st.locked entry.label)).type = entry.type := rfl
  have hportOf : (entry.with old (st.locked entry.label)).port = entry.port := rfl
  have hlocked : (entry.with old (st.locked entry.label)).locked = st.locked entry.label := by
    rw [ConfigItem.with, htab.unlocked entry hentry, Bool.false_or]
  cases sect with
  | none =>
    rw [parseItem, hword, Overrides.accept_whole]
    simp only [hglobal, htype, hparse, hlocked]
    cases commandline with
    | true =>
      simp only [storeValue_eq hheld]
      refine ⟨rfl, hrefines.put htab hsect hentry hfits ?_
        (PtpConfig.changes_update hrefines.placed hat _)⟩
      rw [with_with]
      rfl
    | false =>
      by_cases hlock : st.locked entry.label = true
      · simp only [hlock]
        exact ⟨rfl, hrefines⟩
      · simp only [Bool.eq_false_iff.mpr hlock, storeValue_eq hheld]
        refine ⟨rfl, hrefines.put htab hsect hentry hfits ?_
          (PtpConfig.changes_update hrefines.placed hat _)⟩
        rw [with_with]
        rfl
  | some s =>
    have hmanual : commandline = false := by
      cases commandline with
      | true => exact absurd (hcommandline rfl) (Option.some_ne_none s)
      | false => rfl
    have hallowed : ¬entry.port = false := fun hnot => hport ⟨rfl, hnot⟩
    subst hmanual
    have hpart := @Refines.part D doubles tab P cfg st memory entry val hrefines htab s hsect
      hentry hfits hheld false (.parser (.result .notParsed))
    have hstore : parseItem doubles memory cfg false (some s) entry.label value =
        storePart doubles memory cfg s entry.label entry.type val
          (.parser (.result .notParsed)) := by
      rw [parseItem, hword]
      simp only [hglobal, htype, hparse, hportOf, hallowed, storePart]
      cases configSectionItem cfg s entry.label with
      | some dst => rfl
      | none => cases configItemAlloc doubles memory cfg s entry.label entry.type <;> rfl
    rw [hstore]
    exact hpart

/-! ## Words and refusals -/

theorem parseFaultInterval_none {value : Str} (hword : faultValue name value = none) :
    parseFaultInterval doubles memory cfg sect name value = none := by
  rw [faultValue] at hword
  rw [parseFaultInterval]
  split
  · rename_i hsame
    rw [if_pos hsame, Option.map_eq_none_iff] at hword
    rw [hword]
  · rfl

/-- The word is stored as an integer, or ends the program. -/
theorem parseFaultInterval_some {value : Str} {i : ℤ}
    (hword : faultValue name value = some i) :
    ∃ result, parseFaultInterval doubles memory cfg sect name value = some result ∧
      result.1.isOk = (configSetSectionInt doubles memory cfg sect name i).1.isOk ∧
      result.2 = (configSetSectionInt doubles memory cfg sect name i).2 := by
  rw [faultValue] at hword
  split at hword
  · rename_i hsame
    obtain ⟨⟨option, j⟩, hfind, rfl⟩ := Option.map_eq_some_iff.mp hword
    have hoption : name = option := by simpa using List.find?_some hfind
    subst hoption
    rw [parseFaultInterval, if_pos hsame, hfind]
    rcases hset : configSetSectionInt doubles memory cfg sect name j with
      ⟨_ | _, later⟩
    · exact ⟨(.error .exit, later), by simp only [hset], rfl, rfl⟩
    · exact ⟨_, by simp only [hset], rfl, rfl⟩
  · exact absurd hword (Option.some_ne_none _).symm

theorem faultValue_mem {value : Str} {i : ℤ} (hword : faultValue name value = some i) :
    (name, i) ∈ faultOptions := by
  rw [faultValue] at hword
  split at hword
  · obtain ⟨⟨option, j⟩, hfind, rfl⟩ := Option.map_eq_some_iff.mp hword
    have hoption : name = option := by simpa using List.find?_some hfind
    subst hoption
    exact List.mem_of_find?_eq_some hfind
  · exact absurd hword (Option.some_ne_none _).symm

/-- A value that is read from a text is of the type. -/
theorem parseValue_fits {type : ConfigType D} {value : Str}
    (hparse : parseValue doubles type value = .ok val) : val.Fits type := by
  cases type with
  | int min max =>
    rw [parseValue] at hparse
    cases hint : getRangedInt value min max with
    | error r => rw [hint] at hparse; cases hparse
    | ok i => rw [hint] at hparse; cases hparse; trivial
  | double min max =>
    rw [parseValue] at hparse
    cases hdouble : getRangedDouble doubles value min max with
    | error r => rw [hdouble] at hparse; cases hparse
    | ok d => rw [hdouble] at hparse; cases hparse; trivial
  | string => cases hparse; trivial
  | enum values =>
    cases values with
    | none => cases hparse
    | some values =>
      rw [parseValue] at hparse
      split at hparse
      · cases hparse; trivial
      · cases hparse

/-- What has no value is refused, and changes nothing. -/
theorem Refines.refuseText (hrefines : Refines P doubles tab cfg st) (htab : SoundTable tab)
    (hunknown : Unknown tab cfg name) {value : Str} {commandline : Bool}
    (hnone : textValue doubles tab sect name value = none) :
    Agrees P doubles tab (parseItem doubles memory cfg commandline sect name value)
      (false, st) := by
  rw [textValue] at hnone
  split at hnone
  · exact absurd hnone (Option.some_ne_none _)
  rename_i hword
  rw [parseItem, parseFaultInterval_none hword]
  split at hnone
  · rename_i hnot
    simp only [hunknown hnot]
    exact ⟨rfl, hrefines⟩
  · rename_i entry hfind
    obtain ⟨hentry, rfl⟩ := htab.entryOf_eq_some.mp hfind
    obtain ⟨ref, old, -, hat, hglobal⟩ := hrefines.global htab hentry
    have htype : (entry.with old (st.locked entry.label)).type = entry.type := rfl
    have hport : (entry.with old (st.locked entry.label)).port = entry.port := rfl
    simp only [hglobal, htype, hport]
    cases hparse : parseValue doubles entry.type value with
    | error failure => exact ⟨rfl, hrefines⟩
    | ok val =>
      split at hnone
      · rename_i hforeign
        obtain ⟨s, rfl⟩ := Option.isSome_iff_exists.mp hforeign.1
        simp only [hforeign.2]
        exact ⟨rfl, hrefines⟩
      · rw [hparse] at hnone
        exact absurd hnone (Option.some_ne_none _)

/-! ## One setting -/

theorem Refines.parse (hrefines : Refines P doubles tab cfg st) (htab : SoundTable tab)
    (hunknown : Unknown tab cfg name) (hsect : Apart P sect) {value : Str}
    {commandline : Bool}
    (hcommandline : commandline = true → sect = none)
    (hheld : ∀ val, textValue doubles tab sect name value = some val → val.Held memory) :
    Agrees P doubles tab (parseItem doubles memory cfg commandline sect name value)
      (match textValue doubles tab sect name value with
        | none => (false, st)
        | some val =>
            st.accept memory sect name val (!commandline && (faultValue name value).isNone)) := by
  cases htext : textValue doubles tab sect name value with
  | none => exact hrefines.refuseText htab hunknown htext
  | some val =>
    have hholds := hheld val htext
    rw [textValue] at htext
    cases hword : faultValue name value with
    | some i =>
      rw [hword] at htext
      obtain rfl := Option.some.inj htext
      obtain ⟨entry, hentry, rfl, min, max, htype⟩ := htab.faults _ (faultValue_mem hword)
      obtain ⟨result, hparse, hok, hcfg⟩ :=
        @parseFaultInterval_some D doubles cfg memory _ sect value i hword
      have hset := @Refines.setInt D doubles tab P cfg st memory entry sect hrefines htab hsect
        hentry i (by rw [htype]; trivial)
      rw [parseItem, hparse, Option.isNone_some, Bool.and_false]
      exact ⟨hok.trans hset.1, hcfg ▸ hset.2⟩
    | none =>
      rw [hword] at htext
      cases hfind : entryOf tab name with
      | none =>
        rw [hfind] at htext
        exact absurd htext (Option.some_ne_none _).symm
      | some entry =>
        obtain ⟨hentry, rfl⟩ := htab.entryOf_eq_some.mp hfind
        rw [hfind] at htext
        simp only at htext
        split at htext
        · exact absurd htext (Option.some_ne_none _).symm
        · rename_i hport
          cases hparse : parseValue doubles entry.type value with
          | error failure =>
            rw [hparse] at htext
            exact absurd htext (Option.some_ne_none _).symm
          | ok parsed =>
            rw [hparse] at htext
            obtain rfl := Option.some.inj htext
            rw [Option.isNone_none, Bool.and_true]
            exact hrefines.storeText htab hsect hentry (parseValue_fits hparse) hholds
              hcommandline (parseFaultInterval_none hword) hport hparse

/-- A value that one of the setters stores for an option. -/
theorem Refines.setWhole (hrefines : Refines P doubles tab cfg st) (htab : SoundTable tab)
    (hentry : entry ∈ tab) (hfits : val.Fits entry.type) {ref : ℕ} {item : ConfigItem D}
    (hat : cfg.At (keyOf none entry.label) ref item)
    (hitem : item.with val true = entry.with val (st.locked entry.label || true)) :
    Agrees P doubles tab (.ok (), cfg.update ref fun ci => ci.with val true)
      (st.accept memory none entry.label val false) := by
  rw [Overrides.accept_whole]
  exact ⟨rfl, hrefines.put htab (fun s hs => by cases hs) hentry hfits hitem
    (PtpConfig.changes_update hrefines.placed hat _)⟩

theorem Refines.applyInt (hrefines : Refines Plain doubles tab cfg st) (htab : SoundTable tab)
    (hsect : Apart Plain sect) (i : ℤ) :
    Agrees Plain doubles tab ((Setting.int sect name i).apply doubles memory cfg)
      (st.set doubles tab memory (.int sect name i)) := by
  rw [Setting.apply, Overrides.set, Setting.value]
  cases hfind : entryOf tab name with
  | none =>
    have hunknown : configFindItem cfg none name = none := hrefines.unknown htab hfind
    rw [configSetSectionInt, hunknown]
    exact ⟨rfl, hrefines⟩
  | some entry =>
    obtain ⟨hentry, rfl⟩ := htab.entryOf_eq_some.mp hfind
    obtain ⟨ref, old, -, -, hglobal⟩ := hrefines.global htab hentry
    have hfound : configFindItem cfg none entry.label = _ := hglobal
    have htype : (entry.with old (st.locked entry.label)).type = entry.type := rfl
    rw [Option.map_some]
    cases hkind : entry.type with
    | int min max => exact hrefines.setInt htab hsect hentry (by rw [hkind]; trivial)
    | enum values => exact hrefines.setInt htab hsect hentry (by rw [hkind]; trivial)
    | double min max =>
      rw [configSetSectionInt, hfound]
      simp only [htype, hkind]
      exact ⟨rfl, hrefines⟩
    | string =>
      rw [configSetSectionInt, hfound]
      simp only [htype, hkind]
      exact ⟨rfl, hrefines⟩

theorem with_locks (val : Value D) :
    (fun ci : ConfigItem D => { ci with locked := true, val := val }) =
      fun ci => ci.with val true := by
  funext ci
  rw [ConfigItem.with, Bool.or_true]

theorem Refines.applyDouble (hrefines : Refines Plain doubles tab cfg st) (htab : SoundTable tab)
    (d : D) :
    Agrees Plain doubles tab ((Setting.double name d).apply doubles memory cfg)
      (st.set doubles tab memory (.double name d)) := by
  rw [Setting.apply, Overrides.set, Setting.value]
  cases hfind : entryOf tab name with
  | none =>
    have hunknown : configFindItem cfg none name = none := hrefines.unknown htab hfind
    rw [configSetDouble, hunknown]
    exact ⟨rfl, hrefines⟩
  | some entry =>
    obtain ⟨hentry, rfl⟩ := htab.entryOf_eq_some.mp hfind
    obtain ⟨ref, old, -, hat, hglobal⟩ := hrefines.global htab hentry
    have hfound : configFindItem cfg none entry.label = _ := hglobal
    rw [Option.map_some, configSetDouble, hfound, ConfigItem.with]
    cases hkind : entry.type with
    | double min max =>
      simp only [with_locks]
      exact hrefines.setWhole htab hentry (by rw [hkind]; trivial) hat (with_with ..)
    | int min max => exact ⟨rfl, hrefines⟩
    | enum values => exact ⟨rfl, hrefines⟩
    | string => exact ⟨rfl, hrefines⟩

theorem Refines.applyString (hrefines : Refines Plain doubles tab cfg st) (htab : SoundTable tab)
    (s : Str)
    (hheld : ∀ val, (Setting.string name s).value doubles tab = some val → val.Held memory) :
    Agrees Plain doubles tab ((Setting.string name s).apply doubles memory cfg)
      (st.set doubles tab memory (.string name s)) := by
  rw [Setting.value] at hheld
  rw [Setting.apply, Overrides.set, Setting.value]
  cases hfind : entryOf tab name with
  | none =>
    have hunknown : configFindItem cfg none name = none := hrefines.unknown htab hfind
    rw [configSetString, hunknown]
    exact ⟨rfl, hrefines⟩
  | some entry =>
    obtain ⟨hentry, rfl⟩ := htab.entryOf_eq_some.mp hfind
    obtain ⟨ref, old, -, hat, hglobal⟩ := hrefines.global htab hentry
    have hfound : configFindItem cfg none entry.label = _ := hglobal
    rw [hfind, Option.map_some] at hheld
    rw [Option.map_some, configSetString, hfound, ConfigItem.with]
    cases hkind : entry.type with
    | string =>
      rw [hkind] at hheld
      have htext : memory.text = true := hheld _ rfl
      simp only [strdup, htext, with_locks]
      exact hrefines.setWhole htab hentry (by rw [hkind]; trivial) hat (with_with ..)
    | int min max => exact ⟨rfl, hrefines⟩
    | enum values => exact ⟨rfl, hrefines⟩
    | double min max => exact ⟨rfl, hrefines⟩

/-- A setting has the outcome that it has for the overrides. -/
theorem Refines.apply (hrefines : Refines Plain doubles tab cfg st) (htab : SoundTable tab)
    (setting : Setting D) (hsect : Apart Plain setting.sect)
    (hheld : ∀ val, setting.value doubles tab = some val → val.Held memory) :
    Agrees Plain doubles tab (setting.apply doubles memory cfg)
      (st.set doubles tab memory setting) := by
  cases setting with
  | option name value => exact hrefines.parse htab (hrefines.unknown htab) hsect (fun _ => rfl) hheld
  | line sect name value =>
    exact hrefines.parse htab (hrefines.unknown htab) hsect (fun hnot => absurd hnot Bool.false_ne_true) hheld
  | int sect name i => exact hrefines.applyInt htab hsect i
  | double name d => exact hrefines.applyDouble htab d
  | string name s => exact hrefines.applyString htab s hheld

end

end LinuxPtp.Config
