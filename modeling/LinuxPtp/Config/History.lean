import LinuxPtp.Config.Simulation

/-!
# Options through a sequence of settings

Whatever is set in whatever order, a getter returns the value of the section if one was
accepted there, and that of the option otherwise.
-/

namespace LinuxPtp.Config

section

variable {D : Type} {doubles : Doubles D} {tab : List (ConfigItem D)} {P : Str → Prop}
variable {cfg cfg' : PtpConfig D} {st : Overrides D} {memory : Supply}
variable {entry : ConfigItem D} {name : Str} {sect : Option Str} {val : Value D}

/-! ## Getters -/

def Value.asInt : Value D → Option ℤ
  | .int i => some i
  | _ => none

def Value.asDouble : Value D → Option D
  | .double d => some d
  | _ => none

def Value.asString : Value D → Option (Option Str)
  | .string s => some s
  | _ => none

theorem Value.Fits.unbounded {type : ConfigType D} (hfits : val.Fits type) :
    val.Fits (type.unbounded doubles) := by
  cases type <;> cases val <;> exact hfits

/-- The item that a getter finds has the value of the overrides. -/
theorem Refines.find (hrefines : Refines P doubles tab cfg st) (htab : SoundTable tab)
    (hsect : ∀ s ∈ sect, SectionName s) (hentry : entry ∈ tab) :
    ∃ found val, configFindItem cfg sect entry.label = some found ∧
      st.get sect entry.label = some val ∧ found.item.val = val ∧
      val.Fits found.item.type := by
  obtain ⟨ref, val, hval, hat, hglobal⟩ := hrefines.global htab hentry
  have hfits := hrefines.fits entry hentry none val hval
  cases sect with
  | none => exact ⟨_, val, hglobal, hval, rfl, hfits⟩
  | some s =>
    have hname := hsect s rfl
    have hkey := @itemKey_eq_keyOf entry.label (some s) hsect (htab.short hentry)
    rw [keyOf, Option.getD_some] at hkey
    have hpart := hrefines.parts entry hentry s hname
    rw [configFindItem, Overrides.get]
    cases hvalue : st.value (some s) entry.label with
    | some own =>
      rw [hvalue] at hpart
      obtain ⟨ref', hat'⟩ := PtpConfig.exists_at hpart
      have hfound : configSectionItem cfg s entry.label = some ⟨ref', _⟩ :=
        PtpConfig.configSectionItem_eq_some.mpr ⟨(congrArg _ hkey).trans hat'.lookup, hat'.item⟩
      rw [hfound]
      exact ⟨_, own, rfl, rfl, rfl, (hrefines.fits entry hentry _ own hvalue).unbounded⟩
    | none =>
      rw [hvalue, Option.map_none] at hpart
      rw [(PtpConfig.configSectionItem_eq_none hrefines.placed).mpr
        ((congrArg _ hkey).trans hpart), hval]
      exact ⟨_, val, hglobal, rfl, rfl, hfits⟩

/-- The getters return what the overrides have. -/
structure Reads (tab : List (ConfigItem D)) (cfg : PtpConfig D) (st : Overrides D) : Prop where
  int : ∀ entry ∈ tab, ∀ sect, (∀ s ∈ sect, SectionName s) →
    configGetInt cfg sect entry.label = (st.get sect entry.label).bind Value.asInt
  double : ∀ entry ∈ tab, ∀ sect, (∀ s ∈ sect, SectionName s) →
    configGetDouble cfg sect entry.label = (st.get sect entry.label).bind Value.asDouble
  string : ∀ entry ∈ tab, ∀ sect, (∀ s ∈ sect, SectionName s) →
    configGetString cfg sect entry.label = (st.get sect entry.label).bind Value.asString

theorem Refines.reads (hrefines : Refines P doubles tab cfg st) (htab : SoundTable tab) :
    Reads tab cfg st where
  int entry hentry sect hsect := by
    obtain ⟨⟨ref, item⟩, val, hfind, hget, rfl, hfits⟩ := hrefines.find htab hsect hentry
    rw [configGetInt, hfind, hget, Option.bind_some]
    obtain ⟨label, type, port, locked, val⟩ := item
    cases type <;> cases val <;> first | rfl | exact hfits.elim
  double entry hentry sect hsect := by
    obtain ⟨⟨ref, item⟩, val, hfind, hget, rfl, hfits⟩ := hrefines.find htab hsect hentry
    rw [configGetDouble, hfind, hget, Option.bind_some]
    obtain ⟨label, type, port, locked, val⟩ := item
    cases type <;> cases val <;> first | rfl | exact hfits.elim
  string entry hentry sect hsect := by
    obtain ⟨⟨ref, item⟩, val, hfind, hget, rfl, hfits⟩ := hrefines.find htab hsect hentry
    rw [configGetString, hfind, hget, Option.bind_some]
    obtain ⟨label, type, port, locked, val⟩ := item
    cases type <;> cases val <;> first | rfl | exact hfits.elim

/-! ## Creation -/

/-- The options with their defaults. -/
def startOverrides (tab : List (ConfigItem D)) : Overrides D where
  value sect name :=
    match sect with
    | none => (entryOf tab name).map ConfigItem.val
    | some _ => none
  locked _ := false

theorem itemKey_populate (hshort : name.length ≤ 30) :
    itemKey (configLabelSize + 8) globalName name = keyOf none name := by
  have hglobal : globalName.length = 6 := by decide
  exact itemKey_eq (by simp only [configLabelSize, hglobal]; omega)

/-- The keys of the table lead to the places there. -/
theorem populate_lookup {memory : ℕ → Bool} {i : ℕ}
    {htab htab' : ChainedTable Str ℕ hashFunction}
    (hshort : ∀ entry ∈ tab, entry.label.length ≤ 30)
    (hpopulate : populate memory i tab htab = some htab') (key : Str) (ref : ℕ) :
    htab'.lookup key = some ref ↔
      htab.lookup key = some ref ∨
        i ≤ ref ∧ ∃ entry, tab[ref - i]? = some entry ∧ key = keyOf none entry.label := by
  induction tab generalizing i htab with
  | nil =>
    obtain rfl := Option.some.inj hpopulate
    simp
  | cons first rest ih =>
    rw [populate, Option.bind_eq_bind, Option.bind_eq_some_iff] at hpopulate
    obtain ⟨htab₁, hinsert, hrest⟩ := hpopulate
    rw [itemKey_populate (hshort first List.mem_cons_self)] at hinsert
    obtain ⟨hnew, -⟩ := ChainedTable.insert_eq_some hinsert
    rw [ih (fun entry hentry => hshort entry (List.mem_cons_of_mem _ hentry)) hrest,
      ChainedTable.lookup_insert hinsert]
    constructor
    · rintro (hlookup | ⟨hle, entry, hentry, hkey⟩)
      · split at hlookup
        · rename_i hkey
          obtain rfl := Option.some.inj hlookup
          exact Or.inr ⟨le_rfl, first, by rw [Nat.sub_self]; rfl, hkey⟩
        · exact Or.inl hlookup
      · refine Or.inr ⟨Nat.le_of_succ_le hle, entry, ?_, hkey⟩
        rw [show ref - i = ref - (i + 1) + 1 by omega, List.getElem?_cons_succ]
        exact hentry
    · rintro (hlookup | ⟨hle, entry, hentry, hkey⟩)
      · have hother : key ≠ keyOf none first.label := by
          rintro rfl
          rw [hnew] at hlookup
          exact Option.some_ne_none _ hlookup.symm
        rw [if_neg hother]
        exact Or.inl hlookup
      · rcases Nat.eq_or_lt_of_le hle with rfl | hlt
        · rw [Nat.sub_self, List.getElem?_cons_zero] at hentry
          obtain rfl := Option.some.inj hentry
          rw [if_pos hkey]
          exact Or.inl rfl
        · refine Or.inr ⟨hlt, entry, ?_, hkey⟩
          rw [show ref - i = ref - (i + 1) + 1 by omega, List.getElem?_cons_succ] at hentry
          exact hentry

theorem startOverrides_whole (tab : List (ConfigItem D)) (name : Str) :
    (startOverrides tab).value none name = (entryOf tab name).map ConfigItem.val := rfl

theorem with_own (entry : ConfigItem D) : entry.with entry.val false = entry := by
  rw [ConfigItem.with, Bool.or_false]

/-- A new store has the options with their defaults. -/
theorem refines_configCreate {memory : ℕ → Bool} (htab : SoundTable tab)
    (hcreate : configCreate memory tab = some cfg) :
    Refines Plain doubles tab cfg (startOverrides tab) := by
  rw [configCreate, Option.bind_eq_bind, Option.bind_eq_some_iff] at hcreate
  obtain ⟨htable, hpopulate, hself⟩ := hcreate
  have hcfg : cfg = { items := tab, htab := htable } := by
    dsimp only at hself
    split at hself
    · exact (Option.some.inj hself).symm
    · exact absurd hself (Option.some_ne_none _).symm
  subst hcfg
  have hlookup : ∀ key ref, htable.lookup key = some ref ↔
      ∃ entry, tab[ref]? = some entry ∧ key = keyOf none entry.label := fun key ref => by
    rw [populate_lookup (fun entry hentry => htab.short hentry) hpopulate]
    simp
  have hentryOf : ∀ entry ∈ tab, entryOf tab entry.label = some entry :=
    fun entry hentry => htab.entryOf_eq_some.mpr ⟨hentry, rfl⟩
  exact
    { placed :=
        { valid := fun key ref hkey => by
            obtain ⟨entry, hentry, -⟩ := (hlookup key ref).mp hkey
            exact (List.getElem?_eq_some_iff.mp hentry).1
          apart := fun key key' ref hkey hkey' => by
            obtain ⟨entry, hentry, rfl⟩ := (hlookup key ref).mp hkey
            obtain ⟨entry', hentry', rfl⟩ := (hlookup key' ref).mp hkey'
            rw [hentry] at hentry'
            rw [Option.some.inj hentry'] }
      whole := fun entry hentry => by
        obtain ⟨ref, hplace⟩ := List.getElem?_of_mem hentry
        refine ⟨entry.val, by
          rw [startOverrides_whole, hentryOf entry hentry, Option.map_some], ?_⟩
        rw [startOverrides, with_own]
        exact PtpConfig.At.itemAt ⟨(hlookup _ ref).mpr ⟨entry, hplace, rfl⟩, hplace⟩
      parts := fun entry hentry s hs => by
        rw [startOverrides, Option.map_none, PtpConfig.itemAt]
        cases hfound : htable.lookup (keyOf (some s) entry.label) with
        | none => rfl
        | some ref =>
          obtain ⟨entry', hentry', hkey⟩ := (hlookup _ ref).mp hfound
          have := htab.keyOf_inj (fun t ht => Option.some.inj ht ▸ hs)
            (fun t ht => absurd ht.symm (Option.some_ne_none t)) hentry
            (List.mem_of_getElem? hentry') hkey
          exact absurd this.1 (Option.some_ne_none s)
      known := fun key item hitem => by
        obtain ⟨ref, hkey, hplace⟩ := Option.bind_eq_some_iff.mp hitem
        obtain ⟨entry, hentry, rfl⟩ := (hlookup key ref).mp hkey
        exact ⟨none, fun s hs => absurd hs.symm (Option.some_ne_none s), entry,
          List.mem_of_getElem? hentry, rfl⟩
      fits := fun entry hentry sect val hval => by
        cases sect with
        | none =>
          rw [startOverrides_whole, hentryOf entry hentry] at hval
          exact Option.some.inj hval ▸ htab.fits entry hentry
        | some s => exact absurd hval (Option.some_ne_none val).symm }

/-! ## Sequences of settings -/

/-- Settings one after the other, each with the memory there is: whether they are
accepted, and the store in the end. -/
def applyAll (doubles : Doubles D) : List (Supply × Setting D) → PtpConfig D →
    List Bool × PtpConfig D
  | [], cfg => ([], cfg)
  | (memory, setting) :: rest, cfg =>
      let result := setting.apply doubles memory cfg
      let later := applyAll doubles rest result.2
      (result.1.isOk :: later.1, later.2)

def setAll (doubles : Doubles D) (tab : List (ConfigItem D)) :
    List (Supply × Setting D) → Overrides D → List Bool × Overrides D
  | [], st => ([], st)
  | (memory, setting) :: rest, st =>
      let result := st.set doubles tab memory setting
      let later := setAll doubles tab rest result.2
      (result.1 :: later.1, later.2)

/-- A setting that the overrides follow: its section does not look like a part of the
global one, and there is memory for its text. -/
structure Setting.Plain (doubles : Doubles D) (tab : List (ConfigItem D)) (memory : Supply)
    (setting : Setting D) : Prop where
  apart : Apart Config.Plain setting.sect
  held : ∀ val, setting.value doubles tab = some val → val.Held memory

/-- The store follows the overrides through a sequence of settings. -/
theorem Refines.applyAll (htab : SoundTable tab) {requests : List (Supply × Setting D)}
    (hrefines : Refines Plain doubles tab cfg st)
    (hplain : ∀ request ∈ requests, request.2.Plain doubles tab request.1) :
    (applyAll doubles requests cfg).1 = (setAll doubles tab requests st).1 ∧
      Refines Plain doubles tab (Config.applyAll doubles requests cfg).2
        (setAll doubles tab requests st).2 := by
  induction requests generalizing cfg st with
  | nil => exact ⟨rfl, hrefines⟩
  | cons request rest ih =>
    obtain ⟨memory, setting⟩ := request
    obtain ⟨hfirst, hrest⟩ := List.forall_mem_cons.mp hplain
    obtain ⟨hok, hnext⟩ := hrefines.apply htab setting hfirst.apart hfirst.held
    obtain ⟨hlater, hend⟩ := ih hnext hrest
    exact ⟨congrArg₂ _ hok hlater, hend⟩

end

end LinuxPtp.Config
