import LinuxPtp.Config.File
import LinuxPtp.Config.Lookups

/-!
# The command line before files

Options that are set on the command line are locked.  The lines of a file that come
after it change the other options only, but for the word for an interval of faults and
for a port whose name is that of the global section.
-/

namespace LinuxPtp.Config

section

variable {D : Type} {doubles : Doubles D} {tab : List (ConfigItem D)} {P : Str → Prop}
variable {cfg cfg' : PtpConfig D} {st : Overrides D} {memory : Supply}
variable {entry : ConfigItem D} {name option value : Str} {sect : Option Str}
variable {requests : List (Supply × Setting D)}

/-! ## The command line -/

/-- A setting of the command line. -/
def Setting.OfCommandLine : Setting D → Prop
  | .line _ _ _ => False
  | .int sect _ _ => sect = none
  | _ => True

theorem Setting.OfCommandLine.whole {setting : Setting D} (hsetting : setting.OfCommandLine) :
    setting.sect = none := by
  cases setting with
  | line sect name value => exact hsetting.elim
  | int sect name val => exact hsetting
  | option name value => rfl
  | double name val => rfl
  | string name val => rfl

theorem Setting.OfCommandLine.stays {setting : Setting D} (hsetting : setting.OfCommandLine) :
    setting.yields = false := by
  cases setting with
  | line sect name value => exact hsetting.elim
  | int sect name val => rfl
  | option name value => rfl
  | double name val => rfl
  | string name val => rfl

theorem set_whole {setting : Setting D} (hsetting : setting.OfCommandLine) (name : Str) :
    (st.set doubles tab memory setting).2.value none name =
        (if (st.set doubles tab memory setting).1 ∧ setting.sect = none ∧
            setting.name = name then setting.value doubles tab
          else none).or (st.value none name) ∧
      (st.set doubles tab memory setting).2.locked name =
        (st.locked name ||
          (if (st.set doubles tab memory setting).1 ∧ setting.sect = none ∧
              setting.name = name then setting.value doubles tab
            else none).isSome) := by
  cases hvalue : setting.value doubles tab with
  | none =>
    simp only [Overrides.set, hvalue, ite_self, Option.none_or, Option.isSome_none,
      Bool.or_false, and_self]
  | some val =>
    simp only [Overrides.set, hvalue, hsetting.whole, hsetting.stays, Overrides.accept_whole,
      Bool.false_and]
    by_cases hsame : setting.name = name
    · subst hsame
      simp [Overrides.put]
    · have hother : (name == setting.name) = false :=
        beq_eq_false_iff_ne.mpr (Ne.symm hsame)
      simp [Overrides.put, hsame, Ne.symm hsame]

/-- After the command line an option has the value that was accepted last for it there,
and is locked if there is one. -/
theorem setAll_whole (hrequests : ∀ request ∈ requests, request.2.OfCommandLine)
    (name : Str) :
    (setAll doubles tab requests st).2.value none name =
        (lastAccepted doubles tab none name requests
          (setAll doubles tab requests st).1).or (st.value none name) ∧
      (setAll doubles tab requests st).2.locked name =
        (st.locked name ||
          (lastAccepted doubles tab none name requests
            (setAll doubles tab requests st).1).isSome) := by
  induction requests generalizing st with
  | nil => exact ⟨rfl, (Bool.or_false _).symm⟩
  | cons request rest ih =>
    obtain ⟨memory, setting⟩ := request
    obtain ⟨hfirst, hrest⟩ := List.forall_mem_cons.mp hrequests
    obtain ⟨hvalue, hlocked⟩ := @set_whole D doubles tab st memory setting hfirst name
    obtain ⟨hlater, hkept⟩ := @ih (st.set doubles tab memory setting).2 hrest
    rw [setAll, lastAccepted, hlater, hkept, hvalue, hlocked, Option.or_assoc]
    refine ⟨rfl, ?_⟩
    rw [Option.isSome_or, Bool.or_assoc, Bool.or_comm (Option.isSome _)]

/-! ## Lines of a file -/

def AnyName (_ : Str) : Prop := True

theorem Refines.mono (hrefines : Refines P doubles tab cfg st) :
    Refines AnyName doubles tab cfg st where
  placed := hrefines.placed
  whole := hrefines.whole
  parts := hrefines.parts
  known key item hitem := by
    obtain ⟨sect, hsect, hentry⟩ := hrefines.known key item hitem
    exact ⟨sect, fun s hs => ⟨(hsect s hs).1, trivial⟩, hentry⟩
  fits := hrefines.fits

/-- What is the same for the options themselves. -/
structure SameWhole (st st' : Overrides D) : Prop where
  value : st'.value none = st.value none
  locked : st'.locked = st.locked

theorem SameWhole.refl (st : Overrides D) : SameWhole st st := ⟨rfl, rfl⟩

theorem SameWhole.put (st : Overrides D) (s name : Str) (val : Value D) (locks : Bool) :
    SameWhole st (st.put (some s) name val locks) where
  value := by
    funext name'
    exact get_put_other fun hnot => absurd hnot.1.symm (Option.some_ne_none s)
  locked := by
    funext name'
    exact locked_put_other fun hnot => absurd hnot.1.symm (Option.some_ne_none s)

theorem fits_of_unbounded {val : Value D} {type : ConfigType D}
    (hfits : val.Fits (type.unbounded doubles)) : val.Fits type := by
  cases type <;> cases val <;> exact hfits

/-- What is found under an unknown name is the item of a section. -/
theorem Refines.found (hrefines : Refines P doubles tab cfg st) (htab : SoundTable tab)
    (hunknown : entryOf tab name = none) {found : Found D}
    (hfound : configGlobalItem cfg name = some found) :
    ∃ s, SectionName s ∧ P s ∧ ∃ entry ∈ tab, ∃ val,
      cfg.At (keyOf (some s) entry.label) found.ref found.item ∧
        found.item = (newItem doubles entry.label entry.type).with val false := by
  obtain ⟨hlookup, hitem⟩ := PtpConfig.configSectionItem_eq_some.mp hfound
  have hat : cfg.At _ found.ref found.item := ⟨hlookup, hitem⟩
  obtain ⟨sect, hsect, entry, hentry, hkey⟩ := hrefines.known _ _ hat.itemAt
  cases sect with
  | none =>
    have hname := @itemKey_global_eq_keyOf D entry name none
      (fun s hs => absurd hs.symm (Option.some_ne_none s)) (htab.short hentry) hkey
    exact absurd hname.symm (entryOf_eq_none hunknown entry hentry)
  | some s =>
    obtain ⟨hname, hs⟩ := hsect s rfl
    rw [hkey] at hat
    have hpart := hrefines.parts entry hentry s hname
    rw [hat.itemAt] at hpart
    obtain ⟨val, -, hitem⟩ := Option.map_eq_some_iff.mp hpart.symm
    exact ⟨s, hname, hs, entry, hentry, val, hat, hitem.symm⟩

theorem SoundTable.faultValue_unknown (htab : SoundTable tab)
    (hunknown : entryOf tab option = none) (value : Str) :
    faultValue option value = none := by
  cases hvalue : faultValue option value with
  | none => rfl
  | some i =>
    obtain ⟨entry, hentry, hlabel, -⟩ := htab.faults _ (faultValue_mem hvalue)
    exact absurd hlabel (entryOf_eq_none hunknown entry hentry)

/-- A line with an unknown option leaves the options as they are. -/
theorem Refines.lineUnknown (hrefines : Refines AnyName doubles tab cfg st)
    (htab : SoundTable tab) (hunknown : entryOf tab option = none)
    (htext : memory.text = true) :
    ∃ st', Refines AnyName doubles tab
        (parseItem doubles memory cfg false sect option value).2 st' ∧ SameWhole st st' := by
  rw [parseItem, parseFaultInterval_none (htab.faultValue_unknown hunknown value)]
  cases hfound : configGlobalItem cfg option with
  | none => exact ⟨st, hrefines, SameWhole.refl st⟩
  | some found =>
    obtain ⟨s, hs, -, entry, hentry, val, hat, hitem⟩ :=
      hrefines.found htab hunknown hfound
    obtain ⟨ref, item⟩ := found
    simp only at hat hitem ⊢
    subst hitem
    have htype : ((newItem doubles entry.label entry.type).with val false).type =
        entry.type.unbounded doubles := rfl
    have hport : ((newItem doubles entry.label entry.type).with val false).port = false := rfl
    have hlocked : ((newItem doubles entry.label entry.type).with val false).locked = false :=
      rfl
    simp only [htype, hport, hlocked]
    cases hparse : parseValue doubles (entry.type.unbounded doubles) value with
    | error failure => exact ⟨st, hrefines, SameWhole.refl st⟩
    | ok new =>
      cases sect with
      | some s' => exact ⟨st, hrefines, SameWhole.refl st⟩
      | none =>
        simp only [storeValue_eq (held_of_text htext)]
        refine ⟨st.put (some s) entry.label new false, ?_, SameWhole.put st s _ new false⟩
        refine hrefines.put htab (fun t ht => Option.some.inj ht ▸ ⟨hs, trivial⟩) hentry
          (fits_of_unbounded (parseValue_fits hparse)) ?_
          (PtpConfig.changes_update hrefines.placed hat _)
        rw [with_with]
        rfl

/-! ## What a file leaves -/

/-- A line of the global section with the word for an interval of faults. -/
def FileSetting.IsWord (setting : FileSetting) : Prop :=
  setting.sect = none ∧ (faultValue setting.option setting.value).isSome

instance (setting : FileSetting) : Decidable setting.IsWord :=
  inferInstanceAs (Decidable (_ ∧ _))

/-- What a setting gives an option. -/
def FileSetting.given (doubles : Doubles D) (tab : List (ConfigItem D)) (name : Str)
    (setting : FileSetting) : Option (Value D) :=
  if setting.sect = none ∧ setting.option = name then
    textValue doubles tab none setting.option setting.value
  else none

def lastTaken (doubles : Doubles D) (tab : List (ConfigItem D)) (name : Str) :
    List FileSetting → Option (Value D)
  | [] => none
  | setting :: rest =>
      (lastTaken doubles tab name rest).or (setting.given doubles tab name)

variable {start : Overrides D} {taken : List FileSetting} {setting : FileSetting}

theorem lastTaken_append (taken : List FileSetting) (setting : FileSetting) (name : Str) :
    lastTaken doubles tab name (taken ++ [setting]) =
      (setting.given doubles tab name).or (lastTaken doubles tab name taken) := by
  induction taken with
  | nil => simp [lastTaken]
  | cons first rest ih => rw [List.cons_append, lastTaken, ih, lastTaken, Option.or_assoc]

/-- Options that were locked at the start are as they were, and the others have the last
value that was taken from the file. -/
structure Follows (doubles : Doubles D) (tab : List (ConfigItem D)) (start : Overrides D)
    (taken : List FileSetting) (st : Overrides D) : Prop where
  locked : ∀ name, start.locked name = true →
    st.locked name = true ∧ st.value none name = start.value none name
  free : ∀ name, start.locked name = false →
    st.value none name = (lastTaken doubles tab name taken).or (start.value none name)
  words : ∀ name, start.locked name = false → st.locked name = true →
    ∃ word ∈ taken, word.IsWord ∧ word.option = name

theorem Follows.refl (start : Overrides D) : Follows doubles tab start [] start where
  locked _ hlocked := ⟨hlocked, rfl⟩
  free _ _ := rfl
  words _ hfree hlocked := absurd (hfree.symm.trans hlocked) Bool.false_ne_true

/-- A setting that does not change the options themselves. -/
theorem Follows.same {st' : Overrides D} (hfollows : Follows doubles tab start taken st)
    (hsame : SameWhole st st') (hgives : ∀ name, setting.given doubles tab name = none) :
    Follows doubles tab start taken st' ∧
      Follows doubles tab start (taken ++ [setting]) st' := by
  have hkeep : Follows doubles tab start taken st' :=
    { locked := fun name hlocked => by
        rw [hsame.locked, hsame.value]
        exact hfollows.locked name hlocked
      free := fun name hfree => by
        rw [hsame.value]
        exact hfollows.free name hfree
      words := fun name hfree hlocked =>
        hfollows.words name hfree (hsame.locked ▸ hlocked) }
  refine ⟨hkeep, ?_⟩
  exact
    { locked := hkeep.locked
      free := fun name hfree => by
        rw [lastTaken_append, hgives, Option.none_or]
        exact hkeep.free name hfree
      words := fun name hfree hlocked => by
        obtain ⟨word, hword, his⟩ := hkeep.words name hfree hlocked
        exact ⟨word, List.mem_append_left _ hword, his⟩ }

/-- A line for an option that is locked from the start. -/
theorem Follows.ignored (hfollows : Follows doubles tab start taken st)
    (hlocked : start.locked setting.option = true) :
    Follows doubles tab start (taken ++ [setting]) st where
  locked := hfollows.locked
  free name hfree := by
    have hother : setting.option ≠ name := by
      rintro rfl
      exact absurd (hfree.symm.trans hlocked) Bool.false_ne_true
    rw [lastTaken_append, FileSetting.given, if_neg fun hnot => hother hnot.2,
      Option.none_or]
    exact hfollows.free name hfree
  words name hfree hset := by
    obtain ⟨word, hword, his⟩ := hfollows.words name hfree hset
    exact ⟨word, List.mem_append_left _ hword, his⟩

/-- A line whose value is stored for an option that was not locked at the start. -/
theorem Follows.stored {val : Value D} {locks : Bool}
    (hfollows : Follows doubles tab start taken st)
    (hfree : start.locked setting.option = false) (hsect : setting.sect = none)
    (hval : textValue doubles tab none setting.option setting.value = some val)
    (hlocks : locks = true → setting.IsWord) :
    Follows doubles tab start (taken ++ [setting])
      (st.put none setting.option val locks) where
  locked name hlocked := by
    have hother : ¬(none = (none : Option Str) ∧ name = setting.option) := by
      rintro ⟨-, rfl⟩
      exact absurd (hfree.symm.trans hlocked) Bool.false_ne_true
    rw [locked_put_other hother, get_put_other hother]
    exact hfollows.locked name hlocked
  free name hname := by
    rw [lastTaken_append, FileSetting.given]
    by_cases hsame : setting.option = name
    · subst hsame
      rw [if_pos ⟨hsect, rfl⟩, hval, get_put_self]
      rfl
    · rw [if_neg fun hnot => hsame hnot.2, Option.none_or,
        get_put_other fun hnot => hsame hnot.2.symm]
      exact hfollows.free name hname
  words name hname hset := by
    by_cases hsame : name = setting.option
    · subst hsame
      cases hold : st.locked setting.option with
      | true =>
        obtain ⟨word, hword, his⟩ := hfollows.words _ hname hold
        exact ⟨word, List.mem_append_left _ hword, his⟩
      | false =>
        have hnow : locks = true := by simpa [Overrides.put, hold] using hset
        exact ⟨setting, List.mem_append_right _ (List.mem_singleton_self _), hlocks hnow, rfl⟩
    · rw [locked_put_other fun hnot => hsame hnot.2] at hset
      obtain ⟨word, hword, his⟩ := hfollows.words name hname hset
      exact ⟨word, List.mem_append_left _ hword, his⟩

/-- What a setting of a file does: the options follow with it when it is accepted, and
without it when it is not. -/
def Keeps (doubles : Doubles D) (tab : List (ConfigItem D)) (start : Overrides D)
    (taken : List FileSetting) (setting : FileSetting)
    (result : Except Refusal Unit × PtpConfig D) : Prop :=
  ∃ st', Refines AnyName doubles tab result.2 st' ∧
    Follows doubles tab start (if result.1.isOk then taken ++ [setting] else taken) st'

theorem Keeps.of_same {st' : Overrides D} {result : Except Refusal Unit × PtpConfig D}
    (hrefines : Refines AnyName doubles tab result.2 st')
    (hfollows : Follows doubles tab start taken st) (hsame : SameWhole st st')
    (hgives : ∀ name, setting.given doubles tab name = none) :
    Keeps doubles tab start taken setting result := by
  obtain ⟨hkeep, htake⟩ := hfollows.same hsame hgives
  refine ⟨st', hrefines, ?_⟩
  split
  · exact htake
  · exact hkeep

theorem given_none_of_sect (hsect : setting.sect ≠ none) (name : Str) :
    setting.given doubles tab name = none :=
  if_neg fun hnot => hsect hnot.1

/-- A setting in the section of a port. -/
theorem Follows.part {s : Str} (hfollows : Follows doubles tab start taken st)
    (hrefines : Refines AnyName doubles tab cfg st) (htab : SoundTable tab)
    (hsect : setting.sect = some s) (hname : SectionName s) (htext : memory.text = true) :
    Keeps doubles tab start taken setting
      (parseItem doubles memory cfg false setting.sect setting.option setting.value) := by
  have hgives := @given_none_of_sect D doubles tab setting
    (hsect ▸ Option.some_ne_none s)
  rw [hsect]
  cases hfind : entryOf tab setting.option with
  | none =>
    obtain ⟨st', hnext, hsame⟩ := hrefines.lineUnknown htab hfind htext
    exact Keeps.of_same hnext hfollows hsame hgives
  | some entry =>
    have hunknown : Unknown tab cfg setting.option := fun hnot =>
      absurd (hfind.symm.trans hnot) (Option.some_ne_none entry)
    obtain ⟨-, hnext⟩ := @Refines.parse D doubles tab AnyName cfg st memory setting.option (some s)
      hrefines htab hunknown
      (fun t ht => Option.some.inj ht ▸ ⟨hname, trivial⟩) setting.value false
      (fun hnot => absurd hnot Bool.false_ne_true) (fun val _ => held_of_text htext)
    refine Keeps.of_same hnext hfollows ?_ hgives
    split
    · exact SameWhole.refl st
    · rw [Overrides.accept_part]
      split
      · exact SameWhole.refl st
      · exact SameWhole.put st s _ _ _

/-- A setting in the global section. -/
theorem Follows.whole (hfollows : Follows doubles tab start taken st)
    (hrefines : Refines AnyName doubles tab cfg st) (htab : SoundTable tab)
    (hsect : setting.sect = none) (htext : memory.text = true)
    (hword : setting.IsWord → start.locked setting.option = false)
    (hlast : ∀ word ∈ taken, word.IsWord → word.option = setting.option → setting.IsWord) :
    Keeps doubles tab start taken setting
      (parseItem doubles memory cfg false setting.sect setting.option setting.value) := by
  rw [hsect]
  cases hfind : entryOf tab setting.option with
  | none =>
    obtain ⟨st', hnext, hsame⟩ := hrefines.lineUnknown htab hfind htext
    refine Keeps.of_same hnext hfollows hsame fun name => ?_
    rw [FileSetting.given, textValue, htab.faultValue_unknown hfind, hfind]
    exact ite_self none
  | some entry =>
    have hunknown : Unknown tab cfg setting.option := fun hnot =>
      absurd (hfind.symm.trans hnot) (Option.some_ne_none entry)
    obtain ⟨hok, hnext⟩ := @Refines.parse D doubles tab AnyName cfg st memory setting.option none
      hrefines htab hunknown
      (fun t ht => absurd ht.symm (Option.some_ne_none t)) setting.value false
      (fun hnot => absurd hnot Bool.false_ne_true) (fun val _ => held_of_text htext)
    refine ⟨_, hnext, ?_⟩
    rw [hok]
    cases hvalue : textValue doubles tab none setting.option setting.value with
    | none => exact hfollows
    | some val =>
      simp only [Overrides.accept_whole, Bool.not_false, Bool.true_and]
      cases hfree : start.locked setting.option with
      | true =>
        have hplain : (faultValue setting.option setting.value).isNone = true := by
          cases hvalue : faultValue setting.option setting.value with
          | none => rfl
          | some i =>
            have := hword ⟨hsect, by rw [hvalue]; rfl⟩
            exact absurd (this.symm.trans hfree) Bool.false_ne_true
        rw [hplain, (hfollows.locked _ hfree).1]
        exact hfollows.ignored hfree
      | false =>
        cases hvalueWord : faultValue setting.option setting.value with
        | some i =>
          exact hfollows.stored hfree hsect hvalue fun _ => ⟨hsect, by rw [hvalueWord]; rfl⟩
        | none =>
          have hnot : ¬setting.IsWord := fun his => by
            rw [FileSetting.IsWord, hvalueWord] at his
            exact Bool.false_ne_true his.2
          have hunlocked : st.locked setting.option = false := by
            refine Bool.eq_false_iff.mpr fun hlocked => hnot ?_
            obtain ⟨word, hmem, his, hoption⟩ := hfollows.words _ hfree hlocked
            exact hlast word hmem his hoption
          rw [hunlocked]
          exact hfollows.stored hfree hsect hvalue fun hlocks =>
            absurd hlocks Bool.false_ne_true

/-! ## Reading a file -/

/-- The lines of a file that the command line can stand: the word for an interval of
faults only for options that it does not set, and as the last value of the option; and
no port with the name of the global section. -/
structure Clean (start : Overrides D) (settings : List FileSetting) : Prop where
  free : ∀ setting ∈ settings, setting.IsWord → start.locked setting.option = false
  last : settings.Pairwise fun word setting =>
    word.IsWord → setting.sect = none → word.option = setting.option → setting.IsWord
  named : ∀ setting ∈ settings, setting.sect ≠ some globalName

theorem scanName_short {line : Str} (hscan : scanName line = some name) :
    name.length ≤ 16 := by
  rw [scanName] at hscan
  split at hscan
  · exact absurd hscan (Option.some_ne_none _).symm
  · rw [← Option.some.inj hscan]
    exact List.length_take_le _ _

theorem settingKind_ne_header (sect : Option Str) (line : Str) (current : CurrentSect) :
    settingKind sect line ≠ .header current := by
  rw [settingKind]
  split <;> exact LineKind.noConfusion

theorem settingKind_eq {line : Str} {sect' : Option Str}
    (hkind : settingKind sect line = .setting sect' option value) : sect = sect' := by
  rw [settingKind] at hkind
  split at hkind
  · cases hkind
  · cases hkind
    rfl

/-- The name of a port is short. -/
theorem lineKind_port {current : CurrentSect} {buf s : Str}
    (hkind : lineKind current buf = .header (.port s)) : s.length ≤ 16 := by
  rw [lineKind] at hkind
  split at hkind
  · cases hkind
  rename_i first rest hline
  split_ifs at hkind
  · cases hkind
  · cases hkind
  · rw [portHeader] at hkind
    split at hkind
    · cases hkind
    · rename_i name hscan
      cases hkind
      exact scanName_short hscan
  · cases current with
    | unicast => cases hkind
    | unknown => cases hkind
    | global => exact absurd hkind (settingKind_ne_header _ _ _)
    | port name => exact absurd hkind (settingKind_ne_header _ _ _)

/-- A setting is in the current section. -/
theorem lineKind_setting {current : CurrentSect} {buf s : Str}
    (hkind : lineKind current buf = .setting (some s) option value) :
    current = .port s := by
  rw [lineKind] at hkind
  split at hkind
  · cases hkind
  rename_i first rest hline
  split_ifs at hkind
  · rw [portHeader] at hkind
    split at hkind <;> cases hkind
  · cases current with
    | unicast => cases hkind
    | unknown => cases hkind
    | global => exact absurd (settingKind_eq hkind) (Option.some_ne_none s).symm
    | port name => rw [Option.some.inj (settingKind_eq hkind)]

/-- What is known of the store while a file is read. -/
structure Reading (doubles : Doubles D) (tab : List (ConfigItem D)) (start : Overrides D)
    (settings : List FileSetting) (reader : Reader D) (lines : List Str) : Prop where
  follows : ∃ st, Refines AnyName doubles tab reader.cfg st ∧
    Follows doubles tab start reader.taken st
  short : ∀ s, reader.current = .port s → s.length ≤ 16
  settings : settings = reader.taken ++ settingsOf reader.current lines

theorem Refines.interfaces (hrefines : Refines P doubles tab cfg st) (names : List Str) :
    Refines P doubles tab { cfg with interfaces := names } st where
  placed := ⟨hrefines.placed.valid, hrefines.placed.apart⟩
  whole := hrefines.whole
  parts := hrefines.parts
  known := hrefines.known
  fits := hrefines.fits

variable {settings : List FileSetting} {reader : Reader D} {buf : Str} {lines : List Str}

/-- A line: when it is understood reading goes on, and in any case the store follows. -/
theorem Reading.line (hreading : Reading doubles tab start settings reader (buf :: lines))
    (htab : SoundTable tab) (hclean : Clean start settings) (htext : memory.text = true)
    (unicastLine : Bool) {result : Bool × Reader D}
    (hresult : readLine doubles memory unicastLine reader buf = result) :
    (∃ st, Refines AnyName doubles tab result.2.cfg st ∧
        Follows doubles tab start result.2.taken st) ∧
      (result.1 = true → Reading doubles tab start settings result.2 lines) := by
  obtain ⟨st, hrefines, hfollows⟩ := hreading.follows
  have hsettings := hreading.settings
  rw [settingsOf] at hsettings
  rw [readLine] at hresult
  cases hkind : lineKind reader.current buf with
  | blank =>
    rw [hkind] at hresult hsettings
    subst hresult
    exact ⟨hreading.follows, fun _ => ⟨hreading.follows, hreading.short, hsettings⟩⟩
  | bad =>
    rw [hkind] at hresult
    subst hresult
    exact ⟨hreading.follows, fun hnot => absurd hnot Bool.false_ne_true⟩
  | unicast =>
    rw [hkind] at hresult hsettings
    subst hresult
    exact ⟨hreading.follows, fun _ => ⟨hreading.follows, hreading.short, hsettings⟩⟩
  | header sect =>
    rw [hkind] at hresult hsettings
    cases sect with
    | port name =>
      simp only at hresult hsettings
      cases hcreate : configCreateInterface memory reader.cfg name with
      | none =>
        rw [hcreate] at hresult
        subst hresult
        exact ⟨hreading.follows, fun hnot => absurd hnot Bool.false_ne_true⟩
      | some cfg =>
        rw [hcreate] at hresult
        subst hresult
        have hcfg : Refines AnyName doubles tab cfg st := by
          rw [configCreateInterface] at hcreate
          split_ifs at hcreate
          · exact Option.some.inj hcreate ▸ hrefines
          · exact Option.some.inj hcreate ▸ hrefines.interfaces _
        refine ⟨⟨st, hcfg, hfollows⟩, fun _ => ⟨⟨st, hcfg, hfollows⟩, ?_, hsettings⟩⟩
        intro s hs
        cases hs
        exact lineKind_port hkind
    | unknown =>
      subst hresult
      exact ⟨hreading.follows, fun _ => ⟨hreading.follows, (fun s hs => by cases hs), hsettings⟩⟩
    | global =>
      subst hresult
      exact ⟨hreading.follows, fun _ => ⟨hreading.follows, (fun s hs => by cases hs), hsettings⟩⟩
    | unicast =>
      subst hresult
      exact ⟨hreading.follows, fun _ => ⟨hreading.follows, (fun s hs => by cases hs), hsettings⟩⟩
  | setting sect option value =>
    rw [hkind] at hresult hsettings
    simp only at hresult hsettings
    have hmem : (⟨sect, option, value⟩ : FileSetting) ∈ settings := by
      rw [hsettings]
      exact List.mem_append_right _ List.mem_cons_self
    have hkeeps : Keeps doubles tab start reader.taken ⟨sect, option, value⟩
        (parseItem doubles memory reader.cfg false sect option value) := by
      cases sect with
      | none =>
        refine hfollows.whole hrefines htab rfl htext (hclean.free _ hmem) ?_
        intro word hword his hoption
        have hpair := hclean.last
        rw [hsettings] at hpair
        exact (List.pairwise_append.mp hpair).2.2 word hword _ List.mem_cons_self his rfl
          hoption
      | some s =>
        have hname : s ≠ globalName := fun hnot =>
          hclean.named _ hmem (congrArg some hnot)
        exact hfollows.part hrefines htab rfl
          ⟨hreading.short s (lineKind_setting hkind), hname⟩ htext
    obtain ⟨st', hnext, htaken⟩ := hkeeps
    rcases hparse : parseItem doubles memory reader.cfg false sect option value with
      ⟨_ | _, cfg⟩
    · rw [hparse] at hresult hnext htaken
      subst hresult
      exact ⟨⟨st', hnext, htaken⟩, fun hnot => absurd hnot Bool.false_ne_true⟩
    · rw [hparse] at hresult hnext htaken
      subst hresult
      refine ⟨⟨st', hnext, htaken⟩, fun _ => ⟨⟨st', hnext, htaken⟩, hreading.short, ?_⟩⟩
      rw [hsettings, List.append_assoc]
      rfl

/-- The store follows a file to its end, or to the line where reading ends. -/
theorem Reading.run (hreading : Reading doubles tab start settings reader lines)
    (htab : SoundTable tab) (hclean : Clean start settings) {memory : ℕ → Supply}
    (htext : ∀ n, (memory n).text = true) (unicast : List Str → Bool) (before : List Str) :
    ∃ st, Refines AnyName doubles tab
        (readLines doubles memory unicast before lines reader).2.cfg st ∧
      Follows doubles tab start (readLines doubles memory unicast before lines reader).2.taken
        st := by
  induction lines generalizing before reader with
  | nil => exact hreading.follows
  | cons buf rest ih =>
    rw [readLines]
    obtain ⟨hfollows, hnext⟩ := hreading.line htab hclean (htext before.length)
      (unicast (before ++ [buf])) rfl
    rcases hline : readLine doubles (memory before.length) (unicast (before ++ [buf])) reader
      buf with ⟨_ | _, later⟩
    · rw [hline] at hfollows
      exact hfollows
    · rw [hline] at hnext
      exact ih (hnext rfl) _

/-! ## Precedence -/

/-- The getters return this value of an option. -/
def Holds (cfg : PtpConfig D) (name : Str) (val : Value D) : Prop :=
  configGetInt cfg none name = val.asInt ∧ configGetDouble cfg none name = val.asDouble ∧
    configGetString cfg none name = val.asString

theorem Refines.holds (hrefines : Refines P doubles tab cfg st) (htab : SoundTable tab)
    (hentry : entry ∈ tab) {val : Value D} (hval : st.value none entry.label = some val) :
    Holds cfg entry.label val := by
  have hreads := hrefines.reads htab
  have hsect : ∀ s ∈ (none : Option Str), SectionName s := fun s hs =>
    absurd hs.symm (Option.some_ne_none s)
  refine ⟨?_, ?_, ?_⟩
  · rw [hreads.int entry hentry none hsect, Overrides.get, hval]
    rfl
  · rw [hreads.double entry hentry none hsect, Overrides.get, hval]
    rfl
  · rw [hreads.string entry hentry none hsect, Overrides.get, hval]
    rfl

/-- After the command line and a file, an option has the value that was accepted last on
the command line, else the one that was taken last from the file, else its default. -/
structure Precedence (doubles : Doubles D) (tab : List (ConfigItem D))
    (commands : List (Supply × Setting D)) (outcomes : List Bool) (reader : Reader D) :
    Prop where
  commandLine : ∀ entry ∈ tab, ∀ val,
    lastAccepted doubles tab none entry.label commands outcomes = some val →
      Holds reader.cfg entry.label val
  file : ∀ entry ∈ tab,
    lastAccepted doubles tab none entry.label commands outcomes = none → ∀ val,
      lastTaken doubles tab entry.label reader.taken = some val →
        Holds reader.cfg entry.label val
  default : ∀ entry ∈ tab,
    lastAccepted doubles tab none entry.label commands outcomes = none →
      lastTaken doubles tab entry.label reader.taken = none →
        Holds reader.cfg entry.label entry.val

theorem lastAccepted_of_name {outcomes : List Bool}
    (hname : ∀ request ∈ requests, request.2.name ≠ name) :
    lastAccepted doubles tab sect name requests outcomes = none := by
  induction requests generalizing outcomes with
  | nil => rfl
  | cons request rest ih =>
    obtain ⟨memory, setting⟩ := request
    obtain ⟨hfirst, hrest⟩ := List.forall_mem_cons.mp hname
    cases outcomes with
    | nil => rfl
    | cons outcome outcomes =>
      rw [lastAccepted, ih hrest, if_neg fun hnot => hfirst hnot.2.2]
      rfl

/-- The lines of a file that a command line can stand: the word for an interval of faults
only for options that the command line does not set, and as the last value of the option;
and no port with the name of the global section. -/
structure CleanFile (commands : List (Supply × Setting D)) (settings : List FileSetting) :
    Prop where
  free : ∀ setting ∈ settings, setting.IsWord →
    ∀ command ∈ commands, command.2.name ≠ setting.option
  last : settings.Pairwise fun word setting =>
    word.IsWord → setting.sect = none → word.option = setting.option → setting.IsWord
  named : ∀ setting ∈ settings, setting.sect ≠ some globalName

/-- The command line comes before a file. -/
theorem precedence_configRead (runHome : Str) {memory : ℕ → Bool}
    {fileMemory : ℕ → Supply} {unicast : List Str → Bool} {file : List UInt8}
    (hcreate : configCreate memory (configTab doubles runHome) = some cfg)
    (hrequests : ∀ request ∈ requests, request.2.OfCommandLine)
    (htext : ∀ request ∈ requests, request.1.text = true)
    (hfileText : ∀ n, (fileMemory n).text = true)
    (hclean : CleanFile requests (settingsOf .unknown (fileLines file))) :
    Precedence doubles (configTab doubles runHome) requests
      (applyAll doubles requests cfg).1
      (configRead doubles fileMemory unicast file (applyAll doubles requests cfg).2).2 := by
  have htab := soundTable_configTab doubles runHome
  have hstart : Refines Plain doubles _ cfg _ := refines_configCreate htab hcreate
  obtain ⟨houtcomes, hcommands⟩ := hstart.applyAll htab fun request hrequest =>
    { apart := fun s hs => by
        rw [(hrequests request hrequest).whole] at hs
        exact absurd hs.symm (Option.some_ne_none s)
      held := fun val _ => held_of_text (htext request hrequest) }
  have hwhole := fun name => @setAll_whole D doubles (configTab doubles runHome)
    (startOverrides (configTab doubles runHome)) requests hrequests name
  have hdefault : ∀ entry ∈ configTab doubles runHome,
      (startOverrides (configTab doubles runHome)).value none entry.label =
        some entry.val := fun entry hentry => by
    rw [startOverrides_whole, htab.entryOf_eq_some.mpr ⟨hentry, rfl⟩, Option.map_some]
  rw [houtcomes]
  generalize hst : (setAll doubles (configTab doubles runHome) requests
    (startOverrides (configTab doubles runHome))) = result at *
  have hreading : Reading doubles (configTab doubles runHome) result.2
      (settingsOf .unknown (fileLines file))
      { current := .unknown, cfg := (applyAll doubles requests cfg).2 } (fileLines file) :=
    { follows := ⟨_, hcommands.mono, Follows.refl _⟩
      short := fun s hs => by cases hs
      settings := rfl }
  have hlines : Clean result.2 (settingsOf .unknown (fileLines file)) :=
    { free := fun setting hmem hword => by
        rw [(hwhole setting.option).2, lastAccepted_of_name (hclean.free setting hmem hword)]
        rfl
      last := hclean.last
      named := hclean.named }
  obtain ⟨st, hfinal, hfollows⟩ := hreading.run htab hlines hfileText unicast []
  exact
    { commandLine := fun entry hentry val hlast => by
        have hlocked : result.2.locked entry.label = true := by
          rw [(hwhole entry.label).2, hlast]
          exact Bool.or_true _
        refine hfinal.holds htab hentry ?_
        rw [(hfollows.locked _ hlocked).2, (hwhole entry.label).1, hlast]
        rfl
      file := fun entry hentry hnone val hlast => by
        have hfree : result.2.locked entry.label = false := by
          rw [(hwhole entry.label).2, hnone]
          rfl
        refine hfinal.holds htab hentry ?_
        rw [hfollows.free _ hfree]
        exact congrArg (Option.or · _) hlast
      default := fun entry hentry hnone hfile => by
        have hfree : result.2.locked entry.label = false := by
          rw [(hwhole entry.label).2, hnone]
          rfl
        refine hfinal.holds htab hentry ?_
        rw [hfollows.free _ hfree, (hwhole entry.label).1, hnone, hdefault entry hentry]
        exact congrArg (Option.or · _) hfile }

end

/-! ## A command line and two files -/

def commandLine : List (Supply × Setting Unit) :=
  [({}, .option (cstr "fault_reset_interval") (cstr "5"))]

def cleanFile : List UInt8 :=
  cstr "[global]\nfault_reset_interval 9\npriority1 7\n[eth0]\nlogSyncInterval -3\n"

def wordFile : List UInt8 := cstr "[global]\nfault_reset_interval ASAP\n"

theorem precedence_cleanFile :
    ∃ cfg, configCreate (fun _ => true) (configTab noDoubles []) = some cfg ∧
      Precedence noDoubles (configTab noDoubles []) commandLine
        (applyAll noDoubles commandLine cfg).1
        (configRead noDoubles (fun _ => {}) (fun _ => true) cleanFile
          (applyAll noDoubles commandLine cfg).2).2 := by
  have hsome : (configCreate (fun _ => true) (configTab noDoubles [])).isSome := by
    decide +kernel
  obtain ⟨cfg, hcreate⟩ := Option.isSome_iff_exists.mp hsome
  have hsettings : settingsOf .unknown (fileLines cleanFile) =
      [⟨none, cstr "fault_reset_interval", cstr "9"⟩, ⟨none, cstr "priority1", cstr "7"⟩,
        ⟨some (cstr "eth0"), cstr "logSyncInterval", cstr "-3"⟩] := by
    decide +kernel
  have hplain : ∀ setting ∈ settingsOf .unknown (fileLines cleanFile), ¬setting.IsWord ∧
      setting.sect ≠ some globalName := by
    rw [hsettings]
    decide
  refine ⟨cfg, hcreate, precedence_configRead [] hcreate ?_ ?_ (fun _ => rfl) ?_⟩
  · exact fun request hrequest => by
      obtain rfl := List.mem_singleton.mp hrequest
      trivial
  · exact fun request hrequest => by
      obtain rfl := List.mem_singleton.mp hrequest
      rfl
  · exact
      { free := fun setting hmem hword => absurd hword (hplain setting hmem).1
        last := List.Pairwise.imp_of_mem (fun hmem _ _ hword => absurd hword (hplain _ hmem).1)
          (List.pairwise_of_forall (fun _ _ => trivial))
        named := fun setting hmem => (hplain setting hmem).2 }

/-- The word in the file replaces the value of the command line. -/
theorem not_precedence_wordFile :
    ∃ cfg, configCreate (fun _ => true) (configTab noDoubles []) = some cfg ∧
      configGetInt (configRead noDoubles (fun _ => {}) (fun _ => true) wordFile
          (applyAll noDoubles commandLine cfg).2).2.cfg none (cstr "fault_reset_interval") =
        some (-128) ∧
      ¬Precedence noDoubles (configTab noDoubles []) commandLine
        (applyAll noDoubles commandLine cfg).1
        (configRead noDoubles (fun _ => {}) (fun _ => true) wordFile
          (applyAll noDoubles commandLine cfg).2).2 := by
  have hrun : (configCreate (fun _ => true) (configTab noDoubles [])).map (fun cfg =>
      ((applyAll noDoubles commandLine cfg).1,
        configGetInt (configRead noDoubles (fun _ => {}) (fun _ => true) wordFile
          (applyAll noDoubles commandLine cfg).2).2.cfg none
          (cstr "fault_reset_interval"))) = some ([true], some (-128)) := by
    decide +kernel
  have hlast : lastAccepted noDoubles (configTab noDoubles []) none
      (cstr "fault_reset_interval") commandLine [true] = some (.int 5) := by
    decide +kernel
  obtain ⟨cfg, hcreate, hboth⟩ := Option.map_eq_some_iff.mp hrun
  obtain ⟨houtcomes, hget⟩ := Prod.mk.inj hboth
  refine ⟨cfg, hcreate, hget, fun hprecedence => ?_⟩
  obtain ⟨entry, hentry, hlabel, -⟩ := (soundTable_configTab noDoubles []).faults
    (cstr "fault_reset_interval", friAsap) (by decide)
  have hkept := hprecedence.commandLine entry hentry (.int 5) (by
    rw [hlabel, houtcomes]
    exact hlast)
  rw [hlabel] at hkept
  exact absurd (hget.symm.trans hkept.1) (by decide)

end LinuxPtp.Config
