import LinuxPtp.Config.History

/-!
# Lookups after any sequence of settings

The store as a finite map with values of sections that come first, for the options of
the table.
-/

namespace LinuxPtp.Config

section

variable {D : Type} {doubles : Doubles D} {tab : List (ConfigItem D)}
variable {cfg : PtpConfig D} {st : Overrides D} {memory : Supply}
variable {requests : List (Supply × Setting D)}

/-! ## The last accepted value -/

/-- The last value that was accepted for an option, or for an option of a section. -/
def lastAccepted (doubles : Doubles D) (tab : List (ConfigItem D)) (sect : Option Str)
    (name : Str) : List (Supply × Setting D) → List Bool → Option (Value D)
  | (_, setting) :: requests, accepted :: outcomes =>
      (lastAccepted doubles tab sect name requests outcomes).or
        (if accepted ∧ setting.sect = sect ∧ setting.name = name then
          setting.value doubles tab
        else none)
  | _, _ => none

theorem set_value_part {setting : Setting D} (s name : Str) :
    (st.set doubles tab memory setting).2.value (some s) name =
      (if (st.set doubles tab memory setting).1 ∧ setting.sect = some s ∧
          setting.name = name then setting.value doubles tab
        else none).or (st.value (some s) name) := by
  cases hvalue : setting.value doubles tab with
  | none =>
    simp only [Overrides.set, hvalue, ite_self, Option.none_or]
  | some val =>
    simp only [Overrides.set, hvalue]
    cases hsect : setting.sect with
    | none =>
      rw [Overrides.accept_whole]
      split <;> simp [Overrides.put]
    | some s' =>
      rw [Overrides.accept_part]
      split
      · simp
      · by_cases hsame : s = s' ∧ name = setting.name
        · obtain ⟨rfl, rfl⟩ := hsame
          simp [Overrides.put]
        · have hother : ¬(s' = s ∧ setting.name = name) := fun hnot =>
            hsame ⟨hnot.1.symm, hnot.2.symm⟩
          simp [Overrides.put, hsame, hother]

theorem setAll_value_part (s name : Str) :
    (setAll doubles tab requests st).2.value (some s) name =
      (lastAccepted doubles tab (some s) name requests (setAll doubles tab requests st).1).or
        (st.value (some s) name) := by
  induction requests generalizing st with
  | nil => rfl
  | cons request rest ih =>
    obtain ⟨memory, setting⟩ := request
    rw [setAll, lastAccepted, ih, set_value_part, Option.or_assoc]

/-! ## The table of options -/

def Value.fits : Value D → ConfigType D → Bool
  | .int _, .int _ _ | .int _, .enum _ => true
  | .double _, .double _ _ => true
  | .string _, .string => true
  | _, _ => false

theorem Value.fits_of {val : Value D} {type : ConfigType D} (hfits : val.fits type = true) :
    val.Fits type := by
  cases val <;> cases type <;> trivial

theorem soundTable_configTab (doubles : Doubles D) (runHome : Str) :
    SoundTable (configTab doubles runHome) where
  apart := labelsApart_configTab doubles runHome
  faults fault hfault := by
    have hall : (faultOptions.all fun fault => (configTab doubles runHome).any fun entry =>
        entry.label == fault.1 && match entry.type with
          | .int _ _ => true
          | _ => false) = true := rfl
    obtain ⟨entry, hentry, hboth⟩ := List.any_eq_true.mp (List.all_eq_true.mp hall fault hfault)
    obtain ⟨hlabel, htype⟩ := Bool.and_eq_true_iff.mp hboth
    refine ⟨entry, hentry, beq_iff_eq.mp hlabel, ?_⟩
    split at htype
    · rename_i min max hkind
      exact ⟨min, max, hkind⟩
    · exact absurd htype Bool.false_ne_true
  fits entry hentry := by
    have hall : ((configTab doubles runHome).all fun entry => entry.val.fits entry.type) =
        true := rfl
    exact Value.fits_of (List.all_eq_true.mp hall entry hentry)
  unlocked entry hentry := by
    have hall : ((configTab doubles runHome).all fun entry => !entry.locked) = true := rfl
    simpa using List.all_eq_true.mp hall entry hentry

/-! ## The store -/

/-- The hash table is a finite map over all keys. -/
structure FiniteMap : Prop where
  refused : ∀ (table : ChainedTable Str ℕ hashFunction) key data,
    table.insert true key data = none ↔ (table.lookup key).isSome
  added : ∀ (table later : ChainedTable Str ℕ hashFunction) memory key data,
    table.insert memory key data = some later →
      ∀ other, later.lookup other = if other = key then some data else table.lookup other
  found : ∀ (entries : List (Str × ℕ)) (key : Str),
    ((ChainedTable.empty : ChainedTable Str ℕ hashFunction).insertAll entries).lookup key =
      entries.lookup key

theorem finiteMap_hashTable : FiniteMap where
  refused _ _ _ := ChainedTable.insert_eq_none_iff
  added _ _ _ _ _ hinsert := ChainedTable.lookup_insert hinsert
  found entries key := by
    rw [ChainedTable.lookup_insertAll, ChainedTable.lookup_empty, Option.none_or]
    congr 1
    exact lawful_beq_subsingleton _ _

/-- After every beginning of a sequence of settings: they were accepted as the overrides
have it, the getters return what the overrides have, and a section has the last value
that was accepted for it. -/
structure Overriding (doubles : Doubles D) (tab : List (ConfigItem D)) (cfg : PtpConfig D)
    (requests : List (Supply × Setting D)) : Prop where
  accepted : ∀ done, done <+: requests →
    (applyAll doubles done cfg).1 = (setAll doubles tab done (startOverrides tab)).1
  reads : ∀ done, done <+: requests →
    Reads tab (applyAll doubles done cfg).2 (setAll doubles tab done (startOverrides tab)).2
  latest : ∀ done, done <+: requests → ∀ s name,
    (setAll doubles tab done (startOverrides tab)).2.value (some s) name =
      lastAccepted doubles tab (some s) name done (applyAll doubles done cfg).1

/-- The store is a finite map with values of sections that come first. -/
theorem overriding_configCreate (runHome : Str) {memory : ℕ → Bool}
    (hcreate : configCreate memory (configTab doubles runHome) = some cfg)
    (hplain : ∀ request ∈ requests,
      request.2.Plain doubles (configTab doubles runHome) request.1) :
    FiniteMap ∧ Overriding doubles (configTab doubles runHome) cfg requests := by
  have htab := soundTable_configTab doubles runHome
  have hstart : Refines Plain doubles _ cfg _ := refines_configCreate htab hcreate
  have hrun : ∀ done, done <+: requests → _ := fun done hdone =>
    hstart.applyAll htab fun request hrequest => hplain request (hdone.subset hrequest)
  exact ⟨finiteMap_hashTable,
    { accepted := fun done hdone => (hrun done hdone).1
      reads := fun done hdone => (hrun done hdone).2.reads htab
      latest := fun done hdone s name => by
        rw [(hrun done hdone).1, setAll_value_part]
        exact Option.or_none }⟩

theorem held_of_text {val : Value D} (htext : memory.text = true) : val.Held memory := by
  cases val with
  | string s => cases s <;> first | exact htext | trivial
  | int i => trivial
  | double d => trivial

end

/-! ## Settings of two ports -/

/-- A value for all ports, a value for one of them, and a value out of range. -/
def portSettings : List (Supply × Setting Unit) :=
  [({}, .line none (cstr "logSyncInterval") (cstr "-3")),
    ({}, .line (some (cstr "eth0")) (cstr "logSyncInterval") (cstr "1")),
    ({}, .line (some (cstr "eth0")) (cstr "logSyncInterval") (cstr "200"))]

theorem overriding_portSettings :
    ∃ cfg, configCreate (fun _ => true) (configTab noDoubles []) = some cfg ∧
      FiniteMap ∧ Overriding noDoubles (configTab noDoubles []) cfg portSettings := by
  have hsome : (configCreate (fun _ => true) (configTab noDoubles [])).isSome := by
    decide +kernel
  obtain ⟨cfg, hcreate⟩ := Option.isSome_iff_exists.mp hsome
  refine ⟨cfg, hcreate, overriding_configCreate [] hcreate fun request hrequest => ?_⟩
  refine ⟨?_, fun val _ => held_of_text ?_⟩
  · have hall : ∀ request ∈ portSettings, ∀ s ∈ request.2.sect,
        s.length ≤ 16 ∧ s ≠ globalName ∧ Plain s := by decide
    intro s hs
    obtain ⟨hshort, hname, hplain⟩ := hall request hrequest s hs
    exact ⟨⟨hshort, hname⟩, hplain⟩
  · have hall : ∀ request ∈ portSettings, request.1.text = true := by decide
    exact hall request hrequest

/-- A section whose name looks like a part of the global one, and an option that is
unknown. -/
def strangeSettings : List (Supply × Setting Unit) :=
  [({}, .line (some (cstr "global.x")) (cstr "announceReceiptTimeout") (cstr "5")),
    ({}, .line none (cstr "x.announceReceiptTimeout") (cstr "0"))]

/-- The unknown option is accepted, and the value of the section is lost. -/
theorem not_overriding_strangeSettings :
    (∀ request ∈ strangeSettings, ∀ s ∈ request.2.sect, SectionName s) ∧
      ∃ cfg, configCreate (fun _ => true) (configTab noDoubles []) = some cfg ∧
        configGetInt (applyAll noDoubles strangeSettings cfg).2 (some (cstr "global.x"))
          (cstr "announceReceiptTimeout") = some 0 ∧
        ¬Overriding noDoubles (configTab noDoubles []) cfg strangeSettings := by
  have hrun : (configCreate (fun _ => true) (configTab noDoubles [])).map (fun cfg =>
      ((applyAll noDoubles strangeSettings cfg).1,
        configGetInt (applyAll noDoubles strangeSettings cfg).2 (some (cstr "global.x"))
          (cstr "announceReceiptTimeout"))) = some ([true, true], some 0) := by
    decide +kernel
  have hspec : (setAll noDoubles (configTab noDoubles []) strangeSettings
      (startOverrides (configTab noDoubles []))).1 = [true, false] := by
    decide +kernel
  obtain ⟨cfg, hcreate, hboth⟩ := Option.map_eq_some_iff.mp hrun
  obtain ⟨houtcomes, hget⟩ := Prod.mk.inj hboth
  refine ⟨fun request hrequest s hs => ?_, cfg, hcreate, hget, fun hoverriding => ?_⟩
  · have hall : ∀ request ∈ strangeSettings, ∀ s ∈ request.2.sect,
        s.length ≤ 16 ∧ s ≠ globalName := by decide
    exact ⟨(hall request hrequest s hs).1, (hall request hrequest s hs).2⟩
  · have hsame := hoverriding.accepted strangeSettings List.prefix_rfl
    rw [houtcomes, hspec] at hsame
    exact absurd hsame (by decide)

end LinuxPtp.Config
