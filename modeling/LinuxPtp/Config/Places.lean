import LinuxPtp.Config.Store

/-!
# Items under their keys

The items as a map from keys.  A setting changes the item of one key, which may be new,
and no other.
-/

namespace LinuxPtp.Config

section

variable {D : Type}

namespace PtpConfig

def itemAt (cfg : PtpConfig D) (key : Str) : Option (ConfigItem D) :=
  (cfg.htab.lookup key).bind fun ref => cfg.items[ref]?

/-- Every key leads to a place of its own. -/
structure Placed (cfg : PtpConfig D) : Prop where
  valid : ∀ key ref, cfg.htab.lookup key = some ref → ref < cfg.items.length
  apart : ∀ key key' ref, cfg.htab.lookup key = some ref →
    cfg.htab.lookup key' = some ref → key = key'

/-- A key has got an item, and the items of other keys are as before. -/
structure Changes (cfg cfg' : PtpConfig D) (key : Str) (item : ConfigItem D) : Prop where
  placed : cfg'.Placed
  itemAt : ∀ key', cfg'.itemAt key' = if key' = key then some item else cfg.itemAt key'

variable {cfg cfg' : PtpConfig D} {key : Str} {ref : ℕ} {item : ConfigItem D}

theorem Changes.itemAt_same (hchanges : Changes cfg cfg' key item) :
    cfg'.itemAt key = some item := by
  rw [hchanges.itemAt, if_pos rfl]

theorem Changes.itemAt_other (hchanges : Changes cfg cfg' key item) {key' : Str}
    (hother : key' ≠ key) : cfg'.itemAt key' = cfg.itemAt key' := by
  rw [hchanges.itemAt, if_neg hother]

/-- Of two changes of one key the second one stays. -/
theorem Changes.trans {cfg'' : PtpConfig D} {item' : ConfigItem D}
    (hfirst : Changes cfg cfg' key item) (hsecond : Changes cfg' cfg'' key item') :
    Changes cfg cfg'' key item' where
  placed := hsecond.placed
  itemAt key' := by
    rw [hsecond.itemAt]
    split
    · rfl
    · rename_i hother
      exact hfirst.itemAt_other hother

/-! ## Items that are there -/

theorem configSectionItem_eq_none (hplaced : cfg.Placed) {sect name : Str} :
    configSectionItem cfg sect name = none ↔
      cfg.itemAt (itemKey (configLabelSize + maxIfnameSize) sect name) = none := by
  simp only [configSectionItem, PtpConfig.itemAt, Option.bind_eq_bind]
  cases hlookup : cfg.htab.lookup
      (itemKey (configLabelSize + maxIfnameSize) sect name) with
  | none => simp
  | some ref => simp [hplaced.valid _ _ hlookup]

theorem configSectionItem_eq_some {sect name : Str} {found : Found D} :
    configSectionItem cfg sect name = some found ↔
      cfg.htab.lookup (itemKey (configLabelSize + maxIfnameSize) sect name) =
          some found.ref ∧
        cfg.items[found.ref]? = some found.item := by
  simp only [configSectionItem, Option.bind_eq_bind, Option.bind_eq_some_iff]
  constructor
  · rintro ⟨ref, hlookup, item, hitem, hpure⟩
    obtain rfl := Option.some.inj hpure
    exact ⟨hlookup, hitem⟩
  · rintro ⟨hlookup, hitem⟩
    exact ⟨found.ref, hlookup, found.item, hitem, rfl⟩

/-- A key leads to a place, and the item is there. -/
structure At (cfg : PtpConfig D) (key : Str) (ref : ℕ) (item : ConfigItem D) : Prop where
  lookup : cfg.htab.lookup key = some ref
  item : cfg.items[ref]? = some item

theorem At.itemAt (hat : cfg.At key ref item) : cfg.itemAt key = some item := by
  rw [PtpConfig.itemAt, hat.lookup, Option.bind_some, hat.item]

theorem exists_at (hitem : cfg.itemAt key = some item) : ∃ ref, cfg.At key ref item := by
  obtain ⟨ref, hlookup, hplace⟩ := Option.bind_eq_some_iff.mp hitem
  exact ⟨ref, hlookup, hplace⟩

/-- An item that is changed in its place. -/
theorem changes_update (hplaced : cfg.Placed) (hat : cfg.At key ref item)
    (change : ConfigItem D → ConfigItem D) :
    Changes cfg (cfg.update ref change) key (change item) where
  placed :=
    { valid := fun key' ref' hlookup => by
        rw [update, List.length_modify]
        exact hplaced.valid key' ref' hlookup
      apart := hplaced.apart }
  itemAt key' := by
    rw [PtpConfig.itemAt, PtpConfig.itemAt]
    split
    · rename_i hsame
      subst hsame
      have hplace : (cfg.items.modify ref change)[ref]? = some (change item) := by
        rw [List.getElem?_modify_eq, hat.item]
        rfl
      exact (congrArg (Option.bind · _) hat.lookup).trans hplace
    · rename_i hother
      refine Option.bind_congr fun ref' hlookup => ?_
      refine List.getElem?_modify_ne _ _ fun hsame => hother ?_
      exact hplaced.apart key' key ref' hlookup (hsame ▸ hat.lookup)

/-! ## Items that are new -/

/-- An item for a new key. -/
theorem changes_push (hplaced : cfg.Placed) (hnew : cfg.htab.lookup key = none)
    (item : ConfigItem D) :
    Changes cfg { cfg with
      items := cfg.items ++ [item]
      htab := cfg.htab.push key cfg.items.length hnew } key item where
  placed :=
    { valid := fun key' ref hlookup => by
        rw [ChainedTable.lookup_push] at hlookup
        rw [List.length_append, List.length_singleton]
        split at hlookup
        · obtain rfl := Option.some.inj hlookup
          exact Nat.lt_succ_self _
        · exact Nat.lt_succ_of_lt (hplaced.valid key' ref hlookup)
      apart := fun key' key'' ref hlookup hlookup' => by
        rw [ChainedTable.lookup_push] at hlookup hlookup'
        split at hlookup <;> split at hlookup'
        · rename_i hfirst hsecond
          exact hfirst.trans hsecond.symm
        · obtain rfl := Option.some.inj hlookup
          exact absurd (hplaced.valid _ _ hlookup') (lt_irrefl _)
        · obtain rfl := Option.some.inj hlookup'
          exact absurd (hplaced.valid _ _ hlookup) (lt_irrefl _)
        · exact hplaced.apart key' key'' ref hlookup hlookup' }
  itemAt key' := by
    rw [PtpConfig.itemAt, PtpConfig.itemAt, ChainedTable.lookup_push]
    split
    · exact List.getElem?_concat_length
    · refine Option.bind_congr fun ref hlookup => ?_
      exact List.getElem?_append_left (hplaced.valid _ _ hlookup)

end PtpConfig

/-! ## Storing -/

variable (doubles : Doubles D)

/-- Memory for an item and for its node. -/
def Supply.room (memory : Supply) : Bool := memory.item && memory.node

def newItem (name : Str) (type : ConfigType D) : ConfigItem D where
  label := name
  type := type.unbounded doubles
  port := false
  locked := false
  val := type.zero doubles

def ConfigItem.with (ci : ConfigItem D) (val : Value D) (locks : Bool) : ConfigItem D :=
  { ci with val := val, locked := ci.locked || locks }

variable {doubles} {cfg : PtpConfig D} {memory : Supply} {sect name : Str}
variable {type : ConfigType D}

theorem PtpConfig.Placed.lookup_eq_none {key : Str} (hplaced : cfg.Placed)
    (hnone : cfg.itemAt key = none) : cfg.htab.lookup key = none := by
  cases hlookup : cfg.htab.lookup key with
  | none => rfl
  | some ref =>
    rw [PtpConfig.itemAt, hlookup, Option.bind_some, List.getElem?_eq_none_iff] at hnone
    exact absurd (hplaced.valid key ref hlookup) hnone.not_gt

theorem Supply.room_iff : memory.room = true ↔ memory.item = true ∧ memory.node = true :=
  Bool.and_eq_true_iff

/-- An item is allocated where there is memory and the key is new. -/
theorem configItemAlloc_of_room (hplaced : cfg.Placed)
    (hname : name.length < configLabelSize) (hroom : memory.room = true)
    (hnew : cfg.itemAt (itemKey (configLabelSize + maxIfnameSize) sect name) = none) :
    ∃ ref cfg', configItemAlloc doubles memory cfg sect name type = some (ref, cfg') ∧
      PtpConfig.Changes cfg cfg' (itemKey (configLabelSize + maxIfnameSize) sect name)
        (newItem doubles name type) ∧
      cfg'.At (itemKey (configLabelSize + maxIfnameSize) sect name) ref
        (newItem doubles name type) := by
  have hlabel : name.take (configLabelSize - 1) = name :=
    List.take_of_length_le (Nat.le_pred_of_lt hname)
  have hlookup := hplaced.lookup_eq_none hnew
  obtain ⟨hitem, hnode⟩ := Supply.room_iff.mp hroom
  rw [configItemAlloc, if_pos hitem, hlabel, hnode]
  simp only [ChainedTable.insert_of_new hlookup]
  refine ⟨_, _, rfl, PtpConfig.changes_push hplaced hlookup _, ?_, ?_⟩
  · rw [ChainedTable.lookup_push, if_pos rfl]
  · exact List.getElem?_concat_length

theorem configItemAlloc_of_full (hroom : memory.room ≠ true) :
    configItemAlloc doubles memory cfg sect name type = none := by
  rw [configItemAlloc]
  cases hitem : memory.item with
  | false => rfl
  | true =>
    have hnode : memory.node = false :=
      Bool.eq_false_iff.mpr fun hnode => hroom (Supply.room_iff.mpr ⟨hitem, hnode⟩)
    simp only [if_true, hnode, ChainedTable.insert_false]

/-- Memory for the text of a value, if it is one. -/
def Value.Held (memory : Supply) : Value D → Prop
  | .string (some _) => memory.text = true
  | _ => True

theorem storeValue_eq {val : Value D} (hheld : val.Held memory) (ref : ℕ)
    (commandline : Bool) :
    storeValue memory cfg ref commandline val =
      (.ok (), cfg.update ref fun ci => ci.with val commandline) := by
  cases val with
  | int i => rfl
  | double d => rfl
  | string s =>
    cases s with
    | none => rfl
    | some s =>
      have htext : memory.text = true := hheld
      rw [storeValue, strdup, if_pos htext]
      rfl

end

end LinuxPtp.Config
