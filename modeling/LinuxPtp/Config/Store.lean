import LinuxPtp.Config.Table
import LinuxPtp.Lib.ChainedTable

/-!
# The configuration store

Items are found through a hash table, by the name of a section and the name of an
option in one string.  The items of the table of options are there from the start; an
item for the section of a port is allocated when it is first set.
-/

namespace LinuxPtp.Config

/-! ## Items -/

def hashTableSize : ℕ := 200

/-- `hash_function`; characters are signed. -/
def hashFunction (s : Str) : ℕ :=
  (s.foldl (fun (i : UInt32) char => 131 * i + char.toInt8.toInt32.toUInt32) 0).toNat %
    hashTableSize

/-- The items in the order in which they were made, and the table that leads to their
places in that order. -/
structure PtpConfig (D : Type) where
  items : List (ConfigItem D)
  htab : ChainedTable Str ℕ hashFunction
  interfaces : List Str := []

/-- Whether there is memory for what one setting asks for. -/
structure Supply where
  item : Bool := true
  node : Bool := true
  text : Bool := true
  interface : Bool := true

/-- The outcome of a setting that is not accepted.  `refused` stands for a setter that
returns an error, `exit` for the end of the program. -/
inductive Refusal
  | parser (failure : Failure)
  | refused
  | exit
  deriving DecidableEq, Repr

def configLabelSize : ℕ := 32
def maxIfnameSize : ℕ := 108

def globalName : Str := cstr "global"

/-- The two names with a dot between them, as far as the buffer goes. -/
def itemKey (size : ℕ) (sect name : Str) : Str :=
  (sect ++ 46 :: name).take (size - 1)

section

variable {D : Type} (doubles : Doubles D)

/-! ## Finding items -/

/-- A place in the list of items, and the item there. -/
structure Found (D : Type) where
  ref : ℕ
  item : ConfigItem D

def configSectionItem (cfg : PtpConfig D) (sect name : Str) : Option (Found D) := do
  let ref ← cfg.htab.lookup (itemKey (configLabelSize + maxIfnameSize) sect name)
  let item ← cfg.items[ref]?
  pure ⟨ref, item⟩

def configGlobalItem (cfg : PtpConfig D) (name : Str) : Option (Found D) :=
  configSectionItem cfg globalName name

def configFindItem (cfg : PtpConfig D) (sect : Option Str) (name : Str) :
    Option (Found D) :=
  match sect with
  | none => configGlobalItem cfg name
  | some sect =>
      match configSectionItem cfg sect name with
      | some ci => some ci
      | none => configGlobalItem cfg name

/-- `config_item_alloc`; the result is the place of the new item. -/
def configItemAlloc (memory : Supply) (cfg : PtpConfig D) (sect name : Str)
    (type : ConfigType D) : Option (ℕ × PtpConfig D) :=
  if memory.item then
    let ci : ConfigItem D :=
      { label := name.take (configLabelSize - 1)
        type := type.unbounded doubles
        port := false
        locked := false
        val := type.zero doubles }
    let key := itemKey (configLabelSize + maxIfnameSize) sect ci.label
    match cfg.htab.insert memory.node key cfg.items.length with
    | none => none
    | some htab => some (cfg.items.length, { cfg with
        items := cfg.items ++ [ci]
        htab := htab })
  else none

/-! ## Setting items -/

def PtpConfig.update (cfg : PtpConfig D) (ref : ℕ)
    (change : ConfigItem D → ConfigItem D) : PtpConfig D :=
  { cfg with items := cfg.items.modify ref change }

def configSetSectionInt (memory : Supply) (cfg : PtpConfig D) (sect : Option Str)
    (option : Str) (val : ℤ) : Except Refusal Unit × PtpConfig D :=
  match configFindItem cfg none option with
  | none => (.error .refused, cfg)
  | some cgi =>
      match cgi.item.type with
      | .double _ _ | .string => (.error .refused, cfg)
      | .int _ _ | .enum _ =>
          match sect with
          | none => (.ok (), cfg.update cgi.ref fun ci =>
              { ci with locked := true, val := .int val })
          | some sect =>
              match configSectionItem cfg sect option with
              | some dst => (.ok (), cfg.update dst.ref fun ci =>
                  { ci with val := .int val })
              | none =>
                  match configItemAlloc doubles memory cfg sect option
                    cgi.item.type with
                  | none => (.error .refused, cfg)
                  | some (ref, cfg) => (.ok (), cfg.update ref fun ci =>
                      { ci with val := .int val })

def configSetDouble (cfg : PtpConfig D) (option : Str) (val : D) :
    Except Refusal Unit × PtpConfig D :=
  match configFindItem cfg none option with
  | some ⟨ref, { type := .double _ _, .. }⟩ =>
      (.ok (), cfg.update ref fun ci => { ci with locked := true, val := .double val })
  | _ => (.error .refused, cfg)

/-- A copy of a string, or the null pointer. -/
def strdup (memory : Supply) (s : Str) : Option Str :=
  if memory.text then some s else none

def configSetString (memory : Supply) (cfg : PtpConfig D) (option val : Str) :
    Except Refusal Unit × PtpConfig D :=
  match configFindItem cfg none option with
  | some ⟨ref, { type := .string, .. }⟩ =>
      let copy := strdup memory val
      (if copy.isSome then .ok () else .error .refused,
        cfg.update ref fun ci => { ci with locked := true, val := .string copy })
  | _ => (.error .refused, cfg)

def friAsap : ℤ := -128

/-- The options that take the word, and what it stands for. -/
def faultOptions : List (Str × ℤ) :=
  [(cstr "fault_badpeernet_interval", 0), (cstr "fault_reset_interval", friAsap)]

/-- `parse_fault_interval`; nothing stands for `NOT_PARSED`. -/
def parseFaultInterval (memory : Supply) (cfg : PtpConfig D) (sect : Option Str)
    (option value : Str) : Option (Except Refusal Unit × PtpConfig D) :=
  if sameCase (cstr "ASAP") value then
    match faultOptions.find? fun entry => option == entry.1 with
    | none => none
    | some entry =>
        match configSetSectionInt doubles memory cfg sect entry.1 entry.2 with
        | (.ok (), cfg) => some (.ok (), cfg)
        | (.error _, cfg) => some (.error .exit, cfg)
  else none

/-- The end of `parse_item`: the value is stored in `dst`, whose type is that of the
option. -/
def storeValue (memory : Supply) (cfg : PtpConfig D) (ref : ℕ) (commandline : Bool)
    (val : Value D) : Except Refusal Unit × PtpConfig D :=
  match val with
  | .string (some s) =>
      match strdup memory s with
      | none => (.error (.parser (.result .notParsed)), cfg.update ref fun ci =>
          { ci with val := .string none })
      | some copy => (.ok (), cfg.update ref fun ci => { ci with
          val := .string (some copy)
          locked := ci.locked || commandline })
  | val => (.ok (), cfg.update ref fun ci => { ci with
      val := val
      locked := ci.locked || commandline })

def parseItem (memory : Supply) (cfg : PtpConfig D) (commandline : Bool)
    (sect : Option Str) (option value : Str) : Except Refusal Unit × PtpConfig D :=
  match parseFaultInterval doubles memory cfg sect option value with
  | some result => result
  | none =>
      match configGlobalItem cfg option with
      | none => (.error (.parser (.result .notParsed)), cfg)
      | some cgi =>
          match parseValue doubles cgi.item.type value with
          | .error failure => (.error (.parser failure), cfg)
          | .ok val =>
              match sect with
              | some sect =>
                  if cgi.item.port = false then
                    (.error (.parser (.result .notParsed)), cfg)
                  else
                    match configSectionItem cfg sect option with
                    | some dst => storeValue memory cfg dst.ref commandline val
                    | none =>
                        match configItemAlloc doubles memory cfg sect option
                          cgi.item.type with
                        | none => (.error (.parser (.result .notParsed)), cfg)
                        | some (ref, cfg) => storeValue memory cfg ref commandline val
              | none =>
                  -- this global option was set on the command line
                  if commandline = false ∧ cgi.item.locked = true then (.ok (), cfg)
                  else storeValue memory cfg cgi.ref commandline val

def configParseOption (memory : Supply) (cfg : PtpConfig D) (opt val : Str) :
    Except Refusal Unit × PtpConfig D :=
  parseItem doubles memory cfg true none opt val

/-! ## Getters

Nothing stands for the end of the program. -/

def configGetDouble (cfg : PtpConfig D) (sect : Option Str) (option : Str) :
    Option D :=
  match configFindItem cfg sect option with
  | some ⟨_, { type := .double _ _, val := .double d, .. }⟩ => some d
  | _ => none

def configGetInt (cfg : PtpConfig D) (sect : Option Str) (option : Str) : Option ℤ :=
  match configFindItem cfg sect option with
  | some ⟨_, { type := .int _ _, val := .int i, .. }⟩ => some i
  | some ⟨_, { type := .enum _, val := .int i, .. }⟩ => some i
  | _ => none

def configGetString (cfg : PtpConfig D) (sect : Option Str) (option : Str) :
    Option (Option Str) :=
  match configFindItem cfg sect option with
  | some ⟨_, { type := .string, val := .string s, .. }⟩ => some s
  | _ => none

/-! ## Creation -/

/-- The loop that puts the items of the table under the name `global`. -/
def populate (memory : ℕ → Bool) :
    ℕ → List (ConfigItem D) → ChainedTable Str ℕ hashFunction →
      Option (ChainedTable Str ℕ hashFunction)
  | _, [], htab => some htab
  | i, ci :: rest, htab => do
      let htab ← htab.insert (memory i)
        (itemKey (configLabelSize + 8) globalName ci.label) i
      populate memory (i + 1) rest htab

/-- The self test: every label leads to its own item. -/
def selfTest (cfg : PtpConfig D) (tab : List (ConfigItem D)) : Bool :=
  tab.zipIdx.all fun (ci, i) =>
    match configGlobalItem cfg ci.label with
    | some found => found.ref == i
    | none => false

def configCreate (memory : ℕ → Bool) (tab : List (ConfigItem D)) :
    Option (PtpConfig D) := do
  let htab ← populate memory 0 tab .empty
  let cfg : PtpConfig D := { items := tab, htab := htab }
  if selfTest cfg tab then some cfg else none

end

end LinuxPtp.Config
