import LinuxPtp.Config.Keys
import LinuxPtp.Config.Places

/-!
# Settings of options and of sections

What a store of options is for: a value for every option, and values of sections that
come before it.  Settings are those of the command line, of the lines of a file, and of
the functions that set one option.
-/

namespace LinuxPtp.Config

/-! ## Settings -/

/-- `config_parse_option`, a line of a file, `config_set_section_int`,
`config_set_double` and `config_set_string`. -/
inductive Setting (D : Type)
  | option (name value : Str)
  | line (sect : Option Str) (name value : Str)
  | int (sect : Option Str) (name : Str) (val : ℤ)
  | double (name : Str) (val : D)
  | string (name val : Str)

/-- The options with their values, and what sections have instead. -/
structure Overrides (D : Type) where
  value : Option Str → Str → Option (Value D)
  locked : Str → Bool

/-- The word for an interval of faults. -/
def faultValue (name value : Str) : Option ℤ :=
  if sameCase (cstr "ASAP") value then
    (faultOptions.find? fun entry => name == entry.1).map Prod.snd
  else none

namespace Setting

variable {D : Type} (doubles : Doubles D)

def sect : Setting D → Option Str
  | .line sect _ _ => sect
  | .int sect _ _ => sect
  | _ => none

def name : Setting D → Str
  | .option name _ => name
  | .line _ name _ => name
  | .int _ name _ => name
  | .double name _ => name
  | .string name _ => name

/-- A line of a file gives way to the command line, unless it has the word. -/
def yields : Setting D → Bool
  | .line _ name value => (faultValue name value).isNone
  | _ => false

def apply (memory : Supply) (cfg : PtpConfig D) :
    Setting D → Except Refusal Unit × PtpConfig D
  | .option name value => configParseOption doubles memory cfg name value
  | .line sect name value => parseItem doubles memory cfg false sect name value
  | .int sect name val => configSetSectionInt doubles memory cfg sect name val
  | .double name val => configSetDouble cfg name val
  | .string name val => configSetString memory cfg name val

end Setting

section

variable {D : Type} (doubles : Doubles D) (tab : List (ConfigItem D))

def entryOf (name : Str) : Option (ConfigItem D) :=
  tab.find? fun entry => entry.label == name

/-- The value that a string stands for: bad, malformed and out-of-range values, unknown
options, and options that no section of a port may have stand for none. -/
def textValue (sect : Option Str) (name value : Str) : Option (Value D) :=
  match faultValue name value with
  | some i => some (.int i)
  | none =>
      match entryOf tab name with
      | none => none
      | some entry =>
          if sect.isSome ∧ entry.port = false then none
          else (parseValue doubles entry.type value).toOption

def Setting.value : Setting D → Option (Value D)
  | .option name value => textValue doubles tab none name value
  | .line sect name value => textValue doubles tab sect name value
  | .int _ name val =>
      match (entryOf tab name).map ConfigItem.type with
      | some (.int _ _) | some (.enum _) => some (.int val)
      | _ => none
  | .double name val =>
      match (entryOf tab name).map ConfigItem.type with
      | some (.double _ _) => some (.double val)
      | _ => none
  | .string name val =>
      match (entryOf tab name).map ConfigItem.type with
      | some .string => some (.string (some val))
      | _ => none

namespace Overrides

variable {D : Type}

/-- The value of a section, or else that of the option. -/
def get (st : Overrides D) (sect : Option Str) (name : Str) : Option (Value D) :=
  match sect with
  | none => st.value none name
  | some sect => (st.value (some sect) name).or (st.value none name)

def put (st : Overrides D) (sect : Option Str) (name : Str) (val : Value D) (locks : Bool) :
    Overrides D where
  value sect' name' := if sect' = sect ∧ name' = name then some val else st.value sect' name'
  locked name' := st.locked name' || (sect.isNone && name' == name && locks)

/-- A value, and whether it is accepted: a locked option keeps its own against a value
that gives way, and a section may need room for an item. -/
def accept (st : Overrides D) (memory : Supply) (sect : Option Str) (name : Str)
    (val : Value D) (yields : Bool) : Bool × Overrides D :=
  if sect.isNone && yields && st.locked name then (true, st)
  else if sect.isSome && (st.value sect name).isNone && !memory.room then (false, st)
  else (true, st.put sect name val !yields)

theorem accept_part (st : Overrides D) (memory : Supply) (s name : Str) (val : Value D)
    (yields : Bool) :
    st.accept memory (some s) name val yields =
      if (st.value (some s) name).isNone && !memory.room then (false, st)
      else (true, st.put (some s) name val !yields) := rfl

theorem accept_whole (st : Overrides D) (memory : Supply) (name : Str) (val : Value D)
    (yields : Bool) :
    st.accept memory none name val yields =
      if yields && st.locked name then (true, st)
      else (true, st.put none name val !yields) := rfl

/-- A setting, and whether it is accepted. -/
def set (doubles : Doubles D) (tab : List (ConfigItem D)) (st : Overrides D)
    (memory : Supply) (setting : Setting D) : Bool × Overrides D :=
  match setting.value doubles tab with
  | none => (false, st)
  | some val => st.accept memory setting.sect setting.name val setting.yields

end Overrides

end

end LinuxPtp.Config
