import LinuxPtp.Config.Store

/-!
# Reading a configuration file

Lines are settings, or headers of sections: of the global one, of a table of unicast
masters, and of ports.  Reading ends at the first line that is not understood.
-/

namespace LinuxPtp.Config

/-! ## Lines -/

/-- What `fgets` returns, one call after the other: lines with their ends, in pieces that
fit a buffer.  `room` is what the buffer still takes. -/
def fgetsPieces (size : ℕ) : (room : ℕ) → (piece : Str) → List UInt8 → List Str
  | _, [], [] => []
  | _, piece, [] => [piece]
  | room, piece, char :: rest =>
      if char = 10 ∨ room ≤ 1 then (piece ++ [char]) :: fgetsPieces size size [] rest
      else fgetsPieces size (room - 1) (piece ++ [char]) rest

/-- The lines of a file for a buffer of 1024 bytes; a string ends at its first zero. -/
def fileLines (file : List UInt8) : List Str :=
  (fgetsPieces 1023 1023 [] file).map fun piece => piece.takeWhile (· ≠ 0)

/-- `enum config_section`, with the name of the current port. -/
inductive CurrentSect
  | unknown
  | global
  | unicast
  | port (name : Str)
  deriving DecidableEq, Repr

/-- The name that `sscanf` reads with `" %16s"`. -/
def scanName (line : Str) : Option Str :=
  match ((line.dropWhile isspace).takeWhile fun char => !isspace char).take 16 with
  | [] => none
  | name => some name

/-- Square brackets replaced with white space. -/
def dropBrackets (line : Str) : Str :=
  line.map fun char => if char = 91 ∨ char = 93 then 32 else char

/-- `check_deprecated_options`. -/
def newOption (option : Str) : Str :=
  if option = cstr "pi_offset_const" then cstr "step_threshold"
  else if option = cstr "pi_f_offset_const" then cstr "first_step_threshold"
  else if option = cstr "pi_max_frequency" then cstr "max_frequency"
  else option

def parseSettingLine (line : Str) : Option (Str × Str) :=
  let option := line.takeWhile fun char => !isspace char
  let rest := line.drop option.length
  if rest = [] then none else some (option, rest.dropWhile isspace)

/-- What a line is, in the current section. -/
inductive LineKind
  | blank
  | header (sect : CurrentSect)
  | unicast
  | setting (sect : Option Str) (option value : Str)
  | bad
  deriving DecidableEq, Repr

/-- A line without white space around it. -/
def trimLine (buf : Str) : Str :=
  match buf.dropWhile isspace with
  | [] => []
  | first :: rest => first :: rest.rdropWhile fun char => char = 10 || isspace char

/-- A line that is a setting of this section. -/
def settingKind (sect : Option Str) (line : Str) : LineKind :=
  match parseSettingLine line with
  | none => .bad
  | some (option, value) => .setting sect (newOption option) value

/-- A line of the current section. -/
def sectLine (line : Str) : CurrentSect → LineKind
  | .unicast => .unicast
  | .unknown => .bad
  | .global => settingKind none line
  | .port name => settingKind (some name) line

/-- `parse_section_line` for a header that is not the global one or a table. -/
def portHeader (line : Str) : LineKind :=
  match scanName (dropBrackets line) with
  | none => .bad
  | some name => .header (.port name)

/-- The body of the loop of `config_read`, up to what the line is. -/
def lineKind (current : CurrentSect) (buf : Str) : LineKind :=
  match trimLine buf with
  | [] => .blank
  | first :: rest =>
      if first = 35 ∨ first = 10 then .blank
      else if sameCase (first :: rest) (cstr "[global]") then .header .global
      else if sameCase (first :: rest) (cstr "[unicast_master_table]") then .header .unicast
      else if first = 91 then portHeader (first :: rest)
      else sectLine (first :: rest) current

/-! ## Reading -/

def configCreateInterface {D : Type} (memory : Supply) (cfg : PtpConfig D) (name : Str) :
    Option (PtpConfig D) :=
  if name ∈ cfg.interfaces then some cfg
  else if memory.interface then some { cfg with interfaces := cfg.interfaces ++ [name] }
  else none

/-- A setting of a file. -/
structure FileSetting where
  sect : Option Str
  option : Str
  value : Str
  deriving DecidableEq, Repr

/-- The loop of `config_read`; for the record, the settings that have been accepted. -/
structure Reader (D : Type) where
  current : CurrentSect
  cfg : PtpConfig D
  taken : List FileSetting := []

section

variable {D : Type} (doubles : Doubles D)

/-- One line; the result is false where reading ends. -/
def readLine (memory : Supply) (unicastLine : Bool) (reader : Reader D) (buf : Str) :
    Bool × Reader D :=
  match lineKind reader.current buf with
  | .blank => (true, reader)
  | .header (.port name) =>
      match configCreateInterface memory reader.cfg name with
      | none => (false, reader)
      | some cfg => (true, { reader with current := .port name, cfg := cfg })
  | .header sect => (true, { reader with current := sect })
  | .unicast => (unicastLine, reader)
  | .setting sect option value =>
      match parseItem doubles memory reader.cfg false sect option value with
      | (.ok (), cfg) => (true, { reader with
          cfg := cfg
          taken := reader.taken ++ [⟨sect, option, value⟩] })
      | (.error _, cfg) => (false, { reader with cfg := cfg })
  | .bad => (false, reader)

/-- Lines one after the other.  `unicast` tells for the lines up to a line of a table of
unicast masters whether this line is understood. -/
def readLines (memory : ℕ → Supply) (unicast : List Str → Bool) :
    (before lines : List Str) → Reader D → Bool × Reader D
  | _, [], reader => (true, reader)
  | before, buf :: rest, reader =>
      match readLine doubles (memory before.length) (unicast (before ++ [buf])) reader buf with
      | (true, reader) => readLines memory unicast (before ++ [buf]) rest reader
      | (false, reader) => (false, reader)

/-- `config_read` of a file that has been opened. -/
def configRead (memory : ℕ → Supply) (unicast : List Str → Bool) (file : List UInt8)
    (cfg : PtpConfig D) : Bool × Reader D :=
  readLines doubles memory unicast [] (fileLines file)
    { current := .unknown, cfg := cfg }

end

/-- The settings of lines, up to a line that cannot be understood. -/
def settingsOf : CurrentSect → List Str → List FileSetting
  | _, [] => []
  | current, buf :: rest =>
      match lineKind current buf with
      | .blank | .unicast => settingsOf current rest
      | .header sect => settingsOf sect rest
      | .setting sect option value => ⟨sect, option, value⟩ :: settingsOf current rest
      | .bad => []

example : settingsOf .unknown (fileLines (cstr
    "# ports\n[global]\n slaveOnly\t1 \n[ eth0 ]\nlogSyncInterval -3\nx")) =
      [⟨none, cstr "slaveOnly", cstr "1"⟩,
        ⟨some (cstr "eth0"), cstr "logSyncInterval", cstr "-3"⟩] := by
  decide +kernel

end LinuxPtp.Config
