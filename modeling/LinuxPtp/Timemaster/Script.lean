import LinuxPtp.Lib.CheckedInt

/-!
# The script of timemaster

The programs that timemaster starts: the NTP program, and for the interfaces of every
PTP source instances of ptp4l and phc2sys.  Interfaces that share a hardware clock are
served by one instance, unless the clock serves another source already.
-/

namespace LinuxPtp.Timemaster

open CheckedInt

/-! ## The configuration -/

inductive NtpProgram
  | chronyd
  | ntpd
  deriving DecidableEq, Repr

structure NtpServer where
  address : String
  minpoll : ℤ
  maxpoll : ℤ
  iburst : Bool
  ntpOptions : String

/-- `delay` is the text that `"%.1e"` makes of the delay. -/
structure PtpDomain where
  domain : ℤ
  ntpPoll : ℤ
  phc2sysPoll : ℤ
  delay : String
  interfaces : List String
  ptp4lSettings : List String
  ntpOptions : String

inductive Source
  | ntpServer (ntp : NtpServer)
  | ptpDomain (ptp : PtpDomain)

structure ProgramConfig where
  path : String
  options : List String
  settings : List String

structure TimemasterConfig where
  sources : List Source
  ntpProgram : NtpProgram
  rundir : String
  firstShmSegment : ℤ
  restartProcesses : ℤ
  chronyd : ProgramConfig
  ntpd : ProgramConfig
  phc2sys : ProgramConfig
  ptp4l : ProgramConfig

/-- `struct sk_ts_info`. -/
structure TsInfo where
  phcIndex : ℤ
  soTimestamping : UInt32

/-- What the kernel says of the interfaces: the device that stamps packets, and its time
stamping; both are asked once for each interface of each source.  `rate` is the text of
the rate that phc2sys gets for a poll interval. -/
structure Env where
  tsDevice : (source position : ℕ) → String → Option String
  tsInfo : (source position : ℕ) → String → Option TsInfo
  rate : ℤ → String

/-! ## The script -/

structure ConfigFile where
  path : String
  content : String

/-- One ptp4l, with its phc2sys when it uses a hardware clock: the source and the
positions of its interfaces there. -/
structure Instance where
  source : ℕ
  domain : PtpDomain
  positions : List ℕ
  phc : Option ℤ
  segment : ℤ

/-- The script while it is made.  The file of the NTP program comes first in
`script->configs`, and stays open to the end; for the record, `instances` are the
instances of ptp4l. -/
structure Script where
  ntpConfig : ConfigFile
  configs : List ConfigFile
  commands : List (List String)
  commandGroups : List ℤ
  restartGroups : ℤ
  noRestartGroup : ℤ
  instances : List Instance

/-- The script with the counters of `script_create`. -/
structure Progress where
  script : Script
  shmSegment : ℤ
  commandGroup : ℤ
  allocatedPhcs : List ℤ

/-! ## Commands -/

def getPtp4lCommand (config : ProgramConfig) (file : String) (interfaces : List String)
    (hwTs : Bool) : List String :=
  config.path :: config.options ++ ["-f", file, if hwTs then "-H" else "-S"] ++
    interfaces.flatMap fun name => ["-i", name]

def getPhc2sysCommand (env : Env) (config : ProgramConfig) (domain poll shmSegment : ℤ)
    (udsPath messageTag : String) : List String :=
  config.path :: config.options ++
    ["-a", "-r", "-R", env.rate poll, "-z", udsPath, "-t", messageTag,
      "-n", domain.repr, "-E", "ntpshm", "-M", shmSegment.repr]

/-- `get_refid` of a segment; the result of a null pointer is what `printf` makes of
it. -/
def getRefid (text : String) (segment : ℤ) : String :=
  let number := (segment % 2 ^ 32).toNat
  if number < 10 then String.ofList (text.toList.take 3) ++ number.repr
  else if number < 100 then String.ofList (text.toList.take 2) ++ number.repr
  else if number < 1000 then String.ofList (text.toList.take 1) ++ number.repr
  else "(null)"

/-- `extend_config_string`. -/
def lines (settings : List String) : String :=
  String.join (settings.map fun line => line ++ "\n")

/-- `add_shm_source`. -/
def shmSource (config : TimemasterConfig) (source : PtpDomain) (shmSegment : ℤ) : String :=
  let refid := getRefid "PTP" shmSegment
  match config.ntpProgram with
  | .chronyd =>
      "refclock SHM " ++ shmSegment.repr ++ " poll " ++ source.ntpPoll.repr ++ " dpoll " ++
        source.phc2sysPoll.repr ++ " refid " ++ refid ++ " precision 1.0e-9 delay " ++
        source.delay ++ " " ++ source.ntpOptions ++ "\n"
  | .ntpd =>
      "server 127.127.28." ++ shmSegment.repr ++ " minpoll " ++ source.ntpPoll.repr ++
        " maxpoll " ++ source.ntpPoll.repr ++ " mode 1 " ++ source.ntpOptions ++ "\n" ++
        "fudge 127.127.28." ++ shmSegment.repr ++ " refid " ++ refid ++ "\n"

/-- `add_ntp_source`. -/
def ntpSource (source : NtpServer) : String :=
  "server " ++ source.address ++ " minpoll " ++ source.minpoll.repr ++ " maxpoll " ++
    source.maxpoll.repr ++ " " ++ (if source.iburst then "iburst" else "") ++ " " ++
    source.ntpOptions ++ "\n"

/-! ## Instances -/

def udsPath (config : TimemasterConfig) (segment : ℤ) : String :=
  config.rundir ++ ("/ptp4l." ++ (segment.repr ++ ".socket"))

def configPath (config : TimemasterConfig) (segment : ℤ) : String :=
  config.rundir ++ ("/ptp4l." ++ (segment.repr ++ ".conf"))

namespace Instance

def interfaces (inst : Instance) : List String :=
  inst.positions.map fun i => inst.domain.interfaces.getD i ""

def messageTag (inst : Instance) : String :=
  "[" ++ inst.domain.domain.repr ++
    (match inst.interfaces with
      | [] => ""
      | first :: rest => ":" ++ first ++ String.join (rest.map fun name => "+" ++ name)) ++
    "]"

/-- The file of ptp4l; with software time stamping ptp4l itself feeds the segment. -/
def configFile (config : TimemasterConfig) (inst : Instance) : ConfigFile where
  path := configPath config inst.segment
  content :=
    "[global]\n" ++ lines config.ptp4l.settings ++ lines inst.domain.ptp4lSettings ++
      "slaveOnly 1\ndomainNumber " ++ inst.domain.domain.repr ++ "\nuds_address " ++
      udsPath config inst.segment ++ "\nmessage_tag " ++ inst.messageTag ++ "\n" ++
      (if inst.phc.isSome then ""
        else "clock_servo ntpshm\nntpshm_segment " ++ inst.segment.repr ++ "\n")

def ptp4l (config : TimemasterConfig) (inst : Instance) : List String :=
  getPtp4lCommand config.ptp4l (configPath config inst.segment) inst.interfaces
    inst.phc.isSome

def phc2sys (env : Env) (config : TimemasterConfig) (inst : Instance) : List String :=
  getPhc2sysCommand env config.phc2sys inst.domain.domain inst.domain.phc2sysPoll
    inst.segment (udsPath config inst.segment) inst.messageTag

def commands (env : Env) (config : TimemasterConfig) (inst : Instance) :
    List (List String) :=
  if inst.phc.isSome then [inst.ptp4l config, inst.phc2sys env config]
  else [inst.ptp4l config]

end Instance

section

variable (env : Env) (config : TimemasterConfig)

def startInstance (inst : Instance) (st : Progress) : Option Progress := do
  let commandGroup ← add 32 st.commandGroup 1
  let shmSegment ← add 32 st.shmSegment 1
  let commands := inst.commands env config
  pure
    { script :=
        { st.script with
          ntpConfig := { st.script.ntpConfig with
            content := st.script.ntpConfig.content ++
              shmSource config inst.domain inst.segment }
          configs := st.script.configs ++ [inst.configFile config]
          commands := st.script.commands ++ commands
          commandGroups := st.script.commandGroups ++
            List.replicate commands.length st.commandGroup
          instances := st.script.instances ++ [inst] }
      shmSegment := shmSegment
      commandGroup := commandGroup
      allocatedPhcs := st.allocatedPhcs ++ inst.phc.toList }

/-! ## Sources -/

/-- Transmission, reception and the clock itself in hardware. -/
def hwTs : UInt32 := 0x45

/-- The same in software. -/
def swTs : UInt32 := 0x1a

/-- The interface that stamps the packets of an interface, which a bond delegates to its
active slave. -/
def tsInterface (source position : ℕ) (name : String) : String :=
  (env.tsDevice source position name).getD (String.ofList (name.toList.take 15))

/-- The first loop of `add_ptp_source` for one interface: its hardware clock, or -1; and
nothing where time stamping is not supported. -/
def getPhc (source position : ℕ) (name : String) (allocatedPhcs : List ℤ) : Option ℤ :=
  match env.tsInfo source position (tsInterface env source position name) with
  | none => none
  | some tsInfo =>
      if tsInfo.soTimestamping &&& hwTs ≠ hwTs then
        if tsInfo.soTimestamping &&& swTs ≠ swTs then none else some (-1)
      else if tsInfo.phcIndex ∈ allocatedPhcs then some (-1)
      else some tsInfo.phcIndex

/-- The array `phcs`, from an interface on. -/
def getPhcs (source : ℕ) (allocatedPhcs : List ℤ) :
    (position : ℕ) → List String → Option (List ℤ)
  | _, [] => some []
  | position, name :: rest => do
      let phc ← getPhc env source position name allocatedPhcs
      let phcs ← getPhcs source allocatedPhcs (position + 1) rest
      pure (phc :: phcs)

/-- The later interfaces that share the clock of an interface. -/
def shared (phcs : ℕ → ℤ) (i : ℕ) (later : List ℕ) : List ℕ :=
  if phcs i ≥ 0 then later.filter fun j => phcs i = phcs j else []

/-- The array `phcs` with these interfaces marked as used. -/
def marked (phcs : ℕ → ℤ) (used : List ℕ) : ℕ → ℤ :=
  fun j => if j ∈ used then -2 else phcs j

def addInterfaces (source : ℕ) (ptp : PtpDomain) :
    (ℕ → ℤ) → List ℕ → Progress → Option Progress
  | _, [], st => some st
  | phcs, i :: later, st =>
      if phcs i = -2 then addInterfaces source ptp phcs later st
      else do
        let st ← startInstance env config
          { source := source
            domain := ptp
            positions := i :: shared phcs i later
            phc := if phcs i ≥ 0 then some (phcs i) else none
            segment := st.shmSegment } st
        addInterfaces source ptp (marked phcs (shared phcs i later)) later st

/-- `add_ptp_source`.  The result tells whether time stamping is supported. -/
def addPtpSource (source : ℕ) (ptp : PtpDomain) (st : Progress) :
    Option (Bool × Progress) :=
  match getPhcs env source st.allocatedPhcs 0 ptp.interfaces with
  | none => some (false, st)
  | some phcs =>
      (addInterfaces env config source ptp (fun i => phcs.getD i (-1))
        (List.range ptp.interfaces.length) st).map fun st => (true, st)

def addNtpSource (ntp : NtpServer) (st : Progress) : Progress :=
  { st with
    script := { st.script with
      ntpConfig := { st.script.ntpConfig with
        content := st.script.ntpConfig.content ++ ntpSource ntp } } }

/-- The loop of `script_create`; a source that fails does not end it. -/
def addSources : ℕ → List Source → Progress → Option (Bool × Progress)
  | _, [], st => some (true, st)
  | number, .ntpServer ntp :: rest, st =>
      addSources (number + 1) rest (addNtpSource ntp st)
  | number, .ptpDomain ptp :: rest, st => do
      let (added, st) ← addPtpSource env config number ptp st
      let (all, st) ← addSources (number + 1) rest st
      pure (added && all, st)

/-- The file of the NTP program, as `add_ntp_program` starts it. -/
def ntpConfig : ConfigFile :=
  match config.ntpProgram with
  | .chronyd => ⟨config.rundir ++ "/chrony.conf", lines config.chronyd.settings⟩
  | .ntpd => ⟨config.rundir ++ "/ntp.conf", lines config.ntpd.settings⟩

/-- `get_chronyd_command` and `get_ntpd_command`. -/
def ntpCommand : List String :=
  match config.ntpProgram with
  | .chronyd =>
      config.chronyd.path :: config.chronyd.options ++ ["-n", "-f", (ntpConfig config).path]
  | .ntpd =>
      config.ntpd.path :: config.ntpd.options ++ ["-n", "-c", (ntpConfig config).path]

end

end LinuxPtp.Timemaster
