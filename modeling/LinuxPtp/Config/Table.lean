import LinuxPtp.Config.Values

/-!
# The table of options

Every option with its type, its default, its bounds, and whether it may appear in the
section of a port.
-/

namespace LinuxPtp.Config

def intMin : ℤ := -2 ^ 31
def intMax : ℤ := 2 ^ 31 - 1
def dblMax : ℚ := 2 ^ 1024 - 2 ^ 971
def dblMin : ℚ := 1 / 2 ^ 1022

section

variable {D : Type}

def configItem (label : String) (port : Bool) (type : ConfigType D) (val : Value D) :
    ConfigItem D where
  label := cstr label
  type := type
  port := port
  locked := false
  val := val

def globItemInt (label : String) (val min max : ℤ) : ConfigItem D :=
  configItem label false (.int min max) (.int val)

def portItemInt (label : String) (val min max : ℤ) : ConfigItem D :=
  configItem label true (.int min max) (.int val)

def globItemDbl (doubles : Doubles D) (label : String) (val min max : ℚ) :
    ConfigItem D :=
  configItem label false (.double (doubles.constant min) (doubles.constant max))
    (.double (doubles.constant val))

def globItemEnu (label : String) (val : ℤ) (tab : List (Str × ℤ)) : ConfigItem D :=
  configItem label false (.enum (some tab)) (.int val)

def portItemEnu (label : String) (val : ℤ) (tab : List (Str × ℤ)) : ConfigItem D :=
  configItem label true (.enum (some tab)) (.int val)

def globItemStr (label : String) (val : Option Str) : ConfigItem D :=
  configItem label false .string (.string val)

def portItemStr (label : String) (val : Option Str) : ConfigItem D :=
  configItem label true .string (.string val)

end

/-! ## Enumerations -/

def clockServoEnu : List (Str × ℤ) :=
  [(cstr "pi", 0), (cstr "linreg", 1), (cstr "ntpshm", 2), (cstr "nullf", 3)]

def clockTypeEnu : List (Str × ℤ) :=
  [(cstr "OC", 0x8000), (cstr "BC", 0x4000), (cstr "P2P_TC", 0x2000),
    (cstr "E2E_TC", 0x1000)]

def datasetCompEnu : List (Str × ℤ) :=
  [(cstr "ieee1588", 0), (cstr "G.8275.x", 1)]

def delayFilterEnu : List (Str × ℤ) :=
  [(cstr "moving_average", 0), (cstr "moving_median", 1)]

def delayMechEnu : List (Str × ℤ) :=
  [(cstr "Auto", 0), (cstr "E2E", 1), (cstr "P2P", 2)]

def nwTransEnu : List (Str × ℤ) :=
  [(cstr "L2", 3), (cstr "UDPv4", 1), (cstr "UDPv6", 2)]

def timestampingEnu : List (Str × ℤ) :=
  [(cstr "hardware", 1), (cstr "software", 0), (cstr "legacy", 2),
    (cstr "onestep", 3), (cstr "p2p1step", 4)]

def tsprocEnu : List (Str × ℤ) :=
  [(cstr "filter", 0), (cstr "raw", 1), (cstr "filter_weight", 2),
    (cstr "raw_weight", 3)]

/-! ## The table -/

/-- `config_tab`; `runHome` is `PTP_RUN_HOME`, which depends on the architecture. -/
def configTab {D : Type} (doubles : Doubles D) (runHome : Str) : List (ConfigItem D) :=
  [portItemInt "announceReceiptTimeout" 3 2 255,
    globItemInt "assume_two_step" 0 0 1,
    portItemInt "boundary_clock_jbod" 0 0 1,
    globItemInt "check_fup_sync" 0 0 1,
    globItemInt "clockAccuracy" 0xfe 0 255,
    globItemInt "clockClass" 248 0 255,
    globItemEnu "clock_servo" 0 clockServoEnu,
    globItemEnu "clock_type" 0x8000 clockTypeEnu,
    globItemEnu "dataset_comparison" 0 datasetCompEnu,
    portItemInt "delayAsymmetry" 0 intMin intMax,
    portItemEnu "delay_filter" 1 delayFilterEnu,
    portItemInt "delay_filter_length" 10 1 intMax,
    portItemEnu "delay_mechanism" 1 delayMechEnu,
    globItemInt "dscp_event" 0 0 63,
    globItemInt "dscp_general" 0 0 63,
    globItemInt "domainNumber" 0 0 127,
    portItemInt "egressLatency" 0 intMin intMax,
    portItemInt "fault_badpeernet_interval" 16 intMin intMax,
    portItemInt "fault_reset_interval" 4 (-128) 127,
    globItemDbl doubles "first_step_threshold" 0.00002 0.0 dblMax,
    portItemInt "follow_up_info" 0 0 1,
    globItemInt "free_running" 0 0 1,
    portItemInt "freq_est_interval" 1 0 intMax,
    globItemInt "G.8275.defaultDS.localPriority" 128 1 255,
    portItemInt "G.8275.portDS.localPriority" 128 1 255,
    globItemInt "gmCapable" 1 0 1,
    portItemInt "hybrid_e2e" 0 0 1,
    portItemInt "ignore_transport_specific" 0 0 1,
    portItemInt "ingressLatency" 0 intMin intMax,
    portItemInt "inhibit_multicast_service" 0 0 1,
    globItemInt "initial_delay" 0 0 intMax,
    globItemInt "kernel_leap" 1 0 1,
    portItemInt "logAnnounceInterval" 1 (-128) 127,
    portItemInt "logMinDelayReqInterval" 0 (-128) 127,
    portItemInt "logMinPdelayReqInterval" 0 (-128) 127,
    portItemInt "logSyncInterval" 0 (-128) 127,
    globItemInt "logging_level" 6 0 7,
    portItemInt "masterOnly" 0 0 1,
    globItemStr "message_tag" none,
    globItemStr "manufacturerIdentity" (some (cstr "00:00:00")),
    globItemInt "max_frequency" 900000000 0 intMax,
    portItemInt "min_neighbor_prop_delay" (-20000000) intMin (-1),
    portItemInt "neighborPropDelayThresh" 20000000 0 intMax,
    portItemInt "net_sync_monitor" 0 0 1,
    portItemEnu "network_transport" 1 nwTransEnu,
    globItemInt "ntpshm_segment" 0 intMin intMax,
    globItemInt "offsetScaledLogVariance" 0xffff 0 65535,
    portItemInt "path_trace_enabled" 0 0 1,
    globItemDbl doubles "pi_integral_const" 0.0 0.0 dblMax,
    globItemDbl doubles "pi_integral_exponent" 0.4 (-dblMax) dblMax,
    globItemDbl doubles "pi_integral_norm_max" 0.3 dblMin 2.0,
    globItemDbl doubles "pi_integral_scale" 0.0 0.0 dblMax,
    globItemDbl doubles "pi_proportional_const" 0.0 0.0 dblMax,
    globItemDbl doubles "pi_proportional_exponent" (-0.3) (-dblMax) dblMax,
    globItemDbl doubles "pi_proportional_norm_max" 0.7 dblMin 1.0,
    globItemDbl doubles "pi_proportional_scale" 0.0 0.0 dblMax,
    globItemInt "priority1" 128 0 255,
    globItemInt "priority2" 128 0 255,
    globItemStr "productDescription" (some (cstr ";;")),
    portItemStr "ptp_dst_mac" (some (cstr "01:1B:19:00:00:00")),
    portItemStr "p2p_dst_mac" (some (cstr "01:80:C2:00:00:0E")),
    globItemStr "revisionData" (some (cstr ";;")),
    globItemInt "sanity_freq_limit" 200000000 0 intMax,
    globItemInt "slaveOnly" 0 0 1,
    globItemDbl doubles "step_threshold" 0.0 0.0 dblMax,
    globItemInt "summary_interval" 0 intMin intMax,
    portItemInt "syncReceiptTimeout" 0 0 255,
    globItemInt "tc_spanning_tree" 0 0 1,
    globItemInt "timeSource" 0xA0 0x10 0xfe,
    globItemEnu "time_stamping" 1 timestampingEnu,
    portItemInt "transportSpecific" 0 0 0x0F,
    portItemEnu "tsproc_mode" 0 tsprocEnu,
    globItemInt "twoStepFlag" 1 0 1,
    globItemInt "tx_timestamp_timeout" 1 1 intMax,
    portItemInt "udp_ttl" 1 1 255,
    portItemInt "udp6_scope" 0x0E 0x00 0x0F,
    globItemStr "uds_address" (some (runHome ++ cstr "/ptp4l")),
    portItemInt "unicast_listen" 0 0 1,
    portItemInt "unicast_master_table" 0 0 intMax,
    portItemInt "unicast_req_duration" 3600 10 intMax,
    globItemInt "use_syslog" 1 0 1,
    globItemStr "userDescription" (some (cstr "")),
    globItemInt "utc_offset" 37 0 intMax,
    globItemInt "verbose" 0 0 1]

end LinuxPtp.Config
