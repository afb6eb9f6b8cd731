import Mathlib

/-!
# Port state machines

The two state machines of `ptpPortInit.c`, for ports in general and for the
port of a slave-only clock.
-/

namespace LinuxPtp.Port

inductive PortState
  | initializing
  | faulty
  | disabled
  | listening
  | preMaster
  | master
  | passive
  | uncalibrated
  | slave
  | grandMaster
  deriving DecidableEq, Repr

inductive PortEvent
  | none
  | powerup
  | initializePort
  | designatedEnabled
  | designatedDisabled
  | faultCleared
  | faultDetected
  | stateDecisionEvent
  | qualificationTimeoutExpires
  | announceReceiptTimeoutExpires
  | synchronizationFault
  | masterClockSelected
  | initComplete
  | rsMaster
  | rsGrandMaster
  | rsSlave
  | rsPassive
  deriving DecidableEq, Repr

/-- `_ptpFsm`; `mdiff` tells whether a new master has been selected. -/
def ptpFsm (state : PortState) (event : PortEvent) (mdiff : Bool) :
    PortState :=
  match event with
  | .initializePort | .powerup => .initializing
  | _ =>
    match state with
    | .initializing =>
        match event with
        | .faultDetected => .faulty
        | .initComplete => .listening
        | _ => state
    | .faulty =>
        match event with
        | .designatedDisabled => .disabled
        | .faultCleared => .initializing
        | _ => state
    | .disabled =>
        match event with
        | .designatedEnabled => .initializing
        | _ => state
    | .listening =>
        match event with
        | .designatedDisabled => .disabled
        | .faultDetected => .faulty
        | .announceReceiptTimeoutExpires => .master
        | .rsMaster => .preMaster
        | .rsGrandMaster => .grandMaster
        | .rsSlave => .uncalibrated
        | .rsPassive => .passive
        | _ => state
    | .preMaster =>
        match event with
        | .designatedDisabled => .disabled
        | .faultDetected => .faulty
        | .qualificationTimeoutExpires => .master
        | .rsSlave => .uncalibrated
        | .rsPassive => .passive
        | _ => state
    | .master | .grandMaster =>
        match event with
        | .designatedDisabled => .disabled
        | .faultDetected => .faulty
        | .rsSlave => .uncalibrated
        | .rsPassive => .passive
        | _ => state
    | .passive =>
        match event with
        | .designatedDisabled => .disabled
        | .faultDetected => .faulty
        | .announceReceiptTimeoutExpires => .master
        | .rsMaster => .preMaster
        | .rsGrandMaster => .grandMaster
        | .rsSlave => .uncalibrated
        | _ => state
    | .uncalibrated =>
        match event with
        | .designatedDisabled => .disabled
        | .faultDetected => .faulty
        | .announceReceiptTimeoutExpires => .master
        | .masterClockSelected => .slave
        | .rsMaster => .preMaster
        | .rsGrandMaster => .grandMaster
        | .rsSlave => .uncalibrated
        | .rsPassive => .passive
        | _ => state
    | .slave =>
        match event with
        | .designatedDisabled => .disabled
        | .faultDetected => .faulty
        | .announceReceiptTimeoutExpires => .master
        | .synchronizationFault => .uncalibrated
        | .rsMaster => .preMaster
        | .rsGrandMaster => .grandMaster
        | .rsSlave => if mdiff then .uncalibrated else state
        | .rsPassive => .passive
        | _ => state

def ptpSlaveFsm (state : PortState) (event : PortEvent) (mdiff : Bool) :
    PortState :=
  match event with
  | .initializePort | .powerup => .initializing
  | _ =>
    match state with
    | .initializing =>
        match event with
        | .faultDetected => .faulty
        | .initComplete => .listening
        | _ => state
    | .faulty =>
        match event with
        | .designatedDisabled => .disabled
        | .faultCleared => .initializing
        | _ => state
    | .disabled =>
        match event with
        | .designatedEnabled => .initializing
        | _ => state
    | .listening =>
        match event with
        | .designatedDisabled => .disabled
        | .faultDetected => .faulty
        | .announceReceiptTimeoutExpires | .rsMaster | .rsGrandMaster
        | .rsPassive => .listening
        | .rsSlave => .uncalibrated
        | _ => state
    | .uncalibrated =>
        match event with
        | .designatedDisabled => .disabled
        | .faultDetected => .faulty
        | .announceReceiptTimeoutExpires | .rsMaster | .rsGrandMaster
        | .rsPassive => .listening
        | .masterClockSelected => .slave
        | _ => state
    | .slave =>
        match event with
        | .designatedDisabled => .disabled
        | .faultDetected => .faulty
        | .announceReceiptTimeoutExpires | .rsMaster | .rsGrandMaster
        | .rsPassive => .listening
        | .synchronizationFault => .uncalibrated
        | .rsSlave => if mdiff then .uncalibrated else state
        | _ => state
    | _ => state

end LinuxPtp.Port
