import LoadCell.Protocol.ByteOrder
import LoadCell.Protocol.Error

/-!
Control frames. A frame is an opcode alone, or the opcode of a calibration point with its reference
weight in four bytes, which the byte 4 may precede as their count.
-/

namespace LoadCell

inductive Command
  | tare
  | startMeasurement
  | stopMeasurement
  | startPeakRfd
  | startPeakRfdSeries
  | addCalibrationPoint (reference : Float32)
  | saveCalibration
  | getAppVersion
  | getErrorInfo
  | clearErrorInfo
  | shutdown
  | sampleBattery
  | getDeviceId
  | getCalibrationCurve
  deriving DecidableEq

namespace Command

def opcode : Command → UInt8
  | tare => 0x64
  | startMeasurement => 0x65
  | stopMeasurement => 0x66
  | startPeakRfd => 0x67
  | startPeakRfdSeries => 0x68
  | addCalibrationPoint _ => 0x69
  | saveCalibration => 0x6A
  | getAppVersion => 0x6B
  | getErrorInfo => 0x6C
  | clearErrorInfo => 0x6D
  | shutdown => 0x6E
  | sampleBattery => 0x6F
  | getDeviceId => 0x70
  | getCalibrationCurve => 0x72

/-- The reference weight of a calibration point, zero for any other command. -/
def reference : Command → Float32
  | addCalibrationPoint w => w
  | _ => 0

/-- The commands that are an opcode and nothing else. -/
def bare : List Command :=
  [tare, startMeasurement, stopMeasurement, startPeakRfd, startPeakRfdSeries, saveCalibration,
    getAppVersion, getErrorInfo, clearErrorInfo, shutdown, sampleBattery, getDeviceId,
    getCalibrationCurve]

/-- The bare command with an opcode. -/
def ofOpcode? (code : UInt8) : Option Command := bare.find? (·.opcode == code)

def pointOpcode : UInt8 := 0x69

def referenceSize : Nat := 4

/-- The bytes of the reference weight in the payload of a calibration point. -/
def referenceBytes? : Bytes → Option Bytes
  | [a, b, c, d] => some [a, b, c, d]
  | [count, a, b, c, d] => if count.toNat = referenceSize then some [a, b, c, d] else none
  | _ => none

def decode (order : ByteOrder) (capacity : Float32) : Bytes → Except ProtocolError Command
  | [] => .error .malformed
  | code :: payload =>
    match ofOpcode? code with
    | some command => if payload.isEmpty then .ok command else .error .malformed
    | none =>
      if code = pointOpcode then
        match (referenceBytes? payload).bind (order.reference? capacity) with
        | some reference => .ok (.addCalibrationPoint reference)
        | none => .error .malformed
      else .error .unknownOpcode

end Command

/-- A command as its receiver holds it: the opcode, and the reference weight or zero. -/
structure HeldCommand where
  opcode : UInt8
  reference : Float32
  deriving DecidableEq

/-- Decodes a frame over the command that the receiver holds, which a refused frame leaves. -/
def HeldCommand.decode (held : HeldCommand) (order : ByteOrder) (capacity : Float32)
    (frame : Bytes) : Except ProtocolError Unit × HeldCommand :=
  match Command.decode order capacity frame with
  | .ok command => (.ok (), ⟨command.opcode, command.reference⟩)
  | .error e => (.error e, held)

end LoadCell
