import LoadCell.Calibration.Error

/-!
What an error notification can say. The codes up to 5 are the protocol's own; `16 + n` stands for
the calibration error with code `n`.
-/

namespace LoadCell

inductive ProtocolError
  /-- The frame is empty, of the wrong length, or holds no acceptable number. -/
  | malformed
  | unknownOpcode
  | unsupported
  | uncalibrated
  /-- A control write was dropped before it was decoded. -/
  | queueFull
  | calibration (cause : CalibrationError)
  deriving DecidableEq

namespace ProtocolError

def code : ProtocolError → UInt8
  | malformed => 1
  | unknownOpcode => 2
  | unsupported => 3
  | uncalibrated => 4
  | queueFull => 5
  | calibration cause => 0x10 + cause.code

/-- The name of an error code, also of one that no error has. -/
def codeName (code : Nat) : String :=
  if code = 0 then "OK"
  else if code = 1 then "Malformed"
  else if code = 2 then "UnknownOp"
  else if code = 3 then "Unsupported"
  else if code = 4 then "Uncalibrated"
  else if code = 5 then "QueueFull"
  else if 0x10 < code then CalibrationError.statusName (code - 0x10)
  else "Unknown"

def name (e : ProtocolError) : String := codeName e.code.toNat

end ProtocolError

end LoadCell
