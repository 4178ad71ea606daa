/-!
Why a calibration operation was refused. The code of an error stands in answers to the peer.
-/

namespace LoadCell

inductive CalibrationError
  /-- The filter has not produced a reading yet. -/
  | noSample
  /-- Fewer than two points are captured. -/
  | insufficientPoints
  /-- The points share a count or a reference, or the fit is not finite. -/
  | degenerate
  /-- The medium did not take the record; the former mapping stays. -/
  | storageFault
  /-- Another save or reset is under way. -/
  | busy
  deriving DecidableEq

namespace CalibrationError

def code : CalibrationError → UInt8
  | noSample => 1
  | insufficientPoints => 2
  | degenerate => 3
  | storageFault => 4
  | busy => 5

def name : CalibrationError → String
  | noSample => "NoSample"
  | insufficientPoints => "NoPoints"
  | degenerate => "Degenerate"
  | storageFault => "StorageFault"
  | busy => "Busy"

def ofCode? (code : Nat) : Option CalibrationError :=
  if code = 1 then some noSample
  else if code = 2 then some insufficientPoints
  else if code = 3 then some degenerate
  else if code = 4 then some storageFault
  else if code = 5 then some busy
  else none

/-- The name of a status code; zero is success. -/
def statusName (code : Nat) : String :=
  if code = 0 then "OK"
  else ((ofCode? code).map name).getD "Unknown"

theorem ofCode?_code (e : CalibrationError) : ofCode? e.code.toNat = some e := by
  cases e <;> rfl

end CalibrationError

end LoadCell
