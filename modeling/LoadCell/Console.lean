import LoadCell.Pipeline
import LoadCell.Protocol.Engine
import LoadCell.Settings

/-!
The serial console. Bytes are gathered into a line until a carriage return or a line feed; a line
of one character, blanks in front of it aside, is a command.
-/

namespace LoadCell

inductive ConsoleCommand
  | setLevel (level : LogLevel)
  | showStatus
  | cycleOrder
  | resetCalibration
  | help
  deriving DecidableEq

/-- Bytes that have arrived but are not read, and the line read so far. -/
structure Console where
  unread : Bytes := []
  line : Bytes := []

instance : Inhabited Console := ⟨{}⟩

/-- What the status shows from outside the measurement: the sampler's counts and the radio. -/
structure Telemetry where
  samplesRead : UInt32 := 0
  timeouts : UInt32 := 0
  writesDropped : UInt32 := 0
  connected : Bool := false

def versionText : String := "1.0.0"

namespace ConsoleCommand

def ofByte? (b : UInt8) : Option ConsoleCommand :=
  match Char.ofNat b.toNat with
  | '0' => some (setLevel .off)
  | '1' => some (setLevel .events)
  | '2' => some (setLevel .protocol)
  | '3' => some (setLevel .weight)
  | '9' => some (setLevel .all)
  | 'S' | 's' => some showStatus
  | 'E' | 'e' => some cycleOrder
  | 'R' | 'r' => some resetCalibration
  | '?' | 'H' | 'h' => some help
  | _ => none

end ConsoleCommand

namespace Console

def lineLimit : Nat := 31

def isTerminator (b : UInt8) : Bool := b == 10 || b == 13

def isBlank (b : UInt8) : Bool := b == 32 || b == 9

/-- What one more byte makes of a line. -/
inductive LineEvent
  | growing (line : Bytes)
  | complete (line : Bytes)
  /-- There was no room; the line and the byte are thrown away. -/
  | tooLong
  deriving DecidableEq

/-- Adds a byte to a line; a terminator ends a line that is not empty. -/
def extend (b : UInt8) (line : Bytes) : LineEvent :=
  if isTerminator b then
    if line.isEmpty then .growing line else .complete line
  else if line.length < lineLimit then .growing (line ++ [b])
  else .tooLong

/-- The text of a line: up to its first zero byte, without leading blanks. -/
def lineText (line : Bytes) : Bytes := (line.takeWhile (· != 0)).dropWhile isBlank

variable {σ : Type} [Logs σ] [Terminal σ] [Holds σ Console] [Holds σ Settings]
  [Holds σ SampleChannel] [Holds σ MedianFilter] [Holds σ Store] [Holds σ Calibration]
  [Holds σ Protocol] [Holds σ Pipeline]

def printHelp : StateM σ Unit := do
  Terminal.line "\n=== Pullcell Serial Commands ==="
  Terminal.line "  0-3, 9  - Debug level (0=off, 1=events, 2=+protocol, 3=+weight, 9=all)"
  Terminal.line "  S       - Show status"
  Terminal.line "  E       - Cycle calibration float byte order (LITTLE -> BIG -> AUTO)"
  Terminal.line "  R       - Reset calibration (erases stored mapping)"
  Terminal.line "  ?       - This help"

def levelText : LogLevel → String
  | .off => "All debug output OFF"
  | .events => "Events (calibration, storage)"
  | .protocol => "+ Protocol and BLE"
  | .weight => "+ Weight (every filtered sample)"
  | .all => "All debug ON"

def chooseLevel (level : LogLevel) : StateM σ Unit := do
  setPart level
  Terminal.line ("Debug Level " ++ toString level.code ++ ": " ++ levelText level)
  if !(← Settings.saveLevel level.code) then
    Terminal.line "WARNING: Debug level not persisted"

def stepOrder : StateM σ Unit := do
  let next := (← getPart Protocol).config.order.next
  Protocol.setOrder next
  Terminal.write ("Float byte order: " ++ next.name ++ "\n")
  if !(← Settings.saveOrder next) then
    Terminal.line "WARNING: Byte order not persisted"

def resetCalibration (medium : Medium σ) : StateM σ Unit := do
  match ← Calibration.reset medium with
  | .ok () => Terminal.line "Calibration reset - device is uncalibrated"
  | .error e =>
    Terminal.write ("ERROR: Calibration reset failed (" ++ e.name ++ ")\n")
    Protocol.recordError e.name

def weightText (w : Float32) : String :=
  if w.isNaN then "---" else Calibration.kilograms 3 w ++ " kg"

def printStatus (telemetry : StateM σ Telemetry) : StateM σ Unit := do
  let seen ← telemetry
  let c ← getPart Calibration
  let p ← getPart Protocol
  let pipe ← getPart Pipeline
  let channel ← getPart SampleChannel
  Terminal.line "\n=== SYSTEM STATUS ==="
  Terminal.write ("Firmware: " ++ versionText ++ "\n")
  match c.mapping with
  | some m =>
    Terminal.write ("Calibration: VALID (zero_raw=" ++ Calibration.countText m.zeroRaw
      ++ ", gradient=" ++ Decimal.general m.gradient ++ " kg/count)\n")
  | none => Terminal.line "Calibration: NOT CALIBRATED"
  Terminal.write ("Calibration points: " ++ toString c.session.count ++ "\n")
  Terminal.write ("Tare offset: " ++ Calibration.kilograms 3 c.tare.offset ++ " kg"
    ++ (if c.tare.isRunning then " (taring)" else "") ++ "\n")
  Terminal.write ("Last reading: raw=" ++ Calibration.countText pipe.lastFiltered
    ++ ", weight=" ++ weightText pipe.lastWeight ++ "\n")
  Terminal.write ("Samples: " ++ toString seen.samplesRead ++ " read, "
    ++ toString pipe.samples ++ " processed, " ++ toString channel.overruns ++ " overruns, "
    ++ toString seen.timeouts ++ " DRDY timeouts\n")
  Terminal.write ("Streaming: " ++ Text.yesNo p.isStreaming ++ "\n")
  Terminal.write ("Float byte order: " ++ p.config.order.name ++ "\n")
  Terminal.write ("Notifications sent: " ++ toString p.sent ++ ", responses dropped: "
    ++ toString p.dropped ++ "\n")
  let errorInfo := if p.errorInfo.isEmpty then "(none)" else p.errorInfo
  Terminal.write ("Error info: " ++ errorInfo ++ "\n")
  Terminal.write ("Battery low: " ++ Text.yesNo p.batteryLow ++ "\n")
  Terminal.write ("BLE connected: " ++ Text.yesNo seen.connected ++ ", frames dropped: "
    ++ toString seen.writesDropped ++ "\n")
  Terminal.write ("Debug level: " ++ toString (← getPart LogLevel).code ++ "\n")
  Terminal.line "=====================\n"

def perform (medium : Medium σ) (telemetry : StateM σ Telemetry) : ConsoleCommand → StateM σ Unit
  | .setLevel level => chooseLevel level
  | .showStatus => printStatus telemetry
  | .cycleOrder => stepOrder
  | .resetCalibration => resetCalibration medium
  | .help => printHelp

def reportUnknown (text : Bytes) : StateM σ Unit :=
  Terminal.write ("ERROR: Unknown command '" ++ Text.ofBytes text ++ "' (? for help)\n")

def runLine (medium : Medium σ) (telemetry : StateM σ Telemetry) (line : Bytes) :
    StateM σ Unit := do
  match lineText line with
  | [] => return ()
  | [b] =>
    match ConsoleCommand.ofByte? b with
    | some command => perform medium telemetry command
    | none => reportUnknown [b]
  | text => reportUnknown text

def setLine (line : Bytes) : StateM σ Unit :=
  modifyPart fun c : Console => { c with line := line }

/-- Takes in one byte. The line stays until its command is done. -/
def accept (medium : Medium σ) (telemetry : StateM σ Telemetry) (b : UInt8) : StateM σ Unit := do
  match (← getPart Console).line |> extend b with
  | .growing line => setLine line
  | .complete line =>
    runLine medium telemetry line
    setLine []
  | .tooLong =>
    Terminal.line "ERROR: Command too long"
    setLine []

def readByte : StateM σ (Option UInt8) := do
  match (← getPart Console).unread with
  | [] => return none
  | b :: rest =>
    modifyPart fun c : Console => { c with unread := rest }
    return some b

/-- Takes in up to `count` bytes that have arrived. -/
def acceptBytes (medium : Medium σ) (telemetry : StateM σ Telemetry) :
    (count : Nat) → StateM σ Unit
  | 0 => return ()
  | count + 1 => do
    match ← readByte with
    | none => return ()
    | some b =>
      accept medium telemetry b
      acceptBytes medium telemetry count

def update (medium : Medium σ) (telemetry : StateM σ Telemetry) : StateM σ Unit := do
  acceptBytes medium telemetry (← getPart Console).unread.length

def arrive (c : Console) (bytes : Bytes) : Console := { c with unread := c.unread ++ bytes }

end Console

end LoadCell
