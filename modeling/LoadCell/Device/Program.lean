import LoadCell.Console
import LoadCell.Device.Radio
import LoadCell.Device.Sampler
import LoadCell.Flash.Partition

/-!
The program of a device: what it does once at power-on, and the turns of its main loop.
-/

namespace LoadCell

/-- When the battery was last looked at, in milliseconds. -/
structure BatteryWatch where
  last : UInt32 := 0

instance : Inhabited BatteryWatch := ⟨{}⟩

namespace Program

def ledPin : Nat := 13

def partitionLabel : String := "calib"

/-- Milliseconds between two looks at the battery. -/
def batteryInterval : UInt32 := 10000

/-- A battery below this voltage is low. -/
def batteryLowLimit : UInt32 := 3400

/-- Below this voltage there is no battery. -/
def batteryAbsentLimit : UInt32 := 2500

variable {σ : Type} [Logs σ] [Terminal σ] [Holds σ Chain] [Holds σ PartitionFlash]
  [Holds σ Settings] [Holds σ Console] [Holds σ Radio] [Holds σ Sampler] [Holds σ BatteryWatch]
  (hw : Hardware σ) (flash : Medium σ)

def board : Board σ where
  medium := PartitionFlash.medium flash
  link := Radio.link hw
  clock := hw.micros

def telemetry : StateM σ Telemetry := do
  let sampler ← getPart Sampler
  return {
    samplesRead := sampler.samplesRead
    timeouts := sampler.timeouts
    writesDropped := (← getPart Inbox).dropped
    connected := (← getPart Radio).connected }

def checkBattery : StateM σ Unit := do
  let millivolts := (← hw.batteryPin) * 2
  let low := batteryAbsentLimit ≤ millivolts && millivolts < batteryLowLimit
  if low && !(← getPart Protocol).batteryLow then
    Terminal.write ("Battery: LOW (" ++ toString millivolts ++ " mV)\n")
  Protocol.setBattery millivolts low
  Log.debug .weight ("Battery: " ++ toString millivolts ++ " mV\n")

def watchBattery : StateM σ Unit := do
  setPart (⟨← hw.millis⟩ : BatteryWatch)
  checkBattery hw

/-- Prepares the settings memory, erasing it if its contents are unusable. -/
def prepareSettings : StateM σ Unit := do
  let first ← hw.settingsInit
  let status ←
    if first.wantsErase then do
      Terminal.line "NVS: Erasing and reinitializing..."
      let erased ← hw.settingsErase
      if erased = .ok then hw.settingsInit else pure erased
    else pure first
  if status ≠ .ok then
    Terminal.write ("NVS: ERROR - init failed (" ++ status.name ++ "), settings will not persist\n")

/-- Opens the settings and applies the stored debug level. -/
def applySettings : StateM σ Unit := do
  if !(← Settings.open?) then
    Terminal.line "Storage: using default settings"
  let code ← Settings.loadLevel
  if !(← Log.setLevel code) then
    Terminal.write ("Debug level " ++ toString code ++ " invalid, using "
      ++ toString LogLevel.default.code ++ "\n")
    setPart LogLevel.default

def printBanner : StateM σ Unit := do
  Terminal.line "================================="
  Terminal.write ("Pullcell v" ++ versionText ++ " | Adafruit ESP32 Feather V2\n")
  Terminal.line "================================="

def start : StateM σ Unit := do
  hw.delay 1000
  hw.issue (.pin ledPin .output)
  hw.setLed false
  printBanner
  prepareSettings hw
  applySettings
  let mediumFound ← PartitionFlash.find partitionLabel
  if ← Calibration.begin (PartitionFlash.medium flash) then Terminal.line "Calibration: loaded"
  else Terminal.line "Calibration: NOT CALIBRATED"
  let order ← Settings.loadOrder
  Protocol.edit fun p => { p with
    config := { appVersion := versionText, deviceId := hw.deviceId, order := order } }
  if !mediumFound then Protocol.recordError CalibrationError.storageFault.name
  checkBattery hw
  setPart (⟨← hw.millis⟩ : BatteryWatch)
  if !(← Radio.start hw) then
    Terminal.line "BLE: initialization failed"
  if !(← Sampler.start hw) then
    Terminal.line "Sampler: NOT RUNNING - no weight readings"
    Protocol.recordError "NoSensor"
  Console.setLine []
  Terminal.line "Serial commands ready (? for help)"
  Terminal.line "Setup complete!"

def turn : StateM σ Unit := do
  Console.update (PartitionFlash.medium flash) telemetry
  Chain.dispatch (board hw flash)
  hw.setLed (← getPart Radio).connected
  let _ ← Pipeline.poll (Radio.link hw) Pipeline.turnLimit
  Protocol.poll (Radio.link hw)
  if batteryInterval ≤ (← hw.millis) - (← getPart BatteryWatch).last then
    watchBattery hw
  hw.delay 1

end Program

end LoadCell
