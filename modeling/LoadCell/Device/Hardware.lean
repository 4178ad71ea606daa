import LoadCell.Text

/-!
The hardware of a device as its program sees it, flash and terminal aside.
-/

namespace LoadCell

inductive InitStatus
  | ok | fail | noFreePages | newVersion
  deriving DecidableEq

namespace InitStatus

def name : InitStatus → String
  | ok => "ESP_OK"
  | fail => "ESP_FAIL"
  | noFreePages => "ESP_ERR_NVS_NO_FREE_PAGES"
  | newVersion => "ESP_ERR_NVS_NEW_VERSION_FOUND"

def wantsErase (s : InitStatus) : Bool := s = noFreePages || s = newVersion

end InitStatus

inductive NotifyStatus
  | indicationDone | success | disabled | gattError | noClient | indicationTimeout
  | indicationFailure
  deriving DecidableEq

def NotifyStatus.code : NotifyStatus → Nat
  | indicationDone => 0
  | success => 1
  | disabled => 3
  | gattError => 4
  | noClient => 5
  | indicationTimeout => 6
  | indicationFailure => 7

inductive PinMode
  | input | output
  deriving DecidableEq

inductive HardwareCall
  | pin (number : Nat) (mode : PinMode)
  | settingsInit
  | settingsErase
  | radioInit (name : String)
  /-- Sends with 0 dBm. -/
  | radioPower
  | radioMtu (size : Nat)
  | createServer
  | createService (uuid : String)
  | createCharacteristic (uuid : String) (properties : Nat)
  | startService
  | advertiseService (uuid : String)
  | scanResponse
  | minInterval (units : Nat)
  | maxInterval (units : Nat)
  | advertise
  | dropPeer (handle : UInt16)
  | openBus (data clock : Nat)
  | converterBegin
  /-- Feeds the cell with 3.3 V. -/
  | converterRegulator
  | converterGain (factor : Nat)
  | converterRate (perSecond : Nat)
  | converterCalibrate
  /-- Reads a conversion and throws it away. -/
  | converterFlush
  | createTask (name : String) (stack priority : Nat)
  | attachInterrupt (pin : Nat)
  /-- Lets a task that an interrupt woke run. -/
  | yieldToTask
  deriving DecidableEq

/-- A call as it is written down. -/
def HardwareCall.text : HardwareCall → String
  | pin number .input => "pin " ++ toString number ++ " INPUT"
  | pin number .output => "pin " ++ toString number ++ " OUTPUT"
  | settingsInit => "nvs_flash_init"
  | settingsErase => "nvs_flash_erase"
  | radioInit name => "ble init " ++ name
  | radioPower => "ble power 0dBm"
  | radioMtu size => "ble mtu " ++ toString size
  | createServer => "ble server"
  | createService uuid => "ble service " ++ uuid
  | createCharacteristic uuid properties =>
    "ble characteristic " ++ uuid ++ " " ++ toString properties
  | startService => "ble service start"
  | advertiseService uuid => "ble advertise uuid " ++ uuid
  | scanResponse => "ble scan response on"
  | minInterval units => "ble min interval " ++ toString units
  | maxInterval units => "ble max interval " ++ toString units
  | advertise => "ble advertise start"
  | dropPeer handle => "ble disconnect " ++ toString handle
  | openBus data clock => "wire " ++ toString data ++ " " ++ toString clock
  | converterBegin => "adc begin"
  | converterRegulator => "adc ldo 3V3"
  | converterGain factor => "adc gain " ++ toString factor
  | converterRate perSecond => "adc rate " ++ toString perSecond ++ "SPS"
  | converterCalibrate => "adc calibrate internal"
  | converterFlush => "adc flush"
  | createTask name stack priority =>
    "task " ++ name ++ " " ++ toString stack ++ " " ++ toString priority
  | attachInterrupt number => "interrupt " ++ toString number ++ " RISING"
  | yieldToTask => "yield"

/-- The hardware, run in the whole program's state. -/
structure Hardware (σ : Type) where
  /-- Makes a call; whether it worked. -/
  call : HardwareCall → StateM σ Bool
  settingsInit : StateM σ InitStatus
  settingsErase : StateM σ InitStatus
  /-- Sends a value to the subscribed clients and reports each one's status. -/
  notify : Bytes → (NotifyStatus → Int → StateM σ Unit) → StateM σ Unit
  /-- Ends a connection; zero if that worked. -/
  dropPeer : (handle : UInt16) → StateM σ Int
  /-- Lets milliseconds pass. -/
  delay : Nat → StateM σ Unit
  micros : StateM σ UInt32
  millis : StateM σ UInt32
  converterReady : StateM σ Bool
  converterRead : StateM σ Int32
  setLed : Bool → StateM σ Unit
  /-- Half the battery voltage in millivolts. -/
  batteryPin : StateM σ UInt32
  /-- The six bytes of the radio's address. -/
  address : Bytes

namespace Hardware

variable {σ : Type} (hw : Hardware σ)

def issue (call : HardwareCall) : StateM σ Unit := discard (hw.call call)

/-- The end of the address in hexadecimal, as it stands in the device's name. -/
def nameSuffix : String :=
  String.join ((hw.address.drop 4).map fun b => Text.hexUpper 2 b.toNat)

/-- The address as a number, first byte highest. -/
def deviceId : UInt64 := UInt64.ofNat hw.address.bigEndianValue

end Hardware

end LoadCell
