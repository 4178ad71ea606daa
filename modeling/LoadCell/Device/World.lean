import LoadCell.Bench.FlashStep
import LoadCell.Device.Program

/-!
A whole device with simulated hardware: what outlasts a power-on, what does not, and scripts that
play the converter, the peer, the user and the clock.
-/

namespace LoadCell

inductive DeviceStep
  /-- The same step several times; the last answer counts. -/
  | times (n : Nat) (step : DeviceStep)
  | flash (step : FlashStep)
  | turn
  | type (bytes : Bytes)
  | advance (micros : Nat)
  | battery (millivolts : UInt32)
  /-- A new conversion; whether the interrupt wakes the task, comes at all, and the task runs. -/
  | convert (count : Int32) (wake interrupt run : Bool)
  | task
  /-- The sampler task runs after a wait in vain. -/
  | taskTimeout
  /-- Time passes, a conversion is made, and the main loop turns. -/
  | cycle (count : Int32) (micros : Nat)
  | connect (handle : UInt16)
  | disconnect
  | write (bytes : Bytes)
  | subscribe (value : Nat)
  /-- What comes of notifications from now on. -/
  | statuses (list : List NotifyStatus) (code : Int)
  /-- Steps to run inside the next notification. -/
  | onNotify (steps : List DeviceStep)
  /-- What comes of ending a connection. -/
  | dropCode (code : Int)
  | suffix
  | settings
  | settingsOpen (on : Bool)
  | settingsAccept (on : Bool)
  | state
  | reboot

mutual

/-- How many steps in a step leave others behind. -/
def DeviceStep.hooks : DeviceStep → Nat
  | .times _ step => step.hooks
  | .onNotify steps => DeviceStep.hooksIn steps + 1
  | _ => 0

def DeviceStep.hooksIn : List DeviceStep → Nat
  | [] => 0
  | step :: rest => step.hooks + DeviceStep.hooksIn rest

end

structure DeviceConfig where
  partition : Option Partition := some ⟨"calib", 3211264, 8192⟩
  sectors : UInt32 := 2
  settings : SettingsArea := {}
  /-- Flash steps before the first power-on. -/
  before : List FlashStep := []
  /-- The results of the first preparations of the settings memory; later ones succeed. -/
  initResults : List InitStatus := []
  eraseResult : InitStatus := .ok
  converterWorks : Bool := true
  calibrateWorks : Bool := true
  /-- How often the converter is not ready before each conversion, until the task exists. -/
  converterWaits : Nat := 0
  taskWorks : Bool := true
  serverWorks : Bool := true
  advertisingWorks : Bool := true
  address : Bytes := [0xa0, 0xb1, 0xc2, 0xd3, 0xe4, 0xf5]
  battery : UInt32 := 1900
  /-- The time at each power-on. -/
  clock : Nat := 0
  trace : Bool := false

/-- The hardware that a power-on leaves as it is. -/
structure Periphery where
  initResults : List InitStatus
  battery : UInt32
  statuses : List NotifyStatus := [.success]
  statusCode : Int := 0
  dropCode : Int := 0

/-- The hardware that starts anew at power-on. -/
structure Circuit where
  /-- Microseconds. -/
  time : Nat
  conversion : Option Int32 := none
  /-- How often the converter still is not ready, before the task exists. -/
  waitsLeft : Nat
  /-- Times that the interrupt has called the task since its last turn. -/
  calls : Nat := 0
  led : Bool := false
  hook : List DeviceStep := []

structure Device where
  level : LogLevel := .default
  chain : Chain := {}
  flash : FaultyFlash
  partition : PartitionFlash
  console : Console := {}
  settings : Settings
  radio : Radio := {}
  sampler : Sampler := {}
  batteryWatch : BatteryWatch := {}
  periphery : Periphery
  circuit : Circuit
  seen : Entry := {}

namespace Device

instance : Holds Device LogLevel := ⟨(·.level), fun a d => { d with level := a }⟩
instance : Holds Device Chain := ⟨(·.chain), fun a d => { d with chain := a }⟩
instance : Holds Device FaultyFlash := ⟨(·.flash), fun a d => { d with flash := a }⟩
instance : Holds Device PartitionFlash := ⟨(·.partition), fun a d => { d with partition := a }⟩
instance : Holds Device Console := ⟨(·.console), fun a d => { d with console := a }⟩
instance : Holds Device Settings := ⟨(·.settings), fun a d => { d with settings := a }⟩
instance : Holds Device Radio := ⟨(·.radio), fun a d => { d with radio := a }⟩
instance : Holds Device Sampler := ⟨(·.sampler), fun a d => { d with sampler := a }⟩
instance : Holds Device BatteryWatch :=
  ⟨(·.batteryWatch), fun a d => { d with batteryWatch := a }⟩
instance : Holds Device Periphery := ⟨(·.periphery), fun a d => { d with periphery := a }⟩
instance : Holds Device Circuit := ⟨(·.circuit), fun a d => { d with circuit := a }⟩
instance : Holds Device Entry := ⟨(·.seen), fun a d => { d with seen := a }⟩

def note (f : Entry → Entry) : StateM Device Unit := modifyPart f

/-- The terminal shows log text too. -/
def display (text : String) : StateM Device Unit :=
  note fun e => { e with serial := e.serial ++ text }

instance : Logs Device where
  write := display

instance : Terminal Device where
  write := display

def editCircuit (f : Circuit → Circuit) : StateM Device Unit := modifyPart f

/-- How steps left behind are run. -/
abbrev Fire := List DeviceStep → StateM Device Unit

def pass (micros : Nat) : StateM Device Unit :=
  editCircuit fun c => { c with time := c.time + micros }

/-- Whether a call works on this device. -/
def works (config : DeviceConfig) : HardwareCall → Bool
  | .createServer => config.serverWorks
  | .advertise => config.advertisingWorks
  | .converterBegin => config.converterWorks
  | .converterCalibrate => config.calibrateWorks
  | .createTask .. => config.taskWorks
  | _ => true

def writeDown (call : HardwareCall) : StateM Device Unit :=
  note fun e => { e with hardware := e.hardware ++ [call.text] }

def nextInit : StateM Device InitStatus :=
  modifyGet fun d => match d.periphery.initResults with
    | [] => (.ok, d)
    | status :: rest => (status, { d with periphery := { d.periphery with initResults := rest } })

/-- Before the task exists a conversion comes after some waiting; later, when a step brings it. -/
def converterReady (config : DeviceConfig) : StateM Device Bool := do
  let d ← get
  if d.sampler.running then return d.circuit.conversion.isSome
  match d.circuit.waitsLeft with
  | 0 =>
    editCircuit fun c => { c with waitsLeft := config.converterWaits }
    return true
  | left + 1 =>
    editCircuit fun c => { c with waitsLeft := left }
    return false

def takeConversion : StateM Device Int32 :=
  modifyGet fun d => (d.circuit.conversion.getD 0,
    { d with circuit := { d.circuit with conversion := none } })

/-- A notification: it is seen, then the steps left for it run, then each client's status comes. -/
def notify (fire : Fire) (value : Bytes) (report : NotifyStatus → Int → StateM Device Unit) :
    StateM Device Unit := do
  note fun e => { e with notified := e.notified ++ [value] }
  let steps ← modifyGet fun d : Device =>
    (d.circuit.hook, { d with circuit := { d.circuit with hook := [] } })
  fire steps
  let periphery ← getPart Periphery
  periphery.statuses.forM fun status => report status periphery.statusCode

def hardware (config : DeviceConfig) (fire : Fire) : Hardware Device where
  call c := do
    writeDown c
    return works config c
  settingsInit := do
    writeDown .settingsInit
    nextInit
  settingsErase := do
    writeDown .settingsErase
    return config.eraseResult
  notify := notify fire
  dropPeer handle := do
    writeDown (.dropPeer handle)
    return (← getPart Periphery).dropCode
  delay millis := pass (millis * 1000)
  micros := return UInt32.ofNat (← getPart Circuit).time
  millis := return UInt32.ofNat ((← getPart Circuit).time / 1000)
  converterReady := converterReady config
  converterRead := takeConversion
  setLed on := editCircuit fun c => { c with led := on }
  batteryPin := return (← getPart Periphery).battery
  address := config.address

def flashMedium : Medium Device := FaultyFlash.medium 4096 fun _ => return ()

def panel (d : Device) : PanelView where
  led := d.circuit.led
  connected := d.radio.connected
  samplesRead := d.sampler.samplesRead
  timeouts := d.sampler.timeouts
  level := d.level

def snapshot (d : Device) : Snapshot := .take d.chain d.flash.nor (some d.panel)

/-- The device with its power just on: only flash, settings and periphery are as they were. -/
def powered (config : DeviceConfig) (d : Device) : Device where
  flash := d.flash
  partition := { present := d.partition.present }
  settings := { area := d.settings.area }
  periphery := d.periphery
  circuit := { time := config.clock, waitsLeft := config.converterWaits }
  seen := d.seen

end Device

end LoadCell
