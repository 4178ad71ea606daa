import LoadCell.Device.World

/-!
Running a script on a device. Steps left for a notification run inside it; since each such step can
only leave behind what stands inside it, the number of them in the script bounds how deep the
calls can nest.
-/

namespace LoadCell.Device

variable (config : DeviceConfig)

def done (act : StateM Device Unit) : StateM Device Answer := do
  act
  return .nothing

def repeatStep (act : StateM Device Answer) : Nat → StateM Device Answer
  | 0 => return .nothing
  | n + 1 => do
    let answer ← act
    if n = 0 then return answer
    repeatStep act n

def turn (fire : Fire) : StateM Device Unit := Program.turn (hardware config fire) flashMedium

/-- Power-on: everything volatile is gone, then the program starts. -/
def powerOn (fire : Fire) : StateM Device Unit := do
  modify (powered config)
  Program.start (hardware config fire) flashMedium

/-- The task runs until it would have to wait. -/
def runTask (fire : Fire) : StateM Device Unit := do
  if 0 < (← getPart Circuit).calls then
    editCircuit fun c => { c with calls := 0 }
    Sampler.readSample (hardware config fire)

/-- The converter has a new conversion. -/
def convert (fire : Fire) (count : Int32) (wake interrupt run : Bool) : StateM Device Answer := do
  editCircuit fun c => { c with conversion := some count }
  let running := (← getPart Sampler).running
  if interrupt && running then
    editCircuit fun c => { c with calls := c.calls + 1 }
    if wake then writeDown .yieldToTask
  if run && running then runTask config fire
  return .count (← getPart Sampler).samplesRead.toNat

/-- Something that the radio tells the program; only a service that exists hears it. -/
def radioEvent (event : StateM Device Unit) : StateM Device Answer := do
  if (← getPart Radio).serving then
    event
    return .flag true
  return .flag false

/-- Runs one step; `fire` runs the steps that are left behind in notifications. -/
def perform (fire : Fire) : DeviceStep → StateM Device Answer
  | .times n step => repeatStep (perform fire step) n
  | .flash step => step.perform flashMedium
  | .turn => done (turn config fire)
  | .type bytes => done (modifyPart fun c : Console => c.arrive bytes)
  | .advance micros => done (pass micros)
  | .battery millivolts =>
    done (modifyPart fun p : Periphery => { p with battery := millivolts })
  | .convert count wake interrupt run => convert config fire count wake interrupt run
  | .task => do
    if (← getPart Sampler).running then
      runTask config fire
      return .flag true
    return .flag false
  | .taskTimeout => do
    if (← getPart Sampler).running then
      pass 100000
      Sampler.readAfterTimeout (hardware config fire)
      runTask config fire
      return .flag true
    return .flag false
  | .cycle count micros => do
    pass micros
    let _ ← convert config fire count false true true
    turn config fire
    return .single (← getPart Pipeline).lastWeight
  | .connect handle => radioEvent (Radio.onConnect handle)
  | .disconnect => radioEvent (Radio.onDisconnect (hardware config fire))
  | .write bytes => radioEvent (Radio.onWrite bytes)
  | .subscribe value => radioEvent (Radio.onSubscribe value)
  | .statuses list code =>
    done (modifyPart fun p : Periphery => { p with statuses := list, statusCode := code })
  | .onNotify steps => done (editCircuit fun c => { c with hook := steps })
  | .dropCode code => done (modifyPart fun p : Periphery => { p with dropCode := code })
  | .suffix => return .text (hardware config fire).nameSuffix
  | .settings => do
    let area := (← getPart Settings).area
    return .settings area.opened area.table
  | .settingsOpen on =>
    done (modifyPart fun s : Settings => { s with area := { s.area with opens := on } })
  | .settingsAccept on =>
    done (modifyPart fun s : Settings => { s with area := { s.area with accepts := on } })
  | .state => return .state (snapshot (← get)).groups
  | .reboot => done (powerOn config fire)

/-- Runs steps that were left behind, `depth` levels of them. -/
def fireTo : (depth : Nat) → Fire
  | 0 => fun _ => return ()
  | depth + 1 => fun steps => steps.forM fun step => do
    let answer ← perform config (fireTo depth) step
    note fun e => { e with nested := e.nested ++ [answer] }

def initial : Device :=
  let bare : Device :=
    { flash := { nor := .blank config.sectors 4096 }
      partition := { present := config.partition }
      settings := { area := config.settings }
      periphery := { initResults := config.initResults, battery := config.battery }
      circuit := { time := config.clock, waitsLeft := config.converterWaits } }
  let prepare : StateM Device Unit := config.before.forM fun step =>
    discard (step.perform flashMedium)
  (prepare.run bare).2

def entryOf (last : Option Snapshot) (answer : Answer) (d : Device) : Entry :=
  let now := d.snapshot
  { d.seen with
    answer := answer
    state := if config.trace then some ((last.map (·.changes now)).getD now.groups) else none }

/-- Runs steps one after the other, each with an entry of its own. -/
def runSteps (fire : Fire) (d : Device) : List DeviceStep → List Entry
  | [] => []
  | step :: rest =>
    let (answer, after) := (perform config fire step).run { d with seen := {} }
    entryOf config (some d.snapshot) answer after :: runSteps fire after rest

/-- Powers a device on and runs a script; the first entry is the power-on. -/
def run (steps : List DeviceStep) : List Entry :=
  let fire := fireTo config (DeviceStep.hooksIn steps + 1)
  let (_, booted) := (powerOn config fire).run (initial config)
  entryOf config none .nothing booted :: runSteps config fire booted steps

end LoadCell.Device
