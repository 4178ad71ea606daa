import LoadCell.Bench.Script
import LoadCell.Flash.Partition

/-!
The bench: a measurement chain with a flash, a link and a clock to order, and the record of what
was seen of them.
-/

namespace LoadCell

structure BenchConfig where
  sectors : UInt32 := 2
  sectorSize : UInt32 := 4096
  protocol : ProtocolConfig := {}
  filterSize : UInt8 := 5
  clock : UInt32 := 0
  level : UInt8 := 1
  /-- Whether the store lies on a partition of the flash. -/
  partitioned : Bool := false
  partition : Option Partition := none
  settings : SettingsArea := {}
  keepLog : Bool := false
  trace : Bool := false

/-- The link: results to give, and steps to run inside the next send. -/
structure BenchLink where
  result : SendResult := .ok
  script : List SendResult := []
  hook : List BenchStep := []

/-- Steps to run inside the next call of each kind. -/
structure FlashHooks where
  read : List BenchStep := []
  write : List BenchStep := []
  erase : List BenchStep := []

structure Bench where
  level : LogLevel := .default
  chain : Chain := {}
  flash : FaultyFlash
  partition : PartitionFlash := {}
  console : Console := {}
  settings : Settings := {}
  telemetry : Telemetry := {}
  clock : UInt32
  link : BenchLink := {}
  hooks : FlashHooks := {}
  seen : Entry := {}

namespace Bench

instance : Holds Bench LogLevel := ⟨(·.level), fun a b => { b with level := a }⟩
instance : Holds Bench Chain := ⟨(·.chain), fun a b => { b with chain := a }⟩
instance : Holds Bench FaultyFlash := ⟨(·.flash), fun a b => { b with flash := a }⟩
instance : Holds Bench PartitionFlash := ⟨(·.partition), fun a b => { b with partition := a }⟩
instance : Holds Bench Console := ⟨(·.console), fun a b => { b with console := a }⟩
instance : Holds Bench Settings := ⟨(·.settings), fun a b => { b with settings := a }⟩
instance : Holds Bench Telemetry := ⟨(·.telemetry), fun a b => { b with telemetry := a }⟩
instance : Holds Bench BenchLink := ⟨(·.link), fun a b => { b with link := a }⟩
instance : Holds Bench FlashHooks := ⟨(·.hooks), fun a b => { b with hooks := a }⟩
instance : Holds Bench Entry := ⟨(·.seen), fun a b => { b with seen := a }⟩

def note (f : Entry → Entry) : StateM Bench Unit := modifyPart f

instance : Logs Bench where
  write text := note fun e => { e with log := e.log ++ text }

instance : Terminal Bench where
  write text := note fun e => { e with serial := e.serial ++ text }

/-- How steps left behind are run. -/
abbrev Fire := List BenchStep → StateM Bench Unit

/-- Takes the steps left for the next call of a kind. -/
def takeHook : FlashCall → StateM Bench (List BenchStep)
  | .read => modifyGet fun b => (b.hooks.read, { b with hooks := { b.hooks with read := [] } })
  | .write => modifyGet fun b => (b.hooks.write, { b with hooks := { b.hooks with write := [] } })
  | .erase => modifyGet fun b => (b.hooks.erase, { b with hooks := { b.hooks with erase := [] } })

def setHook (call : FlashCall) (steps : List BenchStep) : StateM Bench Unit :=
  modifyPart fun h : FlashHooks => match call with
    | .read => { h with read := steps }
    | .write => { h with write := steps }
    | .erase => { h with erase := steps }

def flashMedium (config : BenchConfig) (fire : Fire) : Medium Bench :=
  FaultyFlash.medium config.sectorSize fun call => do fire (← takeHook call)

def partitionMedium (config : BenchConfig) (fire : Fire) : Medium Bench :=
  PartitionFlash.medium (flashMedium config fire)

def medium (config : BenchConfig) (fire : Fire) : Medium Bench :=
  if config.partitioned then partitionMedium config fire else flashMedium config fire

def nextResult : StateM Bench SendResult :=
  modifyGet fun b => match b.link.script with
    | [] => (b.link.result, b)
    | result :: rest => (result, { b with link := { b.link with script := rest } })

/-- The link. The steps left for a send run before the frame is copied. -/
def recordingLink (fire : Fire) : Link Bench where
  send lent := do
    note fun e => { e with attempts := e.attempts + 1 }
    let steps ← modifyGet fun b : Bench =>
      (b.link.hook, { b with link := { b.link with hook := [] } })
    fire steps
    let result ← nextResult
    if result = .ok then
      let frame ← lent
      note fun e => { e with sent := e.sent ++ [frame.encode] }
    return result
  disconnect := note fun e => { e with disconnects := e.disconnects + 1 }

def board (config : BenchConfig) (fire : Fire) : Board Bench where
  medium := medium config fire
  link := recordingLink fire
  clock := return (← get).clock

def snapshot (b : Bench) : Snapshot := .take b.chain b.flash.nor none

/-- Makes a new measurement chain on the same flash and link. -/
def build (config : BenchConfig) : StateM Bench Unit := do
  let filter ← MedianFilter.create config.filterSize
  setPart { filter := filter, protocol := { config := config.protocol } : Chain }
  Console.setLine []

end Bench

end LoadCell
