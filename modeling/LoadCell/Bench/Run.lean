import LoadCell.Bench.World

/-!
Running a script on the bench. Steps left behind run inside other calls; since each such step can
only leave behind what stands inside it, the number of them in the script bounds how deep the
calls can nest.
-/

namespace LoadCell.Bench

variable (config : BenchConfig)

def done (act : StateM Bench Unit) : StateM Bench Answer := do
  act
  return .nothing

def pushTimes (count : Int32) : Nat → StateM Bench (Option Int32)
  | 0 => return none
  | n + 1 => do
    let yielded ← Pipeline.filterCount count
    if n = 0 then return yielded
    pushTimes count n

def repeatStep (act : StateM Bench Answer) : Nat → StateM Bench Answer
  | 0 => return .nothing
  | n + 1 => do
    let answer ← act
    if n = 0 then return answer
    repeatStep act n

/-- Makes everything anew but the flash, the link, the clock and the settings, then starts. -/
def reboot (fire : Fire) : StateM Bench Answer := do
  build config
  return .flag (← Calibration.begin (medium config fire))

/-- Runs one step; `fire` runs the steps that are left behind in calls. -/
def perform (fire : Fire) : BenchStep → StateM Bench Answer
  | .times n step => repeatStep (perform fire step) n
  | .flash step => step.perform (flashMedium config fire)
  | .push count => return .filtered (← Pipeline.filterCount count)
  | .settle count => do
    return .filtered (← pushTimes count (← getPart MedianFilter).size.val)
  | .filterReset => done (modifyPart fun f : MedianFilter => f.reset)
  | .start => return .flag (← Calibration.begin (medium config fire))
  | .addPoint reference => return .ofCalibration (← Calibration.addPoint reference)
  | .save => return .ofCalibration (← Calibration.save (medium config fire))
  | .reset => return .ofCalibration (← Calibration.reset (medium config fire))
  | .convert raw => return .single ((← getPart Calibration).convert raw)
  | .beginTare warmup average => return .flag (← Calibration.beginTare warmup average)
  | .applyTare weight => return .single (← Calibration.applyTare weight)
  | .clearTare => done Calibration.clearTare
  | .state => return .state (snapshot (← get)).groups
  | .commit mapping => return .ofStore (← Store.commit (medium config fire) mapping)
  | .load => return .ofOption .mapping (← Store.load (medium config fire))
  | .clear => return .ofStore (← Store.clear (medium config fire))
  | .slot => return .number (Store.slotNumber (← Store.activeSlot (medium config fire)))
  | .generation => return .count (← Store.currentGeneration (medium config fire)).toNat
  | .frame bytes => return .ofProtocol (← Protocol.receive (board config fire) bytes)
  | .reject opcode code => done (Protocol.reject (recordingLink fire) opcode code)
  | .disconnect => done Protocol.disconnected
  | .publish weight time => done (Protocol.publishWeight (recordingLink fire) weight time)
  | .poll => done (Protocol.poll (recordingLink fire))
  | .battery millivolts low => done (Protocol.setBattery millivolts low)
  | .recordError text => do
    Protocol.recordError text
    return .text (← getPart Protocol).errorInfo
  | .setOrder order => done (Protocol.setOrder order)
  | .write bytes => do
    let (taken, box) := (← getPart Inbox).write bytes
    setPart box
    return .flag taken
  | .closeConnection => done (modifyPart Inbox.disconnect)
  | .dispatch => done (Chain.dispatch (board config fire))
  | .sample count time => done (Chain.sample count time)
  | .offerSample count time => do
    match (← getPart SampleChannel).push? ⟨count, time⟩ with
    | none => return .flag false
    | some channel =>
      setPart channel
      return .flag true
  | .pipelinePoll limit => return .count (← Pipeline.poll (recordingLink fire) limit)
  | .feed count time => do
    Chain.sample count time
    let _ ← Pipeline.poll (recordingLink fire) Pipeline.turnLimit
    return .single (← getPart Pipeline).lastWeight
  | .clock time => done (modify fun b => { b with clock := time })
  | .level code => return .flag (← Log.setLevel code)
  | .link result => done (modifyPart fun l : BenchLink => { l with result := result })
  | .linkScript results => done (modifyPart fun l : BenchLink => { l with script := results })
  | .onSend steps => done (modifyPart fun l : BenchLink => { l with hook := steps })
  | .onFlash call steps => done (setHook call steps)
  | .reboot => reboot config fire
  | .serial bytes => do
    modifyPart fun c : Console => c.arrive bytes
    done (Console.update (medium config fire) (getPart Telemetry))
  | .openSettings => return .flag (← Settings.open?)
  | .saveOrder order => return .flag (← Settings.saveOrder order)
  | .loadOrder => return .count (← Settings.loadOrder).code.toNat
  | .saveLevel code => return .flag (← Settings.saveLevel code)
  | .loadLevel => return .count (← Settings.loadLevel).toNat
  | .settingsOpen on =>
    done (modifyPart fun s : Settings => { s with area := { s.area with opens := on } })
  | .settingsAccept on =>
    done (modifyPart fun s : Settings => { s with area := { s.area with accepts := on } })
  | .settings => do
    let area := (← getPart Settings).area
    return .settings area.opened area.table
  | .counters telemetry => done (setPart telemetry)
  | .findPartition label => return .flag (← PartitionFlash.find label)
  | .geometry => do
    let disk := partitionMedium config fire
    return .numbers [disk.sectorSize.toNat, (← disk.sectorCount).toNat]
  | .partitionRead offset length =>
    return .ofOption .bytes (← (partitionMedium config fire).read offset length)
  | .partitionWrite offset bytes =>
    return .flag (← (partitionMedium config fire).write offset bytes)
  | .partitionErase offset length =>
    return .flag (← (partitionMedium config fire).erase offset length)

/-- Runs steps that were left behind, `depth` levels of them. -/
def fireTo : (depth : Nat) → Fire
  | 0 => fun _ => return ()
  | depth + 1 => fun steps => steps.forM fun step => do
    let answer ← perform config (fireTo depth) step
    note fun e => { e with nested := e.nested ++ [answer] }

/-- The bench before its first step; what making it logs is seen in that step. -/
def initial : Bench :=
  let bare : Bench :=
    { flash := { nor := .blank config.sectors config.sectorSize }
      partition := { present := config.partition }
      settings := { area := config.settings }
      clock := config.clock }
  let setUp : StateM Bench Unit := do
    let _ ← Log.setLevel config.level
    build config
  (setUp.run bare).2

/-- The changes of the state to show after a step. -/
def traced (last : Option Snapshot) (now : Snapshot) : Option SnapshotGroups :=
  if config.trace then some ((last.map (·.changes now)).getD now.groups) else none

def runSteps (fire : Fire) (b : Bench) (last : Option Snapshot) : List BenchStep → List Entry
  | [] => []
  | step :: rest =>
    let (answer, after) := (perform config fire step).run b
    let now := after.snapshot
    let entry :=
      { after.seen with
        answer := answer
        log := if config.keepLog then after.seen.log else ""
        state := traced config last now }
    entry :: runSteps fire { after with seen := {} } (some now) rest

def run (steps : List BenchStep) : List Entry :=
  runSteps config (fireTo config (BenchStep.hooksIn steps + 1)) (initial config) none steps

end LoadCell.Bench
