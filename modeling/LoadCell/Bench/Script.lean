import LoadCell.Bench.FlashStep
import LoadCell.Console
import LoadCell.Protocol.Link

/-!
Scripts for the measurement chain on a bench, where flash, link and clock do as they are told.
A step may leave other steps behind that run inside the next call of a kind.
-/

namespace LoadCell

inductive BenchStep
  /-- The same step several times; the last answer counts. -/
  | times (n : Nat) (step : BenchStep)
  | flash (step : FlashStep)
  -- filter
  | push (count : Int32)
  | settle (count : Int32)
  | filterReset
  -- calibration
  | start
  | addPoint (reference : Float32)
  | save
  | reset
  | convert (raw : Int32)
  | beginTare (warmup average : UInt16)
  | applyTare (weight : Float32)
  | clearTare
  | state
  -- store
  | commit (mapping : Mapping)
  | load
  | clear
  | slot
  | generation
  -- protocol
  | frame (bytes : Bytes)
  | reject (opcode code : UInt8)
  | disconnect
  | publish (weight : Float32) (time : UInt32)
  | poll
  | battery (millivolts : UInt32) (low : Bool)
  | recordError (text : String)
  | setOrder (order : ByteOrder)
  -- control writes
  | write (bytes : Bytes)
  | closeConnection
  | dispatch
  -- samples
  | sample (count : Int32) (time : UInt32)
  | offerSample (count : Int32) (time : UInt32)
  | pipelinePoll (limit : Nat)
  | feed (count : Int32) (time : UInt32)
  -- clock and log
  | clock (time : UInt32)
  | level (code : UInt8)
  -- link
  | link (result : SendResult)
  | linkScript (results : List SendResult)
  | onSend (steps : List BenchStep)
  | onFlash (call : FlashCall) (steps : List BenchStep)
  | reboot
  -- console, settings and partition
  | serial (bytes : Bytes)
  | openSettings
  | saveOrder (order : ByteOrder)
  | loadOrder
  | saveLevel (code : UInt8)
  | loadLevel
  | settingsOpen (on : Bool)
  | settingsAccept (on : Bool)
  | settings
  | counters (telemetry : Telemetry)
  | findPartition (label : String)
  | geometry
  | partitionRead (offset : UInt32) (length : Nat)
  | partitionWrite (offset : UInt32) (bytes : Bytes)
  | partitionErase (offset : UInt32) (length : Nat)

mutual

/-- How many steps in a step leave others behind. -/
def BenchStep.hooks : BenchStep → Nat
  | .times _ step => step.hooks
  | .onSend steps => BenchStep.hooksIn steps + 1
  | .onFlash _ steps => BenchStep.hooksIn steps + 1
  | _ => 0

def BenchStep.hooksIn : List BenchStep → Nat
  | [] => 0
  | step :: rest => step.hooks + BenchStep.hooksIn rest

end

end LoadCell
