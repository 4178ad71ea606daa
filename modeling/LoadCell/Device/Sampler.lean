import LoadCell.Chain
import LoadCell.Device.Hardware
import LoadCell.Terminal

/-!
The sampler. The converter runs at a fixed rate and raises an interrupt for each conversion; the
interrupt wakes a task, which reads the conversion into the sample channel. If no interrupt comes
for a while the task looks at the converter anyway.
-/

namespace LoadCell

structure Sampler where
  /-- Whether the task exists and the interrupt is attached. -/
  running : Bool := false
  samplesRead : UInt32 := 0
  timeouts : UInt32 := 0

instance : Inhabited Sampler := ⟨{}⟩

namespace Sampler

/-- Conversions a second. -/
def rate : Nat := 80

/-- Conversions thrown away after a change of the converter's settings. -/
def flushCount : Nat := 10

def readyPin : Nat := 27

def busData : Nat := 22

def busClock : Nat := 20

/-- The converter's address on the bus. -/
def converterAddress : UInt8 := 0x2A

/-- How often at most the converter is asked for a conversion at the start. -/
def patience : Nat := 4294967296

variable {σ : Type} [Logs σ] [Terminal σ] [Holds σ Chain] [Holds σ Sampler] (hw : Hardware σ)

/-- Waits for a conversion, a millisecond at a time. -/
def awaitConversion : (tries : Nat) → StateM σ Unit
  | 0 => return ()
  | tries + 1 => do
    if !(← hw.converterReady) then
      hw.delay 1
      awaitConversion tries

/-- Throws away the conversions made with former settings. -/
def flush : (count : Nat) → StateM σ Unit
  | 0 => return ()
  | count + 1 => do
    awaitConversion hw patience
    hw.issue .converterFlush
    flush count

/-- Sets the converter up and starts the task; whether samples will come. -/
def start : StateM σ Bool := do
  hw.issue (.openBus busData busClock)
  if !(← hw.call .converterBegin) then
    Terminal.line "NAU7802: FAILED"
    return false
  hw.issue .converterRegulator
  hw.issue (.converterGain 128)
  hw.issue (.converterRate rate)
  if !(← hw.call .converterCalibrate) then
    Terminal.line "NAU7802: WARNING - internal calibration failed"
  flush hw flushCount
  if !(← hw.call (.createTask "sampler" 3072 5)) then
    Terminal.line "Sampler: ERROR - task creation failed"
    return false
  modifyPart fun s : Sampler => { s with running := true }
  hw.issue (.pin readyPin .input)
  hw.issue (.attachInterrupt readyPin)
  Terminal.write ("NAU7802: OK (" ++ Text.hexByte converterAddress ++ ", " ++ toString rate
    ++ " SPS, DRDY on GPIO " ++ toString readyPin ++ ")\n")
  return true

def readSample : StateM σ Unit := do
  if ← hw.converterReady then
    let count ← hw.converterRead
    Chain.sample count (← hw.micros)
    modifyPart fun s : Sampler => { s with samplesRead := s.samplesRead + 1 }

/-- One turn of the task after a wait in vain. -/
def readAfterTimeout : StateM σ Unit := do
  modifyPart fun s : Sampler => { s with timeouts := s.timeouts + 1 }
  readSample hw

end Sampler

end LoadCell
