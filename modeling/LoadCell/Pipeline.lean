import LoadCell.Protocol.Engine

/-!
From samples to weights. The sampler puts raw counts with their times into a short channel, the
newest evicting the oldest; the pipeline takes them out in order, filters and converts them, takes
the tare off, and streams the weights.
-/

namespace LoadCell

/-- One conversion of the load cell's converter. -/
structure Sample where
  count : Int32
  time : UInt32
  deriving DecidableEq

instance : Inhabited Sample := ⟨⟨0, 0⟩⟩

/-- How many samples can wait. -/
def channelCapacity : Nat := 2

theorem channelCapacity_pos : 0 < channelCapacity := Nat.succ_pos _

abbrev SampleChannel := BoundedQueue Sample channelCapacity

structure Pipeline where
  /-- The last weight; not a number while uncalibrated or before the filter is full. -/
  lastWeight : Float32 := notANumber
  lastFiltered : Int32 := 0
  /-- Samples taken out of the channel. -/
  samples : UInt32 := 0

instance : Inhabited Pipeline := ⟨{}⟩

namespace Pipeline

/-- How many samples one turn of the main loop handles. -/
def turnLimit : Nat := 8

variable {σ : Type} [Logs σ] [Holds σ SampleChannel] [Holds σ MedianFilter]
  [Holds σ Calibration] [Holds σ Protocol] [Holds σ Pipeline]

def takeSample : StateM σ (Option Sample) := do
  match (← getPart SampleChannel).pop? with
  | none => return none
  | some (sample, rest) =>
    setPart rest
    return some sample

/-- Filters a count; what the filter yields, if it does. -/
def filterCount (count : Int32) : StateM σ (Option Int32) := do
  modifyPart fun f : MedianFilter => f.push count
  return (← getPart MedianFilter).latest

def process (link : Link σ) (sample : Sample) : StateM σ Unit := do
  modifyPart fun p : Pipeline => { p with samples := p.samples + 1 }
  match ← filterCount sample.count with
  | none => return ()
  | some filtered =>
    modifyPart fun p : Pipeline => { p with lastFiltered := filtered }
    let weight ← Calibration.applyTare ((← getPart Calibration).convert filtered)
    modifyPart fun p : Pipeline => { p with lastWeight := weight }
    Log.debug .weight ("Weight: raw=" ++ Calibration.countText sample.count ++ " filtered="
      ++ Calibration.countText filtered ++ " weight=" ++ Calibration.kilograms 3 weight ++ " kg\n")
    Protocol.publishWeight link weight sample.time

/-- Handles up to `limit` waiting samples in order; how many there were. -/
def poll (link : Link σ) : (limit : Nat) → StateM σ Nat
  | 0 => return 0
  | limit + 1 => do
    match ← takeSample with
    | none => return 0
    | some sample =>
      process link sample
      return (← poll link limit) + 1

end Pipeline

end LoadCell
