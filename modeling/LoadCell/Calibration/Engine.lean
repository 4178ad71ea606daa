import LoadCell.Calibration.Error
import LoadCell.Calibration.Session
import LoadCell.Calibration.Tare
import LoadCell.Decimal
import LoadCell.Median
import LoadCell.Store.Basic

/-!
The calibration in force. Points are captured from the filter, fitted and committed; the mapping
in force changes only when the store has taken the new one. While a commit or an erase runs, any
other save or reset is refused, also one that starts inside it.
-/

namespace LoadCell

structure Calibration where
  /-- The mapping in force; none while uncalibrated. -/
  mapping : Option Mapping := none
  /-- Whether a commit or an erase is running. -/
  busy : Bool := false
  session : CalibrationSession := .empty
  tare : Tare := {}

instance : Inhabited Calibration := ⟨{}⟩

namespace Calibration

/-- Weights that a tare lets pass before it averages: half a second at 80 samples a second. -/
def tareWarmup : UInt16 := 40

/-- Weights that a tare averages. -/
def tareAverage : UInt16 := 40

/-- The weight of a filtered count, tare not taken off; not a number while uncalibrated. -/
def convert (c : Calibration) (raw : Int32) : Float32 :=
  (c.mapping.map (·.weigh raw)).getD notANumber

def isCalibrated (c : Calibration) : Bool := c.mapping.isSome

variable {σ : Type} [Logs σ] [Holds σ Calibration]

def setBusy (busy : Bool) : StateM σ Unit :=
  modifyPart fun c : Calibration => { c with busy := busy }

def countText (raw : Int32) : String := toString raw.toInt

def mappingText (m : Mapping) : String :=
  "zero_raw=" ++ countText m.zeroRaw ++ " gradient=" ++ Decimal.general m.gradient

def kilograms (places : Nat) (w : Float32) : String := Decimal.fixed places (widen w)

/-- Starts from what the store holds. -/
def begin [Holds σ Store] (medium : Medium σ) : StateM σ Bool := do
  let stored ← Store.load medium
  modifyPart fun c : Calibration => { c with mapping := stored }
  match stored with
  | some mapping => Log.debug .calibration ("Calibration: loaded " ++ mappingText mapping ++ "\n")
  | none => Log.message "Calibration: no stored calibration - device is uncalibrated\n"
  return stored.isSome

/-- Captures the filter's latest count against a known weight. -/
def addPoint [Holds σ MedianFilter] (reference : Float32) :
    StateM σ (Except CalibrationError Unit) := do
  match (← getPart MedianFilter).latest with
  | none =>
    Log.debug .calibration "Calibration: add point rejected - no filtered sample yet\n"
    return .error .noSample
  | some raw =>
    modifyPart fun c : Calibration => { c with session := c.session.add ⟨raw, reference⟩ }
    Log.debug .calibration ("Calibration: point "
      ++ toString (← getPart Calibration).session.count ++ " raw=" ++ countText raw
      ++ " ref=" ++ kilograms 3 reference ++ " kg\n")
    return .ok ()

/-- Commits a fitted mapping and puts it in force. -/
def activate [Holds σ Store] (medium : Medium σ) (mapping : Mapping) :
    StateM σ (Except CalibrationError Unit) := do
  setBusy true
  let outcome ← Store.commit medium mapping
  setBusy false
  match outcome with
  | .error e =>
    Log.message ("Calibration: ERROR - commit failed (" ++ e.name
      ++ "), keeping previous mapping\n")
    return .error .storageFault
  | .ok () =>
    modifyPart fun c : Calibration => { c with mapping := some mapping }
    Log.message ("Calibration: saved " ++ mappingText mapping ++ " kg/count\n")
    return .ok ()

/-- Fits the two captured points and commits the mapping. -/
def save [Holds σ Store] (medium : Medium σ) : StateM σ (Except CalibrationError Unit) := do
  let c ← getPart Calibration
  if c.busy then
    Log.message "Calibration: save rejected - store busy\n"
    return .error .busy
  if c.session.count < sessionCapacity then
    Log.debug .calibration
      ("Calibration: save rejected - " ++ toString c.session.count ++ " point(s)\n")
    return .error .insufficientPoints
  let p := c.session.point 0
  let q := c.session.point 1
  match Mapping.fit p q with
  | some mapping => activate medium mapping
  | none =>
    Log.message ("Calibration: save rejected - degenerate points (raw " ++ countText p.raw
      ++ "/" ++ countText q.raw ++ ", ref " ++ kilograms 3 p.reference ++ "/"
      ++ kilograms 3 q.reference ++ ")\n")
    return .error .degenerate

/-- Erases the stored mapping and forgets everything, even if the erase fails. -/
def reset [Holds σ Store] (medium : Medium σ) : StateM σ (Except CalibrationError Unit) := do
  if (← getPart Calibration).busy then
    Log.message "Calibration: reset rejected - store busy\n"
    return .error .busy
  setBusy true
  let outcome ← Store.clear medium
  setBusy false
  modifyPart fun c : Calibration => { c with mapping := none, session := c.session.clear, tare := {} }
  match outcome with
  | .error e =>
    Log.message ("Calibration: ERROR - erase failed (" ++ e.name ++ ")\n")
    return .error .storageFault
  | .ok () =>
    Log.message "Calibration: reset - device is uncalibrated\n"
    return .ok ()

/-- Starts a tare; refused while uncalibrated. -/
def beginTare (warmup average : UInt16) : StateM σ Bool := do
  let c ← getPart Calibration
  if !c.isCalibrated then
    Log.debug .calibration "Calibration: tare rejected - uncalibrated\n"
    return false
  let tare := c.tare.start warmup average
  modifyPart fun c : Calibration => { c with tare := tare }
  Log.debug .calibration ("Calibration: tare started (" ++ toString tare.warmup ++ " warmup, "
    ++ toString tare.total ++ " averaged)\n")
  return true

/-- Feeds one weight to a running tare; the weight with the offset taken off. -/
def applyTare (weight : Float32) : StateM σ Float32 := do
  let before := (← getPart Calibration).tare
  let after := before.absorb weight
  modifyPart fun c : Calibration => { c with tare := after }
  if before.isRunning && !after.isRunning then
    Log.debug .calibration ("Calibration: tare offset " ++ kilograms 4 after.offset ++ " kg\n")
  return after.net weight

def clearTare : StateM σ Unit :=
  modifyPart fun c : Calibration => { c with tare := {} }

end Calibration

end LoadCell
