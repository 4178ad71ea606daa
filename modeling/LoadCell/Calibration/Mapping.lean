import LoadCell.Precision

/-!
The linear mapping from raw counts to kilograms, and its fit through two points of known weight.
-/

namespace LoadCell

/-- Weight is `gradient * (raw - zeroRaw)`. -/
structure Mapping where
  zeroRaw : Int32
  gradient : Float
  deriving DecidableEq

/-- A filtered count seen while a known weight hung on the cell. -/
structure CalibrationPoint where
  raw : Int32
  reference : Float32
  deriving DecidableEq

namespace Mapping

/-- A mapping can convert readings if its gradient is a finite number other than zero. -/
def isValid (m : Mapping) : Bool := m.gradient.isFinite && m.gradient != 0

/-- The weight of a count, computed in double precision. -/
def weigh (m : Mapping) (raw : Int32) : Float32 :=
  narrow (m.gradient * (Float.ofInt raw.toInt - Float.ofInt m.zeroRaw.toInt))

/-- The line through two points, with its zero at the count of the point whose reference is
nearer to zero. Points that share a count or a reference have none. -/
def fit (a b : CalibrationPoint) : Option Mapping :=
  if a.raw = b.raw || a.reference == b.reference then none
  else
    let (low, high) := if a.reference.abs ≤ b.reference.abs then (a, b) else (b, a)
    let span := Float.ofInt (high.raw.toInt - low.raw.toInt)
    let fitted := ⟨low.raw, (widen high.reference - widen low.reference) / span⟩
    if fitted.isValid then some fitted else none

end Mapping

end LoadCell
