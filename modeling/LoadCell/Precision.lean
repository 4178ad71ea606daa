/-!
Moving between single and double precision. Both directions are defined on the decoded value
(sign, mantissa, binary exponent), rounded to nearest with ties to even; widening is exact.
-/

namespace LoadCell

open Float.Model

/-- The double of the same value. -/
def widen (x : Float32) : Float :=
  Float.ofBits ⟨UnpackedFloat.pack .binary64 <|
    match UnpackedFloat.unpack .binary32 x.toBits.toBitVec with
    | .finite sign mantissa exponent _ => .round .binary64 sign mantissa exponent
    | other => other⟩

/-- The single nearest to a double; too large a value becomes infinite. -/
def narrow (x : Float) : Float32 :=
  Float32.ofBits ⟨UnpackedFloat.pack .binary32 <|
    match UnpackedFloat.unpack .binary64 x.toBits.toBitVec with
    | .finite sign mantissa exponent _ => .round .binary32 sign mantissa exponent
    | other => other⟩

/-- A reading that does not exist. -/
def notANumber : Float32 := Float32.ofBits 0x7fc00000

end LoadCell
