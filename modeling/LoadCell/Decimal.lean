import LoadCell.Text

/-!
Decimal text of a double. The double is taken apart into `m * 2 ^ e` and all arithmetic is exact;
a value half-way between two decimals goes to the even one. `fixed` writes a given number of
places, `general` nine significant digits without trailing zeros, in positional form while the
decimal exponent is at least `-4` and below 9.
-/

namespace LoadCell.Decimal

open Float.Model

/-- Rounds a quotient to the nearest number, a half to the even neighbour. -/
def roundDiv (num den : Nat) : Nat :=
  let q := num / den
  let r := num % den
  if 2 * r < den then q
  else if 2 * r > den then q + 1
  else q + q % 2

def tenTo (n : Nat) : Nat := Nat.pow 10 n

/-- The value `m * 2 ^ e` as a quotient. -/
def quotient (m : Nat) (e : Int) : Nat × Nat := (m <<< e.toNat, 1 <<< (-e).toNat)

/-- The value times a power of ten, rounded. -/
def scaled (m : Nat) (e : Int) (places : Nat) : Nat :=
  roundDiv ((quotient m e).1 * tenTo places) (quotient m e).2

/-- The value divided by a power of ten, rounded. -/
def reduced (m : Nat) (e : Int) (power : Nat) : Nat :=
  roundDiv (quotient m e).1 ((quotient m e).2 * tenTo power)

def digits (n : Nat) : List Char := Nat.toDigits 10 n

/-- The sign of a value is shown for zero and infinity too. -/
def signText : UnpackedFloat.Sign → String
  | .negative => "-"
  | .positive => ""

/-- A digit string with the last `places` digits behind the point. -/
def withPoint (places n : Nat) : String :=
  let ds := (Text.zeroPad (places + 1) (digits n)).toList
  let whole := String.ofList (ds.take (ds.length - places))
  if places = 0 then whole
  else whole ++ "." ++ String.ofList (ds.drop (ds.length - places))

/-- A fixed number of places. -/
def fixed (places : Nat) (x : Float) : String :=
  match UnpackedFloat.unpack .binary64 x.toBits.toBitVec with
  | .notANumber => "nan"
  | .infinity s => signText s ++ "inf"
  | .zero s => signText s ++ withPoint places 0
  | .finite s m e _ => signText s ++ withPoint places (scaled m e places)

/-- The least `k` from `start` on, within `fuel` steps, with `num * 10 ^ k` at least `den`. -/
def firstPower (num den : Nat) : (fuel start : Nat) → Nat
  | 0, k => k
  | fuel + 1, k => if den ≤ num * tenTo k then k else firstPower num den fuel (k + 1)

/-- The decimal exponent of `m * 2 ^ e`: the place of its first digit. -/
def exponentOf (m : Nat) (e : Int) : Int :=
  let (num, den) := quotient m e
  if den ≤ num then ((digits (num / den)).length : Int) - 1
  else - (firstPower num den (-e).toNat 1 : Int)

def precision : Nat := 9

/-- The first digits of `m * 2 ^ e` as a number of `precision` digits, and its exponent. -/
def significant (m : Nat) (e : Int) : Nat × Int :=
  let x := exponentOf m e
  let shift := (precision : Int) - 1 - x
  let n := if 0 ≤ shift then scaled m e shift.toNat else reduced m e (-shift).toNat
  if n < tenTo precision then (n, x) else (n / 10, x + 1)

def dropTrailingZeros (ds : List Char) : List Char :=
  (ds.reverse.dropWhile (· == '0')).reverse

/-- A decimal point in front of the places that are left, if any. -/
def pointed (places : List Char) : List Char :=
  match dropTrailingZeros places with
  | [] => []
  | kept => '.' :: kept

/-- Lays out the digits of a value with a given decimal exponent. -/
def layout (ds : List Char) (x : Int) : String :=
  if x < -4 || (precision : Int) ≤ x then
    let power := Text.zeroPad 2 (digits x.natAbs)
    String.ofList (ds.take 1 ++ pointed (ds.drop 1)) ++ (if x < 0 then "e-" else "e+") ++ power
  else if 0 ≤ x then
    String.ofList (ds.take (x.toNat + 1) ++ pointed (ds.drop (x.toNat + 1)))
  else
    String.ofList ('0' :: pointed (List.replicate (x.natAbs - 1) '0' ++ ds))

/-- Nine significant digits, as few as the value needs. -/
def general (x : Float) : String :=
  match UnpackedFloat.unpack .binary64 x.toBits.toBitVec with
  | .notANumber => "nan"
  | .infinity s => signText s ++ "inf"
  | .zero s => signText s ++ "0"
  | .finite s m e _ =>
    let (n, place) := significant m e
    signText s ++ layout (digits n) place

end LoadCell.Decimal
