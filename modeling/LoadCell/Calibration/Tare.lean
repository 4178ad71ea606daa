import LoadCell.Precision

/-!
The tare: an offset taken off every weight. A running tare lets some weights pass, then averages
the following ones; the average is the new offset. A weight that is not a number does not count.
-/

namespace LoadCell

structure Tare where
  offset : Float32 := 0
  warmup : UInt16 := 0
  remaining : UInt16 := 0
  total : UInt16 := 0
  sum : Float := 0

namespace Tare

instance : Inhabited Tare := ⟨{}⟩

def isRunning (t : Tare) : Bool := t.remaining != 0

/-- Starts over with `warmup` weights to skip and `average`, at least one, to average. The old
offset stays in force until the average is complete. -/
def start (t : Tare) (warmup average : UInt16) : Tare :=
  let total := if average = 0 then 1 else average
  { t with warmup := warmup, total := total, remaining := total, sum := 0 }

def absorb (t : Tare) (weight : Float32) : Tare :=
  if weight.isNaN || !t.isRunning then t
  else if t.warmup ≠ 0 then { t with warmup := t.warmup - 1 }
  else
    let sum := t.sum + widen weight
    let remaining := t.remaining - 1
    { t with
      sum := sum
      remaining := remaining
      offset := if remaining = 0 then narrow (sum / Float.ofNat t.total.toNat) else t.offset }

def net (t : Tare) (weight : Float32) : Float32 :=
  if weight.isNaN then weight else weight - t.offset

end Tare

end LoadCell
