import LoadCell.Protocol.Engine

/-!
The time of a streamed weight. A stream counts from its origin; a sample taken a little before the
origin becomes the origin.
-/
namespace LoadCell

namespace Protocol

/-- Whether a sample was taken a little before the origin of its stream, as far as a clock that
wraps can tell. -/
def isEarly (origin time : UInt32) : Bool :=
  origin - time ≠ 0 && origin - time ≤ reorderWindow

def originAfter (origin time : UInt32) : UInt32 :=
  if isEarly origin time then time else origin

/-- The time that a weight is sent with. -/
def elapsed (origin time : UInt32) : UInt32 :=
  if isEarly origin time then 0 else time - origin

theorem stamp_eq (p : Protocol) (weight : Float32) (time : UInt32) :
    p.stamp weight time = { p with
      origin := originAfter p.origin time
      weight := .weight weight (elapsed p.origin time)
      weightPending := true } := rfl

end Protocol

end LoadCell
