import LoadCell.Bytes

/-!
What the calibration store asks of its medium: sectors that are erased as a whole and bytes that
are programmed between two erases. Calls run in the whole program's state, so a medium may let
other code run inside a call.
-/

namespace LoadCell

structure Medium (σ : Type) where
  sectorSize : UInt32
  sectorCount : StateM σ UInt32
  /-- The bytes from an offset on, or nothing if the medium cannot be read there. -/
  read : (offset : UInt32) → (length : Nat) → StateM σ (Option Bytes)
  erase : (offset : UInt32) → (length : Nat) → StateM σ Bool
  write : (offset : UInt32) → Bytes → StateM σ Bool

/-- The three calls that reach the cells of a medium. -/
inductive FlashCall
  | read | write | erase
  deriving DecidableEq

end LoadCell
