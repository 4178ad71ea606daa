import LoadCell.Log

/-!
Sliding median over raw counts. The last counts stand in a circular window; from the moment the
window is full, every count yields the middle one of the sorted window, which takes out spikes
that last one sample.
-/

namespace LoadCell

/-- A number of samples with a middle one, small enough to sort in place. -/
structure WindowSize where
  val : Nat
  odd : val % 2 = 1
  three_le : 3 ≤ val
  le_nine : val ≤ 9

namespace WindowSize

/-- The allowed size nearest above the wish, 9 at most. -/
def ofRequest (wish : UInt8) : WindowSize :=
  let bounded := min (max wish.toNat 3) 9
  ⟨bounded + (1 - bounded % 2), by omega, by omega, by omega⟩

theorem pos (size : WindowSize) : 0 < size.val := by have := size.three_le; omega

end WindowSize

/-- The cells that a window is sorted in, as many as the largest window takes. They start without
counts. A read of a cell that has none, and any access beside the cells, has no result. -/
abbrev SortCells : Type := Vector (Option Int32) 9

namespace SortCells

def blank : SortCells := Vector.replicate 9 none

def read (cells : SortCells) (i : Nat) : Option Int32 := cells[i]?.join

def write (cells : SortCells) (i : Nat) (count : Int32) : Option SortCells :=
  if h : i < 9 then some (cells.set i (some count)) else none

/-- Moves greater counts one cell up, from the one below `gap` on downwards, and puts the count in
the gap that they leave. -/
def sink (count : Int32) : (gap : Nat) → SortCells → Option SortCells
  | 0, cells => cells.write 0 count
  | gap + 1, cells => do
    let below ← cells.read gap
    if count < below then
      let shifted ← cells.write (gap + 1) below
      sink count gap shifted
    else cells.write (gap + 1) count

/-- Insertion sort of the first `n` counts of a window. -/
def ofWindow {size : Nat} (window : Vector Int32 size) : (n : Nat) → Option SortCells
  | 0 => some blank
  | n + 1 => do
    let sorted ← ofWindow window n
    sink (← window[n]?) n sorted

end SortCells

/-- The filter: a circular window, the place of the next count, and how many counts the window
holds. -/
structure MedianFilter where
  size : WindowSize
  window : Vector Int32 size.val
  next : Fin size.val
  filled : Nat
  latest : Option Int32

namespace MedianFilter

def ofSize (size : WindowSize) : MedianFilter where
  size := size
  window := Vector.replicate size.val 0
  next := ⟨0, size.pos⟩
  filled := 0
  latest := none

instance : Inhabited MedianFilter := ⟨ofSize (.ofRequest 5)⟩

/-- Whether the window has been full since the last reset. -/
def primed (f : MedianFilter) : Bool := f.latest.isSome

/-- The middle count of a full window. -/
def median (size : WindowSize) (window : Vector Int32 size.val) : Option Int32 := do
  let sorted ← SortCells.ofWindow window size.val
  sorted.read (size.val / 2)

/-- Takes one count; the new `latest` is what it yields. -/
def push (f : MedianFilter) (count : Int32) : MedianFilter :=
  let window := f.window.set f.next count f.next.isLt
  let filled := if f.filled < f.size.val then f.filled + 1 else f.filled
  { f with
    window := window
    next := ⟨(f.next + 1) % f.size.val, Nat.mod_lt _ f.size.pos⟩
    filled := filled
    latest := if filled < f.size.val then f.latest else median f.size window }

/-- Empties the window; what stood in it is overwritten before it counts again. -/
def reset (f : MedianFilter) : MedianFilter :=
  { f with next := ⟨0, f.size.pos⟩, filled := 0, latest := none }

/-- A filter for the wished size, with a message if it is not allowed. -/
def create {σ : Type} [Logs σ] (wish : UInt8) : StateM σ MedianFilter := do
  let size := WindowSize.ofRequest wish
  if size.val ≠ wish.toNat then
    Log.debug .weight
      ("MedianFilter: window " ++ toString wish ++ " adjusted to " ++ toString size.val ++ "\n")
  return ofSize size

end MedianFilter

end LoadCell
