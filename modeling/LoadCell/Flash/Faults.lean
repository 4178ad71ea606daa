import LoadCell.Flash.Medium
import LoadCell.Flash.Nor
import LoadCell.Parts

/-!
A flash with faults to order. Calls of a kind can be made to fail by their numbers, without any
effect; stuck bytes fall back to their value after every erase and write that reaches the cells.
-/

namespace LoadCell

/-- Which of the coming calls of one kind fail. -/
structure FailurePlan where
  next : Nat := 0
  failing : List Nat := []

structure FaultyFlash where
  nor : NorFlash
  readPlan : FailurePlan := {}
  writePlan : FailurePlan := {}
  erasePlan : FailurePlan := {}
  stuck : List (Nat × UInt8) := []

namespace FaultyFlash

def plan (f : FaultyFlash) : FlashCall → FailurePlan
  | .read => f.readPlan
  | .write => f.writePlan
  | .erase => f.erasePlan

def setPlan (f : FaultyFlash) (call : FlashCall) (plan : FailurePlan) : FaultyFlash :=
  match call with
  | .read => { f with readPlan := plan }
  | .write => { f with writePlan := plan }
  | .erase => { f with erasePlan := plan }

/-- Counts a call; whether it is one that fails. -/
def permit (f : FaultyFlash) (call : FlashCall) : Bool × FaultyFlash :=
  let plan := f.plan call
  (!plan.failing.contains plan.next, f.setPlan call { plan with next := plan.next + 1 })

/-- Gives the stuck bytes their values. -/
def settle (f : FaultyFlash) : FaultyFlash :=
  { f with nor := f.stuck.foldl (fun nor s => nor.change s.1 fun _ => s.2) f.nor }

def read (f : FaultyFlash) (offset length : Nat) : Option Bytes × FaultyFlash :=
  match f.permit .read with
  | (true, f) => (f.nor.read offset length, f)
  | (false, f) => (none, f)

/-- A call that changes cells. -/
def changing (f : FaultyFlash) (call : FlashCall) (act : NorFlash → Bool × NorFlash) :
    Bool × FaultyFlash :=
  match f.permit call with
  | (true, f) => ((act f.nor).1, { f with nor := (act f.nor).2 }.settle)
  | (false, f) => (false, f)

def erase (f : FaultyFlash) (offset length : Nat) : Bool × FaultyFlash :=
  f.changing .erase (·.erase offset length)

def write (f : FaultyFlash) (offset : Nat) (bytes : Bytes) : Bool × FaultyFlash :=
  f.changing .write (·.write offset bytes)

end FaultyFlash

variable {σ : Type} [Holds σ FaultyFlash]

def onFlash {α : Type} (act : FaultyFlash → α × FaultyFlash) : StateM σ α := do
  let (answer, flash) := act (← getPart FaultyFlash)
  setPart flash
  return answer

/-- The flash in the state as a medium. Other code runs first in every call. -/
def FaultyFlash.medium (sectorSize : UInt32) (before : FlashCall → StateM σ Unit) :
    Medium σ where
  sectorSize := sectorSize
  sectorCount := return (← getPart FaultyFlash).nor.sectorCount
  read offset length := do
    before .read
    onFlash (·.read offset.toNat length)
  erase offset length := do
    before .erase
    onFlash (·.erase offset.toNat length)
  write offset bytes := do
    before .write
    onFlash (·.write offset.toNat bytes)

end LoadCell
