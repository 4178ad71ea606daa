import LoadCell.Flash.Faults
import LoadCell.Log

/-!
The calibration medium on the device: a named partition of the flash. It is found by its label;
calls outside its size fail with a message of their own, all others go to the flash below.
-/

namespace LoadCell

structure Partition where
  label : String
  address : UInt32
  size : UInt32

/-- The partition that the flash has, and the one that the program has found. -/
structure PartitionFlash where
  present : Option Partition := none
  found : Option Partition := none

instance : Inhabited PartitionFlash := ⟨{}⟩

namespace PartitionFlash

def sectorSize : UInt32 := 4096

variable {σ : Type} [Logs σ] [Holds σ PartitionFlash]

def find (label : String) : StateM σ Bool := do
  let found := (← getPart PartitionFlash).present.filter (·.label == label)
  modifyPart fun p : PartitionFlash => { p with found := found }
  match found with
  | none => Log.message ("Flash: ERROR - partition '" ++ label ++ "' not found\n")
  | some partition =>
    Log.debug .storage ("Flash: partition '" ++ label ++ "' at 0x"
      ++ Text.hex 6 partition.address.toNat ++ ", " ++ toString partition.size ++ " bytes\n")
  return found.isSome

def sectorCount : StateM σ UInt32 := do
  match (← getPart PartitionFlash).found with
  | none => return 0
  | some partition => return partition.size / sectorSize

/-- Writes the message for a failed call. -/
def reportFailure (what : String) (offset : UInt32) (cause : String) : StateM σ Unit :=
  Log.message
    ("Flash: " ++ what ++ " @0x" ++ Text.hex 1 offset.toNat ++ " failed: " ++ cause ++ "\n")

/-- A call on a range of the partition; `below` is the call on the flash. -/
def call {α : Type} (what : String) (offset : UInt32) (length : Nat)
    (below : StateM σ (Option α)) : StateM σ (Option α) := do
  match (← getPart PartitionFlash).found with
  | none => return none
  | some partition =>
    if partition.size.toNat < offset.toNat + length then
      reportFailure what offset "ESP_ERR_INVALID_SIZE"
      return none
    let answer ← below
    if answer.isNone then reportFailure what offset "ESP_FAIL"
    return answer

/-- A yes-or-no call as one that answers or fails. -/
def succeeding (act : StateM σ Bool) : StateM σ (Option Unit) := do
  return if ← act then some () else none

/-- The partition as a medium on top of the flash. -/
def medium (flash : Medium σ) : Medium σ where
  sectorSize := sectorSize
  sectorCount := sectorCount
  read offset length := call "read" offset length (flash.read offset length)
  erase offset length :=
    Option.isSome <$> call "erase" offset length (succeeding (flash.erase offset length))
  write offset bytes :=
    Option.isSome <$> call "write" offset bytes.length (succeeding (flash.write offset bytes))

end PartitionFlash

end LoadCell
