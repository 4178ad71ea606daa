import LoadCell.Bench.Answer

/-!
Steps on the flash of a bench: direct calls, changes behind its counters, and faults.
-/

namespace LoadCell

inductive FlashStep
  | read (offset : UInt32) (length : Nat)
  | write (offset : UInt32) (bytes : Bytes)
  | erase (offset : UInt32) (length : Nat)
  /-- Sets bytes behind the counters. -/
  | poke (offset : Nat) (bytes : Bytes)
  /-- Flips bits behind the counters. -/
  | flip (offset : Nat) (bytes : Bytes)
  /-- Sets a record behind the counters, its checksum computed if none is given. -/
  | putRecord (slot : Nat) (fields : RecordFields) (crc : Option UInt32)
  | budget (bytes : Option Nat)
  | failWrites (on : Bool)
  | fail (call : FlashCall) (numbers : List Nat)
  | stick (offset : Nat) (value : UInt8)
  | unstick

namespace FlashStep

variable {σ : Type} [Holds σ FaultyFlash]

/-- Changes the flash behind its counters; whether the range is inside it. -/
def overlay (offset : Nat) (bytes : Bytes) (g : UInt8 → UInt8 → UInt8) : StateM σ Bool := do
  match (← getPart FaultyFlash).nor.overlay offset bytes g with
  | none => return false
  | some nor =>
    modifyPart fun f : FaultyFlash => { f with nor := nor }
    return true

def editNor (g : NorFlash → NorFlash) : StateM σ Unit :=
  modifyPart fun f : FaultyFlash => { f with nor := g f.nor }

/-- Runs a step; the medium is the flash with whatever surrounds its calls. -/
def perform (medium : Medium σ) : FlashStep → StateM σ Answer
  | read offset length => return .ofOption .bytes (← medium.read offset length)
  | write offset bytes => return .flag (← medium.write offset bytes)
  | erase offset length => return .flag (← medium.erase offset length)
  | poke offset bytes => return .flag (← overlay offset bytes fun b _ => b)
  | flip offset bytes => return .flag (← overlay offset bytes fun b old => old ^^^ b)
  | putRecord slot fields crc => do
    let bytes := (crc.map fields.encodeWith).getD fields.encode
    let sectorSize := (← getPart FaultyFlash).nor.sectorSize
    if ← overlay (slot * sectorSize.toNat) bytes fun b _ => b then return .bytes bytes
    return .flag false
  | budget bytes => do
    editNor (·.setBudget bytes)
    return .nothing
  | failWrites on => do
    editNor ({ · with failWrites := on })
    return .nothing
  | fail call numbers => do
    modifyPart fun f : FaultyFlash => f.setPlan call { failing := numbers }
    return .nothing
  | stick offset value => do
    modifyPart fun f : FaultyFlash => { f with stuck := f.stuck ++ [(offset, value)] }.settle
    return .nothing
  | unstick => do
    modifyPart fun f : FaultyFlash => { f with stuck := [] }
    return .nothing

end FlashStep

end LoadCell
