import LoadCell.Flash.Medium
import LoadCell.Log
import LoadCell.Store.Record

/-!
The calibration store: one mapping kept on a medium through power cuts. The first two sectors are
slots; the newest valid record of the two is the stored one. A commit erases and writes the other
slot, body first, reads it back, and programs the commit word last, so that a cut at any point
leaves the old record or the new one.
-/

namespace LoadCell

abbrev Slot := Fin 2

inductive StoreError
  /-- An erase, write or read-back failed; the former record is still the stored one. -/
  | fault
  /-- The medium has less than two sectors. -/
  | noMedium
  /-- The mapping could not convert readings; nothing was written. -/
  | invalid
  deriving DecidableEq

namespace StoreError

def code : StoreError → Nat
  | fault => 1
  | noMedium => 2
  | invalid => 3

def name : StoreError → String
  | fault => "FAULT"
  | noMedium => "NO_MEDIUM"
  | invalid => "INVALID"

/-- The name of a status code; zero is success. -/
def statusName (code : Nat) : String :=
  if code = 0 then "OK"
  else if code = 1 then fault.name
  else if code = 2 then noMedium.name
  else if code = 3 then invalid.name
  else "UNKNOWN"

end StoreError

/-- What the store remembers of the last scan. The generation outlives a scan that finds no
record. -/
structure Store where
  scanned : Bool := false
  active : Option Slot := none
  generation : UInt32 := 0

instance : Inhabited Store := ⟨{}⟩

namespace Store

def slotCount : UInt32 := 2

variable {σ : Type} [Logs σ] [Holds σ Store] (medium : Medium σ)

def offset (slot : Slot) : UInt32 := UInt32.ofNat slot * medium.sectorSize

def slotText (slot : Slot) : String := toString slot.val

def readSlot (slot : Slot) : StateM σ (Option Record) := do
  match ← medium.read (offset medium slot) Record.size with
  | none =>
    Log.debug .storage ("CalStore: read failed (slot " ++ slotText slot ++ ")\n")
    return none
  | some bytes => return Record.parse? bytes

/-- Takes the record of a slot for the stored one if it is the newest so far. -/
def examine (slot : Slot) : StateM σ Unit := do
  match ← readSlot medium slot with
  | none => Log.debug .storage ("CalStore: slot " ++ slotText slot ++ " empty or invalid\n")
  | some record =>
    Log.debug .storage ("CalStore: slot " ++ slotText slot ++ " valid, generation "
      ++ toString record.generation ++ "\n")
    modifyPart fun store : Store =>
      if store.active.isNone || store.generation < record.generation then
        { store with active := some slot, generation := record.generation }
      else store

def scan : StateM σ Unit := do
  modifyPart fun store : Store => { store with scanned := true, active := none }
  let sectors ← medium.sectorCount
  if sectors < slotCount then
    Log.message ("CalStore: ERROR - flash region has " ++ toString sectors ++ " sectors, need "
      ++ toString slotCount ++ "\n")
  else
    examine medium 0
    examine medium 1

def ensureScanned : StateM σ Unit := do
  if !(← getPart Store).scanned then scan medium

def slotNumber : Option Slot → Int
  | none => -1
  | some slot => slot.val

def load : StateM σ (Option Mapping) := do
  scan medium
  match (← getPart Store).active with
  | none => return none
  | some slot =>
    match ← readSlot medium slot with
    | none =>
      modifyPart fun store : Store => { store with active := none }
      return none
    | some record =>
      let active := (← getPart Store).active
      Log.debug .storage ("CalStore: loaded generation " ++ toString record.generation
        ++ " from slot " ++ toString (slotNumber active) ++ "\n")
      return some record.mapping

/-- The slot that does not hold the stored record. -/
def spareSlot (active : Option Slot) : Slot := if active = some 0 then 1 else 0

def reportFault (what : String) (slot : Slot) : StateM σ StoreError := do
  Log.message ("CalStore: ERROR - " ++ what ++ " (slot " ++ slotText slot ++ ")\n")
  return .fault

/-- Erases a slot and programs a record into it, commit word last, with a look at the result
before and after that word. -/
def writeRecord (record : Record) (slot : Slot) : StateM σ (Except StoreError Unit) := do
  let start := offset medium slot
  if !(← medium.erase start medium.sectorSize.toNat) then
    return .error (← reportFault "erase failed" slot)
  if !(← medium.write start record.body) then
    return .error (← reportFault "write failed" slot)
  let written ← medium.read start Record.size
  if written.map (·.take Record.bodySize) ≠ some record.body then
    return .error (← reportFault "verify failed" slot)
  if !(← medium.write (start + UInt32.ofNat Record.bodySize) Record.commitWord) then
    return .error (← reportFault "commit word write failed" slot)
  let committed ← readSlot medium slot
  if committed.map (·.generation) ≠ some record.generation then
    return .error (← reportFault "committed record unreadable" slot)
  return .ok ()

/-- Replaces the stored mapping. -/
def commit (mapping : Mapping) : StateM σ (Except StoreError Unit) := do
  if !mapping.isValid then
    return .error .invalid
  ensureScanned medium
  if (← medium.sectorCount) < slotCount then
    return .error .noMedium
  let store ← getPart Store
  let record : Record := ⟨store.generation + 1, mapping⟩
  let slot := spareSlot store.active
  Log.debug .storage ("CalStore: committing generation " ++ toString record.generation
    ++ " to slot " ++ slotText slot ++ "\n")
  match ← writeRecord medium record slot with
  | .error e => return .error e
  | .ok () =>
    modifyPart fun store : Store =>
      { store with active := some slot, generation := record.generation }
    Log.debug .storage ("CalStore: generation " ++ toString record.generation ++ " active\n")
    return .ok ()

def eraseSlot (slot : Slot) : StateM σ (Except StoreError Unit) := do
  if ← medium.erase (offset medium slot) medium.sectorSize.toNat then
    return .ok ()
  return .error (← reportFault "erase failed" slot)

/-- Erases both slots, then looks at what is left. -/
def clear : StateM σ (Except StoreError Unit) := do
  if (← medium.sectorCount) < slotCount then
    return .error .noMedium
  let first ← eraseSlot medium 0
  let second ← eraseSlot medium 1
  let outcome := match first with
    | .ok () => second
    | .error e => .error e
  scan medium
  let status := match outcome with
    | .ok () => "OK"
    | .error e => e.name
  Log.debug .storage ("CalStore: cleared (" ++ status ++ ")\n")
  return outcome

def activeSlot : StateM σ (Option Slot) := do
  ensureScanned medium
  return (← getPart Store).active

/-- The generation of the last record found or committed. -/
def currentGeneration : StateM σ UInt32 := do
  ensureScanned medium
  return (← getPart Store).generation

end Store

end LoadCell
