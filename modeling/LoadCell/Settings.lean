import LoadCell.Log
import LoadCell.Protocol.ByteOrder
import LoadCell.Terminal

/-!
Settings that outlive a restart: the debug level and the byte order, one byte each, in a small
key-value area. Until the area is open, loading gives the defaults and saving fails.
-/

namespace LoadCell

/-- Keys with their bytes, in the order of the keys. -/
abbrev SettingsTable := List (String × UInt8)

namespace SettingsTable

def get? (table : SettingsTable) (key : String) : Option UInt8 := table.lookup key

def put (table : SettingsTable) (key : String) (value : UInt8) : SettingsTable :=
  match table with
  | [] => [(key, value)]
  | entry :: rest =>
    if entry.1 = key then (key, value) :: rest
    else if key < entry.1 then (key, value) :: entry :: rest
    else entry :: put rest key value

end SettingsTable

/-- The key-value area with its condition: whether it can be opened and whether it takes new
values. -/
structure SettingsArea where
  table : SettingsTable := []
  opens : Bool := true
  accepts : Bool := true
  /-- The name under which it was opened last. -/
  opened : String := ""

/-- The area, and whether the program has opened it. -/
structure Settings where
  area : SettingsArea := {}
  isOpen : Bool := false

instance : Inhabited Settings := ⟨{}⟩

namespace Settings

def areaName : String := "pullcell"

def orderKey : String := "float_order"

def levelKey : String := "debug_level"

variable {σ : Type} [Logs σ] [Terminal σ] [Holds σ Settings]

/-- Opens the area once. -/
def open? : StateM σ Bool := do
  let settings ← getPart Settings
  if settings.isOpen then
    return true
  modifyPart fun s : Settings =>
    { s with area := { s.area with opened := areaName }, isOpen := s.area.opens }
  if settings.area.opens then Log.debug .storage "Storage: NVS initialized\n"
  else Terminal.line "Storage: Failed to initialize NVS"
  return settings.area.opens

/-- Saves a byte under a key; `shown` is how the message gives it. -/
def save (key : String) (value : UInt8) (shown : String) : StateM σ Bool := do
  let settings ← getPart Settings
  if !settings.isOpen then
    Terminal.line "Storage: Not initialized"
    return false
  if !settings.area.accepts then
    Terminal.line ("Storage: Failed to save " ++ key)
    return false
  modifyPart fun s : Settings =>
    { s with area := { s.area with table := s.area.table.put key value } }
  Log.debug .storage ("Storage: Saved " ++ key ++ " = " ++ shown ++ "\n")
  return true

def saveOrder (order : ByteOrder) : StateM σ Bool := save orderKey order.code order.name

def saveLevel (code : UInt8) : StateM σ Bool := save levelKey code (toString code)

/-- The byte under a key, or the default. -/
def load (key : String) (default : UInt8) : StateM σ (Option UInt8) := do
  let settings ← getPart Settings
  if settings.isOpen then return some ((settings.area.table.get? key).getD default)
  Terminal.line ("Storage: Not initialized, using default " ++ key)
  return none

/-- The stored byte order; a byte that is none gives the default. -/
def loadOrder : StateM σ ByteOrder := do
  match ← load orderKey ByteOrder.default.code with
  | none => return .default
  | some code =>
    let order ← match ByteOrder.ofCode code with
      | .unassigned code => do
        Terminal.write ("Storage: Invalid float_order " ++ toString code ++ ", using default\n")
        pure ByteOrder.default
      | order => pure order
    Log.debug .storage ("Storage: Loaded float_order = " ++ order.name ++ "\n")
    return order

def loadLevel : StateM σ UInt8 := do
  return (← load levelKey LogLevel.default.code).getD LogLevel.default.code

end Settings

end LoadCell
