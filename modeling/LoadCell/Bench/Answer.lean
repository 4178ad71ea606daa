import LoadCell.Settings
import LoadCell.Snapshot

/-!
What one step of a script answers, and what was seen while it ran.
-/

namespace LoadCell

inductive Answer
  | nothing
  | flag (b : Bool)
  | number (n : Int)
  | single (w : Float32)
  | text (s : String)
  | bytes (bs : Bytes)
  | mapping (m : Mapping)
  | numbers (ns : List Int)
  | settings (opened : String) (table : SettingsTable)
  | state (groups : SnapshotGroups)

namespace Answer

def ofOption {α : Type} (f : α → Answer) : Option α → Answer
  | none => nothing
  | some a => f a

def count (n : Nat) : Answer := number n

def filtered (latest : Option Int32) : Answer := ofOption (fun c => number c.toInt) latest

/-- A status: zero for success, else the code of the error. -/
def status {ε : Type} (code : ε → Nat) : Except ε Unit → Answer
  | .ok () => number 0
  | .error e => count (code e)

def ofCalibration (outcome : Except CalibrationError Unit) : Answer :=
  status (fun e => e.code.toNat) outcome

def ofStore (outcome : Except StoreError Unit) : Answer := status StoreError.code outcome

def ofProtocol (outcome : Except ProtocolError Unit) : Answer :=
  status (fun e => e.code.toNat) outcome

end Answer

/-- One step's answer with all that was seen during the step. -/
structure Entry where
  answer : Answer := .nothing
  /-- Frames delivered over the link. -/
  sent : List Bytes := []
  attempts : Nat := 0
  disconnects : Nat := 0
  /-- Frames given to the radio, delivered or not. -/
  notified : List Bytes := []
  hardware : List String := []
  /-- Answers of steps that ran inside other calls. -/
  nested : List Answer := []
  serial : String := ""
  log : String := ""
  state : Option SnapshotGroups := none

end LoadCell
