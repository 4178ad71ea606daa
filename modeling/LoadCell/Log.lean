import LoadCell.Parts
import LoadCell.Text

/-!
Log output. Messages that belong to a topic are written only while the debug level shows that
topic; other messages are always written. A message keeps at most `Log.lineLimit` bytes.
-/

namespace LoadCell

inductive Topic
  | weight | calibration | storage | protocol | ble
  deriving DecidableEq

inductive LogLevel
  | off | events | protocol | weight | all
  deriving DecidableEq

namespace LogLevel

def ofCode? (code : UInt8) : Option LogLevel :=
  if code = 0 then some off
  else if code = 1 then some events
  else if code = 2 then some protocol
  else if code = 3 then some weight
  else if code = 9 then some all
  else none

def code : LogLevel → UInt8
  | off => 0
  | events => 1
  | protocol => 2
  | weight => 3
  | all => 9

/-- Level 0 switches every topic off. -/
def isOn (level : LogLevel) : Bool := level != off

/-- The topics that a level lets through. -/
def shows (level : LogLevel) : Topic → Bool
  | .weight => level == weight || level == all
  | .calibration | .storage => level.isOn
  | .protocol | .ble => level == protocol || level == weight || level == all

/-- The level in force until another is chosen. -/
def default : LogLevel := events

instance : Inhabited LogLevel := ⟨default⟩

theorem ofCode?_code (level : LogLevel) : ofCode? level.code = some level := by
  cases level <;> rfl

end LogLevel

class LogSink (σ : Type) where
  write : String → StateM σ Unit

/-- A state that code with log output can run in. -/
class Logs (σ : Type) extends Holds σ LogLevel, LogSink σ

variable {σ : Type} [Logs σ]

namespace Log

/-- The longest message. -/
def lineLimit : Nat := 191

def print (text : String) : StateM σ Unit := LogSink.write text

def message (text : String) : StateM σ Unit := print (Text.cut lineLimit text)

/-- Does something only if the debug level shows the topic. -/
def onTopic (topic : Topic) (act : StateM σ Unit) : StateM σ Unit := do
  if (← getPart LogLevel).shows topic then act

def debug (topic : Topic) (text : String) : StateM σ Unit :=
  onTopic topic (message text)

/-- Chooses the debug level by its code; an unknown code leaves it as it was. -/
def setLevel (code : UInt8) : StateM σ Bool := do
  match LogLevel.ofCode? code with
  | none => return false
  | some level =>
    setPart level
    return true

end Log

end LoadCell
