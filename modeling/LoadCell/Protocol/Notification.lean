import LoadCell.Bytes

/-!
Notifications to the peer: a code byte, the length of the value, and at most twelve bytes of value.
-/

namespace LoadCell

inductive Notification
  /-- The answer to a command. -/
  | response (value : Bytes)
  /-- A weight and the microseconds since the stream began. -/
  | weight (kilograms : Float32) (time : UInt32)
  | lowPower
  /-- The opcode of a refused command and why it was refused. -/
  | error (opcode code : UInt8)
  deriving DecidableEq

namespace Notification

instance : Inhabited Notification := ⟨lowPower⟩

def maxValue : Nat := 12

def code : Notification → UInt8
  | response _ => 0x00
  | weight _ _ => 0x01
  | lowPower => 0x04
  | error _ _ => 0x0F

/-- The value that reports a weight: the bits of the float, whichever they are, and the time. -/
abbrev weightValue (bits time : UInt32) : Bytes :=
  Bytes.ofNat 4 bits.toNat ++ Bytes.ofNat 4 time.toNat

/-- The value; a longer answer is cut off. -/
def value : Notification → Bytes
  | response value => value.take maxValue
  | weight kilograms time => weightValue kilograms.toBits time
  | lowPower => []
  | error opcode code => [opcode, code]

/-- The bytes that go over the link. -/
def encode (n : Notification) : Bytes :=
  n.code :: UInt8.ofNat n.value.length :: n.value

/-- The value that reports a device number: its bytes up to the last that is not zero. -/
def deviceIdValue (id : UInt64) : Bytes := (Bytes.ofNat 8 id.toNat).trimHigh

end Notification

end LoadCell
