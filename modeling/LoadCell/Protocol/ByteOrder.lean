import LoadCell.Bytes

/-!
The byte order of the reference weight in a control frame. Peers disagree about it, so it is a
setting; `auto` takes the little-endian reading unless only the big-endian one is a weight that a
person could hang on the cell.
-/

namespace LoadCell

inductive ByteOrder
  | little | big | auto
  /-- A code that no order has. -/
  | unassigned (code : UInt8)
  deriving DecidableEq

namespace ByteOrder

def code : ByteOrder → UInt8
  | little => 0
  | big => 1
  | auto => 2
  | unassigned code => code

def ofCode (code : UInt8) : ByteOrder :=
  if code = 0 then little
  else if code = 1 then big
  else if code = 2 then auto
  else unassigned code

/-- The order until another is chosen. -/
def default : ByteOrder := little

instance : Inhabited ByteOrder := ⟨default⟩

def name : ByteOrder → String
  | little => "little-endian"
  | big => "big-endian"
  | auto => "auto"
  | unassigned _ => "unknown"

/-- The order after this one when a user steps through them. -/
def next : ByteOrder → ByteOrder
  | little => big
  | big => auto
  | auto | unassigned _ => little

end ByteOrder

/-- The smallest reference other than zero that `auto` accepts: one gram. -/
def referenceResolution : Float32 := Float32.ofBits 0x3a83126f

/-- A weight that could hang on a cell of the given capacity. Most weights with their bytes in the
wrong order read as tiny or huge numbers and fail this. -/
def isPlausible (capacity value : Float32) : Bool :=
  let magnitude := value.abs
  value.isFinite && !(capacity < magnitude)
    && (magnitude == 0 || referenceResolution ≤ magnitude)

def littleEndianSingle (bs : Bytes) : Float32 := Float32.ofBits (UInt32.ofNat bs.value)

def bigEndianSingle (bs : Bytes) : Float32 := Float32.ofBits (UInt32.ofNat bs.bigEndianValue)

/-- The reference weight in four bytes, if they hold an acceptable one. -/
def ByteOrder.reference? (order : ByteOrder) (capacity : Float32) (bs : Bytes) : Option Float32 :=
  match order with
  | little => some (littleEndianSingle bs) |>.filter (·.isFinite)
  | big => some (bigEndianSingle bs) |>.filter (·.isFinite)
  | auto =>
    (some (littleEndianSingle bs) |>.filter (isPlausible capacity))
      <|> (some (bigEndianSingle bs) |>.filter (isPlausible capacity))
  | unassigned _ => none

end LoadCell
