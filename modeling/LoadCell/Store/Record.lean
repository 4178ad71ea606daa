import LoadCell.Calibration.Mapping
import LoadCell.Crc32c

/-!
The stored form of a calibration: 32 bytes. A header, a generation number and the mapping are
covered by a checksum; a commit word comes last and is programmed last. `Record.parse?` accepts
only what `Record.encode` writes for a valid mapping.
-/

namespace LoadCell

/-- A committed calibration and its place in the order of commits. -/
structure Record where
  generation : UInt32
  mapping : Mapping
  deriving DecidableEq

/-- The stored fields one by one, whatever they hold. -/
structure RecordFields where
  magic : UInt32 := 0x4C414350
  version : UInt16 := 1
  length : UInt16 := 32
  generation : UInt32
  zeroRaw : Int32
  gradient : Float
  commit : UInt32 := 0x600DCA1B

namespace Record

def size : Nat := 32

/-- The bytes that the checksum covers. -/
def checkedSize : Nat := 24

/-- The bytes before the commit word. -/
def bodySize : Nat := 28

/-- How a record begins: its mark, the version of the format and its length. -/
def header : Bytes := Bytes.ofNat 4 0x4C414350 ++ Bytes.ofNat 2 1 ++ Bytes.ofNat 2 size

/-- The last word of a complete record. -/
def commitWord : Bytes := Bytes.ofNat 4 0x600DCA1B

end Record

namespace RecordFields

/-- The fields that the checksum covers. -/
def checked (f : RecordFields) : Bytes :=
  Bytes.ofNat 4 f.magic.toNat ++ Bytes.ofNat 2 f.version.toNat ++ Bytes.ofNat 2 f.length.toNat
    ++ Bytes.ofNat 4 f.generation.toNat ++ Bytes.ofNat 4 f.zeroRaw.toUInt32.toNat
    ++ Bytes.ofNat 8 f.gradient.toBits.toNat

/-- The bytes of the fields with a given checksum. -/
def encodeWith (f : RecordFields) (crc : UInt32) : Bytes :=
  f.checked ++ Bytes.ofNat 4 crc.toNat ++ Bytes.ofNat 4 f.commit.toNat

def encode (f : RecordFields) : Bytes := f.encodeWith (Crc32c.checksum f.checked)

end RecordFields

namespace Record

def fields (r : Record) : RecordFields where
  generation := r.generation
  zeroRaw := r.mapping.zeroRaw
  gradient := r.mapping.gradient

def encode (r : Record) : Bytes := r.fields.encode

/-- All but the commit word. -/
def body (r : Record) : Bytes := r.encode.take bodySize

/-- The four bytes from a place on as a number. -/
def wordAt (bs : Bytes) (start : Nat) : UInt32 := UInt32.ofNat (Bytes.value (bs.slice start 4))

/-- What the bytes of a record say about generation and mapping. -/
def contents (bs : Bytes) : Record where
  generation := wordAt bs 8
  mapping :=
    { zeroRaw := (wordAt bs 12).toInt32
      gradient := Float.ofBits (UInt64.ofNat (Bytes.value (bs.slice 16 8))) }

/-- A record counts if its header and commit word are as written, its checksum fits, and its
mapping can convert readings. -/
def isCommitted (bs : Bytes) : Bool :=
  bs.take header.length == header
    && bs.drop bodySize == commitWord
    && wordAt bs checkedSize == Crc32c.checksum (bs.take checkedSize)
    && (contents bs).mapping.isValid

def parse? (bs : Bytes) : Option Record :=
  if isCommitted bs then some (contents bs) else none

end Record

end LoadCell
