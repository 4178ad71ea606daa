import LoadCell.Bytes

/-!
The checksum CRC-32C (Castagnoli), least significant bit first, as a shift register: all ones at
the start, one step per bit, complemented at the end.
-/

namespace LoadCell.Crc32c

/-- The Castagnoli polynomial without its leading term, lowest power in the highest bit. -/
def polynomial : UInt32 := 0x82F63B78

/-- Shifts one bit out and reduces by the polynomial if it was set. -/
def shiftBit (r : UInt32) : UInt32 :=
  if r &&& 1 = 1 then (r >>> 1) ^^^ polynomial else r >>> 1

/-- Takes one message byte into the register. -/
def feed (r : UInt32) (b : UInt8) : UInt32 :=
  Nat.repeat shiftBit 8 (r ^^^ b.toUInt32)

def checksum (bs : Bytes) : UInt32 :=
  bs.foldl feed 0xFFFFFFFF ^^^ 0xFFFFFFFF

end LoadCell.Crc32c
