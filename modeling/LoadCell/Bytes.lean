/-!
Byte strings and the words written in them. A word of `n` bytes goes least significant byte first;
`Bytes.value` reads it back, so the value of the bytes of `w` is `w` modulo `256 ^ n`.
-/

namespace LoadCell

abbrev Bytes := List UInt8

namespace Bytes

/-- The `n` low bytes of a number, least significant first. -/
def ofNat : (n : Nat) → Nat → Bytes
  | 0, _ => []
  | n + 1, w => UInt8.ofNat w :: ofNat n (w / 256)

/-- The number that the bytes spell, least significant first. -/
def value : Bytes → Nat
  | [] => 0
  | b :: bs => b.toNat + 256 * value bs

/-- The number that the bytes spell, most significant first. -/
def bigEndianValue (bs : Bytes) : Nat := value bs.reverse

/-- The `n` bytes from place `start` on; missing ones are left out. -/
def slice (bs : Bytes) (start n : Nat) : Bytes := (bs.drop start).take n

/-- The bytes up to the last that is not zero, but at least one byte. -/
def trimHigh (bs : Bytes) : Bytes :=
  match (bs.reverse.dropWhile (· == 0)).reverse with
  | [] => bs.take 1
  | trimmed => trimmed

theorem length_ofNat (n w : Nat) : (ofNat n w).length = n := by
  induction n generalizing w with
  | zero => rfl
  | succ n ih => simp [ofNat, ih]

end Bytes

end LoadCell
