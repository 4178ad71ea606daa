import LoadCell.Bytes

/-!
Console and log text. A `String` stands for a byte string, one character for each byte, so every
character is below 256 and a cut at a number of bytes is a cut at that number of characters.
-/

namespace LoadCell.Text

def ofBytes (bs : Bytes) : String :=
  String.ofList (bs.map fun b => Char.ofNat b.toNat)

def toBytes (s : String) : Bytes :=
  s.toList.map fun c => UInt8.ofNat c.toNat

/-- A stored text ends before its first zero byte. -/
def upToZero (s : String) : String :=
  String.ofList (s.toList.takeWhile (· != Char.ofNat 0))

def cut (n : Nat) (s : String) : String :=
  String.ofList (s.toList.take n)

theorem length_cut_le (n : Nat) (s : String) : (cut n s).length ≤ n := by
  rw [cut, String.length_ofList]
  exact List.length_take_le _ _

/-- Fills up on the left with zeros. -/
def zeroPad (width : Nat) (digits : List Char) : String :=
  String.ofList (List.replicate (width - digits.length) '0' ++ digits)

/-- Lower-case hexadecimal with at least `width` digits. -/
def hex (width n : Nat) : String := zeroPad width (Nat.toDigits 16 n)

/-- Upper-case hexadecimal with at least `width` digits. -/
def hexUpper (width n : Nat) : String :=
  zeroPad width ((Nat.toDigits 16 n).map Char.toUpper)

/-- A byte as it stands in messages: `0x` and two digits. -/
def hexByte (b : UInt8) : String := "0x" ++ hexUpper 2 b.toNat

def yesNo (b : Bool) : String := if b then "YES" else "NO"

end LoadCell.Text
