import LoadCell.Bytes

/-!
NOR flash: erasing sets bytes to `0xff`, programming can only clear bits. Both go byte by byte,
and a power budget can end them after any byte; what was done until then stays.
-/

namespace LoadCell

structure NorFlash where
  sectorSize : UInt32
  cells : Array UInt8
  /-- How many more bytes can be erased or programmed; no limit if absent. -/
  budget : Option Nat := none
  powerLost : Bool := false
  /-- Refuses every write. -/
  failWrites : Bool := false
  spent : Nat := 0
  erases : Nat := 0
  writes : Nat := 0

namespace NorFlash

def blank (sectors sectorSize : UInt32) : NorFlash where
  sectorSize := sectorSize
  cells := Array.replicate (sectors * sectorSize).toNat 0xff

def sectorCount (f : NorFlash) : UInt32 :=
  UInt32.ofNat (f.cells.size / f.sectorSize.toNat)

def inRange (f : NorFlash) (offset length : Nat) : Bool := offset + length ≤ f.cells.size

def read (f : NorFlash) (offset length : Nat) : Option Bytes :=
  if f.inRange offset length then some (f.cells.extract offset (offset + length)).toList else none

/-- Pays for one byte; without a budget left, the power is gone. -/
def spend (f : NorFlash) : Bool × NorFlash :=
  match f.budget with
  | some 0 => (false, { f with powerLost := true })
  | some (left + 1) => (true, { f with budget := some left, spent := f.spent + 1 })
  | none => (true, { f with spent := f.spent + 1 })

def change (f : NorFlash) (place : Nat) (g : UInt8 → UInt8) : NorFlash :=
  { f with cells := f.cells.modify place g }

/-- Erases `count` bytes from a place on while the power lasts. -/
def eraseBytes (f : NorFlash) (place : Nat) : (count : Nat) → Bool × NorFlash
  | 0 => (true, f)
  | count + 1 =>
    match f.spend with
    | (true, paid) => eraseBytes (paid.change place fun _ => 0xff) (place + 1) count
    | (false, dead) => (false, dead)

/-- Programs bytes from a place on while the power lasts. -/
def programBytes (f : NorFlash) (place : Nat) : Bytes → Bool × NorFlash
  | [] => (true, f)
  | b :: rest =>
    match f.spend with
    | (true, paid) => programBytes (paid.change place (· &&& b)) (place + 1) rest
    | (false, dead) => (false, dead)

/-- Erases whole sectors; anything else is refused and not counted. -/
def erase (f : NorFlash) (offset length : Nat) : Bool × NorFlash :=
  if !f.inRange offset length || offset % f.sectorSize.toNat ≠ 0
      || length % f.sectorSize.toNat ≠ 0 then (false, f)
  else { f with erases := f.erases + 1 }.eraseBytes offset length

def write (f : NorFlash) (offset : Nat) (bytes : Bytes) : Bool × NorFlash :=
  if !f.inRange offset bytes.length || f.failWrites then (false, f)
  else { f with writes := f.writes + 1 }.programBytes offset bytes

/-- Sets how many more bytes can be done; the power is back. -/
def setBudget (f : NorFlash) (bytes : Option Nat) : NorFlash :=
  { f with budget := bytes, powerLost := false }

/-- Changes the bytes of a range one by one, outside all counts; nothing if out of range. -/
def overlay (f : NorFlash) (offset : Nat) (bytes : Bytes) (g : UInt8 → UInt8 → UInt8) :
    Option NorFlash :=
  if f.inRange offset bytes.length then
    some (bytes.zipIdx.foldl (fun f b => f.change (offset + b.2) (g b.1)) f)
  else none

end NorFlash

end LoadCell
