import LoadCell.Crc32c
import Mathlib

/-!
The register of the checksum as a machine on bits. It takes the bits of a message one after the
other, the lowest of each byte first. The machine is linear, so two runs differ by the run of the
difference; and it forgets nothing, since only the register zero leads to zero.
-/
namespace LoadCell

namespace Bytes

/-- The bits of a byte string, the lowest of each byte first. -/
def bits (bs : Bytes) : List Bool := bs.flatMap fun b => (List.range 8).map b.toNat.testBit

/-- Two byte strings, bit by bit. -/
def xor (bs cs : Bytes) : Bytes := List.zipWith (· ^^^ ·) bs cs

@[simp] theorem bits_nil : bits [] = [] := rfl

@[simp] theorem bits_append (bs cs : Bytes) : bits (bs ++ cs) = bits bs ++ bits cs :=
  List.flatMap_append

theorem bits_cons (b : UInt8) (bs : Bytes) :
    bits (b :: bs) = (List.range 8).map b.toNat.testBit ++ bits bs := rfl

@[simp] theorem length_bits (bs : Bytes) : (bits bs).length = 8 * bs.length := by
  induction bs with
  | nil => rfl
  | cons b bs ih => simp [bits_cons, ih]; omega

/-- The bits are those of the number that the bytes spell. -/
theorem testBit_value (bs : Bytes) (i : ℕ) : (value bs).testBit i = (bits bs).getD i false := by
  induction bs generalizing i with
  | nil => simp [value]
  | cons b bs ih =>
    have hsum : value (b :: bs) = 2 ^ 8 * value bs + b.toNat := Nat.add_comm _ _
    rw [hsum, Nat.testBit_two_pow_mul_add _ b.toNat_lt, bits_cons]
    split
    next hlow =>
      rw [List.getD_append _ _ _ _ (by simpa using hlow)]
      simp [hlow]
    next hhigh =>
      rw [List.getD_append_right _ _ _ _ (by simpa using hhigh), ih]
      simp

theorem bits_xor {bs cs : Bytes} (h : bs.length = cs.length) :
    bits (bs.xor cs) = List.zipWith Bool.xor (bits bs) (bits cs) := by
  induction bs generalizing cs with
  | nil => rfl
  | cons b bs ih =>
    cases cs with
    | nil => cases h
    | cons c cs =>
      have hbyte : (List.range 8).map (b ^^^ c).toNat.testBit = List.zipWith Bool.xor
          ((List.range 8).map b.toNat.testBit) ((List.range 8).map c.toNat.testBit) := by
        rw [List.zipWith_map, List.zipWith_self]
        simp [UInt8.toNat_xor, Nat.testBit_xor]
      rw [bits_cons, bits_cons, List.zipWith_append (by simp), ← ih (Nat.succ.inj h), ← hbyte]
      rfl

end Bytes

namespace Crc32c

/-- Takes one bit into the register. -/
def feedBit (r : UInt32) (b : Bool) : UInt32 := shiftBit (r ^^^ b.toUInt32)

def feedBits (r : UInt32) (bs : List Bool) : UInt32 := bs.foldl feedBit r

/-- At most 32 bits as a word, the first one lowest. -/
def word (bs : List Bool) : UInt32 := ⟨(BitVec.ofBoolListLE bs).setWidth 32⟩

section Words

theorem ext_bits {r s : UInt32}
    (h : ∀ i < 32, r.toBitVec.getLsbD i = s.toBitVec.getLsbD i) : r = s :=
  UInt32.toBitVec_inj.1 (BitVec.eq_of_getLsbD_eq h)

theorem getLsbD_word (bs : List Bool) {i : ℕ} (hi : i < 32) :
    (word bs).toBitVec.getLsbD i = bs.getD i false := by
  rw [word, BitVec.getLsbD_setWidth, BitVec.getLsbD_ofBoolListLE]
  simp [hi]

/-- Each bit moves up one place. -/
theorem getLsbD_shiftLeft_one (r : UInt32) (i : ℕ) : (r <<< 1).toBitVec.getLsbD i =
    (decide (i < 32) && !decide (i < 1) && r.toBitVec.getLsbD (i - 1)) := by
  rw [UInt32.toBitVec_shiftLeft]
  exact BitVec.getLsbD_shiftLeft ..

theorem unset_of_word_eq_zero {bs : List Bool} (hlength : bs.length ≤ 32) (h : word bs = 0) :
    true ∉ bs := by
  rw [List.mem_iff_getElem?]
  rintro ⟨i, hi⟩
  have hlt := (List.getElem?_eq_some_iff.1 hi).1
  have hbit := getLsbD_word bs (i := i) (by omega)
  rw [h, List.getD_eq_getElem?_getD, hi] at hbit
  exact absurd hbit (by simp)

theorem word_value (bs : Bytes) : word bs.bits = UInt32.ofNat bs.value := by
  apply ext_bits
  intro i hi
  rw [getLsbD_word _ hi, ← Bytes.testBit_value, UInt32.toBitVec_ofNat', BitVec.getLsbD_ofNat]
  simp [hi]

theorem word_byte (b : UInt8) : word ((List.range 8).map b.toNat.testBit) = b.toUInt32 := by
  have hbits : (List.range 8).map b.toNat.testBit = Bytes.bits [b] := by simp [Bytes.bits]
  rw [hbits, word_value]
  simp [Bytes.value]

theorem word_cons (b : Bool) (bs : List Bool) : word (b :: bs) = b.toUInt32 ^^^ word bs <<< 1 := by
  apply ext_bits
  intro i hi
  rw [getLsbD_word _ hi, UInt32.toBitVec_xor, BitVec.getLsbD_xor]
  cases i with
  | zero => cases b <;> simp
  | succ i =>
    have hbit : b.toUInt32.toBitVec.getLsbD (i + 1) = false := by
      cases b <;> simp [BitVec.getLsbD_one]
    rw [hbit, getLsbD_shiftLeft_one, Nat.add_sub_cancel, getLsbD_word _ (by omega),
      List.getD_cons_succ, Bool.false_xor]
    simp [hi]

end Words

theorem low_bit (r : UInt32) : r &&& 1 = 1 ↔ r.toBitVec.getLsbD 0 = true := by
  rw [← UInt32.toBitVec_inj, UInt32.toBitVec_and]
  have h := BitVec.and_one_eq_setWidth_ofBool_getLsbD (x := r.toBitVec)
  change r.toBitVec &&& 1#32 = 1#32 ↔ _
  rw [h]
  cases r.toBitVec.getLsbD 0 <;> decide

/-- Each bit moves down one place, and the polynomial comes in if a bit fell out. -/
theorem getLsbD_shiftBit (r : UInt32) (i : ℕ) : (shiftBit r).toBitVec.getLsbD i =
    (r.toBitVec.getLsbD (i + 1) ^^ (r.toBitVec.getLsbD 0 && polynomial.toBitVec.getLsbD i)) := by
  have hdown : (r >>> 1).toBitVec.getLsbD i = r.toBitVec.getLsbD (i + 1) := by
    rw [UInt32.toBitVec_shiftRight, Nat.add_comm]
    exact BitVec.getLsbD_ushiftRight ..
  unfold shiftBit
  split
  next hout => rw [UInt32.toBitVec_xor, BitVec.getLsbD_xor, hdown, (low_bit r).1 hout, Bool.true_and]
  next hout =>
    rw [hdown, Bool.eq_false_of_not_eq_true (mt (low_bit r).2 hout), Bool.false_and, Bool.xor_false]

theorem shiftBit_xor (r s : UInt32) : shiftBit (r ^^^ s) = shiftBit r ^^^ shiftBit s := by
  apply ext_bits
  intro i _
  simp only [getLsbD_shiftBit, UInt32.toBitVec_xor, BitVec.getLsbD_xor, Bool.and_xor_distrib_right,
    Bool.xor_assoc, Bool.xor_left_comm]

theorem shiftBit_eq_zero {r : UInt32} (h : shiftBit r = 0) : r = 0 := by
  have hbit (i : ℕ) : (r.toBitVec.getLsbD (i + 1) ^^
      (r.toBitVec.getLsbD 0 && polynomial.toBitVec.getLsbD i)) = false := by
    rw [← getLsbD_shiftBit, h]
    exact BitVec.getLsbD_zero
  have htop : polynomial.toBitVec.getLsbD 31 = true := by decide
  have hlow : r.toBitVec.getLsbD 0 = false := by
    have hlast := hbit 31
    rw [htop, BitVec.getLsbD_of_ge r.toBitVec 32 le_rfl] at hlast
    simpa using hlast
  apply ext_bits
  intro i _
  cases i with
  | zero => exact hlow
  | succ i =>
    have hnext := hbit i
    rw [hlow, Bool.false_and, Bool.xor_false] at hnext
    exact hnext.trans BitVec.getLsbD_zero.symm

theorem iterate_shiftBit_eq_zero {n : ℕ} {r : UInt32} (h : shiftBit^[n] r = 0) : r = 0 := by
  induction n generalizing r with
  | zero => exact h
  | succ n ih => exact shiftBit_eq_zero (ih h)

@[simp] theorem iterate_shiftBit_zero (n : ℕ) : shiftBit^[n] 0 = 0 :=
  Function.iterate_fixed rfl n

/-- A word that does not reach the top comes down again. -/
theorem shiftBit_shiftLeft {bs : List Bool} (h : bs.length < 32) :
    shiftBit (word bs <<< 1) = word bs := by
  apply ext_bits
  intro i hi
  rw [getLsbD_shiftBit, getLsbD_shiftLeft_one, getLsbD_shiftLeft_one, Nat.add_sub_cancel,
    getLsbD_word _ hi]
  by_cases htop : i + 1 < 32
  · simp [htop]
  · rw [List.getD_eq_default _ _ (by omega)]
    simp

/-- Up to 32 bits may as well come in at once. -/
theorem feedBits_eq (r : UInt32) {bs : List Bool} (h : bs.length ≤ 32) :
    feedBits r bs = shiftBit^[bs.length] (r ^^^ word bs) := by
  induction bs generalizing r with
  | nil =>
    have hword : word [] = 0 := rfl
    rw [hword, UInt32.xor_zero]
    rfl
  | cons b bs ih =>
    rw [List.length_cons] at h
    calc feedBits r (b :: bs) = feedBits (shiftBit (r ^^^ b.toUInt32)) bs := rfl
      _ = shiftBit^[bs.length] (shiftBit (r ^^^ b.toUInt32) ^^^ word bs) := ih _ (by omega)
      _ = shiftBit^[bs.length] (shiftBit (r ^^^ b.toUInt32 ^^^ word bs <<< 1)) := by
        rw [shiftBit_xor _ (word bs <<< 1), shiftBit_shiftLeft (by omega)]
      _ = shiftBit^[(b :: bs).length] (r ^^^ word (b :: bs)) := by
        rw [word_cons, UInt32.xor_assoc, List.length_cons, Function.iterate_succ_apply]

@[simp] theorem feedBits_append (r : UInt32) (bs cs : List Bool) :
    feedBits r (bs ++ cs) = feedBits (feedBits r bs) cs :=
  List.foldl_append

/-- Taking in bytes is taking in their bits. -/
theorem foldl_feed (r : UInt32) (bs : Bytes) : bs.foldl feed r = feedBits r bs.bits := by
  induction bs generalizing r with
  | nil => rfl
  | cons b bs ih =>
    have hbyte : feed r b = feedBits r ((List.range 8).map b.toNat.testBit) := by
      rw [feedBits_eq r (by simp), word_byte]
      rfl
    rw [List.foldl_cons, ih, Bytes.bits_cons, feedBits_append, hbyte]

theorem feedBits_xor (r s : UInt32) {bs cs : List Bool} (h : bs.length = cs.length) :
    feedBits (r ^^^ s) (List.zipWith Bool.xor bs cs) = feedBits r bs ^^^ feedBits s cs := by
  induction bs generalizing r s cs with
  | nil =>
    obtain rfl := List.eq_nil_of_length_eq_zero h.symm
    rfl
  | cons b bs ih =>
    cases cs with
    | nil => cases h
    | cons c cs =>
      have hbit : feedBit (r ^^^ s) (b ^^ c) = feedBit r b ^^^ feedBit s c := by
        have hword : (b ^^ c).toUInt32 = b.toUInt32 ^^^ c.toUInt32 := by
          cases b <;> cases c <;> rfl
        rw [feedBit, feedBit, feedBit, ← shiftBit_xor, hword]
        congr 1
        ac_rfl
      show feedBits (feedBit (r ^^^ s) (b ^^ c)) _ = _
      rw [hbit, ih _ _ (Nat.succ.inj h)]
      rfl

/-- Bits that are not set only move the register on. -/
theorem feedBits_of_unset (r : UInt32) {bs : List Bool} (h : true ∉ bs) :
    feedBits r bs = shiftBit^[bs.length] r := by
  induction bs generalizing r with
  | nil => rfl
  | cons b bs ih =>
    rw [List.mem_cons, not_or] at h
    obtain rfl : b = false := Bool.eq_false_of_not_eq_true (Ne.symm h.1)
    have hbit : feedBit r false = shiftBit r := congrArg shiftBit UInt32.xor_zero
    show feedBits (feedBit r false) bs = _
    rw [ih _ h.2, hbit, List.length_cons, Function.iterate_succ_apply]

end Crc32c

end LoadCell
