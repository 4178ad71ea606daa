import LoadCell.Proofs.ShiftRegister
import Mathlib

/-!
The checksum as the remainder of a polynomial division over the field of two elements. The register
holds a polynomial of degree below 32, upside down: the coefficient of the highest power is in its
lowest bit. A step is one line of a long division, so after any bits the register holds a remainder.
-/
namespace LoadCell

namespace Crc32c

open Polynomial

/-- A bit as an element of the field of two elements. -/
def coefficient (b : Bool) : ZMod 2 := b.toNat

/-- A string of bits as a polynomial, the first bit at the highest power. -/
noncomputable def message : List Bool → (ZMod 2)[X]
  | [] => 0
  | b :: bs => C (coefficient b) * X ^ bs.length + message bs

/-- A word as a polynomial, bit `i` at `X ^ i`. -/
noncomputable def ofWord (w : BitVec 32) : (ZMod 2)[X] := ofFn 32 fun i => coefficient (w.getLsb i)

/-- The coefficients of the powers below 32 as a word, that of `X ^ i` in bit `i`. -/
noncomputable def toWord (p : (ZMod 2)[X]) : BitVec 32 :=
  BitVec.ofFnLE fun i => decide (p.coeff i = 1)

/-- The Castagnoli polynomial, its lower coefficients given as a word. -/
noncomputable def castagnoli : (ZMod 2)[X] := X ^ 32 + ofWord 0x1EDC6F41

@[simp] theorem coefficient_false : coefficient false = 0 := rfl

@[simp] theorem coefficient_true : coefficient true = 1 := rfl

theorem coefficient_xor (b c : Bool) : coefficient (b ^^ c) = coefficient b + coefficient c := by
  cases b <;> cases c <;> rfl

theorem coeff_ofWord (w : BitVec 32) (i : ℕ) :
    (ofWord w).coeff i = coefficient (w.getLsbD i) := by
  by_cases hi : i < 32
  · rw [ofWord, ofFn_coeff_eq_val_of_lt _ hi]
    rfl
  · rw [ofWord, ofFn_coeff_eq_zero_of_ge _ (by omega), BitVec.getLsbD_of_ge _ _ (by omega)]
    rfl

theorem toWord_ofWord (w : BitVec 32) : toWord (ofWord w) = w := by
  apply BitVec.eq_of_getLsbD_eq
  intro i hi
  rw [toWord, BitVec.getLsbD_ofFnLE, dif_pos hi, coeff_ofWord]
  cases w.getLsbD i <;> rfl

theorem castagnoli_monic : castagnoli.Monic := monic_X_pow_add (ofFn_degree_lt _)

theorem degree_ofWord_lt (w : BitVec 32) : (ofWord w).degree < castagnoli.degree := by
  have hlow : (ofWord 0x1EDC6F41).degree < (X ^ 32 : (ZMod 2)[X]).degree := by
    rw [degree_X_pow]
    exact ofFn_degree_lt _
  rw [castagnoli, degree_add_eq_left_of_degree_lt hlow, degree_X_pow]
  exact ofFn_degree_lt _

/-- The polynomial in the register. -/
noncomputable def held (r : UInt32) : (ZMod 2)[X] := ofWord r.toBitVec.reverse

theorem coeff_held (r : UInt32) (i : ℕ) :
    (held r).coeff i = coefficient (r.toBitVec.getMsbD i) := by
  rw [held, coeff_ofWord, BitVec.getLsbD_reverse]

theorem held_xor (r s : UInt32) : held (r ^^^ s) = held r + held s := by
  ext i
  rw [coeff_add, coeff_held, coeff_held, coeff_held, UInt32.toBitVec_xor, BitVec.getMsbD_xor,
    coefficient_xor]

theorem held_polynomial : held polynomial = ofWord 0x1EDC6F41 := by
  have hreverse : polynomial.toBitVec.reverse = 0x1EDC6F41 := by decide +kernel
  rw [held, hreverse]

theorem held_ones : held 0xFFFFFFFF = ∑ i ∈ Finset.range 32, X ^ i := by
  have hbit : ∀ i < 32, (0xFFFFFFFF : UInt32).toBitVec.getMsbD i = true := by decide
  ext i
  rw [coeff_held, finsetSum_coeff]
  simp only [coeff_X_pow, Finset.sum_ite_eq, Finset.mem_range]
  split
  next hi => rw [hbit i hi, coefficient_true]
  next hi => rw [BitVec.getMsbD_of_ge _ _ (not_lt.1 hi), coefficient_false]

/-- A bit comes in at the highest power. -/
theorem held_bit (b : Bool) : held b.toUInt32 = C (coefficient b) * X ^ 31 := by
  have hbit (i : ℕ) : b.toUInt32.toBitVec.getMsbD i = (decide (i = 31) && b) := by
    cases b <;> simp [BitVec.getMsbD_one]
  ext i
  rw [coeff_held, hbit, coeff_C_mul_X_pow]
  split
  next hi => simp [hi]
  next hi => simp [hi]

/-- All bits move up one power, and the last one leaves the register. -/
theorem held_shiftRight (r : UInt32) :
    held r * X = held (r >>> 1) + C (coefficient (r.toBitVec.getLsbD 0)) * X ^ 32 := by
  have hdown (i : ℕ) : (r >>> 1).toBitVec.getMsbD i =
      (decide (i < 32) && (!decide (i < 1) && r.toBitVec.getMsbD (i - 1))) := by
    rw [UInt32.toBitVec_shiftRight]
    exact BitVec.getMsbD_ushiftRight
  ext i
  rw [coeff_add, coeff_C_mul_X_pow, coeff_held, hdown]
  cases i with
  | zero => simp
  | succ i =>
    rw [coeff_mul_X, coeff_held, Nat.add_sub_cancel]
    rcases lt_trichotomy i 31 with hi | rfl | hi
    · have hnext : i + 1 < 32 := by omega
      simp [hnext, hi.ne]
    · have hlast : r.toBitVec.getMsbD 31 = r.toBitVec.getLsbD 0 := BitVec.getMsbD_eq_getLsbD ..
      simp [hlast]
    · simp [hi.ne', BitVec.getMsbD_of_ge _ _ hi]

/-- The bit that falls out says how often the polynomial goes into what the register held. -/
theorem held_shiftBit (r : UInt32) :
    held r * X = castagnoli * C (coefficient (r.toBitVec.getLsbD 0)) + held (shiftBit r) := by
  rw [held_shiftRight]
  unfold shiftBit
  split
  next hout =>
    -- over two elements the step that adds the polynomial takes it away
    have htwice : ofWord 0x1EDC6F41 + ofWord 0x1EDC6F41 = 0 := CharTwo.add_self_eq_zero _
    rw [(low_bit r).1 hout, held_xor, held_polynomial, castagnoli, coefficient_true, C_1]
    linear_combination -htwice
  next hout =>
    rw [Bool.eq_false_of_not_eq_true (mt (low_bit r).2 hout), coefficient_false, C_0]
    ring

/-- One line of the division, which brings down the next bit. -/
theorem held_feedBit (r : UInt32) (b : Bool) : ∃ out,
    held r * X + C (coefficient b) * X ^ 32 = castagnoli * out + held (feedBit r b) := by
  refine ⟨C (coefficient ((r ^^^ b.toUInt32).toBitVec.getLsbD 0)), ?_⟩
  rw [feedBit, ← held_shiftBit, held_xor, held_bit]
  ring

/-- The whole division: what fell out is the quotient, and what the register holds is left. -/
theorem held_feedBits (r : UInt32) (bs : List Bool) : ∃ quotient,
    message bs * X ^ 32 + held r * X ^ bs.length =
      castagnoli * quotient + held (feedBits r bs) := by
  induction bs generalizing r with
  | nil => exact ⟨0, by simp [message, feedBits]⟩
  | cons b bs ih =>
    obtain ⟨out, hline⟩ := held_feedBit r b
    obtain ⟨quotient, hrest⟩ := ih (feedBit r b)
    refine ⟨out * X ^ bs.length + quotient, ?_⟩
    calc message (b :: bs) * X ^ 32 + held r * X ^ (b :: bs).length
        = message bs * X ^ 32 + (held r * X + C (coefficient b) * X ^ 32) * X ^ bs.length := by
          rw [message, List.length_cons]
          ring
      _ = castagnoli * (out * X ^ bs.length) +
            (message bs * X ^ 32 + held (feedBit r b) * X ^ bs.length) := by
          rw [hline]
          ring
      _ = castagnoli * (out * X ^ bs.length + quotient) + held (feedBits r (b :: bs)) := by
          rw [hrest, mul_add, add_assoc]
          rfl

theorem held_feedBits_eq_mod (r : UInt32) (bs : List Bool) :
    held (feedBits r bs) = (message bs * X ^ 32 + held r * X ^ bs.length) % castagnoli := by
  obtain ⟨quotient, hdivision⟩ := held_feedBits r bs
  have hdegree : (held (feedBits r bs)).degree < castagnoli.degree := degree_ofWord_lt _
  rw [← modByMonic_eq_mod _ castagnoli_monic]
  refine (div_modByMonic_unique quotient _ castagnoli_monic ⟨?_, hdegree⟩).2.symm
  rw [hdivision, add_comm]

/-- The checksum is the remainder of a message with 32 zeros behind it and its first 32 bits
flipped, read backwards and complemented. -/
theorem checksum_eq_remainder (bs : Bytes) : (checksum bs).toBitVec =
    ~~~(toWord ((message bs.bits * X ^ 32 +
      (∑ i ∈ Finset.range 32, X ^ i) * X ^ (8 * bs.length)) % castagnoli)).reverse := by
  have hback (w : BitVec 32) : w.reverse.reverse = w := BitVec.reverse_reverse_eq
  rw [← held_ones, ← Bytes.length_bits, ← held_feedBits_eq_mod, held, toWord_ofWord, hback,
    checksum, foldl_feed]
  exact BitVec.xor_allOnes

/-- The digits from 1 to 9 give the check value that is known for this polynomial. -/
example : checksum [0x31, 0x32, 0x33, 0x34, 0x35, 0x36, 0x37, 0x38, 0x39] = 0xE3069283 := by
  decide +kernel

end Crc32c

end LoadCell
