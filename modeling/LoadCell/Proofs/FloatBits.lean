import LoadCell.Precision
import Mathlib

/-!
Floats are their bits. The bits of a float decode to it, so a float that is stored as bits and
read back is the same float; of two magnitudes, the smaller has no larger exponent in its bits.
-/
namespace LoadCell.FloatBits

open Float.Model Float.Model.UnpackedFloat

variable {spec : Format} {b : BitVec spec.numBits}

private theorem sign_bits (v : BitVec 1) : (Sign.ofBitVec v).toBitVec = v := by
  revert v
  decide

private theorem packComponents_parts (b : BitVec spec.numBits) :
    packComponents spec (Sign.ofBitVec (unpackSign b)) (unpackExponent b)
      (unpackMantissa b) = b := by
  have hm := spec.hm
  have he := spec.he
  ext i hi
  simp only [packComponents, sign_bits, unpackSign, unpackExponent, unpackMantissa,
    BitVec.getElem_append, BitVec.getElem_cast, BitVec.getElem_extract]
  split_ifs with hmant hexp
  · simp [BitVec.getLsbD_eq_getElem hi]
  · rw [Nat.add_sub_cancel' (by omega), BitVec.getLsbD_eq_getElem hi]
  · have htop : spec.mantissaBitsWithoutImplicit + spec.exponentBits +
        (i - spec.mantissaBitsWithoutImplicit - spec.exponentBits) = i := by omega
    rw [htop, BitVec.getLsbD_eq_getElem hi]

private theorem packComponents_of_parts {e : BitVec spec.exponentBits}
    {m : BitVec spec.mantissaBitsWithoutImplicit} (he : unpackExponent b = e)
    (hm : unpackMantissa b = m) :
    packComponents spec (Sign.ofBitVec (unpackSign b)) e m = b := by
  rw [← he, ← hm, packComponents_parts]

/-- The implicit bit of a normal number stands above its mantissa. -/
theorem toNat_implicit {n : Nat} (m : BitVec n) : (1#1 ++ m).toNat = 2 ^ n + m.toNat := by
  rw [BitVec.toNat_append, Nat.shiftLeft_eq, Nat.mul_comm]
  exact (Nat.two_pow_add_eq_or_of_lt m.isLt 1).symm.trans (by simp)

/-- Packing a decoded pattern gives the pattern back. -/
theorem pack_unpack (h : 2 ≤ spec.exponentBits) (hv : spec.Valid b) :
    UnpackedFloat.pack spec (UnpackedFloat.unpack spec b) = b := by
  have hpow : 2 ^ 2 ≤ 2 ^ spec.exponentBits := Nat.pow_le_pow_right (by omega) h
  have hmant := (unpackMantissa b).isLt
  have hexp := (unpackExponent b).isLt
  unfold UnpackedFloat.unpack
  dsimp only
  split_ifs with htop hzero hbottom hzero
  · exact packComponents_of_parts htop hzero
  · exact (hv.eq_packedNaN htop hzero).symm
  · exact packComponents_of_parts hbottom hzero
  · -- below the normal numbers: exponent field zero, no implicit bit
    have hne : (unpackMantissa b).toNat ≠ 0 := by simpa [← BitVec.toNat_inj] using hzero
    have hlog : (unpackMantissa b).toNat.log2 + 1 ≠ spec.mantissaBits := by
      have := (Nat.log2_lt hne).2 hmant
      unfold Format.mantissaBits
      omega
    simp only [UnpackedFloat.pack, hbottom, BitVec.toNat_ofNat, Nat.zero_mod]
    rw [if_neg (by omega), if_neg hlog]
    exact packComponents_of_parts hbottom (by simp)
  · -- a normal number: the mantissa gets its implicit bit and loses it again
    have hne : (unpackExponent b).toNat ≠ 2 ^ spec.exponentBits - 1 := by
      intro heq
      apply htop
      apply BitVec.eq_of_toNat_eq
      rw [heq, BitVec.neg_one_eq_allOnes, BitVec.toNat_allOnes]
    have hlog : (1#1 ++ unpackMantissa b).toNat.log2 = spec.mantissaBitsWithoutImplicit := by
      have hpos := Nat.two_pow_pos spec.mantissaBitsWithoutImplicit
      rw [toNat_implicit, Nat.log2_eq_iff (by omega), Nat.pow_succ]
      omega
    have hbias : ((unpackExponent b).toNat - (spec.exponentBias +
        spec.mantissaBitsWithoutImplicit : Int) + spec.exponentBias +
        spec.mantissaBitsWithoutImplicit).toNat = (unpackExponent b).toNat := by omega
    simp only [UnpackedFloat.pack, hbias, hlog]
    rw [if_neg (by omega), if_pos (by unfold Format.mantissaBits; omega)]
    apply packComponents_of_parts
    · simp
    · apply BitVec.eq_of_toNat_eq
      rw [toNat_implicit]
      simp [Nat.mod_eq_of_lt hmant]

/-- A double read back from its bits is the same double. -/
@[simp] theorem ofBits_toBits (x : Float) : Float.ofBits x.toBits = x := by
  have h : Float.Model.ofBits x.toModel.toBits = x.toModel := by
    unfold Float.Model.ofBits Float.Model.pack
    congr 1
    rw [pack_unpack (by decide) x.toModel.valid]
  exact congrArg Float.ofModel h

/-- A single read back from its bits is the same single. -/
@[simp] theorem single_ofBits_toBits (x : Float32) : Float32.ofBits x.toBits = x := by
  have h : Float32.Model.ofBits x.toModel.toBits = x.toModel := by
    unfold Float32.Model.ofBits Float32.Model.pack
    congr 1
    rw [pack_unpack (by decide) x.toModel.valid]
  exact congrArg Float32.ofModel h

/-- Only a pattern that decodes to no number can be one that no float has. -/
theorem valid_of_unpack_ne {b' : BitVec spec.numBits}
    (h : UnpackedFloat.unpack spec b ≠ .notANumber) (he : unpackExponent b' = unpackExponent b)
    (hm : unpackMantissa b' = unpackMantissa b) : spec.Valid b' := by
  refine ⟨fun htop hmant => absurd ?_ h⟩
  rw [he] at htop
  rw [hm] at hmant
  simp only [UnpackedFloat.unpack, htop, hmant, ↓reduceIte]

theorem unpack_ne_of_isFinite {x : Float32} (h : x.isFinite) :
    x.toModel.unpack ≠ .notANumber := by
  intro hnan
  have hfinite : x.toModel.unpack.isFinite = true := h
  rw [hnan] at hfinite
  cases hfinite

/-- The bits of which a finite number is read are the bits of that number. -/
theorem toBits_single_ofBits {bits : UInt32} (h : (Float32.ofBits bits).isFinite) :
    (Float32.ofBits bits).toBits = bits := by
  have hnan : UnpackedFloat.unpack .binary32 bits.toBitVec ≠ .notANumber := by
    intro hnan
    have hread : (Float32.ofBits bits).toModel.unpack = .notANumber := by
      show UnpackedFloat.unpack .binary32
        (UnpackedFloat.pack .binary32 (UnpackedFloat.unpack .binary32 bits.toBitVec)) = _
      rw [hnan]
      rfl
    exact unpack_ne_of_isFinite h hread
  exact congrArg UInt32.ofBitVec (pack_unpack (by decide) (valid_of_unpack_ne hnan rfl rfl))

/-- The magnitude has the bits of the number, without the sign. -/
theorem unpack_abs (b : BitVec spec.numBits) : (UnpackedFloat.unpack spec b).abs =
    UnpackedFloat.unpack spec
      (packComponents spec .positive (unpackExponent b) (unpackMantissa b)) := by
  unfold UnpackedFloat.unpack
  simp only [unpackSign_packComponents, unpackExponent_packComponents,
    unpackMantissa_packComponents]
  split_ifs <;> rfl

theorem unpack_toModel_abs {x : Float32} (h : x.isFinite) :
    x.abs.toModel.unpack = x.toModel.unpack.abs := by
  have hvalid : Format.binary32.Valid (packComponents .binary32 .positive
      (unpackExponent x.toModel.toBits.toBitVec) (unpackMantissa x.toModel.toBits.toBitVec)) :=
    valid_of_unpack_ne (unpack_ne_of_isFinite h) unpackExponent_packComponents
      unpackMantissa_packComponents
  show UnpackedFloat.unpack .binary32 (UnpackedFloat.pack .binary32 x.toModel.unpack.abs) = _
  rw [Float32.Model.unpack, unpack_abs, pack_unpack (by decide) hvalid]

/-- The bits of a single between its sign and its mantissa. -/
def exponentField (x : Float32) : Nat := x.toBits.toNat / 2 ^ 23 % 2 ^ 8

theorem toNat_unpackExponent (x : Float32) :
    (@unpackExponent .binary32 x.toBits.toBitVec).toNat = exponentField x := by
  simp [unpackExponent, exponentField, BitVec.extractLsb, Nat.shiftRight_eq_div_pow]

theorem toNat_unpackMantissa (x : Float32) :
    (@unpackMantissa .binary32 x.toBits.toBitVec).toNat = x.toBits.toNat % 2 ^ 23 := by
  simp [unpackMantissa, BitVec.extractLsb]

/-- A finite single is a zero, or the field between its sign and its mantissa tells its exponent. -/
theorem unpack_of_isFinite {x : Float32} (h : x.isFinite) :
    (x.toBits.toNat % 2 ^ 31 = 0 ∧ ∃ s, x.toModel.unpack = .zero s) ∨
      ∃ s m e hm, x.toModel.unpack = .finite s m e hm ∧
        e = max (exponentField x : Int) 1 - 150 := by
  have hexp := toNat_unpackExponent x
  have hmant := toNat_unpackMantissa x
  have hfinite : x.toModel.unpack.isFinite = true := h
  have hbias : (Format.exponentBias .binary32 : Int) = 127 := rfl
  unfold Float32.Model.unpack UnpackedFloat.unpack at hfinite ⊢
  dsimp only at hfinite ⊢
  split_ifs at hfinite ⊢ with htop hzero hbottom hzero
  · cases hfinite
  · cases hfinite
  · have hnone : exponentField x = 0 := hexp.symm.trans (congrArg BitVec.toNat hbottom)
    have hempty : x.toBits.toNat % 2 ^ 23 = 0 := hmant.symm.trans (congrArg BitVec.toNat hzero)
    refine .inl ⟨?_, _, rfl⟩
    unfold exponentField at hnone
    omega
  · -- below the normal numbers the exponent is that of the field one
    have hnone : exponentField x = 0 := hexp.symm.trans (congrArg BitVec.toNat hbottom)
    have hpos : 0 < (@unpackMantissa .binary32 x.toBits.toBitVec).toNat :=
      Nat.pos_of_ne_zero fun hempty => hzero (BitVec.eq_of_toNat_eq hempty)
    refine .inr ⟨_, _, _, hpos, rfl, ?_⟩
    change ((@unpackExponent .binary32 x.toBits.toBitVec).toNat : Int) -
      (Format.exponentBias .binary32 + 23) + 1 = _
    rw [hbias, hexp, hnone]
    rfl
  · have hsome : exponentField x ≠ 0 := fun hnone =>
      hbottom (BitVec.eq_of_toNat_eq (hexp.trans hnone))
    have hpos : 0 < (1#1 ++ @unpackMantissa .binary32 x.toBits.toBitVec).toNat := by
      rw [toNat_implicit]
      omega
    refine .inr ⟨_, _, _, hpos, rfl, ?_⟩
    change ((@unpackExponent .binary32 x.toBits.toBitVec).toNat : Int) -
      (Format.exponentBias .binary32 + 23) = _
    rw [hbias, hexp]
    omega

section

variable {m m' : Nat} {e e' : Int} {hm : 0 < m} {hm' : 0 < m'}

theorem exponent_le_of_le
    (h : (UnpackedFloat.finite .positive m e hm).le (.finite .positive m' e' hm') = true) :
    e ≤ e' := by
  by_contra hgt
  have hcompare : compare e e' = .gt := compare_gt_iff_gt.2 (not_le.1 hgt)
  simp [UnpackedFloat.le, UnpackedFloat.compare, hcompare] at h

theorem exponent_le_of_not_lt
    (h : (UnpackedFloat.finite .positive m e hm).lt (.finite .positive m' e' hm') ≠ true) :
    e' ≤ e := by
  by_contra hgt
  have hcompare : compare e e' = .lt := compare_lt_iff_lt.2 (not_le.1 hgt)
  simp [UnpackedFloat.lt, UnpackedFloat.compare, hcompare] at h

end

end LoadCell.FloatBits
