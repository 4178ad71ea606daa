import LoadCell.Proofs.FloatBits

/-!
The order and the opposites of floats. Two finite floats are always in order. The opposite of what goes
into a difference, a quotient or a change of precision gives the opposite of what comes out, bit for
bit.
-/
namespace LoadCell.FloatBits

open Float.Model Float.Model.UnpackedFloat

variable {spec : Format}

section Order

/-- The other way round, a comparison has the other outcome. -/
theorem compare_swap (u v : UnpackedFloat) : v.compare u = (u.compare v).map Ordering.swap := by
  have hswap {α : Type} [Ord α] [Std.OrientedOrd α] (a b : α) : compare b a = (compare a b).swap :=
    Std.OrientedCmp.eq_swap
  cases u with
  | notANumber => cases v <;> rfl
  | infinity s => cases s <;> rcases v with ⟨_ | _⟩ | _ | _ | ⟨_ | _, _, _, _⟩ <;> rfl
  | zero s => rcases v with ⟨_ | _⟩ | _ | _ | ⟨_ | _, _, _, _⟩ <;> rfl
  | finite s m e hm =>
    cases v with
    | finite s' m' e' hm' =>
      cases s <;> cases s' <;>
        simp [UnpackedFloat.compare, Ordering.swap_then, hswap e e', hswap m m']
    | notANumber => rfl
    | infinity s' => cases s' <;> cases s <;> rfl
    | zero s' => cases s <;> rfl

theorem isSome_compare {u v : UnpackedFloat} (hu : u.isFinite) (hv : v.isFinite) :
    (u.compare v).isSome := by
  cases u with
  | notANumber => cases hu
  | infinity s => cases hu
  | zero s =>
    cases v with
    | notANumber => cases hv
    | infinity s' => cases hv
    | zero s' => rfl
    | finite s' m' e' hm' => cases s' <;> rfl
  | finite s m e hm =>
    cases v with
    | notANumber => cases hv
    | infinity s' => cases hv
    | zero s' => cases s <;> rfl
    | finite s' m' e' hm' => cases s <;> cases s' <;> rfl

section

variable {x y : Float32}

theorem le_iff_unpack : x ≤ y ↔ (x.toModel.unpack.compare y.toModel.unpack).any (·.isLE) = true :=
  (decide_eq_true_iff : decide (x.toModel ≤ y.toModel) = true ↔ x.toModel ≤ y.toModel)

theorem beq_eq_unpack : (x == y) = (x.toModel.unpack.compare y.toModel.unpack == some .eq) := rfl

theorem beq_comm_single : (x == y) = (y == x) := by
  rw [beq_eq_unpack, beq_eq_unpack, compare_swap x.toModel.unpack]
  rcases x.toModel.unpack.compare y.toModel.unpack with _ | _ | _ | _ <;> rfl

theorem le_total_of_isFinite (hx : x.isFinite) (hy : y.isFinite) : x ≤ y ∨ y ≤ x := by
  have hsome := isSome_compare (u := x.toModel.unpack) (v := y.toModel.unpack) hx hy
  rw [le_iff_unpack, le_iff_unpack, compare_swap x.toModel.unpack]
  obtain ⟨o, ho⟩ := Option.isSome_iff_exists.1 hsome
  rw [ho]
  cases o <;> simp

theorem beq_iff_le_le : (x == y) = true ↔ x ≤ y ∧ y ≤ x := by
  rw [le_iff_unpack, le_iff_unpack, beq_eq_unpack, compare_swap x.toModel.unpack]
  rcases x.toModel.unpack.compare y.toModel.unpack with _ | _ | _ | _ <;> simp

theorem isFinite_abs (hx : x.isFinite) : x.abs.isFinite := by
  have hfinite : x.toModel.unpack.isFinite = true := hx
  show x.abs.toModel.unpack.isFinite = true
  rw [unpack_toModel_abs hx]
  cases hunpack : x.toModel.unpack <;> rw [hunpack] at hfinite <;> first | rfl | cases hfinite

end

end Order

section Sign

theorem neg_sign_ofBitVec (s : Sign) :
    Sign.ofBitVec (-s).toBitVec = -Sign.ofBitVec s.toBitVec := by
  cases s <;> rfl

/-- Only the sign bit of the opposite is another. -/
theorem unpack_packComponents_neg (s : Sign) (e : BitVec spec.exponentBits)
    (m : BitVec spec.mantissaBitsWithoutImplicit) :
    UnpackedFloat.unpack spec (packComponents spec (-s) e m) =
      (UnpackedFloat.unpack spec (packComponents spec s e m)).neg := by
  unfold UnpackedFloat.unpack
  simp only [unpackSign_packComponents, unpackExponent_packComponents,
    unpackMantissa_packComponents, neg_sign_ofBitVec]
  split_ifs <;> rfl

theorem unpack_pack_neg (u : UnpackedFloat) :
    UnpackedFloat.unpack .binary64 (UnpackedFloat.pack .binary64 u.neg) =
      (UnpackedFloat.unpack .binary64 (UnpackedFloat.pack .binary64 u)).neg := by
  cases u with
  | notANumber => rfl
  | infinity s => exact unpack_packComponents_neg s _ _
  | zero s => exact unpack_packComponents_neg s _ _
  | finite s m e hm =>
    simp only [UnpackedFloat.neg, UnpackedFloat.pack]
    split_ifs <;> exact unpack_packComponents_neg s _ _

theorem roundWithAccuracy_neg (s : Sign) (m : Nat) (e : Int) (accuracy : Accuracy) :
    roundWithAccuracy spec (-s) m e accuracy = (roundWithAccuracy spec s m e accuracy).neg := by
  unfold roundWithAccuracy
  dsimp only
  split <;> rfl

theorem round_neg (s : Sign) (m : Nat) (e : Int) :
    UnpackedFloat.round spec (-s) m e = (UnpackedFloat.round spec s m e).neg :=
  roundWithAccuracy_neg ..

theorem normalize_neg {n : Int} (hn : n ≠ 0) (e : Int) (zeroSign : Sign) :
    UnpackedFloat.normalize spec (-n) e zeroSign =
      (UnpackedFloat.normalize spec n e zeroSign).neg := by
  unfold UnpackedFloat.normalize
  rcases lt_or_gt_of_ne hn with hneg | hpos
  · rw [compare_lt_iff_lt.2 hneg, compare_gt_iff_gt.2 (Int.neg_pos_of_neg hneg)]
    exact round_neg .negative _ e
  · rw [compare_gt_iff_gt.2 hpos, compare_lt_iff_lt.2 (Int.neg_neg_of_pos hpos), Int.neg_neg]
    exact round_neg .positive _ e

theorem apply_neg (s : Sign) (n : Int) : (-s).apply n = -s.apply n := by
  cases s with
  | negative => exact (Int.neg_neg n).symm
  | positive => rfl

theorem apply_ne_zero (s : Sign) {n : Int} (hn : n ≠ 0) : s.apply n ≠ 0 := by
  cases s with
  | negative => exact Int.neg_ne_zero.2 hn
  | positive => exact hn

theorem sub_neg_comm (u : UnpackedFloat) :
    UnpackedFloat.sub spec u.neg u = (UnpackedFloat.sub spec u u.neg).neg := by
  cases u with
  | notANumber => rfl
  | infinity s => cases s <;> rfl
  | zero s => cases s <;> rfl
  | finite s m e hm =>
    -- both have the same exponent, so the mantissas are subtracted as they are
    have hne : s.apply m ≠ 0 := apply_ne_zero s (Int.natCast_ne_zero.2 hm.ne')
    have hdouble : s.apply m - (-s).apply m ≠ 0 := by
      rw [apply_neg]
      omega
    have hopposite : (-s).apply m - s.apply m = -(s.apply m - (-s).apply m) := by
      rw [apply_neg]
      omega
    have hsame : UnpackedFloat.normalize spec (-(s.apply m - (-s).apply m)) e .positive =
        (UnpackedFloat.normalize spec (s.apply m - (-s).apply m) e .positive).neg :=
      normalize_neg hdouble e .positive
    rw [← hopposite] at hsame
    simpa only [UnpackedFloat.sub, UnpackedFloat.neg, decreaseExponent, min_self, sub_self,
      Int.toNat_zero, Nat.shiftLeft_zero] using hsame

theorem div_neg_neg (u v : UnpackedFloat) :
    UnpackedFloat.div spec u.neg v.neg = UnpackedFloat.div spec u v := by
  have hsigns (s t : Sign) : -s / -t = s / t := by cases s <;> cases t <;> rfl
  cases u <;> cases v <;> simp only [UnpackedFloat.neg, UnpackedFloat.div, hsigns]

/-- Singles of one magnitude that are not equal have opposite signs. -/
theorem opposite_of_abs_beq {x y : Float32} (hx : x.isFinite) (hy : y.isFinite)
    (habs : (x.abs == y.abs) = true) (hne : (x == y) = false) : ∃ s m e hm,
      x.toModel.unpack = .finite s m e hm ∧ y.toModel.unpack = .finite (-s) m e hm := by
  rw [beq_eq_unpack] at habs hne
  rw [unpack_toModel_abs hx, unpack_toModel_abs hy] at habs
  rcases unpack_of_isFinite hx with ⟨-, s, hs⟩ | ⟨s, m, e, hm, hs, -⟩ <;>
    rcases unpack_of_isFinite hy with ⟨-, s', hs'⟩ | ⟨s', m', e', hm', hs', -⟩ <;>
    rw [hs, hs'] at habs hne
  · cases hne
  · cases habs
  · cases habs
  · have hsame : e = e' ∧ m = m' := by
      simpa [UnpackedFloat.abs, UnpackedFloat.compare, Ordering.then_eq_eq] using habs
    obtain ⟨rfl, rfl⟩ := hsame
    refine ⟨s, m, e, hm, hs, hs'.trans ?_⟩
    cases s <;> cases s' <;> first | rfl | simp [UnpackedFloat.compare] at hne

/-- Doubles of one magnitude with opposite signs. -/
def Opposite (x y : Float) : Prop := y.toModel.unpack = x.toModel.unpack.neg

theorem opposite_widen {x y : Float32} {s : Sign} {m : Nat} {e : Int} {hm : 0 < m}
    (hx : x.toModel.unpack = .finite s m e hm) (hy : y.toModel.unpack = .finite (-s) m e hm) :
    Opposite (widen x) (widen y) := by
  let wide (u : UnpackedFloat) : UnpackedFloat := UnpackedFloat.unpack .binary64
    (UnpackedFloat.pack .binary64 (UnpackedFloat.unpack .binary64 (UnpackedFloat.pack .binary64 u)))
  have hwide {z : Float32} {s : Sign} (hz : z.toModel.unpack = .finite s m e hm) :
      (widen z).toModel.unpack = wide (.round .binary64 s m e) := by
    change UnpackedFloat.unpack .binary32 z.toBits.toBitVec = _ at hz
    rw [widen, hz]
    rfl
  rw [Opposite, hwide hx, hwide hy, round_neg]
  dsimp only [wide]
  rw [unpack_pack_neg, unpack_pack_neg]

theorem Opposite.sub {x y : Float} (h : Opposite x y) : Opposite (x - y) (y - x) := by
  show UnpackedFloat.unpack .binary64 (UnpackedFloat.pack .binary64
    (UnpackedFloat.sub .binary64 y.toModel.unpack x.toModel.unpack)) = UnpackedFloat.neg
      (UnpackedFloat.unpack .binary64 (UnpackedFloat.pack .binary64
        (UnpackedFloat.sub .binary64 x.toModel.unpack y.toModel.unpack)))
  rw [show y.toModel.unpack = _ from h, sub_neg_comm, unpack_pack_neg]

theorem Opposite.symm {x y : Float} (h : Opposite x y) : Opposite y x := by
  rw [Opposite, show y.toModel.unpack = _ from h]
  rcases x.toModel.unpack with ⟨_ | _⟩ | _ | ⟨_ | _⟩ | ⟨_ | _, _, _, _⟩ <;> rfl

theorem opposite_neg (x : Float) : Opposite x x.neg := by
  have hpacked : UnpackedFloat.pack .binary64 x.toModel.unpack = x.toModel.toBits.toBitVec :=
    pack_unpack (by decide) x.toModel.valid
  show UnpackedFloat.unpack .binary64
    (UnpackedFloat.pack .binary64 x.toModel.unpack.neg) = x.toModel.unpack.neg
  rw [unpack_pack_neg, hpacked]
  rfl

theorem opposite_ofInt {n : Int} (hn : n ≠ 0) : Opposite (Float.ofInt n) (Float.ofInt (-n)) := by
  match n, hn with
  | .ofNat (k + 1), _ => exact opposite_neg _
  | .negSucc k, _ => exact (opposite_neg _).symm

theorem Opposite.div {x y u v : Float} (h : Opposite x y) (h' : Opposite u v) :
    y / v = x / u := by
  show Float.ofModel (Float.Model.pack
    (UnpackedFloat.div .binary64 y.toModel.unpack v.toModel.unpack)) = _
  rw [show y.toModel.unpack = _ from h, show v.toModel.unpack = _ from h', div_neg_neg]
  rfl

end Sign

end LoadCell.FloatBits
