import LoadCell.Proofs.CommandGrammar
import LoadCell.Proofs.StoredRecord
import LoadCell.Protocol.Engine

/-!
Reference weights of peers that disagree about the byte order. A weight that is plausible in the
wrong order too is read in the wrong order if it came most significant byte first; its lowest byte
must then look like the highest byte of a plausible weight.
-/
namespace LoadCell

open FloatBits

/-- The weight that the cell is rated for. -/
def ratedCapacity : Float32 := ({} : ProtocolConfig).capacity

/-- The bytes of a weight, least significant first. -/
def weightBytes (weight : Float32) : Bytes := Bytes.ofNat 4 weight.toBits.toNat

/-- The weight that the bytes of another one spell in the wrong order. -/
def swapped (weight : Float32) : Float32 := bigEndianSingle (weightBytes weight)

/-- The frame of a calibration point, with or without the number of its bytes. -/
def pointFrame (counted : Bool) (bytes : Bytes) : Bytes :=
  0x69 :: if counted then 0x04 :: bytes else bytes

theorem decode_pointFrame (held : HeldCommand) {order : ByteOrder} {capacity weight : Float32}
    {bytes : Bytes} (h : HoldsReference capacity order bytes weight) (counted : Bool) :
    held.decode order capacity (pointFrame counted bytes) = (.ok (), ⟨0x69, weight⟩) := by
  have hframe : ControlFrame order capacity (pointFrame counted bytes) ⟨0x69, weight⟩ := by
    cases counted with
    | false => exact .point h
    | true => exact .counted h
  obtain ⟨command, hcommand, hheld⟩ := Command.decode_of_controlFrame hframe
  rw [HeldCommand.decode, hcommand, ← hheld]

theorem length_weightBytes (weight : Float32) : (weightBytes weight).length = 4 :=
  Bytes.length_ofNat 4 _

theorem littleEndianSingle_weightBytes (weight : Float32) :
    littleEndianSingle (weightBytes weight) = weight := by
  have hlt : weight.toBits.toNat < 256 ^ 4 := weight.toBits.toNat_lt
  rw [littleEndianSingle, weightBytes, Bytes.value_ofNat, Nat.mod_eq_of_lt hlt,
    UInt32.ofNat_toNat, single_ofBits_toBits]

section

variable {capacity weight : Float32}

theorem HoldsReference.weightBytes (h : Plausible capacity weight) :
    HoldsReference capacity .auto (weightBytes weight) weight := by
  apply (reference?_eq_some_iff (length_weightBytes weight)).1
  simp [ByteOrder.reference?, littleEndianSingle_weightBytes, isPlausible_iff.2 h]

/-- The other byte order is taken for the weight's own if it is plausible. -/
theorem HoldsReference.weightBytes_reverse (h : Plausible capacity weight) :
    HoldsReference capacity .auto (LoadCell.weightBytes weight).reverse
      (if Plausible capacity (swapped weight) then swapped weight else weight) := by
  have hlittle : littleEndianSingle (LoadCell.weightBytes weight).reverse = swapped weight := rfl
  have hbig : bigEndianSingle (LoadCell.weightBytes weight).reverse = weight := by
    rw [bigEndianSingle, Bytes.bigEndianValue, List.reverse_reverse]
    exact littleEndianSingle_weightBytes weight
  apply (reference?_eq_some_iff (by rw [List.length_reverse, length_weightBytes])).1
  rw [ByteOrder.reference?, hlittle, hbig]
  split
  next hswapped => simp [isPlausible_iff.2 hswapped]
  next hswapped => simp [mt isPlausible_iff.1 hswapped, isPlausible_iff.2 h]

end

/-- The bits of a plausible weight are those of a zero, or their exponent is one of eighteen. -/
theorem Plausible.exponentField {weight : Float32} (h : Plausible ratedCapacity weight) :
    weight.toBits.toNat % 2 ^ 31 = 0 ∨
      117 ≤ exponentField weight ∧ exponentField weight ≤ 134 := by
  obtain ⟨hfinite, hle, hmagnitude⟩ := h
  rcases unpack_of_isFinite hfinite with ⟨hzero, -⟩ | ⟨s, m, e, hm, hunpack, he⟩
  · exact .inl hzero
  have habs : weight.abs.toModel.unpack = .finite .positive m e hm := by
    rw [unpack_toModel_abs hfinite, hunpack]
    rfl
  have hlowest : referenceResolution.toModel.unpack =
      .finite .positive 0x83126f (-33) (by decide) := rfl
  have hhighest : ratedCapacity.toModel.unpack =
      .finite .positive 0xc80000 (-16) (by decide) := rfl
  refine .inr ⟨?_, ?_⟩
  · rcases hmagnitude with hzero | hge
    · change (weight.abs.toModel.unpack.compare (.zero .positive) == some .eq) = true at hzero
      rw [habs] at hzero
      cases hzero
    · have hweight : referenceResolution.toModel.unpack.le weight.abs.toModel.unpack = true :=
        of_decide_eq_true hge
      rw [hlowest, habs] at hweight
      have hexponent := exponent_le_of_le hweight
      omega
  · have hweight : ratedCapacity.toModel.unpack.lt weight.abs.toModel.unpack ≠ true :=
      fun hlt => hle (decide_eq_true hlt)
    rw [hhighest, habs] at hweight
    have hexponent := exponent_le_of_not_lt hweight
    omega

/-- A weight and the one read in the wrong order have the same four bytes. -/
theorem exists_bytes_of_isFinite {weight : Float32} (h : (swapped weight).isFinite) :
    ∃ a b c d : UInt8, weight.toBits.toNat = Bytes.value [a, b, c, d] ∧
      (swapped weight).toBits.toNat = Bytes.value [d, c, b, a] := by
  obtain ⟨a, b, c, d, hbytes⟩ := List.length_eq_four.1 (length_weightBytes weight)
  have hlt : weight.toBits.toNat < 256 ^ 4 := weight.toBits.toNat_lt
  refine ⟨a, b, c, d, ?_, ?_⟩
  · rw [← hbytes, weightBytes, Bytes.value_ofNat, Nat.mod_eq_of_lt hlt]
  · have hvalue : Bytes.value [d, c, b, a] < UInt32.size := by
      have := a.toNat_lt
      have := b.toNat_lt
      have := c.toNat_lt
      have := d.toNat_lt
      simp only [Bytes.value, UInt32.size]
      omega
    rw [swapped, bigEndianSingle, toBits_single_ofBits h, hbytes]
    exact UInt32.toNat_ofNat_of_lt hvalue

/-- The two highest bytes hold the exponent. -/
theorem value_exponent (a b c d : UInt8) :
    Bytes.value [a, b, c, d] / 2 ^ 23 % 2 ^ 8 = 2 * (d.toNat % 128) + c.toNat / 128 := by
  have ha := a.toNat_lt
  have hb := b.toNat_lt
  have hc := c.toNat_lt
  simp only [Bytes.value]
  omega

/-- Weights that are plausible in both orders are told by their lowest byte. -/
theorem swapped_eq_or_lowest {weight : Float32} (h : Plausible ratedCapacity weight)
    (hswapped : Plausible ratedCapacity (swapped weight)) :
    swapped weight = weight ∨
      58 ≤ weight.toBits.toNat % 128 ∧ weight.toBits.toNat % 128 ≤ 67 := by
  obtain ⟨a, b, c, d, hbits, hbits'⟩ := exists_bytes_of_isFinite hswapped.1
  have ha := a.toNat_lt
  have hb := b.toNat_lt
  have hc := c.toNat_lt
  have hd := d.toNat_lt
  have hlow : weight.toBits.toNat % 128 = a.toNat % 128 := by
    rw [hbits, Bytes.value]
    omega
  have hexponent := h.exponentField
  have hexponent' := hswapped.exponentField
  rw [exponentField, hbits, value_exponent] at hexponent
  rw [exponentField, hbits', value_exponent] at hexponent'
  rw [hlow]
  rcases hexponent' with hzero' | hfield
  · -- a zero in the wrong order has no bit but its sign, so neither has the weight
    have hsame : (swapped weight).toBits = weight.toBits := by
      apply UInt32.toNat_inj.1
      rw [hbits, hbits']
      simp only [Bytes.value] at hzero' hexponent ⊢
      have hlower : d.toNat = 0 ∧ c.toNat = 0 ∧ b.toNat = 0 := by omega
      omega
    rw [← single_ofBits_toBits (swapped weight), hsame, single_ofBits_toBits]
    exact .inl rfl
  · refine .inr ?_
    omega

namespace HeldCommand

/-- Under `auto`, a plausible weight that came least significant byte first is read exactly. One
that came most significant byte first is read exactly too, unless it is plausible in the wrong
order, in which it is then read. On the rated capacity this takes a lowest byte of 58 to 67 or of
186 to 195. -/
theorem decode_auto_of_plausible (held : HeldCommand) (counted : Bool) {capacity weight : Float32}
    (h : Plausible capacity weight) :
    held.decode .auto capacity (pointFrame counted (weightBytes weight)) =
      (.ok (), ⟨0x69, weight⟩) ∧
    held.decode .auto capacity (pointFrame counted (weightBytes weight).reverse) =
      (.ok (), ⟨0x69, if Plausible capacity (swapped weight) then swapped weight else weight⟩) ∧
    (capacity = ratedCapacity → Plausible capacity (swapped weight) →
      swapped weight = weight ∨
        58 ≤ weight.toBits.toNat % 128 ∧ weight.toBits.toNat % 128 ≤ 67) := by
  refine ⟨decode_pointFrame held (.weightBytes h) counted,
    decode_pointFrame held (.weightBytes_reverse h) counted, ?_⟩
  rintro rfl hswapped
  exact swapped_eq_or_lowest h hswapped

/-- Twenty kilograms are read exactly in both orders. -/
theorem decode_auto_of_twenty :
    Plausible ratedCapacity (Float32.ofBits 0x41a00000) ∧
    decode ⟨0, 0⟩ .auto ratedCapacity [0x69, 0x04, 0x00, 0x00, 0xa0, 0x41] =
      (.ok (), ⟨0x69, Float32.ofBits 0x41a00000⟩) ∧
    decode ⟨0, 0⟩ .auto ratedCapacity [0x69, 0x04, 0x41, 0xa0, 0x00, 0x00] =
      (.ok (), ⟨0x69, Float32.ofBits 0x41a00000⟩) := by
  have hweight : Plausible ratedCapacity (Float32.ofBits 0x41a00000) := by decide +kernel
  have hswapped : ¬Plausible ratedCapacity (swapped (Float32.ofBits 0x41a00000)) := by
    decide +kernel
  obtain ⟨hlittle, hbig, -⟩ := decode_auto_of_plausible ⟨0, 0⟩ true hweight
  rw [if_neg hswapped] at hbig
  exact ⟨hweight, hlittle, hbig⟩

/-- 210 grams that came most significant byte first are read as 34 grams. -/
theorem decode_auto_misread :
    Plausible ratedCapacity (Float32.ofBits 0x3e570a3d) ∧
    (weightBytes (Float32.ofBits 0x3e570a3d)).reverse = [0x3e, 0x57, 0x0a, 0x3d] ∧
    decode ⟨0, 0⟩ .auto ratedCapacity [0x69, 0x3e, 0x57, 0x0a, 0x3d] =
      (.ok (), ⟨0x69, Float32.ofBits 0x3d0a573e⟩) ∧
    Float32.ofBits 0x3d0a573e ≠ Float32.ofBits 0x3e570a3d := by
  decide +kernel

end HeldCommand

end LoadCell
