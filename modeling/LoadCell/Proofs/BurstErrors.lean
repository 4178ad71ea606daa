import LoadCell.Proofs.ShiftRegister
import LoadCell.Proofs.StoreLink

/-!
A burst of wrong bits is always noticed. All complete records lead the register of the checksum to
the same end, so two of them differ by bits that lead it from zero to zero. No bits within 32 in a
row do that, wherever they lie: in what the checksum covers, in the checksum, in the commit word.
-/
namespace LoadCell

/-- Flipped bits of a record, at least one, that lie within 32 in a row. -/
structure Burst (pattern : Bytes) : Prop where
  length : pattern.length = Record.size
  strikes : true ∈ pattern.bits
  within : ∃ start, ∀ i, pattern.bits[i]? = some true → start ≤ i ∧ i < start + 32

namespace Crc32c

/-- Bits that lie within 32 in a row do not lead the register from zero to zero. -/
theorem feedBits_burst_ne_zero {bs : List Bool} {start : ℕ}
    (hwithin : ∀ i, bs[i]? = some true → start ≤ i ∧ i < start + 32) (htrue : true ∈ bs) :
    feedBits 0 bs ≠ 0 := by
  have hfront : true ∉ bs.take start := by
    rw [List.mem_iff_getElem?]
    rintro ⟨i, hi⟩
    rw [List.getElem?_take] at hi
    split at hi
    next hlt => exact absurd (hwithin i hi).1 (by omega)
    next => cases hi
  have hback : true ∉ bs.drop (start + 32) := by
    rw [List.mem_iff_getElem?]
    rintro ⟨i, hi⟩
    rw [List.getElem?_drop] at hi
    exact absurd (hwithin _ hi).2 (by omega)
  have hparts : bs = bs.take start ++ ((bs.drop start).take 32 ++ bs.drop (start + 32)) := by
    rw [← List.drop_drop, List.take_append_drop, List.take_append_drop]
  have hlength : ((bs.drop start).take 32).length ≤ 32 := List.length_take_le ..
  intro hzero
  rw [hparts, feedBits_append, feedBits_append, feedBits_of_unset _ hback,
    feedBits_of_unset _ hfront, iterate_shiftBit_zero, feedBits_eq 0 hlength,
    UInt32.zero_xor] at hzero
  have hword := iterate_shiftBit_eq_zero (iterate_shiftBit_eq_zero hzero)
  have hmiddle := unset_of_word_eq_zero hlength hword
  rw [hparts, List.mem_append, List.mem_append] at htrue
  exact htrue.elim hfront (·.elim hmiddle hback)

end Crc32c

namespace Record

open Crc32c

theorem length_of_isCommitted {bs : Bytes} (h : isCommitted bs) : bs.length = size := by
  simp only [isCommitted, Bool.and_eq_true, beq_iff_eq] at h
  have hend := congrArg List.length h.1.1.2
  rw [List.length_drop, length_commitWord] at hend
  unfold size bodySize at *
  omega

/-- Where the register is after any complete record: the checksum that it has taken in cancels what
came before, and the commit word is always the same. -/
theorem feedBits_of_isCommitted {bs : Bytes} (h : isCommitted bs) :
    feedBits 0xFFFFFFFF bs.bits = feedBits (shiftBit^[32] 0xFFFFFFFF) commitWord.bits := by
  have hsize := length_of_isCommitted h
  simp only [isCommitted, Bool.and_eq_true, beq_iff_eq] at h
  obtain ⟨⟨⟨-, hcommit⟩, hcrc⟩, -⟩ := h
  have hparts : bs = bs.take checkedSize ++ (bs.slice checkedSize 4 ++ bs.drop bodySize) := by
    rw [Bytes.slice, show bodySize = checkedSize + 4 from rfl, ← List.drop_drop,
      List.take_append_drop, List.take_append_drop]
  have hlength : (bs.slice checkedSize 4).bits.length = 32 := by
    rw [Bytes.length_bits, Bytes.length_slice (by rw [hsize]; decide)]
  have hchecked : feedBits 0xFFFFFFFF (Bytes.bits (bs.take checkedSize)) =
      wordAt bs checkedSize ^^^ 0xFFFFFFFF := by
    rw [hcrc, checksum, foldl_feed, UInt32.xor_assoc, UInt32.xor_self, UInt32.xor_zero]
  have hfield : word (bs.slice checkedSize 4).bits = wordAt bs checkedSize := word_value _
  calc feedBits 0xFFFFFFFF bs.bits
      = feedBits (feedBits (wordAt bs checkedSize ^^^ 0xFFFFFFFF) (bs.slice checkedSize 4).bits)
          commitWord.bits := by
        conv_lhs => rw [hparts]
        rw [Bytes.bits_append, Bytes.bits_append, feedBits_append, feedBits_append, hchecked,
          hcommit]
    _ = feedBits (shiftBit^[32] 0xFFFFFFFF) commitWord.bits := by
        rw [feedBits_eq _ hlength.le, hlength, hfield, UInt32.xor_comm (wordAt _ _),
          UInt32.xor_assoc, UInt32.xor_self, UInt32.xor_zero]

/-- A complete record that a burst hits is no record any more. -/
theorem not_isCommitted_of_burst {bs pattern : Bytes} (h : isCommitted bs) (hburst : Burst pattern) :
    ¬isCommitted (bs.xor pattern) := by
  intro hstruck
  obtain ⟨start, hwithin⟩ := hburst.within
  have hlength : bs.length = pattern.length := (length_of_isCommitted h).trans hburst.length.symm
  have hsame := (feedBits_of_isCommitted hstruck).trans (feedBits_of_isCommitted h).symm
  have hdifference : feedBits 0xFFFFFFFF (bs.xor pattern).bits =
      feedBits 0xFFFFFFFF bs.bits ^^^ feedBits 0 pattern.bits := by
    rw [Bytes.bits_xor hlength, ← feedBits_xor _ _ (by simp [hlength]), UInt32.xor_zero]
  apply feedBits_burst_ne_zero hwithin hburst.strikes
  exact xor_left_eq_self_iff.1 (hdifference.symm.trans hsame)

end Record

namespace NorFlash

/-- What an overlay changes, byte by byte. -/
theorem overlay_patched {f f' : NorFlash} {offset : ℕ} {bytes : Bytes}
    {g : UInt8 → UInt8 → UInt8} (h : f.overlay offset bytes g = some f') :
    Patched f f' offset bytes.length fun i => g (bytes.getD i 0) := by
  have hfold (bytes : Bytes) (f : NorFlash) (k : ℕ) :
      Patched f ((bytes.zipIdx k).foldl (fun f b => f.change (offset + b.2) (g b.1)) f)
        (offset + k) bytes.length fun i => g (bytes.getD i 0) := by
    induction bytes generalizing f k with
    | nil => exact .of_cells rfl rfl _ _
    | cons b rest ih => exact .cons rfl rfl (ih (f.change (offset + k) (g b)) (k + 1))
  unfold overlay at h
  split at h
  next => exact Option.some.inj h ▸ hfold bytes f 0
  next => cases h

/-- Flipping bits of a slot's record leaves the other slot alone. -/
theorem flip_slot {f : NorFlash} (hf : f.TwoSlots) (s : Slot) {pattern : Bytes}
    (hlength : pattern.length = Record.size) :
    ∃ f', f.overlay (f.slotStart s) pattern (fun b old => old ^^^ b) = some f' ∧ f'.TwoSlots ∧
      f'.sectorSize = f.sectorSize ∧ f'.slotBytes s = (f.slotBytes s).xor pattern ∧
      ∀ t, t ≠ s → f'.slotBytes t = f.slotBytes t := by
  have hend := hf.slot_le s
  have hsector := hf.sector
  have hrange : f.inRange (f.slotStart s) pattern.length := by
    simp only [inRange, decide_eq_true_eq]
    omega
  obtain ⟨f', hflip⟩ : ∃ f', f.overlay (f.slotStart s) pattern (fun b old => old ^^^ b) = some f' :=
    ⟨_, if_pos hrange⟩
  have hpatch := overlay_patched hflip
  refine ⟨f', hflip, hpatch.twoSlots hf, hpatch.sectorSize, ?_, ?_⟩
  · apply List.ext_getElem?
    intro i
    rw [hpatch.getElem?_slotBytes, Bytes.xor, List.getElem?_zipWith]
    by_cases hi : i < pattern.length
    · rw [if_pos (by omega), Nat.add_sub_cancel_left, List.getD_eq_getElem?_getD,
        List.getElem?_eq_getElem hi]
      cases (f.slotBytes s)[i]? <;> rfl
    · rw [if_neg (by omega), List.getElem?_eq_none (by rw [hf.length_slotBytes]; omega)]
  · intro t ht
    exact hpatch.slotBytes_other hf ht le_rfl (by omega)

end NorFlash

namespace Store

open NorFlash

/-- No burst leaves a complete record complete. If one hits the newest record, the other slot's record
is loaded. -/
theorem load_after_burst {pattern : Bytes} (hburst : Burst pattern) :
    (∀ bytes, Record.isCommitted bytes → ¬Record.isCommitted (bytes.xor pattern)) ∧
    ∀ {sectorSize : UInt32} {r : Rig FaultyFlash} {hit : Slot × Record} {other : Slot}
      {kept : Record}, SoundFor sectorSize r.flash → newest r.flash.nor.record = some hit →
      other ≠ hit.1 → r.flash.nor.record other = some kept →
      ∃ nor, r.flash.nor.overlay (r.flash.nor.slotStart hit.1) pattern (fun b old => old ^^^ b) =
          some nor ∧
        (load (quiet sectorSize) { r with flash := { r.flash with nor := nor } }).1 =
          some kept.mapping := by
  refine ⟨fun bytes h => Record.not_isCommitted_of_burst h hburst, ?_⟩
  intro sectorSize r hit other kept hflash hnewest hother hkept
  obtain ⟨nor, hflip, htwo, hsector, hstruck, hothers⟩ :=
    flip_slot hflash.1.twoSlots hit.1 hburst.length
  refine ⟨nor, hflip, ?_⟩
  have hlost : nor.record hit.1 = none := by
    have hcommitted : Record.isCommitted (r.flash.nor.slotBytes hit.1) := by
      have hrecord : Record.parse? (r.flash.nor.slotBytes hit.1) = some hit.2 :=
        newest_eq_some hnewest
      unfold Record.parse? at hrecord
      split at hrecord
      next h => exact h
      next => cases hrecord
    show Record.parse? (nor.slotBytes hit.1) = none
    rw [hstruck, Record.parse?, if_neg (Record.not_isCommitted_of_burst hcommitted hburst)]
  have hleft : nor.record other = some kept :=
    (congrArg Record.parse? (hothers other hother)).trans hkept
  have hnow : newest nor.record = some (other, kept) := by
    apply newest_of_single hleft
    intro t ht
    have hvalue := Fin.val_ne_of_ne ht
    have hvalue' := Fin.val_ne_of_ne hother
    obtain rfl : t = hit.1 := Fin.ext (by omega)
    exact hlost
  have hsound : SoundFor sectorSize { r.flash with nor := nor } :=
    ⟨⟨htwo, hflash.1.unstuck, hflash.1.reads⟩, hsector.trans hflash.2⟩
  obtain ⟨f, hload, -⟩ := load_run slotReads_quiet
    { r with flash := { r.flash with nor := nor } } hsound
  rw [hload]
  show (newest nor.record).map _ = _
  rw [hnow]
  rfl

/-- A flash with two records, the newest in the second slot. -/
def twiceSavedRig : Rig FaultyFlash where
  flash :=
    { nor :=
        { sectorSize := 32
          cells := (Record.encode ⟨1, ⟨1000, 0.001⟩⟩ ++ Record.encode ⟨2, ⟨2000, 0.001⟩⟩).toArray } }

/-- 32 bits in a row, from the checksum into the commit word. -/
def straddlingBurst : Bytes := List.replicate 26 0 ++ [0x80, 0xff, 0xff, 0xff, 0x7f, 0]

theorem load_after_straddlingBurst :
    Burst straddlingBurst ∧ SoundFor 32 twiceSavedRig.flash ∧
      (newest twiceSavedRig.flash.nor.record).map (·.2.mapping) = some ⟨2000, 0.001⟩ ∧
      ∃ nor, twiceSavedRig.flash.nor.overlay 32 straddlingBurst (fun b old => old ^^^ b) =
          some nor ∧
        (load (quiet 32)
          { twiceSavedRig with flash := { twiceSavedRig.flash with nor := nor } }).1 =
            some ⟨1000, 0.001⟩ := by
  have hburst : Burst straddlingBurst := by
    refine ⟨by decide, by decide +kernel, 215, ?_⟩
    have hbits : ∀ i < 256, straddlingBurst.bits[i]? = some true → 215 ≤ i ∧ i < 215 + 32 := by
      decide +kernel
    intro i hi
    have hlt := (List.getElem?_eq_some_iff.1 hi).1
    rw [Bytes.length_bits] at hlt
    exact hbits i hlt hi
  have hflash : SoundFor 32 twiceSavedRig.flash := by
    refine ⟨⟨⟨?_, ?_, ?_⟩, rfl, rfl⟩, rfl⟩ <;> decide +kernel
  have hnewest : newest twiceSavedRig.flash.nor.record = some (1, ⟨2, ⟨2000, 0.001⟩⟩) := by
    decide +kernel
  have hkept : twiceSavedRig.flash.nor.record 0 = some ⟨1, ⟨1000, 0.001⟩⟩ := by decide +kernel
  have hplace : twiceSavedRig.flash.nor.slotStart 1 = 32 := by decide +kernel
  generalize twiceSavedRig = r at *
  refine ⟨hburst, hflash, by rw [hnewest]; rfl, ?_⟩
  rw [← hplace]
  exact (load_after_burst hburst).2 hflash hnewest (by decide) hkept

end Store

end LoadCell
