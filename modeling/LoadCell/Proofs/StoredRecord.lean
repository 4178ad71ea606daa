import LoadCell.Proofs.FloatBits
import LoadCell.Store.Record

/-!
What the bytes of a record say. A complete record reads back as the record that was written; bytes
that miss the mark at the front or any byte of the commit word are no record at all.
-/
namespace LoadCell

namespace Bytes

theorem value_ofNat (n w : Nat) : value (ofNat n w) = w % 256 ^ n := by
  induction n generalizing w with
  | zero => simp [ofNat, value, Nat.mod_one]
  | succ n ih =>
    have hlow : (UInt8.ofNat w).toNat = w % 256 := by simp
    rw [ofNat, value, ih, hlow, Nat.pow_succ, Nat.mul_comm (256 ^ n), Nat.mod_mul]

theorem length_slice {bs : Bytes} {start n : Nat} (h : start + n ≤ bs.length) :
    (bs.slice start n).length = n := by
  simp only [slice, List.length_take, List.length_drop]
  omega

theorem getElem?_slice (bs : Bytes) (start n i : Nat) :
    (bs.slice start n)[i]? = if i < n then bs[start + i]? else none := by
  rw [slice, List.getElem?_take, List.getElem?_drop]

theorem slice_append_left {front : Bytes} (rest : Bytes) {start n : Nat}
    (h : start + n ≤ front.length) : (front ++ rest).slice start n = front.slice start n := by
  rw [slice, slice, List.drop_append_of_le_length (by omega),
    List.take_append_of_le_length (by simp only [List.length_drop]; omega)]

theorem slice_append_right {front : Bytes} (rest : Bytes) {start n : Nat}
    (h : front.length ≤ start) :
    (front ++ rest).slice start n = rest.slice (start - front.length) n := by
  rw [slice, slice, List.drop_append, List.drop_eq_nil_of_le h, List.nil_append]

end Bytes

namespace Record

open Bytes

@[simp] theorem length_encode (r : Record) : r.encode.length = size := by
  simp [encode, RecordFields.encode, RecordFields.encodeWith, RecordFields.checked, length_ofNat,
    size]

@[simp] theorem length_body (r : Record) : r.body.length = bodySize := by
  simp [body, size, bodySize]

@[simp] theorem length_commitWord : commitWord.length = size - bodySize := rfl

def checkedBytes (r : Record) : Bytes := r.fields.checked

@[simp] theorem length_checkedBytes (r : Record) : r.checkedBytes.length = checkedSize := by
  simp [checkedBytes, RecordFields.checked, length_ofNat, checkedSize]

theorem checkedBytes_layout (r : Record) : r.checkedBytes =
    header ++ (ofNat 4 r.generation.toNat ++ (ofNat 4 r.mapping.zeroRaw.toUInt32.toNat ++
      ofNat 8 r.mapping.gradient.toBits.toNat)) := by
  simp [RecordFields.checked, fields, header, checkedBytes, size]

/-- The checksum of a record as it lies on the medium. -/
def crcBytes (r : Record) : Bytes := ofNat 4 (Crc32c.checksum r.checkedBytes).toNat

theorem body_layout (r : Record) : r.body = r.checkedBytes ++ r.crcBytes := by
  have hlen : (r.checkedBytes ++ r.crcBytes).length = bodySize := by
    simp [crcBytes, length_ofNat, checkedSize, bodySize]
  have hencode : r.encode = (r.checkedBytes ++ r.crcBytes) ++ commitWord := rfl
  rw [body, hencode, ← hlen, List.take_left]

theorem encode_layout (r : Record) : r.encode = r.body ++ commitWord := by
  rw [body_layout]
  rfl

theorem wordAt_ofNat {bs : Bytes} {start : Nat} (w : UInt32)
    (h : bs.slice start 4 = ofNat 4 w.toNat) : wordAt bs start = w := by
  have hlt : w.toNat < 256 ^ 4 := w.toNat_lt
  rw [wordAt, h, value_ofNat, Nat.mod_eq_of_lt hlt, UInt32.ofNat_toNat]

private theorem contents_eq {bs : Bytes} {r : Record} (rest : Bytes)
    (h : bs = r.checkedBytes ++ rest) : contents bs = r := by
  have hslice (start n : Nat) (hle : start + n ≤ checkedSize) :
      bs.slice start n = r.checkedBytes.slice start n := by
    rw [h, slice_append_left rest (by simpa using hle)]
  have hgeneration : bs.slice 8 4 = ofNat 4 r.generation.toNat := by
    rw [hslice 8 4 (by decide), checkedBytes_layout]
    rfl
  have hzero : bs.slice 12 4 = ofNat 4 r.mapping.zeroRaw.toUInt32.toNat := by
    rw [hslice 12 4 (by decide), checkedBytes_layout]
    rfl
  have hgradient : bs.slice 16 8 = ofNat 8 r.mapping.gradient.toBits.toNat := by
    rw [hslice 16 8 (by decide), checkedBytes_layout]
    rfl
  have hlt : r.mapping.gradient.toBits.toNat < 256 ^ 8 := r.mapping.gradient.toBits.toNat_lt
  unfold contents
  rw [wordAt_ofNat _ hgeneration, wordAt_ofNat _ hzero, hgradient, value_ofNat,
    Nat.mod_eq_of_lt hlt, UInt64.ofNat_toNat, FloatBits.ofBits_toBits, Int32.toInt32_toUInt32]

/-- A complete record with a mapping that can convert reads back as it was written. -/
theorem parse?_encode {r : Record} (h : r.mapping.isValid) : parse? r.encode = some r := by
  have hlayout : r.encode = r.checkedBytes ++ (r.crcBytes ++ commitWord) := by
    rw [encode_layout, body_layout, List.append_assoc]
  have hcontents := contents_eq _ hlayout
  have hheader : r.encode.take header.length = header := by
    rw [hlayout, checkedBytes_layout]
    rfl
  have hcommit : r.encode.drop bodySize = commitWord := by
    rw [encode_layout, ← length_body r, List.drop_left]
  have hchecked : r.encode.take checkedSize = r.checkedBytes := by
    rw [hlayout, ← length_checkedBytes r, List.take_left]
  have hcrc : wordAt r.encode checkedSize = Crc32c.checksum r.checkedBytes := by
    apply wordAt_ofNat
    rw [hlayout, slice_append_right _ (by simp), length_checkedBytes, Nat.sub_self]
    exact slice_append_left _ (by simp [crcBytes, length_ofNat])
  unfold parse? isCommitted
  rw [hcontents, hheader, hcommit, hchecked, hcrc, h]
  simp

/-- What reads as a record has a mapping that can convert. -/
theorem isValid_of_parse? {bs : Bytes} {r : Record} (h : parse? bs = some r) :
    r.mapping.isValid := by
  unfold parse? isCommitted at h
  split at h
  next hc =>
    simp only [Bool.and_eq_true] at hc
    exact Option.some.inj h ▸ hc.2
  next => simp at h

/-- What reads as a record and has the body of one is that record. -/
theorem eq_encode_of_body {bs : Bytes} {r found : Record} (h : parse? bs = some found)
    (hbody : bs.take bodySize = r.body) : bs = r.encode := by
  unfold parse? isCommitted at h
  split at h
  next hc =>
    simp only [Bool.and_eq_true, beq_iff_eq] at hc
    rw [encode_layout, ← hbody, ← hc.1.1.2, List.take_append_drop]
  next => simp at h

/-- An erased byte at the front leaves no record. -/
theorem parse?_erased_front {bs : Bytes} (h : bs[0]? = some 0xff) : parse? bs = none := by
  have hhead : bs.take header.length ≠ header := by
    intro heq
    have hfirst : header[0]? = some 0xff := by
      rw [← heq, List.getElem?_take_of_lt (by decide), h]
    exact absurd hfirst (by decide)
  simp [parse?, isCommitted, hhead]

/-- An erased byte at the end leaves no record: the commit word is not complete. -/
theorem parse?_erased_end {bs : Bytes} (h : bs[size - 1]? = some 0xff) : parse? bs = none := by
  have hend : bs.drop bodySize ≠ commitWord := by
    intro heq
    have hlast : commitWord[size - 1 - bodySize]? = some 0xff := by
      rw [← heq, List.getElem?_drop, ← h]
      rfl
    exact absurd hlast (by decide)
  simp [parse?, isCommitted, hend]

end Record

end LoadCell
