import LoadCell.Proofs.Rig

/-!
How a commit ends. Writing a record asks the medium for five calls and ends at the first that
fails; a commit scans if it has to and then writes one record into the slot that is to spare.
-/
namespace LoadCell.Store

variable {φ : Type} (medium : Medium (Rig φ)) (record : Record) (slot : Slot) (r : Rig φ)

/-- A slot that begins below the end of 32-bit addresses begins where its number says. -/
theorem toNat_offset (h : slot.val * medium.sectorSize.toNat < 2 ^ 32) :
    (offset medium slot).toNat = slot.val * medium.sectorSize.toNat := by
  have hslot : slot.val % 2 ^ 32 = slot.val := Nat.mod_eq_of_lt (by omega)
  rw [offset, UInt32.toNat_mul, UInt32.toNat_ofNat', hslot, Nat.mod_eq_of_lt h]

/-- The commit word stands behind the body. -/
theorem toNat_commitOffset (h : slot.val * medium.sectorSize.toNat + Record.size ≤ 2 ^ 32) :
    (offset medium slot + UInt32.ofNat Record.bodySize).toNat =
      slot.val * medium.sectorSize.toNat + Record.bodySize := by
  unfold Record.size at h
  rw [UInt32.toNat_add, toNat_offset medium slot (by omega), UInt32.toNat_ofNat', Record.bodySize]
  omega

@[simp] theorem reportFault_run (what : String) :
    reportFault what slot r = (.fault, r) := by
  simp [reportFault]

/-- The slot is erased, and the body of the record was written and read back. -/
inductive BodyWritten : Rig φ → Prop
  | intro {r₁ r₂ r₃ bytes}
      (erase : medium.erase (offset medium slot) medium.sectorSize.toNat r = (true, r₁))
      (write : medium.write (offset medium slot) record.body r₁ = (true, r₂))
      (look : medium.read (offset medium slot) Record.size r₂ = (bytes, r₃))
      (same : bytes.map (·.take Record.bodySize) = some record.body) :
      BodyWritten r₃

/-- The ways in which writing a record ends, each with the calls that led there. -/
inductive WriteEnd : Except StoreError Unit → Rig φ → Prop
  | notErased {r₁}
      (erase : medium.erase (offset medium slot) medium.sectorSize.toNat r = (false, r₁)) :
      WriteEnd (.error .fault) r₁
  | notWritten {r₁ r₂}
      (erase : medium.erase (offset medium slot) medium.sectorSize.toNat r = (true, r₁))
      (write : medium.write (offset medium slot) record.body r₁ = (false, r₂)) :
      WriteEnd (.error .fault) r₂
  | notVerified {r₁ r₂ r₃ bytes}
      (erase : medium.erase (offset medium slot) medium.sectorSize.toNat r = (true, r₁))
      (write : medium.write (offset medium slot) record.body r₁ = (true, r₂))
      (look : medium.read (offset medium slot) Record.size r₂ = (bytes, r₃)) :
      WriteEnd (.error .fault) r₃
  | notClosed {r₃ r₄} (body : BodyWritten medium record slot r r₃)
      (close : medium.write (offset medium slot + UInt32.ofNat Record.bodySize)
        Record.commitWord r₃ = (false, r₄)) :
      WriteEnd (.error .fault) r₄
  | notConfirmed {r₃ r₄ r₅ found} (body : BodyWritten medium record slot r r₃)
      (close : medium.write (offset medium slot + UInt32.ofNat Record.bodySize)
        Record.commitWord r₃ = (true, r₄))
      (confirm : readSlot medium slot r₄ = (found, r₅))
      (other : found.map (·.generation) ≠ some record.generation) :
      WriteEnd (.error .fault) r₅
  | done {r₃ r₄ r₅ found} (body : BodyWritten medium record slot r r₃)
      (close : medium.write (offset medium slot + UInt32.ofNat Record.bodySize)
        Record.commitWord r₃ = (true, r₄))
      (confirm : readSlot medium slot r₄ = (some found, r₅)) :
      WriteEnd (.ok ()) r₅

theorem writeRecord_ends : WriteEnd medium record slot r
    (writeRecord medium record slot r).1 (writeRecord medium record slot r).2 := by
  unfold writeRecord
  rcases he : medium.erase (offset medium slot) medium.sectorSize.toNat r with ⟨_ | _, r₁⟩
  · simpa [he] using WriteEnd.notErased he
  rcases hw : medium.write (offset medium slot) record.body r₁ with ⟨_ | _, r₂⟩
  · simpa [he, hw] using WriteEnd.notWritten he hw
  rcases hl : medium.read (offset medium slot) Record.size r₂ with ⟨bytes, r₃⟩
  simp only [bind_run, he, hw, hl, Bool.not_true, Bool.false_eq_true, ↓reduceIte]
  by_cases hsame : bytes.map (·.take Record.bodySize) = some record.body
  · have hbody : BodyWritten medium record slot r r₃ := .intro he hw hl hsame
    rw [if_neg (not_not_intro hsame)]
    rcases hc : medium.write (offset medium slot + UInt32.ofNat Record.bodySize)
      Record.commitWord r₃ with ⟨_ | _, r₄⟩
    · simpa [hc] using WriteEnd.notClosed hbody hc
    rcases hf : readSlot medium slot r₄ with ⟨found, r₅⟩
    simp only [bind_run, hc, hf, Bool.not_true, Bool.false_eq_true, ↓reduceIte]
    by_cases hgood : found.map (·.generation) = some record.generation
    · obtain ⟨found, rfl, -⟩ := Option.map_eq_some_iff.1 hgood
      rw [if_neg (not_not_intro hgood)]
      exact .done hbody hc hf
    · rw [if_pos hgood, bind_run, reportFault_run]
      exact .notConfirmed hbody hc hf hgood
  · rw [if_pos hsame, bind_run, reportFault_run]
    exact .notVerified he hw hl

variable {r}

/-- A mapping that cannot convert is refused before anything is read or written. -/
theorem commit_invalid {mapping : Mapping} (h : ¬mapping.isValid) :
    commit medium mapping r = (.error .invalid, r) := by
  simp [commit, h]

/-- What the store remembers after a commit that worked. -/
def advanced (store : Store) : Store :=
  { store with active := some (spareSlot store.active), generation := store.generation + 1 }

/-- A commit that is not refused scans if it has to, writes its record into the spare slot, and
remembers it if that has worked. -/
theorem commit_eq {mapping : Mapping} (hvalid : mapping.isValid) {scanned : Rig φ}
    (hscan : ensureScanned medium r = ((), scanned)) {sectors : UInt32}
    (hsectors : medium.sectorCount scanned = (sectors, scanned)) (hle : slotCount ≤ sectors) :
    let record : Record := ⟨scanned.store.generation + 1, mapping⟩
    let slot := spareSlot scanned.store.active
    let written := writeRecord medium record slot scanned
    commit medium mapping r = (written.1, match written.1 with
      | .ok () => { written.2 with store :=
          { written.2.store with active := some slot, generation := record.generation } }
      | .error _ => written.2) := by
  simp only [commit, hvalid, Bool.not_true, Bool.false_eq_true, ↓reduceIte, bind_run, hscan,
    hsectors, UInt32.not_lt.2 hle, Rig.getPart_store, debug_run]
  rcases writeRecord medium ⟨scanned.store.generation + 1, mapping⟩
    (spareSlot scanned.store.active) scanned with ⟨_ | _, r'⟩
  · rfl
  · simp

end LoadCell.Store
