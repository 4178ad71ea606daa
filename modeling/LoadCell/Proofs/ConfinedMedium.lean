import LoadCell.Proofs.RecordWrite
import LoadCell.Proofs.StoreScan
import LoadCell.Proofs.StoredRecord

/-!
The store on a medium that cannot be trusted. A read gives the stored bytes or fails; an erase and
a write stay in their range, and may do anything there and report what they like. Even so a commit
touches one slot only, and what it acknowledges is in that slot.
-/
namespace LoadCell

namespace Bytes

/-- The byte strings are equally long and differ at most in the `length` bytes from `start` on. -/
structure SameOutside (old new : Bytes) (start length : Nat) : Prop where
  length_eq : new.length = old.length
  byte : ∀ i, i < start ∨ start + length ≤ i → new[i]? = old[i]?

theorem SameOutside.slice_eq {old new : Bytes} {start length : Nat}
    (h : SameOutside old new start length) {place n : Nat}
    (hapart : place + n ≤ start ∨ start + length ≤ place) :
    new.slice place n = old.slice place n := by
  apply List.ext_getElem?
  intro i
  rw [getElem?_slice, getElem?_slice]
  by_cases hi : i < n
  · rw [if_pos hi, if_pos hi, h.byte _ (by omega)]
  · rw [if_neg hi, if_neg hi]

theorem take_slice (bs : Bytes) (start : Nat) {k n : Nat} (h : k ≤ n) :
    (bs.slice start n).take k = bs.slice start k := by
  rw [slice, slice, List.take_take, Nat.min_eq_left h]

end Bytes

variable {φ : Type}

/-- A medium of two sectors or more that keeps to the ranges it is given; `cells` are the bytes
that a flash holds. -/
structure Confined (medium : Medium (Rig φ)) (cells : φ → Bytes) (sound : φ → Prop) : Prop where
  sector : Record.size ≤ medium.sectorSize.toNat
  sectors : ∀ r : Rig φ, sound r.flash → ∃ n, medium.sectorCount r = (n, r) ∧ Store.slotCount ≤ n
  size : ∀ f, sound f → 2 * medium.sectorSize.toNat ≤ (cells f).length
  addressed : ∀ f, sound f → (cells f).length ≤ 2 ^ 32
  read : ∀ (r : Rig φ) (offset : UInt32) (length : Nat), sound r.flash →
    offset.toNat + length ≤ (cells r.flash).length → ∃ answer f,
      medium.read offset length r = (answer, { r with flash := f }) ∧ sound f ∧
      cells f = cells r.flash ∧
      ∀ bytes, answer = some bytes → bytes = (cells r.flash).slice offset.toNat length
  erase : ∀ (r : Rig φ) (offset : UInt32) (length : Nat), sound r.flash → ∃ ok f,
    medium.erase offset length r = (ok, { r with flash := f }) ∧ sound f ∧
      (cells r.flash).SameOutside (cells f) offset.toNat length
  write : ∀ (r : Rig φ) (offset : UInt32) (bytes : Bytes), sound r.flash → ∃ ok f,
    medium.write offset bytes r = (ok, { r with flash := f }) ∧ sound f ∧
      (cells r.flash).SameOutside (cells f) offset.toNat bytes.length

/-- Reads inside the flash never fail. -/
def Readable (medium : Medium (Rig φ)) (cells : φ → Bytes) (sound : φ → Prop) : Prop :=
  ∀ (r : Rig φ) (offset : UInt32) (length : Nat), sound r.flash →
    offset.toNat + length ≤ (cells r.flash).length → (medium.read offset length r).1 ≠ none

namespace Confined

variable {medium : Medium (Rig φ)} {cells : φ → Bytes} {sound : φ → Prop}

/-- Where a slot begins. -/
def start (medium : Medium (Rig φ)) (s : Slot) : Nat := s.val * medium.sectorSize.toNat

/-- The bytes where a slot has its record. -/
def slots (medium : Medium (Rig φ)) (cells : φ → Bytes) (f : φ) (s : Slot) : Bytes :=
  (cells f).slice (start medium s) Record.size

/-- The records in the slots, as far as they are valid. -/
def records (medium : Medium (Rig φ)) (cells : φ → Bytes) (f : φ) : Slot → Option Record :=
  recordsOf (slots medium cells f)

/-- A step that stays inside one slot. -/
structure Within (medium : Medium (Rig φ)) (cells : φ → Bytes) (sound : φ → Prop) (f f' : φ)
    (t : Slot) : Prop where
  sound : sound f'
  others : ∀ s, s ≠ t → slots medium cells f' s = slots medium cells f s

theorem Within.trans {f f' f'' : φ} {t : Slot} (h : Within medium cells sound f f' t)
    (h' : Within medium cells sound f' f'' t) : Within medium cells sound f f'' t :=
  ⟨h'.sound, fun s hs => (h'.others s hs).trans (h.others s hs)⟩

theorem slots_congr {f f' : φ} (hcells : cells f' = cells f) :
    slots medium cells f' = slots medium cells f := by
  unfold slots
  rw [hcells]

theorem Within.of_cells {f f' : φ} (hf' : sound f') (hcells : cells f' = cells f) (t : Slot) :
    Within medium cells sound f f' t :=
  ⟨hf', fun s _ => congrFun (slots_congr hcells) s⟩

theorem Within.records_other {f f' : φ} {s t : Slot} (h : Within medium cells sound f f' t)
    (hs : s ≠ t) : records medium cells f' s = records medium cells f s :=
  congrArg Record.parse? (h.others s hs)

variable (h : Confined medium cells sound) {r r' : Rig φ}
include h

theorem start_le {f : φ} (hf : sound f) (s : Slot) :
    start medium s + medium.sectorSize.toNat ≤ (cells f).length :=
  Nat.le_trans (slot_end_le _ s) (h.size f hf)

theorem record_end_le {f : φ} (hf : sound f) (s : Slot) :
    start medium s + Record.size ≤ (cells f).length :=
  Nat.le_trans (Nat.add_le_add_left h.sector _) (h.start_le hf s)

theorem offset_toNat {f : φ} (hf : sound f) (s : Slot) :
    (Store.offset medium s).toNat = start medium s := by
  apply Store.toNat_offset
  have hend := h.record_end_le hf s
  have haddressed := h.addressed f hf
  unfold start Record.size at hend
  omega

/-- What stays in the sector of a slot leaves the other slot alone. -/
theorem within_of_same {f f' : φ} (hf' : sound f') {t : Slot} {place length : Nat}
    (hsame : (cells f).SameOutside (cells f') place length) (hplace : start medium t ≤ place)
    (hend : place + length ≤ start medium t + medium.sectorSize.toNat) :
    Within medium cells sound f f' t := by
  refine ⟨hf', fun s hs => hsame.slice_eq ?_⟩
  have hsector := h.sector
  have hapart := slots_apart medium.sectorSize.toNat hs
  unfold start at *
  omega

theorem erase_slot (hr : sound r.flash) {t : Slot} {ok : Bool}
    (herase : medium.erase (Store.offset medium t) medium.sectorSize.toNat r = (ok, r')) :
    ∃ f, r' = { r with flash := f } ∧ Within medium cells sound r.flash f t := by
  obtain ⟨_, f, hrun, hf, hsame⟩ := h.erase r (Store.offset medium t) medium.sectorSize.toNat hr
  rw [h.offset_toNat hr] at hsame
  cases herase.symm.trans hrun
  exact ⟨f, rfl, h.within_of_same hf hsame (Nat.le_refl _) (Nat.le_refl _)⟩

theorem write_slot (hr : sound r.flash) {t : Slot} (skip : Nat) {offset : UInt32} {bytes : Bytes}
    {ok : Bool} (hwrite : medium.write offset bytes r = (ok, r'))
    (hoffset : offset.toNat = start medium t + skip)
    (hfit : skip + bytes.length ≤ Record.size) :
    ∃ f, r' = { r with flash := f } ∧ Within medium cells sound r.flash f t ∧
      (cells r.flash).SameOutside (cells f) (start medium t + skip) bytes.length := by
  obtain ⟨_, f, hrun, hf, hsame⟩ := h.write r offset bytes hr
  rw [hoffset] at hsame
  have hsector := h.sector
  cases hwrite.symm.trans hrun
  exact ⟨f, rfl, h.within_of_same hf hsame (Nat.le_add_right _ _) (by omega), hsame⟩

theorem slot_inRange {f : φ} (hf : sound f) (t : Slot) :
    (Store.offset medium t).toNat + Record.size ≤ (cells f).length :=
  h.offset_toNat hf t ▸ h.record_end_le hf t

theorem read_slot (hr : sound r.flash) {t : Slot} {answer : Option Bytes}
    (hread : medium.read (Store.offset medium t) Record.size r = (answer, r')) :
    ∃ f, r' = { r with flash := f } ∧ sound f ∧ cells f = cells r.flash ∧
      ∀ bytes, answer = some bytes → bytes = slots medium cells r.flash t := by
  obtain ⟨_, f, hrun, hf, hcells, hbytes⟩ := h.read r _ _ hr (h.slot_inRange hr t)
  rw [h.offset_toNat hr] at hbytes
  cases hread.symm.trans hrun
  exact ⟨f, rfl, hf, hcells, hbytes⟩

/-- Looking at a slot shows its record, or nothing if the read fails. -/
theorem slotLooks : SlotLooks medium cells
    (fun bytes s found =>
      found = none ∨ found = Record.parse? (bytes.slice (start medium s) Record.size)) sound where
  sectors := h.sectors
  look r t hr := by
    rcases hread : medium.read (Store.offset medium t) Record.size r with ⟨answer, r'⟩
    obtain ⟨f, rfl, hf, hcells, hbytes⟩ := h.read_slot hr hread
    cases answer with
    | none => exact ⟨none, f, by simp [Store.readSlot, hread], hf, hcells, .inl rfl⟩
    | some bytes =>
      refine ⟨Record.parse? bytes, f, by simp [Store.readSlot, hread], hf, hcells, .inr ?_⟩
      rw [hbytes bytes rfl]
      rfl

/-- Where reads never fail, the slots can be read. -/
theorem slotReads (hreads : Readable medium cells sound) :
    SlotReads medium (slots medium cells) sound where
  sectors := h.sectors
  read r t hr := by
    have hsome := hreads r _ _ hr (h.slot_inRange hr t)
    rcases hread : medium.read (Store.offset medium t) Record.size r with ⟨answer, r'⟩
    obtain ⟨f, rfl, hf, hcells, hbytes⟩ := h.read_slot hr hread
    rw [hread] at hsome
    obtain ⟨bytes, rfl⟩ := Option.ne_none_iff_exists'.1 hsome
    exact ⟨f, by rw [hbytes bytes rfl], hf, slots_congr hcells⟩

/-- Erasing a slot and writing the body of a record into it touch no other slot. -/
theorem write_body (hr : sound r.flash) {record : Record} {t : Slot} {r₁ : Rig φ} {ok ok' : Bool}
    (herase : medium.erase (Store.offset medium t) medium.sectorSize.toNat r = (ok, r₁))
    (hwrite : medium.write (Store.offset medium t) record.body r₁ = (ok', r')) :
    ∃ f, r' = { r with flash := f } ∧ Within medium cells sound r.flash f t := by
  obtain ⟨f₁, rfl, hin₁⟩ := h.erase_slot hr herase
  obtain ⟨f, rfl, hin, -⟩ := h.write_slot hin₁.sound 0 hwrite (h.offset_toNat hr t)
    (by rw [Record.length_body]; decide)
  exact ⟨f, rfl, hin₁.trans hin⟩

/-- A body that was read back is in the slot, whatever the calls before have done. -/
theorem body_written (hr : sound r.flash) {record : Record} {t : Slot}
    (hbody : Store.BodyWritten medium record t r r') :
    ∃ f, r' = { r with flash := f } ∧ Within medium cells sound r.flash f t ∧
      (slots medium cells f t).take Record.bodySize = record.body := by
  obtain @⟨_, _, _, bytes, herase, hwrite, hlook, hsame⟩ := hbody
  obtain ⟨f₂, rfl, hin⟩ := h.write_body hr herase hwrite
  obtain ⟨f₃, rfl, hf₃, hcells, hbytes⟩ := h.read_slot hin.sound hlook
  refine ⟨f₃, rfl, hin.trans (.of_cells hf₃ hcells t), ?_⟩
  obtain ⟨bytes, rfl, htake⟩ := Option.map_eq_some_iff.1 hsame
  rw [slots_congr hcells, ← hbytes bytes rfl, htake]

/-- Writing a record touches one slot only, and what it acknowledges is in that slot. -/
theorem writeRecord_run (hr : sound r.flash) (record : Record) (hvalid : record.mapping.isValid)
    (t : Slot) : ∃ (outcome : Except StoreError Unit) (f : φ),
      Store.writeRecord medium record t r = (outcome, { r with flash := f }) ∧
      Within medium cells sound r.flash f t ∧
      (outcome = .ok () → records medium cells f t = some record) := by
  have hend := Store.writeRecord_ends medium record t r
  generalize Store.writeRecord medium record t r = ended at hend ⊢
  obtain ⟨outcome, r'⟩ := ended
  have hword : (Store.offset medium t + UInt32.ofNat Record.bodySize).toNat =
      start medium t + Record.bodySize :=
    Store.toNat_commitOffset medium t (Nat.le_trans (h.record_end_le hr t) (h.addressed _ hr))
  have hfit : Record.bodySize + Record.commitWord.length ≤ Record.size := by decide
  cases hend with
  | notErased herase =>
    obtain ⟨f, rfl, hin⟩ := h.erase_slot hr herase
    exact ⟨_, f, rfl, hin, by simp⟩
  | notWritten herase hwrite =>
    obtain ⟨f, rfl, hin⟩ := h.write_body hr herase hwrite
    exact ⟨_, f, rfl, hin, by simp⟩
  | notVerified herase hwrite hlook =>
    obtain ⟨f₂, rfl, hin⟩ := h.write_body hr herase hwrite
    obtain ⟨f, rfl, hf, hcells, -⟩ := h.read_slot hin.sound hlook
    exact ⟨_, f, rfl, hin.trans (.of_cells hf hcells t), by simp⟩
  | notClosed hbody hclose =>
    obtain ⟨f₁, rfl, hin₁, -⟩ := h.body_written hr hbody
    obtain ⟨f, rfl, hin, -⟩ := h.write_slot hin₁.sound _ hclose hword hfit
    exact ⟨_, f, rfl, hin₁.trans hin, by simp⟩
  | notConfirmed hbody hclose hconfirm =>
    obtain ⟨f₁, rfl, hin₁, -⟩ := h.body_written hr hbody
    obtain ⟨f₂, rfl, hin₂, -⟩ := h.write_slot hin₁.sound _ hclose hword hfit
    obtain ⟨_, f, hlast, hf, hcells, -⟩ := h.slotLooks.look { r with flash := f₂ } t
      hin₂.sound
    cases hconfirm.symm.trans hlast
    exact ⟨_, f, rfl, (hin₁.trans hin₂).trans (.of_cells hf hcells t), by simp⟩
  | @done _ _ _ found hbody hclose hconfirm =>
    obtain ⟨f₁, rfl, hin₁, htake⟩ := h.body_written hr hbody
    obtain ⟨f₂, rfl, hin₂, hsame⟩ := h.write_slot hin₁.sound _ hclose hword hfit
    obtain ⟨_, f, hlast, hf, hcells, hfound⟩ := h.slotLooks.look { r with flash := f₂ } t
      hin₂.sound
    cases hconfirm.symm.trans hlast
    refine ⟨_, f, rfl, (hin₁.trans hin₂).trans (.of_cells hf hcells t), fun _ => ?_⟩
    -- the commit word is written behind the body, so the body that was read back is still there
    have hbodyKept : (slots medium cells f₂ t).take Record.bodySize = record.body := by
      rw [← htake, slots, slots, Bytes.take_slice _ _ (by decide), Bytes.take_slice _ _ (by decide)]
      exact hsame.slice_eq (.inl (Nat.le_refl _))
    have hparse : Record.parse? (slots medium cells f₂ t) = some found := by
      rcases hfound with hnone | hsome
      · cases hnone
      · exact hsome.symm
    show Record.parse? (slots medium cells f t) = some record
    rw [slots_congr hcells, Record.eq_encode_of_body hparse hbodyKept, Record.parse?_encode hvalid]

/-- A commit touches only the slot that the store takes for the spare one, and what it acknowledges
is in that slot. -/
theorem commit_run {mapping : Mapping} (hvalid : mapping.isValid) {scanned : Rig φ}
    (hscan : Store.ensureScanned medium r = ((), scanned)) (hsound : sound scanned.flash) :
    ∃ (outcome : Except StoreError Unit) (f : φ),
      Store.commit medium mapping r = (outcome, { scanned with
        flash := f
        store := match outcome with
          | .ok () => scanned.store.advanced
          | .error _ => scanned.store }) ∧
      Within medium cells sound scanned.flash f (Store.spareSlot scanned.store.active) ∧
      (outcome = .ok () → records medium cells f (Store.spareSlot scanned.store.active) =
        some ⟨scanned.store.generation + 1, mapping⟩) := by
  obtain ⟨n, hn, hle⟩ := h.sectors scanned hsound
  obtain ⟨outcome, f, hwrite, hin, hdone⟩ := h.writeRecord_run hsound
    ⟨scanned.store.generation + 1, mapping⟩ hvalid (Store.spareSlot scanned.store.active)
  refine ⟨outcome, f, ?_, hin, hdone⟩
  rw [Store.commit_eq medium hvalid hscan hn hle, hwrite]
  cases outcome <;> rfl

end Confined

end LoadCell
