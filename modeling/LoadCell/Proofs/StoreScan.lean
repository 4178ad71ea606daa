import LoadCell.Proofs.Rig

/-!
What a scan finds. The newest of the two records is chosen by its generation; a scan leaves the
flash as it is and makes the store remember the choice. A slot that cannot be read counts as empty.
-/
namespace LoadCell

/-- Slots do not overlap. -/
theorem slots_apart (size : Nat) {s t : Slot} (h : s ≠ t) :
    s.val * size + size ≤ t.val * size ∨ t.val * size + size ≤ s.val * size := by
  match s, t with
  | 0, 0 => exact absurd rfl h
  | 0, 1 => simp
  | 1, 0 => simp
  | 1, 1 => exact absurd rfl h

theorem slot_end_le (size : Nat) (s : Slot) : s.val * size + size ≤ 2 * size := by
  match s with
  | 0 => simp; omega
  | 1 => simp; omega

variable {φ : Type}

/-- A medium with two slots that can be read: `slots` is what a flash holds in them. -/
structure SlotReads (medium : Medium (Rig φ)) (slots : φ → Slot → Bytes) (sound : φ → Prop) :
    Prop where
  sectors : ∀ r : Rig φ, sound r.flash → ∃ n, medium.sectorCount r = (n, r) ∧ Store.slotCount ≤ n
  read : ∀ (r : Rig φ) (s : Slot), sound r.flash → ∃ f,
    medium.read (Store.offset medium s) Record.size r =
      (some (slots r.flash s), { r with flash := f }) ∧ sound f ∧ slots f = slots r.flash

/-- The records in two slots, as far as they are valid. -/
def recordsOf (slots : Slot → Bytes) (s : Slot) : Option Record := Record.parse? (slots s)

/-- The newer of two records and its slot; the first one if they are equally new. -/
def newer : Option (Slot × Record) → Option (Slot × Record) → Option (Slot × Record)
  | none, b => b
  | some a, none => some a
  | some a, some b => if a.2.generation < b.2.generation then some b else some a

/-- The newest of the records in the slots. -/
def newest (records : Slot → Option Record) : Option (Slot × Record) :=
  Fin.foldl 2 (fun best s => newer best ((records s).map (s, ·))) none

theorem newest_eq (records : Slot → Option Record) :
    newest records = newer ((records 0).map (0, ·)) ((records 1).map (1, ·)) := by
  simp [newest, Fin.foldl_succ_last, newer]

theorem newest_eq_some {records : Slot → Option Record} {s : Slot} {record : Record}
    (h : newest records = some (s, record)) : records s = some record := by
  rw [newest_eq] at h
  cases h0 : records 0 <;> cases h1 : records 1 <;> grind [newer]

namespace Store

/-- The store after a scan: a scan that finds nothing keeps the generation. -/
def afterScan (store : Store) (found : Option (Slot × Record)) : Store where
  scanned := true
  active := found.map (·.1)
  generation := (found.map (·.2.generation)).getD store.generation

/-- The store after a scan that is done only once. -/
def onceScanned (store : Store) (records : Slot → Option Record) : Store :=
  if store.scanned then store else store.afterScan (newest records)

def afterSlot (store : Store) (s : Slot) : Option Record → Store
  | none => store
  | some record =>
    if store.active.isNone || store.generation < record.generation then
      { store with active := some s, generation := record.generation }
    else store

/-- Looking at one slot after the other finds the newest record. -/
theorem afterSlot_afterSlot (store : Store) (records : Slot → Option Record) :
    (({ store with scanned := true, active := none }).afterSlot 0 (records 0)).afterSlot 1
      (records 1) = store.afterScan (newest records) := by
  rw [newest_eq]
  cases h0 : records 0 with
  | none =>
    cases h1 : records 1 with
    | none => rfl
    | some b => simp [afterSlot, afterScan, newer]
  | some a =>
    cases h1 : records 1 with
    | none => simp [afterSlot, afterScan, newer]
    | some b =>
      by_cases hlt : a.generation < b.generation <;> simp [afterSlot, afterScan, newer, hlt]

end Store

/-- A medium whose slots can be looked at. A look shows what is allowed for the view of the flash,
and leaves that view as it is. -/
structure SlotLooks {β : Type} (medium : Medium (Rig φ)) (view : φ → β)
    (shows : β → Slot → Option Record → Prop) (sound : φ → Prop) : Prop where
  sectors : ∀ r : Rig φ, sound r.flash → ∃ n, medium.sectorCount r = (n, r) ∧ Store.slotCount ≤ n
  look : ∀ (r : Rig φ) (s : Slot), sound r.flash → ∃ found f,
    Store.readSlot medium s r = (found, { r with flash := f }) ∧ sound f ∧
      view f = view r.flash ∧ shows (view r.flash) s found

namespace SlotLooks

variable {β : Type} {medium : Medium (Rig φ)} {view : φ → β}
  {shows : β → Slot → Option Record → Prop} {sound : φ → Prop}
  (h : SlotLooks medium view shows sound) (r : Rig φ)
include h

theorem examine_run (s : Slot) (hr : sound r.flash) : ∃ found f,
    Store.examine medium s r = ((), { r with
      flash := f
      store := r.store.afterSlot s found }) ∧
    sound f ∧ view f = view r.flash ∧ shows (view r.flash) s found := by
  obtain ⟨found, f, hread, hf⟩ := h.look r s hr
  refine ⟨found, f, ?_, hf⟩
  simp only [Store.examine, bind_run, hread]
  cases found with
  | none => simp [Store.afterSlot]
  | some record => simp [Store.afterSlot]

/-- A scan remembers the newest of the records that it was shown. -/
theorem scan_run (hr : sound r.flash) : ∃ seen f,
    Store.scan medium r = ((), { r with
      flash := f
      store := r.store.afterScan (newest seen) }) ∧
    sound f ∧ view f = view r.flash ∧ ∀ s, shows (view r.flash) s (seen s) := by
  let start : Rig φ := { r with store := { r.store with scanned := true, active := none } }
  obtain ⟨n, hn, hle⟩ := h.sectors start hr
  obtain ⟨first, f₀, h₀, hf₀, hview₀, hfirst⟩ := h.examine_run start 0 hr
  let mid : Rig φ := { start with flash := f₀, store := start.store.afterSlot 0 first }
  obtain ⟨second, f₁, h₁, hf₁, hview₁, hsecond⟩ := h.examine_run mid 1 hf₀
  let seen : Slot → Option Record := fun s => if s = 0 then first else second
  refine ⟨seen, f₁, ?_, hf₁, hview₁.trans hview₀, Fin.forall_fin_two.2 ⟨hfirst, hview₀ ▸ hsecond⟩⟩
  simp only [Store.scan, bind_run, Rig.modifyPart_store]
  rw [show medium.sectorCount _ = _ from hn]
  simp only [UInt32.not_lt.2 hle, ↓reduceIte, bind_run]
  rw [show Store.examine medium 0 _ = _ from h₀, show Store.examine medium 1 _ = _ from h₁,
    ← Store.afterSlot_afterSlot]
  rfl

/-- A store that has scanned before looks at nothing. -/
theorem ensureScanned_run (hr : sound r.flash) : ∃ seen f,
    Store.ensureScanned medium r = ((), { r with
      flash := f
      store := r.store.onceScanned seen }) ∧
    sound f ∧ view f = view r.flash ∧
    (r.store.scanned = false → ∀ s, shows (view r.flash) s (seen s)) := by
  simp only [Store.ensureScanned, bind_run, Rig.getPart_store, Store.onceScanned]
  by_cases hscanned : r.store.scanned
  · exact ⟨fun _ => none, r.flash, by simp [hscanned], hr, rfl, by simp [hscanned]⟩
  · obtain ⟨seen, f, hscan, hf, hview, hseen⟩ := h.scan_run r hr
    exact ⟨seen, f, by simpa [hscanned] using hscan, hf, hview, fun _ => hseen⟩

/-- Loading scans, and looks again at the slot that the scan has chosen. A slot that shows nothing
this time is forgotten. -/
theorem load_run (hr : sound r.flash) : ∃ seen again f,
    Store.load medium r = ((newest seen).bind fun _ => again.map (·.mapping), { r with
      flash := f
      store :=
        { r.store.afterScan (newest seen) with
          active := again.bind fun _ => (newest seen).map (·.1) } }) ∧
    sound f ∧ view f = view r.flash ∧ (∀ s, shows (view r.flash) s (seen s)) ∧
    ∀ found, newest seen = some found → shows (view r.flash) found.1 again := by
  obtain ⟨seen, f₀, hscan, hf₀, hview₀, hseen⟩ := h.scan_run r hr
  simp only [Store.load, bind_run, hscan, Rig.getPart_store]
  cases hnew : newest seen with
  | none => exact ⟨seen, none, f₀, by simp [hnew, Store.afterScan], hf₀, hview₀, hseen, by simp [hnew]⟩
  | some found =>
    let mid : Rig φ := { r with flash := f₀, store := r.store.afterScan (some found) }
    obtain ⟨again, f₁, hread, hf₁, hview₁, hagain⟩ := h.look mid found.1 hf₀
    refine ⟨seen, again, f₁, ?_, hf₁, hview₁.trans hview₀, hseen, ?_⟩
    · show (Store.readSlot medium found.1 >>= _) mid = _
      rw [bind_run, hread, hnew]
      cases again with
      | none => rfl
      | some record => simp [mid, Store.afterScan]
    · intro other hother
      cases hnew.symm.trans hother
      exact hview₀ ▸ hagain

end SlotLooks

namespace Store

variable {medium : Medium (Rig φ)} {slots : φ → Slot → Bytes} {sound : φ → Prop}

theorem readSlot_run (h : SlotReads medium slots sound) (r : Rig φ) (s : Slot)
    (hr : sound r.flash) : ∃ f,
      readSlot medium s r = (Record.parse? (slots r.flash s), { r with flash := f }) ∧
      sound f ∧ slots f = slots r.flash := by
  obtain ⟨f, hread, hf⟩ := h.read r s hr
  refine ⟨f, ?_, hf⟩
  simp [readSlot, hread]

/-- Where slots can be read, a look shows the record. -/
theorem slotLooks (h : SlotReads medium slots sound) :
    SlotLooks medium slots (fun bytes s found => found = recordsOf bytes s) sound where
  sectors := h.sectors
  look r s hr := by
    obtain ⟨f, hread, hf, hslots⟩ := readSlot_run h r s hr
    exact ⟨_, f, hread, hf, hslots, rfl⟩

/-- A scan remembers the newest record and leaves the slots alone. -/
theorem scan_run (h : SlotReads medium slots sound) (r : Rig φ) (hr : sound r.flash) : ∃ f,
    scan medium r = ((), { r with
      flash := f
      store := r.store.afterScan (newest (recordsOf (slots r.flash))) }) ∧
    sound f ∧ slots f = slots r.flash := by
  obtain ⟨seen, f, hscan, hf, hslots, hseen⟩ := (slotLooks h).scan_run r hr
  obtain rfl : seen = recordsOf (slots r.flash) := funext hseen
  exact ⟨f, hscan, hf, hslots⟩

/-- What loading gives: the mapping of the newest record. -/
theorem load_run (h : SlotReads medium slots sound) (r : Rig φ) (hr : sound r.flash) : ∃ f,
    load medium r = ((newest (recordsOf (slots r.flash))).map (·.2.mapping), { r with
      flash := f
      store := r.store.afterScan (newest (recordsOf (slots r.flash))) }) ∧
    sound f ∧ slots f = slots r.flash := by
  obtain ⟨seen, again, f, hload, hf, hslots, hseen, hagain⟩ := (slotLooks h).load_run r hr
  obtain rfl : seen = recordsOf (slots r.flash) := funext hseen
  refine ⟨f, ?_, hf, hslots⟩
  rw [hload]
  cases hnew : newest (recordsOf (slots r.flash)) with
  | none => simp [afterScan]
  | some found =>
    rw [hagain found hnew, newest_eq_some hnew]
    rfl

theorem ensureScanned_run (h : SlotReads medium slots sound) (r : Rig φ) (hr : sound r.flash) :
    ∃ f, ensureScanned medium r = ((), { r with
      flash := f
      store := r.store.onceScanned (recordsOf (slots r.flash)) }) ∧
    sound f ∧ slots f = slots r.flash := by
  obtain ⟨seen, f, hscan, hf, hslots, hseen⟩ := (slotLooks h).ensureScanned_run r hr
  refine ⟨f, ?_, hf, hslots⟩
  rw [hscan]
  cases hscanned : r.store.scanned with
  | true => simp [onceScanned, hscanned]
  | false => rw [show seen = recordsOf (slots r.flash) from funext (hseen hscanned)]

end Store

end LoadCell
