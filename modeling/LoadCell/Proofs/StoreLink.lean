import LoadCell.Proofs.StoreCommit

/-!
The link between what a store remembers and what the flash holds. Every operation keeps it,
whatever power cut or refused call the flash meets inside; a commit moves the newest record to the
new mapping or leaves it where it is.
-/
namespace LoadCell

open FaultyFlash NorFlash

/-- Generations count up to the last 32-bit number. -/
theorem toNat_nextGeneration {n : UInt32} (h : n.toNat + 1 < 2 ^ 32) :
    (n + 1).toNat = n.toNat + 1 := by
  rw [UInt32.toNat_add]
  exact Nat.mod_eq_of_lt h

theorem lt_nextGeneration {n : UInt32} (h : n.toNat + 1 < 2 ^ 32) : n < n + 1 := by
  rw [UInt32.lt_iff_toNat_lt, toNat_nextGeneration h]
  exact Nat.lt_succ_self _

section Newest

variable {records records' : Slot → Option Record} {t : Slot} {record : Record}

theorem le_newer_left (a : Slot × Record) (b : Option (Slot × Record)) :
    ∃ found, newer (some a) b = some found ∧ a.2.generation ≤ found.2.generation := by
  cases b with
  | none => exact ⟨a, rfl, UInt32.le_refl _⟩
  | some b =>
    by_cases hlt : a.2.generation < b.2.generation
    · exact ⟨b, if_pos hlt, UInt32.le_of_lt hlt⟩
    · exact ⟨a, if_neg hlt, UInt32.le_refl _⟩

theorem le_newer_right (a : Option (Slot × Record)) (b : Slot × Record) :
    ∃ found, newer a (some b) = some found ∧ b.2.generation ≤ found.2.generation := by
  cases a with
  | none => exact ⟨b, rfl, UInt32.le_refl _⟩
  | some a =>
    by_cases hlt : a.2.generation < b.2.generation
    · exact ⟨b, if_pos hlt, UInt32.le_refl _⟩
    · exact ⟨a, if_neg hlt, UInt32.not_lt.1 hlt⟩

/-- No record is newer than the newest one. -/
theorem generation_le_newest (h : records t = some record) :
    ∃ found, newest records = some found ∧ record.generation ≤ found.2.generation := by
  have hall : ∀ s : Slot, s = 0 ∨ s = 1 := Fin.forall_fin_two.2 ⟨.inl rfl, .inr rfl⟩
  rw [newest_eq]
  obtain rfl | rfl := hall t
  · rw [h]
    exact le_newer_left (0, record) _
  · rw [h]
    exact le_newer_right _ (1, record)

theorem eq_none_of_newest (h : newest records = none) (s : Slot) : records s = none := by
  by_contra hsome
  obtain ⟨old, hold⟩ := Option.ne_none_iff_exists'.1 hsome
  obtain ⟨found, hfound, -⟩ := generation_le_newest hold
  cases h.symm.trans hfound

/-- A record that is newer than all others is the newest one. -/
theorem newest_of_newer (h : records t = some record) (hothers : ∀ s, s ≠ t →
    ∀ other, records s = some other → other.generation < record.generation) :
    newest records = some (t, record) := by
  obtain ⟨⟨s, found⟩, hnewest, hle⟩ := generation_le_newest h
  have hfound := newest_eq_some hnewest
  by_cases hs : s = t
  · subst hs
    cases h.symm.trans hfound
    exact hnewest
  · exact absurd (hothers s hs found hfound) (UInt32.not_lt.2 hle)

/-- The only record is the newest one. -/
theorem newest_of_single (h : records t = some record) (hothers : ∀ s, s ≠ t → records s = none) :
    newest records = some (t, record) :=
  newest_of_newer h fun s hs _ hother => by cases (hothers s hs).symm.trans hother

/-- Whatever happens in the spare slot, the newest record stays or is the one there. -/
theorem newest_of_spare (ht : t = Store.spareSlot ((newest records).map (·.1)))
    (hothers : ∀ s, s ≠ t → records' s = records s) :
    newest records' = newest records ∨
      ∃ record, records' t = some record ∧ newest records' = some (t, record) := by
  match hnew : newest records with
  | none =>
    obtain rfl : t = 0 := by rw [ht, hnew]; rfl
    rw [newest_eq, hothers 1 (by decide), eq_none_of_newest hnew 1]
    cases records' 0 with
    | none => exact .inl rfl
    | some record => exact .inr ⟨record, rfl, rfl⟩
  | some (0, old) =>
    obtain rfl : t = 1 := by rw [ht, hnew]; rfl
    rw [newest_eq, hothers 0 (by decide), newest_eq_some hnew]
    cases records' 1 with
    | none => exact .inl rfl
    | some record =>
      by_cases hlt : old.generation < record.generation
      · exact .inr ⟨record, rfl, if_pos hlt⟩
      · exact .inl (if_neg hlt)
  | some (1, old) =>
    obtain rfl : t = 0 := by rw [ht, hnew]; rfl
    rw [newest_eq, hothers 1 (by decide), newest_eq_some hnew]
    cases records' 0 with
    | none => exact .inl rfl
    | some record =>
      by_cases hlt : record.generation < old.generation
      · exact .inl (if_pos hlt)
      · exact .inr ⟨record, rfl, if_neg hlt⟩

/-- The spare slot can lose its record and the newest one stays. -/
theorem newest_of_spared (ht : t = Store.spareSlot ((newest records).map (·.1)))
    (hothers : ∀ s, s ≠ t → records' s = records s)
    (h : records' t = none ∨ records' t = records t) : newest records' = newest records := by
  rcases h with hnone | hkept
  · obtain hsame | ⟨record, hrecord, -⟩ := newest_of_spare ht hothers
    · exact hsame
    · cases hnone.symm.trans hrecord
  · have hsame : records' = records := by
      funext s
      by_cases hs : s = t
      · rw [hs, hkept]
      · exact hothers s hs
    rw [hsame]

/-- A record of a later generation in the spare slot is the newest. -/
theorem newest_of_later (ht : t = Store.spareSlot ((newest records).map (·.1)))
    (hothers : ∀ s, s ≠ t → records' s = records s) (h : records' t = some record)
    (hlater : ∀ found, newest records = some found → found.2.generation < record.generation) :
    newest records' = some (t, record) := by
  obtain hsame | ⟨other, hother, hnewest⟩ := newest_of_spare ht hothers
  · obtain ⟨found, hfound, hle⟩ := generation_le_newest h
    exact absurd (hlater found (hsame ▸ hfound)) (UInt32.not_lt.2 hle)
  · cases h.symm.trans hother
    exact hnewest

/-- Generations stay within a bound if the one in the spare slot does. -/
theorem generation_le_of_spare {bound bound' : Nat} (hle : bound ≤ bound')
    (hothers : ∀ s, s ≠ t → records' s = records s)
    (h : ∀ s record, records s = some record → record.generation.toNat ≤ bound)
    (hspare : ∀ record, records' t = some record → record.generation.toNat ≤ bound') :
    ∀ s record, records' s = some record → record.generation.toNat ≤ bound' := by
  intro s record hs
  by_cases hst : s = t
  · exact hspare record (hst ▸ hs)
  · exact Nat.le_trans (h s record (hothers s hst ▸ hs)) hle

theorem newest_eq_none (h : ∀ s, records s = none) : newest records = none := by
  rw [newest_eq, h 0, h 1]
  rfl

end Newest

namespace Store

/-- The spare slot is not the one that is remembered. -/
theorem spareSlot_ne : ∀ s : Slot, spareSlot (some s) ≠ s := by decide

/-- The store remembers what a scan would find. -/
def Tracks (store : Store) (records : Slot → Option Record) : Prop :=
  store.scanned = true → store.afterScan (newest records) = store

theorem tracks_afterScan (store : Store) (records : Slot → Option Record) :
    (store.afterScan (newest records)).Tracks records := by
  intro _
  unfold afterScan
  cases newest records <;> rfl

theorem Tracks.onceScanned {store : Store} {records : Slot → Option Record}
    (h : store.Tracks records) : store.onceScanned records = store.afterScan (newest records) := by
  unfold Store.onceScanned
  split
  next hscanned => exact (h hscanned).symm
  next => rfl

/-- A scan takes its generation from a record or keeps the old one. -/
theorem afterScan_generation_le {store : Store} {records : Slot → Option Record} {bound : Nat}
    (hstore : store.generation.toNat ≤ bound)
    (h : ∀ s record, records s = some record → record.generation.toNat ≤ bound) :
    (store.afterScan (newest records)).generation.toNat ≤ bound := by
  unfold afterScan
  cases hnew : newest records with
  | none => exact hstore
  | some found => exact h found.1 found.2 (newest_eq_some hnew)

end Store

/-- A store that tracks a sound flash on which all generations are within a bound. -/
structure Linked (sectorSize : UInt32) (r : Rig FaultyFlash) (bound : Nat) : Prop where
  sound : SoundFor sectorSize r.flash
  tracks : r.store.Tracks r.flash.nor.record
  generation_le : r.store.generation.toNat ≤ bound
  records_le : ∀ s record, r.flash.nor.record s = some record → record.generation.toNat ≤ bound

/-- The mapping that the flash of a rig holds. -/
def storedMapping (f : FaultyFlash) : Option Mapping := (newest f.nor.record).map (·.2.mapping)

/-- The generation of the newest record, zero without a record. -/
def newestGeneration (f : FaultyFlash) : Nat :=
  ((newest f.nor.record).map (·.2.generation.toNat)).getD 0

/-- Every record of a flash is at most as new as the newest. -/
theorem generation_le_newestGeneration {f : FaultyFlash} {s : Slot} {record : Record}
    (h : f.nor.record s = some record) : record.generation.toNat ≤ newestGeneration f := by
  obtain ⟨found, hnewest, hle⟩ := generation_le_newest h
  rw [newestGeneration, hnewest]
  exact UInt32.le_iff_toNat_le.1 hle

/-- Only a mapping that can convert is ever read from a flash. -/
theorem isValid_of_storedMapping {f : FaultyFlash} {mapping : Mapping}
    (h : storedMapping f = some mapping) : mapping.isValid := by
  obtain ⟨⟨s, record⟩, hnewest, rfl⟩ := Option.map_eq_some_iff.1 h
  exact Record.isValid_of_parse? (newest_eq_some hnewest)

theorem storedMapping_congr {f f' : FaultyFlash} (h : f.nor.slotBytes = f'.nor.slotBytes) :
    storedMapping f = storedMapping f' := by
  rw [storedMapping, storedMapping, record, record, h]

/-- What a register holds after a commit: the new value if it succeeds, else the old one. -/
def afterCommit (outcome : Except StoreError Unit) (mapping : Mapping) (held : Option Mapping) :
    Option Mapping :=
  match outcome with
  | .ok () => some mapping
  | .error _ => held

/-- What can go wrong from now on: where the power ends, and which calls are refused. -/
structure Faults where
  budget : Option Nat := none
  failWrites : Bool := false
  writes : FailurePlan := {}
  erases : FailurePlan := {}

/-- The same cells under other faults; the power is back. -/
def FaultyFlash.under (f : FaultyFlash) (faults : Faults) : FaultyFlash :=
  { f with
    nor := { f.nor.setBudget faults.budget with failWrites := faults.failWrites }
    writePlan := faults.writes
    erasePlan := faults.erases }

namespace Linked

variable {sectorSize : UInt32} {r : Rig FaultyFlash} {bound : Nat}

theorem mono (h : Linked sectorSize r bound) {bound' : Nat} (hle : bound ≤ bound') :
    Linked sectorSize r bound' :=
  ⟨h.sound, h.tracks, Nat.le_trans h.generation_le hle, fun s record hs =>
    Nat.le_trans (h.records_le s record hs) hle⟩

/-- Reading keeps the link: the store scans or keeps to its last scan. -/
theorem of_slots (h : Linked sectorSize r bound) {f : FaultyFlash} (hsound : SoundFor sectorSize f)
    (hslots : f.nor.slotBytes = r.flash.nor.slotBytes) :
    Linked sectorSize { r with
      flash := f
      store := r.store.afterScan (newest r.flash.nor.record) } bound := by
  have hrecord : f.nor.record = r.flash.nor.record := congrArg recordsOf hslots
  refine ⟨hsound, ?_, Store.afterScan_generation_le h.generation_le h.records_le, ?_⟩
  · exact hrecord ▸ Store.tracks_afterScan _ _
  · exact hrecord ▸ h.records_le

/-- What reads only keeps the link and the stored mapping. -/
theorem ensureScanned (h : Linked sectorSize r bound) :
    Linked sectorSize (Store.ensureScanned (quiet sectorSize) r).2 bound ∧
      storedMapping (Store.ensureScanned (quiet sectorSize) r).2.flash = storedMapping r.flash := by
  obtain ⟨f, hscan, hsound, hslots⟩ := Store.ensureScanned_run slotReads_quiet r h.sound
  change Store.ensureScanned (quiet sectorSize) r = ((), { r with
    flash := f
    store := r.store.onceScanned r.flash.nor.record }) at hscan
  rw [hscan, h.tracks.onceScanned]
  exact ⟨h.of_slots hsound hslots, storedMapping_congr hslots⟩

/-- Loading tells what the flash holds. -/
theorem load (h : Linked sectorSize r bound) :
    (Store.load (quiet sectorSize) r).1 = storedMapping r.flash ∧
      Linked sectorSize (Store.load (quiet sectorSize) r).2 bound ∧
      storedMapping (Store.load (quiet sectorSize) r).2.flash = storedMapping r.flash := by
  obtain ⟨f, hload, hsound, hslots⟩ := Store.load_run slotReads_quiet r h.sound
  change Store.load (quiet sectorSize) r = (storedMapping r.flash, { r with
    flash := f
    store := r.store.afterScan (newest r.flash.nor.record) }) at hload
  rw [hload]
  exact ⟨rfl, h.of_slots hsound hslots, storedMapping_congr hslots⟩

theorem under (h : Linked sectorSize r bound) (faults : Faults) :
    Linked sectorSize { r with flash := r.flash.under faults } bound :=
  ⟨⟨⟨⟨h.sound.1.twoSlots.sector, h.sound.1.twoSlots.sectors, h.sound.1.twoSlots.addressed⟩,
    h.sound.1.unstuck, h.sound.1.reads⟩, h.sound.2⟩, h.tracks, h.generation_le, h.records_le⟩

/-- A store that has just been made is linked to any sound flash. -/
theorem new (hnew : r.store = {}) (hflash : SoundFor sectorSize r.flash) :
    Linked sectorSize r (newestGeneration r.flash) :=
  ⟨hflash, fun hscanned => by simp [hnew] at hscanned, by simp [hnew],
    fun _ _ => generation_le_newestGeneration⟩

/-- A store that has just been made knows nothing and so nothing wrong. -/
theorem renewed (h : Linked sectorSize r bound) : Linked sectorSize { r with store := {} } bound :=
  ⟨h.sound, fun hscanned => by simp at hscanned, Nat.zero_le _, h.records_le⟩

/-- A finished commit has a new newest record, a failed one has the old one. -/
private theorem committed (h : Linked sectorSize r bound) (hbound : bound + 1 < 2 ^ 32)
    {mapping : Mapping} {f : FaultyFlash} {store : Store}
    {outcome : Except StoreError Unit}
    (hdone : Store.Committed r.flash f (r.store.afterScan (newest r.flash.nor.record)) mapping
      outcome store) :
    Linked sectorSize { r with flash := f, store := store } (bound + 1) ∧
      storedMapping f = afterCommit outcome mapping (storedMapping r.flash) := by
  have hgen := Store.afterScan_generation_le h.generation_le h.records_le
  have hothers {t : Slot} (hin : WithinSlot r.flash f t) :
      ∀ s, s ≠ t → f.nor.record s = r.flash.nor.record s := fun s hs => hin.record_other hs
  have hsound {t : Slot} (hin : WithinSlot r.flash f t) : SoundFor sectorSize f :=
    ⟨hin.sound, hin.sectorSize.trans h.sound.2⟩
  cases hdone with
  | done hin hrecord =>
    generalize hstore : r.store.afterScan (newest r.flash.nor.record) = scanned
      at hgen hin hrecord ⊢
    have hactive : scanned.active = (newest r.flash.nor.record).map (·.1) := by rw [← hstore]; rfl
    have hroom : scanned.generation.toNat + 1 < 2 ^ 32 :=
      Nat.lt_of_le_of_lt (Nat.succ_le_succ hgen) hbound
    have hnext := toNat_nextGeneration hroom
    have hlater : ∀ found, newest r.flash.nor.record = some found →
        found.2.generation < scanned.generation + 1 := by
      intro found hfound
      have hfoundGen : scanned.generation = found.2.generation := by rw [← hstore, hfound]; rfl
      exact hfoundGen ▸ lt_nextGeneration hroom
    have hnewest := newest_of_later (hactive ▸ rfl) (hothers hin) hrecord hlater
    refine ⟨⟨hsound hin, ?_, ?_, ?_⟩, ?_⟩
    · intro _
      show Store.afterScan _ (newest f.nor.record) = _
      rw [hnewest, ← hstore]
      rfl
    · exact hnext ▸ Nat.succ_le_succ hgen
    · refine generation_le_of_spare (Nat.le_succ bound) (hothers hin) h.records_le ?_
      intro record hs
      cases hrecord.symm.trans hs
      exact hnext ▸ Nat.succ_le_succ hgen
    · rw [storedMapping, hnewest]
      rfl
  | failed e hin hspared =>
    have hnewest : newest f.nor.record = newest r.flash.nor.record :=
      newest_of_spared rfl (hothers hin) hspared
    refine ⟨⟨hsound hin, ?_, Nat.le_succ_of_le hgen, ?_⟩, ?_⟩
    · exact hnewest ▸ Store.tracks_afterScan _ _
    · refine generation_le_of_spare (Nat.le_succ bound) (hothers hin) h.records_le ?_
      intro record hs
      rcases hspared with hnone | hkept
      · cases hnone.symm.trans hs
      · exact Nat.le_succ_of_le (h.records_le _ record (hkept ▸ hs))
    · rw [storedMapping, hnewest]
      rfl

/-- A commit stores its mapping exactly if it succeeds. -/
theorem commit (h : Linked sectorSize r bound) (hbound : bound + 1 < 2 ^ 32) (mapping : Mapping) :
    let done := Store.commit (quiet sectorSize) mapping r
    Linked sectorSize done.2 (bound + 1) ∧
      storedMapping done.2.flash = afterCommit done.1 mapping (storedMapping r.flash) := by
  by_cases hvalid : mapping.isValid
  · obtain ⟨outcome, f, store, hcommit, hdone⟩ := Store.commit_run r h.sound hvalid
    rw [h.tracks.onceScanned] at hdone
    rw [hcommit]
    exact h.committed hbound hdone
  · rw [Store.commit_invalid _ hvalid]
    exact ⟨h.mono (Nat.le_succ bound), rfl⟩

/-- A clearing leaves nothing new, and nothing at all if it succeeds. -/
theorem clear (h : Linked sectorSize r bound) :
    let done := Store.clear (quiet sectorSize) r
    Linked sectorSize done.2 bound ∧ (done.1 = .ok () → storedMapping done.2.flash = none) := by
  obtain ⟨outcome, f, hclear, hsound, hnone, hspared⟩ := Store.clear_run r h.sound
  rw [hclear]
  have hle : ∀ s record, f.nor.record s = some record → record.generation.toNat ≤ bound := by
    intro s record hs
    rcases hspared s with hs' | hs'
    · simp [hs'] at hs
    · exact h.records_le s record (hs' ▸ hs)
  refine ⟨⟨hsound, Store.tracks_afterScan _ _, ?_, hle⟩, ?_⟩
  · exact Store.afterScan_generation_le h.generation_le hle
  · intro hok
    show (newest f.nor.record).map _ = none
    rw [newest_eq_none (hnone hok)]
    rfl

end Linked

def blankRig : Rig FaultyFlash where
  flash := { nor := .blank 2 32 }

theorem soundFor_blankRig : SoundFor 32 blankRig.flash :=
  ⟨⟨⟨by decide, by decide, by decide⟩, rfl, rfl⟩, rfl⟩

end LoadCell
