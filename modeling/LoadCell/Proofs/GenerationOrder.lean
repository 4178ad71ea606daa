import LoadCell.Proofs.AcknowledgedCommit
import LoadCell.Proofs.DurableRegister

/-!
Commits over the whole range of the generations. Behind the last generation comes zero, which a scan
takes for the oldest: the commit that wraps is acknowledged, but a new store still finds the record
before it. Every other acknowledged commit is what a new store finds.
-/
namespace LoadCell

open NorFlash

/-- The last generation that a record can have. -/
def lastGeneration : UInt32 := 0xFFFFFFFF

theorem lt_nextGeneration_of_ne {n : UInt32} (h : n ≠ lastGeneration) : n < n + 1 := by
  have hne : n.toNat ≠ lastGeneration.toNat := fun heq => h (UInt32.toNat_inj.1 heq)
  have hlast : lastGeneration.toNat = 2 ^ 32 - 1 := rfl
  have hlt := n.toNat_lt
  exact lt_nextGeneration (by omega)

namespace Store

/-- What a store that remembers a slot knows of it, and one that remembers none: other than with
`Tracks`, the slot need not be the one that a scan would choose. -/
structure Knows (store : Store) (records : Slot → Option Record) : Prop where
  remembered : ∀ s, store.active = some s →
    ∃ old, records s = some old ∧ old.generation = store.generation
  missed_none : store.scanned = true → store.active = none → ∀ s, records s = none

theorem knows_afterScan (store : Store) (records : Slot → Option Record) :
    (store.afterScan (newest records)).Knows records where
  remembered s hs := by
    obtain ⟨⟨_, old⟩, hfound, rfl⟩ := Option.map_eq_some_iff.1 hs
    refine ⟨old, newest_eq_some hfound, ?_⟩
    rw [hfound]
    rfl
  missed_none _ hnone := eq_none_of_newest (Option.map_eq_none_iff.1 hnone)

namespace Knows

variable {store : Store} {records records' : Slot → Option Record}

theorem new : ({} : Store).Knows records where
  remembered s hs := by cases hs
  missed_none hscanned := by cases hscanned

theorem onceScanned (h : store.Knows records) : (store.onceScanned records).Knows records := by
  unfold Store.onceScanned
  split
  next => exact h
  next => exact knows_afterScan store records

/-- What is lost in the spare slot was not the remembered record. -/
theorem of_spared (h : store.Knows records)
    (hothers : ∀ s, s ≠ spareSlot store.active → records' s = records s)
    (hspare : records' (spareSlot store.active) = none ∨
      records' (spareSlot store.active) = records (spareSlot store.active)) :
    store.Knows records' where
  remembered s hs := by
    have hne : s ≠ spareSlot store.active := hs ▸ (spareSlot_ne s).symm
    rw [hothers s hne]
    exact h.remembered s hs
  missed_none hscanned hnone s := by
    have hbefore := h.missed_none hscanned hnone
    by_cases hs : s = spareSlot store.active
    · rw [hs]
      rcases hspare with hlost | hkept
      · exact hlost
      · rw [hkept, hbefore]
    · rw [hothers s hs, hbefore]

end Knows

theorem scanned_onceScanned (store : Store) (records : Slot → Option Record) :
    (store.onceScanned records).scanned = true := by
  unfold Store.onceScanned
  split
  next hscanned => exact hscanned
  next => rfl

/-- A store on a sound flash of which it knows what it remembers. -/
structure Informed (sectorSize : UInt32) (r : Rig FaultyFlash) : Prop where
  sound : SoundFor sectorSize r.flash
  knows : r.store.Knows r.flash.nor.record

namespace Informed

variable {sectorSize : UInt32} {r : Rig FaultyFlash}

theorem renewed (h : Informed sectorSize r) : Informed sectorSize { r with store := {} } :=
  ⟨h.sound, .new⟩

theorem under (h : Informed sectorSize r) (faults : Faults) :
    Informed sectorSize { r with flash := r.flash.under faults } :=
  ⟨⟨⟨⟨h.sound.1.twoSlots.sector, h.sound.1.twoSlots.sectors, h.sound.1.twoSlots.addressed⟩,
    h.sound.1.unstuck, h.sound.1.reads⟩, h.sound.2⟩, h.knows⟩

theorem of_slots {f : FaultyFlash} (hsound : SoundFor sectorSize f)
    (hslots : f.nor.slotBytes = r.flash.nor.slotBytes) {store : Store}
    (hstore : store.Knows r.flash.nor.record) :
    Informed sectorSize { r with flash := f, store := store } := by
  have hrecord : f.nor.record = r.flash.nor.record := congrArg recordsOf hslots
  exact ⟨hsound, hrecord ▸ hstore⟩

theorem ensureScanned (h : Informed sectorSize r) :
    Informed sectorSize (Store.ensureScanned (quiet sectorSize) r).2 := by
  obtain ⟨f, hscan, hsound, hslots⟩ := Store.ensureScanned_run slotReads_quiet r h.sound
  rw [hscan]
  exact of_slots hsound hslots h.knows.onceScanned

theorem load (h : Informed sectorSize r) :
    Informed sectorSize (Store.load (quiet sectorSize) r).2 := by
  obtain ⟨f, hload, hsound, hslots⟩ := Store.load_run slotReads_quiet r h.sound
  rw [hload]
  exact of_slots hsound hslots (knows_afterScan ..)

theorem clear (h : Informed sectorSize r) :
    Informed sectorSize (Store.clear (quiet sectorSize) r).2 := by
  obtain ⟨outcome, f, hclear, hsound, -⟩ := Store.clear_run r h.sound
  rw [hclear]
  exact ⟨hsound, knows_afterScan ..⟩

theorem commit (h : Informed sectorSize r) (mapping : Mapping) :
    Informed sectorSize (Store.commit (quiet sectorSize) mapping r).2 := by
  by_cases hvalid : mapping.isValid
  · obtain ⟨outcome, f, store, hcommit, hdone⟩ := Store.commit_run r h.sound hvalid
    rw [hcommit]
    cases hdone with
    | done hin hrecord =>
      refine ⟨⟨hin.sound, hin.sectorSize.trans h.sound.2⟩, ?_, fun _ hnone => by cases hnone⟩
      rintro _ ⟨⟩
      exact ⟨_, hrecord, rfl⟩
    | failed e hin hspared =>
      refine ⟨⟨hin.sound, hin.sectorSize.trans h.sound.2⟩, ?_⟩
      exact h.knows.onceScanned.of_spared (fun s hs => hin.record_other hs) hspared
  · rw [Store.commit_invalid _ hvalid]
    exact h

end Informed

variable {sectorSize : UInt32}

theorem Event.next_informed {l l' : Ledger} {event : Event} (h : Informed sectorSize l.rig)
    (hnext : event.next sectorSize l = some l') : Informed sectorSize l'.rig := by
  cases event with
  | faults coming =>
    cases hnext
    exact h.under coming
  | commit mapping =>
    cases hnext
    exact h.commit mapping
  | load =>
    cases hnext
    exact h.load
  | activeSlot =>
    cases hnext
    exact h.ensureScanned
  | generation =>
    cases hnext
    exact h.ensureScanned
  | clear =>
    have hclear := h.clear
    unfold Event.next at hnext
    rcases hrun : Store.clear (quiet sectorSize) l.rig with ⟨outcome, rig⟩
    rw [hrun] at hnext hclear
    cases outcome with
    | error e => cases hnext
    | ok =>
      cases hnext
      exact hclear
  | reboot =>
    cases hnext
    exact h.renewed

/-- However many generations a run has gone through, the store knows what it remembers. -/
theorem run_informed {events : List Event} {l l' : Ledger} (h : Informed sectorSize l.rig)
    (hrun : run sectorSize events l = some l') : Informed sectorSize l'.rig := by
  induction events generalizing l with
  | nil =>
    cases hrun
    exact h
  | cons event rest ih =>
    obtain ⟨mid, hnext, hrest⟩ := Option.bind_eq_some_iff.1 hrun
    exact ih (event.next_informed h hnext) hrest

/-- What a store loads, with the slot and the generation that it reports. -/
def report (sectorSize : UInt32) (r : Rig FaultyFlash) : Option Mapping × Option Slot × UInt32 :=
  ((load (quiet sectorSize) r).1, (activeSlot (quiet sectorSize) r).1,
    (currentGeneration (quiet sectorSize) r).1)

/-- A new store reports the newest record. -/
theorem report_new {r : Rig FaultyFlash} (hr : SoundFor sectorSize r.flash) (hnew : r.store = {})
    {t : Slot} {record : Record} (hnewest : newest r.flash.nor.record = some (t, record)) :
    report sectorSize r = (some record.mapping, some t, record.generation) := by
  obtain ⟨_, hload, -⟩ := load_run slotReads_quiet r hr
  obtain ⟨_, hscan, -⟩ := ensureScanned_run slotReads_quiet r hr
  change load (quiet sectorSize) r = ((newest r.flash.nor.record).map (·.2.mapping), _) at hload
  change ensureScanned (quiet sectorSize) r = ((), { r with
    flash := _
    store := r.store.onceScanned r.flash.nor.record }) at hscan
  rw [hnewest] at hload
  rw [hnew, onceScanned, if_neg (by decide), hnewest] at hscan
  rw [report, hload, activeSlot_run, currentGeneration_run, hscan]
  rfl

section Acknowledged

variable {store : Store} {records records' : Slot → Option Record} {mapping : Mapping}
  (h : store.Knows records) (hscanned : store.scanned = true)
  (hothers : ∀ s, s ≠ spareSlot store.active → records' s = records s)
include h hscanned hothers

/-- The record that is not in the spare slot is the one that the store remembers. -/
theorem Knows.generation_of_other {s : Slot} (hs : s ≠ spareSlot store.active) {other : Record}
    (hother : records' s = some other) :
    store.active = some s ∧ other.generation = store.generation := by
  rw [hothers s hs] at hother
  cases hactive : store.active with
  | none => cases (h.missed_none hscanned hactive s).symm.trans hother
  | some o =>
    have hall : ∀ o s : Slot, s ≠ spareSlot (some o) → o = s := by decide
    obtain rfl := hall o s (hactive ▸ hs)
    obtain ⟨old, hold, hgeneration⟩ := h.remembered o hactive
    cases hold.symm.trans hother
    exact ⟨rfl, hgeneration⟩

variable (hrecord : records' (spareSlot store.active) = some ⟨store.generation + 1, mapping⟩)
include hrecord

/-- A record of a later generation is the newest, and so is one beside no other. -/
theorem Knows.newest_of_next (hnext : store.generation = lastGeneration → store.active = none) :
    newest records' =
      some (spareSlot store.active, ⟨store.generation + 1, mapping⟩) := by
  apply newest_of_newer hrecord
  intro s hs other hother
  obtain ⟨hactive, hgeneration⟩ := h.generation_of_other hscanned hothers hs hother
  rw [hgeneration]
  apply lt_nextGeneration_of_ne
  intro hlast
  cases (hnext hlast).symm.trans hactive

/-- Behind the last generation the record that was remembered is still the newest. -/
theorem Knows.newest_of_wrapped (hlast : store.generation = lastGeneration) {o : Slot}
    (hactive : store.active = some o) :
    ∃ old, records o = some old ∧ old.generation = lastGeneration ∧
      newest records' = some (o, old) := by
  obtain ⟨old, hold, hgeneration⟩ := h.remembered o hactive
  have hne : o ≠ spareSlot store.active := hactive ▸ (spareSlot_ne o).symm
  refine ⟨old, hold, hgeneration.trans hlast, newest_of_newer ((hothers o hne).trans hold) ?_⟩
  intro s hs other hother
  have hspare : s = spareSlot store.active := by
    by_contra hne'
    obtain ⟨hactive', -⟩ := h.generation_of_other hscanned hothers hne' hother
    cases hactive'.symm.trans hactive
    exact hs rfl
  rw [hspare, hrecord] at hother
  cases hother
  show store.generation + 1 < old.generation
  rw [hgeneration, hlast]
  decide

end Acknowledged

/-- If a commit is acknowledged, after any run of a store on a flash with any records, a store made
anew loads the mapping and reports the slot and the generation of the one that committed, except when
there was a record of the last generation: then it loads that record again, while the store that
committed reports the other slot and generation zero. -/
theorem report_after_commit {r : Rig FaultyFlash} (hnew : r.store = {})
    (hflash : SoundFor sectorSize r.flash) {register : Option Mapping} {events : List Event}
    {l : Ledger} (hrun : run sectorSize events ⟨r, register⟩ = some l) {mapping : Mapping}
    {r' : Rig FaultyFlash} (hcommit : commit (quiet sectorSize) mapping l.rig = (.ok (), r')) :
    let before := (currentGeneration (quiet sectorSize) l.rig).1
    let active := (activeSlot (quiet sectorSize) l.rig).1
    let fresh := { r' with store := {} }
    let slot := (activeSlot (quiet sectorSize) r').1
    let generation := (currentGeneration (quiet sectorSize) r').1
    ((before = lastGeneration → active = none) →
        report sectorSize fresh = (some mapping, slot, generation)) ∧
      (before = lastGeneration → ∀ o, active = some o →
        ∃ old, l.rig.flash.nor.record o = some old ∧
          report sectorSize fresh = (some old.mapping, some o, lastGeneration) ∧
          slot = some (spareSlot (some o)) ∧ generation = 0) := by
  have hinformed := run_informed ⟨hflash, hnew ▸ .new⟩ hrun
  have hvalid : mapping.isValid := by
    by_contra hinvalid
    rw [commit_invalid _ hinvalid] at hcommit
    cases hcommit
  obtain ⟨f₀, hscan, hsound₀, hslots₀⟩ :=
    ensureScanned_run slotReads_quiet l.rig hinformed.sound
  change ensureScanned (quiet sectorSize) l.rig = ((), { l.rig with
    flash := f₀
    store := l.rig.store.onceScanned l.rig.flash.nor.record }) at hscan
  obtain ⟨outcome, f, store, hdone, hcommitted⟩ := commit_run l.rig hinformed.sound hvalid
  cases hcommit.symm.trans hdone
  have hknows := hinformed.knows.onceScanned
  have hscanned := scanned_onceScanned l.rig.store l.rig.flash.nor.record
  generalize l.rig.store.onceScanned l.rig.flash.nor.record = scanned
    at hscan hcommitted hknows hscanned
  obtain ⟨hin, hrecord⟩ := hcommitted
  have hsound : SoundFor sectorSize f := ⟨hin.sound, hin.sectorSize.trans hinformed.sound.2⟩
  have hothers : ∀ s, s ≠ spareSlot scanned.active →
      f.nor.record s = l.rig.flash.nor.record s := fun s hs => hin.record_other hs
  have hkept := ensureScanned_of_scanned (quiet sectorSize)
    (r := { l.rig with flash := f, store := scanned.advanced }) hscanned
  intro before active fresh slot generation
  have hbefore : before = scanned.generation := congrArg (·.2.store.generation) hscan
  have hactive : active = scanned.active := congrArg (·.2.store.active) hscan
  have hslot : slot = some (spareSlot scanned.active) := congrArg (·.2.store.active) hkept
  have hgeneration : generation = scanned.generation + 1 :=
    congrArg (·.2.store.generation) hkept
  rw [hbefore, hactive, hslot, hgeneration]
  refine ⟨fun hnext => ?_, fun hlast o ho => ?_⟩
  · have hnewest := hknows.newest_of_next hscanned hothers hrecord hnext
    exact report_new (r := fresh) hsound rfl hnewest
  · obtain ⟨old, hold, holdest, hnewest⟩ :=
      hknows.newest_of_wrapped hscanned hothers hrecord hlast ho
    have hfresh : report sectorSize fresh = (some old.mapping, some o, lastGeneration) := by
      rw [report_new (r := fresh) hsound rfl hnewest, holdest]
    have hzero : scanned.generation + 1 = 0 := by
      rw [hlast]
      rfl
    rw [ho]
    exact ⟨old, hold, hfresh, rfl, hzero⟩

/-- A flash with a record of a given generation in the first slot. -/
def agedRig (generation : UInt32) : Rig FaultyFlash where
  flash :=
    { nor :=
        { sectorSize := 32
          cells := (Record.encode ⟨generation, ⟨1000, 0.001⟩⟩ ++ List.replicate 32 0xff).toArray } }

theorem soundFor_agedRig (generation : UInt32) : SoundFor 32 (agedRig generation).flash := by
  have hsize : (agedRig generation).flash.nor.cells.size = 64 := by
    simp [agedRig, Record.length_encode, Record.size]
  have hsector : Record.size ≤ (32 : UInt32).toNat := by decide
  exact ⟨⟨⟨hsector, hsize.ge, hsize ▸ by decide⟩, rfl, rfl⟩, rfl⟩

theorem report_after_two_commits : ∃ l r',
    run 32 [.load, .commit ⟨2000, 0.002⟩] ⟨agedRig 4, none⟩ = some l ∧
      commit (quiet 32) ⟨3000, 0.003⟩ l.rig = (.ok (), r') ∧
      report 32 { r' with store := {} } = (some ⟨3000, 0.003⟩, some 0, 6) := by
  have hdone : (run 32 [.load, .commit ⟨2000, 0.002⟩] ⟨agedRig 4, none⟩).map (fun l =>
      let done := commit (quiet 32) ⟨3000, 0.003⟩ l.rig
      (done.1, (currentGeneration (quiet 32) l.rig).1, (activeSlot (quiet 32) done.2).1,
        (currentGeneration (quiet 32) done.2).1)) = some (.ok (), 5, some 0, 6) := by
    decide +kernel
  obtain ⟨l, hrun, hl⟩ := Option.map_eq_some_iff.1 hdone
  rcases hcommit : commit (quiet 32) ⟨3000, 0.003⟩ l.rig with ⟨outcome, r'⟩
  rw [hcommit] at hl
  obtain ⟨rfl, hbefore, hslot, hgeneration⟩ := by simpa only [Prod.mk.injEq] using hl
  refine ⟨l, r', hrun, hcommit, ?_⟩
  have hreport := (report_after_commit rfl (soundFor_agedRig 4) hrun hcommit).1
  rw [hslot, hgeneration] at hreport
  apply hreport
  intro hlast
  rw [hbefore] at hlast
  cases hlast

/-- The commit behind the last generation is acknowledged, and then a new store loads the mapping that
it should have replaced. -/
theorem old_mapping_behind_last_generation :
    let done := commit (quiet 32) ⟨2000, 0.002⟩ (agedRig lastGeneration)
    done.1 = .ok () ∧ (activeSlot (quiet 32) done.2).1 = some 1 ∧
      (currentGeneration (quiet 32) done.2).1 = 0 ∧
      report 32 { done.2 with store := {} } = (some ⟨1000, 0.001⟩, some 0, lastGeneration) := by
  decide +kernel

end Store

end LoadCell
