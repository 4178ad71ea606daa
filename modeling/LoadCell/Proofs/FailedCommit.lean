import LoadCell.Proofs.AcknowledgedCommit

/-!
What a failed commit leaves. Up to the commit word there is no new record in the spare slot, so the
stored mapping stays; but the last look at the slot comes after that word, and a commit that fails
there has stored its mapping.
-/
namespace LoadCell

open FaultyFlash NorFlash

/-- A spare slot that lost its record or kept it changes nothing; one with a new record may have
made that record the stored one. -/
theorem storedMapping_of_spare {f f' : FaultyFlash} {t : Slot} (record : Record) {why : Prop}
    (ht : t = Store.spareSlot ((newest f.nor.record).map (·.1)))
    (hothers : ∀ s, s ≠ t → f'.nor.record s = f.nor.record s)
    (h : f'.nor.record t = none ∨ f'.nor.record t = f.nor.record t ∨
      f'.nor.record t = some record ∧ why) :
    storedMapping f' = storedMapping f ∨ storedMapping f' = some record.mapping ∧ why := by
  have hsame (hnewest : newest f'.nor.record = newest f.nor.record) :
      storedMapping f' = storedMapping f := congrArg (Option.map _) hnewest
  obtain hnone | hkept | ⟨hwritten, hwhy⟩ := h
  · exact .inl (hsame (newest_of_spared ht hothers (.inl hnone)))
  · exact .inl (hsame (newest_of_spared ht hothers (.inr hkept)))
  · obtain hkept | ⟨found, hfound, hnewest⟩ := newest_of_spare ht hothers
    · exact .inl (hsame hkept)
    · cases hwritten.symm.trans hfound
      exact .inr ⟨congrArg (Option.map _) hnewest, hwhy⟩

/-- The flash when no call is going to fail any more. -/
def FaultyFlash.healthy (f : FaultyFlash) : FaultyFlash := (f.under {}).losing {}

/-- Whatever is going to fail, only the reads can make a flash unsound. -/
theorem soundFor_under {sectorSize : UInt32} {f : FaultyFlash}
    (hf : SoundFor sectorSize (f.losing {})) (coming : Faults) (lost : FailurePlan) :
    SoundFor sectorSize (((f.under coming).losing lost).losing {}) :=
  ⟨⟨⟨hf.1.twoSlots.sector, hf.1.twoSlots.sectors, hf.1.twoSlots.addressed⟩, hf.1.unstuck, rfl⟩,
    hf.2⟩

namespace Store

variable {sectorSize : UInt32}

/-- A new store loads what a flash holds, once nothing fails any more. -/
theorem load_healthy (r : Rig FaultyFlash) (hr : SoundFor sectorSize (r.flash.losing {})) :
    (load (quiet sectorSize) { r with flash := r.flash.healthy, store := {} }).1 =
      storedMapping r.flash := by
  obtain ⟨f, hload, -⟩ := load_run slotReads_quiet
    { r with flash := r.flash.healthy, store := {} } (soundFor_under hr {} {})
  rw [hload]
  rfl

/-- A store that has scanned commits while some calls are going to fail. If the commit fails, a new
store loads what could be loaded before, unless it was the last look that was refused. -/
theorem load_after_failed_commit {r : Rig FaultyFlash} (hnew : r.store = {})
    (hflash : SoundFor sectorSize r.flash) {coming : Faults} {lost : FailurePlan}
    {mapping : Mapping} {scanned r' : Rig FaultyFlash} {e : StoreError}
    (hscan : ensureScanned (quiet sectorSize) r = ((), scanned))
    (hcommit : commit (quiet sectorSize) mapping
      { scanned with flash := (scanned.flash.under coming).losing lost } = (.error e, r')) :
    let later := (load (quiet sectorSize) { r' with flash := r'.flash.healthy, store := {} }).1
    later = (load (quiet sectorSize) r).1 ∨
      later = some mapping ∧ lost.next + 1 ∈ lost.failing := by
  obtain ⟨_, hbefore, -⟩ := load_run slotReads_quiet r hflash
  obtain ⟨f₀, hrun, hf₀, hslots₀⟩ := ensureScanned_run slotReads_quiet r hflash
  cases hscan.symm.trans hrun
  rw [hbefore]
  have hrecords₀ : f₀.nor.record = r.flash.nor.record := congrArg recordsOf hslots₀
  have hstart := soundFor_under ⟨hf₀.1.losing, hf₀.2⟩ coming lost
  -- a refused mapping and a failed write leave the newest record
  by_cases hvalid : mapping.isValid
  · have hscanned : ensureScanned (quiet sectorSize) { r with
        flash := (f₀.under coming).losing lost
        store := r.store.onceScanned r.flash.nor.record } = ((), _) :=
      ensureScanned_of_scanned _ (by rw [hnew]; rfl)
    obtain ⟨outcome, f, reads, hdone, hin, hrecord⟩ := commit_losing hvalid hscanned hstart
    cases outcome with
    | ok => cases hcommit.symm.trans hdone
    | error e =>
      cases hcommit.symm.trans hdone
      rw [load_healthy { r with flash := f } (soundFor_within hin hstart)]
      have hspare : spareSlot (r.store.onceScanned r.flash.nor.record).active =
          spareSlot ((newest r.flash.nor.record).map (·.1)) := by rw [hnew]; rfl
      refine storedMapping_of_spare ⟨(r.store.onceScanned r.flash.nor.record).generation + 1, mapping⟩
        hspare (fun s hs => ?_) ?_
      · exact (hin.within.record_other hs).trans (congrFun hrecords₀ s)
      · exact hrecord.imp_right (.imp_left (·.trans (congrFun hrecords₀ _)))
  · rw [commit_invalid _ hvalid] at hcommit
    cases hcommit
    exact .inl ((load_healthy _ hstart).trans (storedMapping_congr hslots₀))

/-- A flash with a record of generation 1. -/
def savedRig : Rig FaultyFlash where
  flash := (commit (quiet 32) ⟨1000, 0.001⟩ blankRig).2.flash

theorem soundFor_savedRig : SoundFor 32 savedRig.flash := by
  simp only [savedRig]
  exact ((Linked.new rfl soundFor_blankRig).commit (by decide +kernel) ⟨1000, 0.001⟩).1.sound

theorem load_after_refused_erase : ∃ scanned r',
    ensureScanned (quiet 32) savedRig = ((), scanned) ∧
    commit (quiet 32) ⟨2000, 0.001⟩
      { scanned with flash := (scanned.flash.under { erases := { failing := [0] } }).losing {} } =
        (.error .fault, r') ∧
    (load (quiet 32) { r' with flash := r'.flash.healthy, store := {} }).1 =
      (load (quiet 32) savedRig).1 := by
  rcases hscan : ensureScanned (quiet 32) savedRig with ⟨_, scanned⟩
  have hfault : (commit (quiet 32) ⟨2000, 0.001⟩
      { (ensureScanned (quiet 32) savedRig).2 with
        flash := ((ensureScanned (quiet 32) savedRig).2.flash.under
          { erases := { failing := [0] } }).losing {} }).1 = .error .fault := by
    decide +kernel
  rw [hscan] at hfault
  rcases hcommit : commit (quiet 32) ⟨2000, 0.001⟩ { scanned with
      flash := (scanned.flash.under { erases := { failing := [0] } }).losing {} } with
    ⟨outcome, r'⟩
  rw [hcommit] at hfault
  obtain rfl : outcome = .error .fault := hfault
  refine ⟨scanned, r', rfl, hcommit, ?_⟩
  obtain hsame | ⟨-, hlost⟩ := load_after_failed_commit rfl soundFor_savedRig hscan hcommit
  · exact hsame
  · simp at hlost

/-- The last look is refused: the commit reports a fault, and its mapping is the stored one. -/
theorem load_after_refused_look :
    let scanned := (ensureScanned (quiet 32) savedRig).2
    let done := commit (quiet 32) ⟨2000, 0.001⟩
      { scanned with flash := (scanned.flash.under {}).losing { failing := [1] } }
    (load (quiet 32) savedRig).1 = some ⟨1000, 0.001⟩ ∧ done.1 = .error .fault ∧
      (load (quiet 32) { done.2 with flash := done.2.flash.healthy, store := {} }).1 =
        some ⟨2000, 0.001⟩ := by
  decide +kernel

end Store

end LoadCell
