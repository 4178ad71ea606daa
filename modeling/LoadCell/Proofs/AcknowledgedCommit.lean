import LoadCell.Proofs.ConfinedMedium
import LoadCell.Proofs.StoreLink
import LoadCell.Proofs.StuckFlash

/-!
What a commit acknowledges is stored. The two looks at the slot cover every byte that a later scan
trusts, so this holds on any medium that reads back what it holds and leaves other places alone.
-/
namespace LoadCell

open NorFlash

/-- A record that was put into the spare slot is the newest, if the slot that the store remembers
holds a record of the remembered generation, and if a store that remembers none has missed no newer
one. -/
theorem newest_of_committed {records records' : Slot → Option Record} {store : Store} {t : Slot}
    {record : Record} (ht : t = Store.spareSlot store.active)
    (hothers : ∀ s, s ≠ t → records' s = records s) (hrecord : records' t = some record)
    (hlater : store.generation < record.generation)
    (hactive : ∀ s, store.active = some s →
      ∃ old, records s = some old ∧ old.generation = store.generation)
    (hmissed : store.active = none → ∀ old, records 1 = some old →
      old.generation ≤ record.generation) :
    newest records' = some (t, record) := by
  rw [newest_eq]
  match hs : store.active with
  | none =>
    obtain rfl : t = 0 := by rw [ht, hs]; rfl
    rw [hrecord, hothers 1 (by decide)]
    cases hold : records 1 with
    | none => rfl
    | some old => exact if_neg (UInt32.not_lt.2 (hmissed hs old hold))
  | some 0 =>
    obtain rfl : t = 1 := by rw [ht, hs]; rfl
    obtain ⟨old, hold, hgeneration⟩ := hactive 0 hs
    rw [hrecord, hothers 0 (by decide), hold]
    exact if_pos (hgeneration ▸ hlater)
  | some 1 =>
    obtain rfl : t = 0 := by rw [ht, hs]; rfl
    obtain ⟨old, hold, hgeneration⟩ := hactive 1 hs
    rw [hrecord, hothers 1 (by decide), hold]
    exact if_neg (UInt32.not_lt.2 (UInt32.le_of_lt (hgeneration ▸ hlater)))

namespace Store

variable {φ : Type} {medium : Medium (Rig φ)} {cells : φ → Bytes} {sound : φ → Prop}

theorem activeSlot_run (medium : Medium (Rig φ)) (r : Rig φ) :
    (activeSlot medium r).1 = (ensureScanned medium r).2.store.active := rfl

theorem currentGeneration_run (medium : Medium (Rig φ)) (r : Rig φ) :
    (currentGeneration medium r).1 = (ensureScanned medium r).2.store.generation := rfl

theorem ensureScanned_of_scanned (medium : Medium (Rig φ)) {r : Rig φ}
    (h : r.store.scanned = true) : ensureScanned medium r = ((), r) := by
  simp [ensureScanned, h]

/-- An acknowledged commit of a new store leaves its record as the newest, and the store remembers
it. -/
theorem newest_of_acknowledged (h : Confined medium cells sound)
    (hreads : Readable medium cells sound) {r : Rig φ} (hr : sound r.flash) (hnew : r.store = {})
    (hgenerations : ∀ s record, Confined.records medium cells r.flash s = some record →
      record.generation.toNat < 2 ^ 32 - 1)
    {mapping : Mapping} {r' : Rig φ} (hcommit : commit medium mapping r = (.ok (), r')) :
    ∃ store f, r' = { r with flash := f, store := advanced store } ∧ sound f ∧
      store.scanned = true ∧ newest (Confined.records medium cells f) =
        some (spareSlot store.active, ⟨store.generation + 1, mapping⟩) := by
  have hvalid : mapping.isValid := by
    by_contra hinvalid
    rw [commit_invalid medium hinvalid] at hcommit
    cases hcommit
  obtain ⟨f₀, hscan, hf₀, hslots₀⟩ := ensureScanned_run (h.slotReads hreads) r hr
  have hrecords₀ : Confined.records medium cells f₀ = Confined.records medium cells r.flash :=
    congrArg recordsOf hslots₀
  rw [hnew] at hscan
  change ensureScanned medium r = ((), { r with
    flash := f₀
    store := ({} : Store).afterScan (newest (Confined.records medium cells r.flash)) }) at hscan
  rw [← hrecords₀] at hscan hgenerations
  obtain ⟨outcome, f, hrun, hin, hdone⟩ := h.commit_run hvalid hscan hf₀
  cases hcommit.symm.trans hrun
  refine ⟨_, f, rfl, hin.sound, rfl, ?_⟩
  have hbound : (({} : Store).afterScan
      (newest (Confined.records medium cells f₀))).generation.toNat ≤ 2 ^ 32 - 2 :=
    afterScan_generation_le (Nat.zero_le _) fun s record hs =>
      Nat.le_sub_one_of_lt (hgenerations s record hs)
  apply newest_of_committed rfl (fun s hs => hin.records_other hs) (hdone rfl)
    (lt_nextGeneration (Nat.lt_of_le_of_lt (Nat.succ_le_succ hbound) (by decide)))
  · intro s hs
    obtain ⟨⟨_, old⟩, hfound, rfl⟩ := Option.map_eq_some_iff.1 hs
    refine ⟨old, newest_eq_some hfound, ?_⟩
    show _ = (({} : Store).afterScan (newest (Confined.records medium cells f₀))).generation
    rw [hfound]
    rfl
  · intro hnone old hold
    obtain ⟨found, hfound, -⟩ := generation_le_newest hold
    cases hfound.symm.trans (Option.map_eq_none_iff.1 hnone)

/-- If a commit of a new store is acknowledged, another new store loads the mapping and reports the
same slot and generation, whatever erasing and writing have done inside their ranges. -/
theorem load_of_acknowledged (h : Confined medium cells sound)
    (hreads : Readable medium cells sound) {r : Rig φ} (hr : sound r.flash) (hnew : r.store = {})
    (hgenerations : ∀ s record, Confined.records medium cells r.flash s = some record →
      record.generation.toNat < 2 ^ 32 - 1)
    {mapping : Mapping} {r' : Rig φ} (hcommit : commit medium mapping r = (.ok (), r')) :
    let fresh := { r' with store := {} }
    (load medium fresh).1 = some mapping ∧
      (activeSlot medium fresh).1 = (activeSlot medium r').1 ∧
      (currentGeneration medium fresh).1 = (currentGeneration medium r').1 := by
  obtain ⟨store, f, rfl, hf, hscanned, hnewest⟩ :=
    newest_of_acknowledged h hreads hr hnew hgenerations hcommit
  have hslots := h.slotReads hreads
  obtain ⟨_, hload, -⟩ := load_run hslots { r with flash := f, store := {} } hf
  obtain ⟨_, hfresh, -⟩ := ensureScanned_run hslots { r with flash := f, store := {} } hf
  change load medium _ = ((newest (Confined.records medium cells f)).map _, _) at hload
  change ensureScanned medium _ = ((), { r with
    flash := _
    store := ({} : Store).afterScan (newest (Confined.records medium cells f)) }) at hfresh
  rw [hnewest] at hload hfresh
  have hkept : ensureScanned medium { r with flash := f, store := store.advanced } = _ :=
    ensureScanned_of_scanned medium hscanned
  refine ⟨congrArg Prod.fst hload, ?_, ?_⟩
  · rw [activeSlot_run, activeSlot_run, hfresh, hkept]
    rfl
  · rw [currentGeneration_run, currentGeneration_run, hfresh, hkept]
    rfl

/-- A flash with a byte stuck at zero where generation 1 has a zero. -/
def wornRig : Rig FaultyFlash where
  flash := { nor := (NorFlash.blank 2 32).change 9 fun _ => 0, stuck := [(9, 0)] }

theorem wornRig_steady : FaultyFlash.Steady 32 [] wornRig.flash :=
  ⟨⟨by decide, by decide, by decide⟩, rfl, by decide, rfl⟩

theorem load_of_acknowledged_worn :
    ∃ r', commit (quiet 32) ⟨1000, 0.001⟩ wornRig = (.ok (), r') ∧
      (load (quiet 32) { r' with store := {} }).1 = some ⟨1000, 0.001⟩ ∧
      (activeSlot (quiet 32) { r' with store := {} }).1 = (activeSlot (quiet 32) r').1 ∧
      (currentGeneration (quiet 32) { r' with store := {} }).1 =
        (currentGeneration (quiet 32) r').1 := by
  have hdone : (commit (quiet 32) ⟨1000, 0.001⟩ wornRig).1 = .ok () := by decide +kernel
  have hempty : ∀ s, Confined.records (quiet 32) FaultyFlash.cells wornRig.flash s = none := by
    decide +kernel
  rcases hcommit : commit (quiet 32) ⟨1000, 0.001⟩ wornRig with ⟨outcome, r'⟩
  rw [hcommit] at hdone
  obtain rfl : outcome = .ok () := hdone
  exact ⟨r', rfl, load_of_acknowledged (confined_quiet (by decide)) readable_quiet wornRig_steady
    rfl (fun s record hs => by simp [hempty] at hs) hcommit⟩

end Store

end LoadCell
