import LoadCell.Proofs.FailedCommit

/-!
A store that cannot always read. A slot that a scan cannot read counts as empty, so the store may
remember the older record of the two, or none at all. A commit goes by what is remembered: it spares
that slot and counts on from that generation, and both can be wrong for a store made later.
-/
namespace LoadCell

open FaultyFlash NorFlash

section Looks

variable {sectorSize : UInt32}

/-- Where reads can be refused, a look at a slot shows its record or nothing. -/
theorem slotLooks_quiet : SlotLooks (quiet sectorSize) (fun f => f.nor.slotBytes)
    (fun bytes s found => found = none ∨ found = recordsOf bytes s)
    (fun f => SoundFor sectorSize (f.losing {})) where
  sectors r hr := ⟨r.flash.nor.sectorCount, rfl, slotCount_le hr.1.twoSlots⟩
  look r s hr := by
    rcases hlook : Store.readSlot (quiet sectorSize) s r with ⟨found, r'⟩
    obtain ⟨f, rfl, hin, hnor, hfound⟩ := Store.confirm_run hr hlook
    exact ⟨found, f, rfl, Store.soundFor_within hin hr, by rw [hnor],
      hfound.symm.imp_left (·.1)⟩

end Looks

/-- What a store knows of its flash, even if it cannot read all of it: the slot that it remembers
holds a record of the generation that it remembers. All generations are within a bound. -/
structure Remembers (sectorSize : UInt32) (r : Rig FaultyFlash) (bound : Nat) : Prop where
  sound : SoundFor sectorSize (r.flash.losing {})
  active : ∀ s, r.store.active = some s → ∃ record,
    r.flash.nor.record s = some record ∧ record.generation = r.store.generation
  generation_le : r.store.generation.toNat ≤ bound
  records_le : ∀ s record, r.flash.nor.record s = some record → record.generation.toNat ≤ bound

namespace Remembers

variable {sectorSize : UInt32} {r : Rig FaultyFlash} {bound : Nat}

theorem mono (h : Remembers sectorSize r bound) {bound' : Nat} (hle : bound ≤ bound') :
    Remembers sectorSize r bound' :=
  ⟨h.sound, h.active, Nat.le_trans h.generation_le hle, fun s record hs =>
    Nat.le_trans (h.records_le s record hs) hle⟩

theorem new (hnew : r.store = {}) (hflash : SoundFor sectorSize (r.flash.losing {})) :
    Remembers sectorSize r (newestGeneration r.flash) :=
  ⟨hflash, by simp [hnew], by simp [hnew], fun _ _ => generation_le_newestGeneration⟩

theorem under (h : Remembers sectorSize r bound) (coming : Faults) (lost : FailurePlan) :
    Remembers sectorSize { r with flash := (r.flash.under coming).losing lost } bound :=
  ⟨soundFor_under h.sound coming lost, h.active, h.generation_le, h.records_le⟩

/-- A scan remembers a record that is there, though maybe not the newest. -/
theorem of_seen (h : Remembers sectorSize r bound) {f : FaultyFlash}
    (hsound : SoundFor sectorSize (f.losing {})) (hslots : f.nor.slotBytes = r.flash.nor.slotBytes)
    {seen : Slot → Option Record}
    (hseen : ∀ s, seen s = none ∨ seen s = recordsOf r.flash.nor.slotBytes s) :
    Remembers sectorSize
      { r with flash := f, store := r.store.afterScan (newest seen) } bound := by
  have hrecord : f.nor.record = r.flash.nor.record := congrArg recordsOf hslots
  have hthere : ∀ s record, seen s = some record → r.flash.nor.record s = some record := by
    intro s record hs
    rcases hseen s with hnone | hsome
    · cases hnone.symm.trans hs
    · exact hsome.symm.trans hs
  refine ⟨hsound, ?_, ?_, hrecord ▸ h.records_le⟩
  · intro s hs
    obtain ⟨⟨_, record⟩, hfound, rfl⟩ := Option.map_eq_some_iff.1 hs
    refine ⟨record, ?_, ?_⟩
    · exact hrecord ▸ hthere _ _ (newest_eq_some hfound)
    · show _ = (r.store.afterScan (newest seen)).generation
      rw [hfound]
      rfl
  · exact Store.afterScan_generation_le h.generation_le fun s record hs =>
      h.records_le s record (hthere s record hs)

/-- Scanning, if it happens at all, leaves the flash as it is. -/
theorem ensureScanned (h : Remembers sectorSize r bound) : ∃ scanned,
    Store.ensureScanned (quiet sectorSize) r = ((), scanned) ∧
      Remembers sectorSize scanned bound ∧
      scanned.flash.nor.slotBytes = r.flash.nor.slotBytes := by
  obtain ⟨seen, f, hrun, hsound, hslots, hseen⟩ := slotLooks_quiet.ensureScanned_run r h.sound
  refine ⟨_, hrun, ?_, hslots⟩
  unfold Store.onceScanned
  split
  next hscanned =>
    have hrecord : f.nor.record = r.flash.nor.record := congrArg recordsOf hslots
    exact ⟨hsound, hrecord ▸ h.active, h.generation_le, hrecord ▸ h.records_le⟩
  next hscanned => exact h.of_seen hsound hslots (hseen (by simpa using hscanned))

theorem scanned (h : Remembers sectorSize r bound) :
    Remembers sectorSize (Store.ensureScanned (quiet sectorSize) r).2 bound := by
  obtain ⟨scanned, hscan, hscanned, -⟩ := h.ensureScanned
  rw [hscan]
  exact hscanned

/-- Loading looks again at the slot that it has chosen, and may forget it. -/
theorem load (h : Remembers sectorSize r bound) :
    Remembers sectorSize (Store.load (quiet sectorSize) r).2 bound := by
  obtain ⟨seen, again, f, hrun, hsound, hslots, hseen, -⟩ := slotLooks_quiet.load_run r h.sound
  have hscanned := h.of_seen hsound hslots hseen
  rw [hrun]
  refine ⟨hsound, ?_, hscanned.generation_le, hscanned.records_le⟩
  intro s hs
  cases again with
  | none => cases hs
  | some record => exact hscanned.active s hs

/-- A commit puts a record of the next generation into the slot that the store does not remember, or
it leaves there what was there, or nothing. -/
theorem commit (h : Remembers sectorSize r bound) (hbound : bound + 1 < 2 ^ 32) (mapping : Mapping) :
    Remembers sectorSize (Store.commit (quiet sectorSize) mapping r).2 (bound + 1) := by
  by_cases hvalid : mapping.isValid
  · obtain ⟨scanned, hscan, hscanned, -⟩ := h.ensureScanned
    obtain ⟨outcome, f, reads, hrun, hin, hrecord⟩ :=
      Store.commit_losing hvalid hscan hscanned.sound
    have hsound := Store.soundFor_within hin hscanned.sound
    have hnext := toNat_nextGeneration
      (Nat.lt_of_le_of_lt (Nat.succ_le_succ hscanned.generation_le) hbound)
    have hnew : (scanned.store.generation + 1).toNat ≤ bound + 1 :=
      hnext ▸ Nat.succ_le_succ hscanned.generation_le
    have hothers : ∀ s, s ≠ Store.spareSlot scanned.store.active →
        f.nor.record s = scanned.flash.nor.record s := fun s hs => hin.within.record_other hs
    have hrecords := generation_le_of_spare (Nat.le_succ bound) hothers hscanned.records_le
    rw [hrun]
    cases outcome with
    | ok =>
      refine ⟨hsound, ?_, hnew, hrecords fun record hs => ?_⟩
      · rintro _ ⟨⟩
        exact ⟨_, hrecord, rfl⟩
      · cases hrecord.symm.trans hs
        exact hnew
    | error e =>
      refine ⟨hsound, ?_, Nat.le_succ_of_le hscanned.generation_le, hrecords fun record hs => ?_⟩
      · intro s hs
        obtain ⟨record, hold, hgeneration⟩ := hscanned.active s hs
        exact ⟨record, (hothers s (hs ▸ (Store.spareSlot_ne s).symm)).trans hold, hgeneration⟩
      · obtain hnone | hkept | ⟨hwritten, -⟩ := hrecord
        · cases hnone.symm.trans hs
        · exact Nat.le_succ_of_le (hscanned.records_le _ record (hkept ▸ hs))
        · cases hwritten.symm.trans hs
          exact hnew
  · rw [Store.commit_invalid _ hvalid]
    exact h.mono (Nat.le_succ bound)

/-- An acknowledged commit is the stored one, unless the store remembers no slot and has missed a
newer record in the second one. -/
theorem committed (h : Remembers sectorSize r bound) (hbound : bound + 1 < 2 ^ 32)
    {mapping : Mapping} {scanned r' : Rig FaultyFlash} {outcome : Except StoreError Unit}
    (hscan : Store.ensureScanned (quiet sectorSize) r = ((), scanned))
    (hcommit : Store.commit (quiet sectorSize) mapping r = (outcome, r')) :
    (∀ s, s ≠ Store.spareSlot scanned.store.active →
        r'.flash.nor.slotBytes s = r.flash.nor.slotBytes s) ∧
      (outcome = .ok () → storedMapping r'.flash = some mapping ∨
        scanned.store.active = none ∧ ∃ old, r.flash.nor.record 1 = some old ∧
          scanned.store.generation + 1 < old.generation ∧
          storedMapping r'.flash = some old.mapping) := by
  by_cases hvalid : mapping.isValid
  · obtain ⟨_, hrun, hscanned, hslots⟩ := h.ensureScanned
    cases hscan.symm.trans hrun
    obtain ⟨outcome, f, reads, hrun, hin, hrecord⟩ :=
      Store.commit_losing hvalid hscan hscanned.sound
    cases hcommit.symm.trans hrun
    refine ⟨fun s hs => (hin.within.others s hs).trans (congrFun hslots s), ?_⟩
    rintro rfl
    have hothers : ∀ s, s ≠ Store.spareSlot scanned.store.active →
        f.nor.record s = r.flash.nor.record s := fun s hs =>
      (hin.within.record_other hs).trans (congrArg Record.parse? (congrFun hslots s))
    have hlater : scanned.store.generation < scanned.store.generation + 1 :=
      lt_nextGeneration (Nat.lt_of_le_of_lt (Nat.succ_le_succ hscanned.generation_le) hbound)
    by_cases hmissed : scanned.store.active = none ∧ ∃ old, r.flash.nor.record 1 = some old ∧
        scanned.store.generation + 1 < old.generation
    · obtain ⟨hnone, old, hold, hnewer⟩ := hmissed
      refine .inr ⟨hnone, old, hold, hnewer, ?_⟩
      rw [hnone] at hrecord hothers
      have hnewest : newest f.nor.record = some (1, old) := by
        rw [newest_eq, hothers 1 (by decide), hold, show f.nor.record 0 = _ from hrecord]
        exact if_pos hnewer
      exact congrArg (Option.map _) hnewest
    · left
      refine congrArg (Option.map _) (newest_of_committed rfl hothers hrecord hlater ?_ ?_)
      · intro s hs
        obtain ⟨record, hold, hgeneration⟩ := hscanned.active s hs
        exact ⟨record, (congrArg Record.parse? (congrFun hslots s)).symm.trans hold, hgeneration⟩
      · intro hnone old hold
        exact UInt32.not_lt.1 fun hnewer => hmissed ⟨hnone, old, hold, hnewer⟩
  · rw [Store.commit_invalid _ hvalid] at hcommit
    cases hcommit
    exact ⟨fun _ _ => rfl, by simp⟩

end Remembers

namespace Store

variable {sectorSize : UInt32}

/-- What a program asks of its store, while any calls to the flash can be made to fail. -/
inductive Request where
  | faults (coming : Faults) (lost : FailurePlan)
  | load
  | activeSlot
  | generation
  | commit (mapping : Mapping)

def Request.serve (sectorSize : UInt32) (r : Rig FaultyFlash) : Request → Rig FaultyFlash
  | .faults coming lost => { r with flash := (r.flash.under coming).losing lost }
  | .load => (Store.load (quiet sectorSize) r).2
  | .activeSlot => (Store.activeSlot (quiet sectorSize) r).2
  | .generation => (Store.currentGeneration (quiet sectorSize) r).2
  | .commit mapping => (Store.commit (quiet sectorSize) mapping r).2

def Request.isCommit : Request → Bool
  | .commit _ => true
  | _ => false

def serveAll (sectorSize : UInt32) (requests : List Request) (r : Rig FaultyFlash) :
    Rig FaultyFlash :=
  requests.foldl (Request.serve sectorSize) r

/-- One request keeps what the store remembers true; only a commit makes a newer record. -/
theorem Request.serve_remembers {r : Rig FaultyFlash} {bound : Nat} (request : Request)
    (h : Remembers sectorSize r bound) (hbound : bound + 1 < 2 ^ 32) :
    Remembers sectorSize (request.serve sectorSize r)
      (bound + if request.isCommit then 1 else 0) := by
  cases request with
  | faults coming lost => exact h.under coming lost
  | load => exact h.load
  | activeSlot => exact h.scanned
  | generation => exact h.scanned
  | commit mapping => exact h.commit hbound mapping

theorem serveAll_remembers {requests : List Request} {r : Rig FaultyFlash} {bound : Nat}
    (h : Remembers sectorSize r bound)
    (hbound : bound + requests.countP (·.isCommit) + 1 < 2 ^ 32) :
    Remembers sectorSize (serveAll sectorSize requests r)
      (bound + requests.countP (·.isCommit)) := by
  induction requests generalizing r bound with
  | nil => exact h
  | cons request rest ih =>
    rw [List.countP_cons, Nat.add_comm (rest.countP _), ← Nat.add_assoc] at hbound ⊢
    exact ih (request.serve_remembers h (by omega)) hbound

theorem activeSlot_healthy (r : Rig FaultyFlash) (hr : SoundFor sectorSize (r.flash.losing {})) :
    (activeSlot (quiet sectorSize) { r with flash := r.flash.healthy, store := {} }).1 =
      (newest r.flash.nor.record).map (·.1) := by
  obtain ⟨f, hrun, -⟩ := ensureScanned_run slotReads_quiet
    { r with flash := r.flash.healthy, store := {} } (soundFor_under hr {} {})
  rw [activeSlot_run, hrun]
  rfl

/-- A commit after any run writes only to the slot that the store does not remember. Acknowledged, it
is the stored one, unless the store remembers no slot and has missed a newer record in the second
one. A store that remembers the slot that a new store would choose always spares it. -/
theorem load_after_unread_slots {r : Rig FaultyFlash} (hnew : r.store = {})
    (hflash : SoundFor sectorSize r.flash) {requests : List Request}
    (hgenerations : newestGeneration r.flash + requests.countP (·.isCommit) + 1 < 2 ^ 32)
    {before scanned r' : Rig FaultyFlash} (hbefore : serveAll sectorSize requests r = before)
    (hscan : ensureScanned (quiet sectorSize) before = ((), scanned))
    {mapping : Mapping} {outcome : Except StoreError Unit}
    (hcommit : commit (quiet sectorSize) mapping before = (outcome, r')) :
    let chosen := (activeSlot (quiet sectorSize)
      { before with flash := before.flash.healthy, store := {} }).1
    let later := (load (quiet sectorSize) { r' with flash := r'.flash.healthy, store := {} }).1
    (∀ s, s ≠ spareSlot scanned.store.active →
        r'.flash.nor.slotBytes s = before.flash.nor.slotBytes s) ∧
      (outcome = .ok () → later = some mapping ∨
        scanned.store.active = none ∧ ∃ old, before.flash.nor.record 1 = some old ∧
          scanned.store.generation + 1 < old.generation ∧ later = some old.mapping) ∧
      (scanned.store.active = chosen →
        (∀ s, chosen = some s → r'.flash.nor.slotBytes s = before.flash.nor.slotBytes s) ∧
        (outcome = .ok () → later = some mapping)) := by
  have hremembers := serveAll_remembers (Remembers.new hnew ⟨hflash.1.losing, hflash.2⟩)
    hgenerations
  rw [hbefore] at hremembers
  have hafter := hremembers.commit hgenerations mapping
  rw [hcommit] at hafter
  obtain ⟨hkept, hdone⟩ := hremembers.committed hgenerations hscan hcommit
  dsimp only
  rw [activeSlot_healthy before hremembers.sound, load_healthy r' hafter.sound]
  refine ⟨hkept, hdone, fun hagree => ⟨?_, ?_⟩⟩
  · intro s hs
    exact hkept s (by rw [hagree, hs]; exact (spareSlot_ne s).symm)
  · intro hok
    obtain hstored | ⟨hnone, old, hold, -⟩ := hdone hok
    · exact hstored
    · obtain ⟨found, hfound, -⟩ := generation_le_newest hold
      rw [hagree, hfound] at hnone
      cases hnone

/-- Two records, and then a scan that cannot read the newer one. -/
def halfRead : List Request :=
  [.commit ⟨1000, 0.001⟩, .commit ⟨2000, 0.001⟩, .faults {} { failing := [1] }, .load]

theorem load_after_halfRead : ∃ r',
    commit (quiet 32) ⟨3000, 0.001⟩ (serveAll 32 halfRead blankRig) = (.ok (), r') ∧
      (load (quiet 32) { r' with flash := r'.flash.healthy, store := {} }).1 =
        some ⟨3000, 0.001⟩ := by
  have hdone : (commit (quiet 32) ⟨3000, 0.001⟩ (serveAll 32 halfRead blankRig)).1 = .ok () ∧
      (ensureScanned (quiet 32) (serveAll 32 halfRead blankRig)).2.store.active = some 0 := by
    decide +kernel
  rcases hscan : ensureScanned (quiet 32) (serveAll 32 halfRead blankRig) with ⟨_, scanned⟩
  rcases hcommit : commit (quiet 32) ⟨3000, 0.001⟩ (serveAll 32 halfRead blankRig) with
    ⟨outcome, r'⟩
  rw [hscan, hcommit] at hdone
  obtain ⟨rfl, hactive⟩ : outcome = .ok () ∧ scanned.store.active = some 0 := hdone
  refine ⟨r', rfl, ?_⟩
  obtain ⟨-, hstored, -⟩ :=
    load_after_unread_slots rfl soundFor_blankRig (by decide +kernel) rfl hscan hcommit
  obtain hstored | ⟨hnone, -⟩ := hstored rfl
  · exact hstored
  · cases hactive.symm.trans hnone

/-- Two records under a new store. If no slot can be read, a commit is acknowledged that is not the
stored one; if only the newer record cannot be read, a commit writes over it. -/
theorem commit_over_unread_slots :
    let two := serveAll 32 [.commit ⟨1000, 0.001⟩, .commit ⟨2000, 0.001⟩] blankRig
    let blind := serveAll 32 [.faults {} { failing := [0, 1] }, .activeSlot]
      { two with store := {} }
    let half := serveAll 32 [.faults {} { failing := [1] }, .activeSlot] { two with store := {} }
    let lost := commit (quiet 32) ⟨3000, 0.001⟩ blind
    let erased := commit (quiet 32) ⟨3000, 0.001⟩ half
    (lost.1 = .ok () ∧
      (load (quiet 32) { lost.2 with flash := lost.2.flash.healthy, store := {} }).1 =
        some ⟨2000, 0.001⟩) ∧
    erased.1 = .ok () ∧
      (activeSlot (quiet 32) { half with flash := half.flash.healthy, store := {} }).1 = some 1 ∧
      half.flash.nor.record 1 = some ⟨2, ⟨2000, 0.001⟩⟩ ∧
      erased.2.flash.nor.record 1 = some ⟨2, ⟨3000, 0.001⟩⟩ := by
  decide +kernel

end Store

end LoadCell
