import LoadCell.Proofs.StoreLink

/-!
The store as one durable register. A run mixes commits, reads, clearings, reboots and changes of
the faults; whatever gets cut or refused on the way, loading gives the register.
-/
namespace LoadCell

namespace Store

inductive Event where
  | faults (coming : Faults)
  | commit (mapping : Mapping)
  | load
  | activeSlot
  | generation
  | clear
  | reboot

/-- A store on its flash, and the register that it should be. -/
structure Ledger where
  rig : Rig FaultyFlash
  register : Option Mapping

/-- One event. A clearing that fails promises nothing, so a run ends there. -/
def Event.next (sectorSize : UInt32) (l : Ledger) : Event → Option Ledger
  | .faults coming => some { l with rig := { l.rig with flash := l.rig.flash.under coming } }
  | .commit mapping =>
    let done := Store.commit (quiet sectorSize) mapping l.rig
    some ⟨done.2, afterCommit done.1 mapping l.register⟩
  | .load => some { l with rig := (Store.load (quiet sectorSize) l.rig).2 }
  | .activeSlot => some { l with rig := (Store.activeSlot (quiet sectorSize) l.rig).2 }
  | .generation => some { l with rig := (Store.currentGeneration (quiet sectorSize) l.rig).2 }
  | .clear =>
    match Store.clear (quiet sectorSize) l.rig with
    | (.ok (), rig) => some ⟨rig, none⟩
    | (.error _, _) => none
  | .reboot => some { l with rig := { l.rig with store := {} } }

def run (sectorSize : UInt32) (events : List Event) (l : Ledger) : Option Ledger :=
  events.foldlM (Event.next sectorSize) l

def Event.isCommit : Event → Bool
  | .commit _ => true
  | _ => false

variable {sectorSize : UInt32}

/-- One event keeps the link and the register; only a commit makes a newer record. -/
theorem Event.next_linked {l l' : Ledger} {bound : Nat} {event : Event}
    (h : Linked sectorSize l.rig bound) (hbound : bound + 1 < 2 ^ 32)
    (hregister : storedMapping l.rig.flash = l.register)
    (hnext : event.next sectorSize l = some l') :
    Linked sectorSize l'.rig (bound + if event.isCommit then 1 else 0) ∧
      storedMapping l'.rig.flash = l'.register := by
  cases event with
  | faults coming =>
    cases hnext
    exact ⟨h.under coming, hregister⟩
  | commit mapping =>
    cases hnext
    obtain ⟨hlinked, hstored⟩ := h.commit hbound mapping
    exact ⟨hlinked, hregister ▸ hstored⟩
  | load =>
    cases hnext
    obtain ⟨-, hlinked, hstored⟩ := h.load
    exact ⟨hlinked, hstored.trans hregister⟩
  | activeSlot =>
    cases hnext
    obtain ⟨hlinked, hstored⟩ := h.ensureScanned
    exact ⟨hlinked, hstored.trans hregister⟩
  | generation =>
    cases hnext
    obtain ⟨hlinked, hstored⟩ := h.ensureScanned
    exact ⟨hlinked, hstored.trans hregister⟩
  | clear =>
    obtain ⟨hlinked, hempty⟩ := h.clear
    unfold Event.next at hnext
    rcases hclear : Store.clear (quiet sectorSize) l.rig with ⟨outcome, rig⟩
    rw [hclear] at hnext hlinked hempty
    cases outcome with
    | error e => cases hnext
    | ok =>
      cases hnext
      exact ⟨hlinked, hempty rfl⟩
  | reboot =>
    cases hnext
    exact ⟨h.renewed, hregister⟩

/-- A whole run keeps the link and the register while there are generations left. -/
theorem run_linked {events : List Event} {l l' : Ledger} {bound : Nat}
    (h : Linked sectorSize l.rig bound) (hbound : bound + events.countP (·.isCommit) + 1 < 2 ^ 32)
    (hregister : storedMapping l.rig.flash = l.register)
    (hrun : run sectorSize events l = some l') :
    Linked sectorSize l'.rig (bound + events.countP (·.isCommit)) ∧
      storedMapping l'.rig.flash = l'.register := by
  induction events generalizing l bound with
  | nil =>
    cases hrun
    exact ⟨h, hregister⟩
  | cons event rest ih =>
    obtain ⟨mid, hnext, hrest⟩ := Option.bind_eq_some_iff.1 hrun
    rw [List.countP_cons, Nat.add_comm (rest.countP _), ← Nat.add_assoc] at hbound ⊢
    obtain ⟨hmid, hmidRegister⟩ := event.next_linked h (by omega) hregister hnext
    exact ih hmid hbound hmidRegister hrest

/-- Loading gives the register after any run, by the store that ran and by one made anew. -/
theorem load_after_run {r : Rig FaultyFlash} (hnew : r.store = {})
    (hflash : SoundFor sectorSize r.flash) {events : List Event}
    (hgenerations : newestGeneration r.flash + events.countP (·.isCommit) < 2 ^ 32 - 1)
    {l : Ledger} (hrun : run sectorSize events ⟨r, (load (quiet sectorSize) r).1⟩ = some l) :
    (load (quiet sectorSize) l.rig).1 = l.register ∧
      (load (quiet sectorSize) { l.rig with store := {} }).1 = l.register := by
  have hlinked := Linked.new hnew hflash
  rw [hlinked.load.1] at hrun
  obtain ⟨hend, hregister⟩ := run_linked hlinked (by omega) rfl hrun
  exact ⟨hend.load.1.trans hregister, hend.renewed.load.1.trans hregister⟩

/-- A commit, one that is cut inside its record, and after a reboot one whose erase is refused. -/
def cutRun : List Event :=
  [.commit ⟨1000, 0.001⟩, .faults { budget := some 40 }, .commit ⟨2000, 0.002⟩, .activeSlot,
    .reboot, .faults { erases := { failing := [0] } }, .commit ⟨3000, 0.003⟩]

theorem load_after_cutRun : ∃ l,
    run 32 cutRun ⟨blankRig, (load (quiet 32) blankRig).1⟩ = some l ∧
    l.register.map (·.zeroRaw) = some 1000 ∧ (load (quiet 32) l.rig).1 = l.register ∧
    (load (quiet 32) { l.rig with store := {} }).1 = l.register := by
  have hend : (run 32 cutRun ⟨blankRig, (load (quiet 32) blankRig).1⟩).map
      (·.register.map (·.zeroRaw)) = some (some 1000) := by decide +kernel
  obtain ⟨l, hrun, hregister⟩ := Option.map_eq_some_iff.1 hend
  exact ⟨l, hrun, hregister, load_after_run rfl soundFor_blankRig (by decide +kernel) hrun⟩

end Store

end LoadCell
