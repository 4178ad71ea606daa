import LoadCell.Proofs.ConfinedMedium
import LoadCell.Proofs.StoreCommit

/-!
The flash with all its faults as a medium that cannot be trusted: power cuts, refused calls and
bytes that are stuck.
-/
namespace LoadCell

open NorFlash

namespace FaultyFlash

/-- The bytes that a flash holds. -/
def cells (f : FaultyFlash) : Bytes := f.nor.cells.toList

/-- Two slots, stuck bytes that have their values, and the reads that are going to fail. -/
structure Steady (sectorSize : UInt32) (lost : List Nat) (f : FaultyFlash) : Prop where
  twoSlots : f.nor.TwoSlots
  sectorSize : f.nor.sectorSize = sectorSize
  stuck : ∀ s ∈ f.stuck, s.1 < f.nor.cells.size → f.nor.cells[s.1]? = some s.2
  reads : f.readPlan.failing = lost

/-- Bytes that are stuck at their old values get them back. -/
theorem foldl_change_cell {old : NorFlash} (stuck : List (Nat × UInt8)) (nor : NorFlash)
    (hsize : nor.cells.size = old.cells.size)
    (hold : ∀ s ∈ stuck, s.1 < old.cells.size → old.cells[s.1]? = some s.2) :
    let settled := stuck.foldl (fun nor s => nor.change s.1 fun _ => s.2) nor
    settled.sectorSize = nor.sectorSize ∧ settled.cells.size = nor.cells.size ∧
      ∀ i, settled.cells[i]? =
        if i ∈ stuck.map (·.1) then old.cells[i]? else nor.cells[i]? := by
  induction stuck generalizing nor with
  | nil => exact ⟨rfl, rfl, fun i => by simp⟩
  | cons s rest ih =>
    have hsize' : (nor.change s.1 fun _ => s.2).cells.size = nor.cells.size :=
      Array.size_modify
    obtain ⟨hsector, hcells, hbyte⟩ := ih (nor.change s.1 fun _ => s.2) (hsize'.trans hsize)
      fun t ht => hold t (List.mem_cons_of_mem _ ht)
    refine ⟨hsector, hcells.trans hsize', fun i => ?_⟩
    rw [List.foldl_cons, hbyte]
    simp only [change, Array.getElem?_modify, List.map_cons, List.mem_cons]
    by_cases hrest : i ∈ rest.map (·.1)
    · rw [if_pos hrest, if_pos (.inr hrest)]
    rw [if_neg hrest]
    by_cases hi : s.1 = i
    · rw [if_pos hi, if_pos (.inl hi.symm), ← hi]
      by_cases hin : s.1 < old.cells.size
      · rw [hold s (List.mem_cons_self ..) hin, Array.getElem?_eq_getElem (by omega)]
        rfl
      · rw [Array.getElem?_eq_none (by omega), Array.getElem?_eq_none (by omega)]
        rfl
    · rw [if_neg hi, if_neg (by rintro (h | h); exacts [hi h.symm, hrest h])]

variable {sectorSize : UInt32} {lost : List Nat} {f : FaultyFlash}

/-- A call that changes cells stays in its range, whatever it reports. -/
private theorem changing_confined (hf : f.Steady sectorSize lost) {call : FlashCall}
    (hcall : call ≠ .read) (act : NorFlash → Bool × NorFlash) {place bound k : Nat}
    {g : Nat → UInt8 → UInt8} (hle : k ≤ bound) (hact : Patched f.nor (act f.nor).2 place k g) :
    (f.changing call act).2.Steady sectorSize lost ∧
      f.cells.SameOutside (f.changing call act).2.cells place bound := by
  have hplan (plan : FailurePlan) : (f.setPlan call plan).nor = f.nor ∧
      (f.setPlan call plan).stuck = f.stuck ∧
      (f.setPlan call plan).readPlan.failing = lost := by
    cases call with
    | read => exact absurd rfl hcall
    | write => exact ⟨rfl, rfl, hf.reads⟩
    | erase => exact ⟨rfl, rfl, hf.reads⟩
  obtain ⟨hnor, hstuck, hreads⟩ := hplan { f.plan call with next := (f.plan call).next + 1 }
  unfold changing permit
  dsimp only
  cases (f.plan call).failing.contains (f.plan call).next with
  | true =>
    refine ⟨⟨?_, ?_, ?_, hreads⟩, ?_⟩
    · simpa [hnor] using hf.twoSlots
    · simpa [hnor] using hf.sectorSize
    · simpa [hnor, hstuck] using hf.stuck
    · simp only [FaultyFlash.cells, Bool.not_true, hnor]
      exact ⟨rfl, fun _ _ => rfl⟩
  | false =>
    simp only [settle, hnor, hstuck, Bool.not_false]
    obtain ⟨hsector, hsize, hbyte⟩ := foldl_change_cell f.stuck (act f.nor).2 hact.size hf.stuck
    have hsector' := hsector.trans hact.sectorSize
    have hsize' := hsize.trans hact.size
    refine ⟨⟨⟨?_, ?_, ?_⟩, ?_, ?_, hreads⟩, ?_, ?_⟩
    · exact hsector' ▸ hf.twoSlots.sector
    · exact hsector' ▸ hsize' ▸ hf.twoSlots.sectors
    · exact hsize' ▸ hf.twoSlots.addressed
    · exact hsector'.trans hf.sectorSize
    · intro s hs hin
      rw [hbyte, if_pos (List.mem_map_of_mem hs)]
      exact hf.stuck s hs (hsize' ▸ hin)
    · simpa [FaultyFlash.cells] using hsize'
    · intro i hi
      have hout : ¬(place ≤ i ∧ i < place + k) := by omega
      simp only [FaultyFlash.cells, Array.getElem?_toList, hbyte, hact.cell]
      rw [if_neg hout, ite_self]

end FaultyFlash

open FaultyFlash

variable {sectorSize : UInt32} {lost : List Nat}

theorem confined_quiet (hsector : Record.size ≤ sectorSize.toNat) :
    Confined (quiet sectorSize) FaultyFlash.cells (Steady sectorSize lost) where
  sector := hsector
  sectors r hr := ⟨r.flash.nor.sectorCount, rfl, slotCount_le hr.twoSlots⟩
  size f hf := by
    rw [quiet_sectorSize, ← hf.sectorSize]
    simpa [FaultyFlash.cells] using hf.twoSlots.sectors
  addressed f hf := by simpa [FaultyFlash.cells] using hf.twoSlots.addressed.le
  read r offset length hr hin := by
    refine ⟨_, _, quiet_read .., ?_⟩
    unfold FaultyFlash.read permit
    dsimp only
    cases (r.flash.plan .read).failing.contains (r.flash.plan .read).next with
    | true => exact ⟨⟨hr.twoSlots, hr.sectorSize, hr.stuck, hr.reads⟩, rfl, by simp⟩
    | false =>
      refine ⟨⟨hr.twoSlots, hr.sectorSize, hr.stuck, hr.reads⟩, rfl, ?_⟩
      intro bytes hbytes
      have hin' : offset.toNat + length ≤ r.flash.nor.cells.size := by simpa [FaultyFlash.cells] using hin
      simp only [setPlan, NorFlash.read, inRange, hin', Bool.not_false, decide_true,
        ↓reduceIte, Option.some.injEq] at hbytes
      rw [← hbytes]
      simp [Bytes.slice, FaultyFlash.cells]
  erase r offset length hr := by
    obtain ⟨k, hreached, hpatch⟩ := r.flash.nor.erase_patched offset.toNat length
    exact ⟨_, _, quiet_erase .., changing_confined hr (by decide) _ hreached.le hpatch⟩
  write r offset bytes hr := by
    obtain ⟨k, hreached, hpatch⟩ := r.flash.nor.write_patched offset.toNat bytes
    exact ⟨_, _, quiet_write .., changing_confined hr (by decide) _ hreached.le hpatch⟩

theorem readable_quiet : Readable (quiet sectorSize) FaultyFlash.cells (Steady sectorSize []) := by
  intro r offset length hr hin
  have hin' : offset.toNat + length ≤ r.flash.nor.cells.size := by simpa [FaultyFlash.cells] using hin
  simp [FaultyFlash.read, permit, plan, hr.reads, setPlan, NorFlash.read, inRange, hin']

end LoadCell
