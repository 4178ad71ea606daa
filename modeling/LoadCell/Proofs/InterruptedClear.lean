import LoadCell.Proofs.UnreadSlots

/-!
What an interrupted clearing leaves. The slots are erased one after the other, whichever holds the
newest record. If that record is lost while the one it replaced stays, a store made later loads the
replaced one.
-/
namespace LoadCell

open FaultyFlash NorFlash

namespace NorFlash

/-- A budget runs out before an erase stops. -/
theorem budget_of_eraseBytes {f : NorFlash} {place count : Nat}
    (h : (f.eraseBytes place count).1 = false) : (f.eraseBytes place count).2.budget = some 0 := by
  induction count generalizing f place with
  | zero => cases h
  | succ count ih =>
    unfold eraseBytes at h ⊢
    split at h
    next paid hpaid =>
      exact ih h
    next dead hdead =>
      unfold spend at hdead
      split at hdead
      next hempty =>
        cases hdead
        exact hempty
      next => cases hdead
      next => cases hdead

/-- Without any budget left nothing is erased. -/
theorem erase_without_budget {f : NorFlash} (h : f.budget = some 0) (offset length : Nat) :
    (f.erase offset length).2.cells = f.cells := by
  unfold erase
  split
  next => rfl
  next =>
    cases length with
    | zero => rfl
    | succ count => simp [eraseBytes, spend, h]

/-- A sector that can be erased is refused only by a cut. -/
theorem erase_slot_cut {f : NorFlash} (hf : f.TwoSlots) (t : Slot)
    (h : (f.erase (f.slotStart t) f.sectorSize.toNat).1 = false) :
    (f.erase (f.slotStart t) f.sectorSize.toNat).2.budget = some 0 := by
  have hrange : f.inRange (f.slotStart t) f.sectorSize.toNat = true :=
    decide_eq_true (hf.slot_le t)
  have haligned : f.slotStart t % f.sectorSize.toNat = 0 := Nat.mul_mod_left _ _
  unfold erase at h ⊢
  simp only [hrange, haligned, Nat.mod_self] at h ⊢
  exact budget_of_eraseBytes h

end NorFlash

namespace FaultyFlash

/-- While no erase is going to be refused and no byte is stuck, an erase is that of the cells. -/
theorem erase_unrefused {f f' : FaultyFlash} (hstuck : f.stuck = [])
    (hplan : f.erasePlan.failing = []) {offset length : Nat} {erased : Bool}
    (h : f.erase offset length = (erased, f')) :
    f.nor.erase offset length = (erased, f'.nor) ∧ f'.stuck = [] ∧ f'.erasePlan.failing = [] := by
  simp only [FaultyFlash.erase, changing, permit, plan, setPlan, settle, hstuck, hplan] at h
  cases h
  exact ⟨rfl, rfl, rfl⟩

/-- After an erase of a slot was cut, another one changes nothing. -/
theorem erase_after_cut {f f' f'' : FaultyFlash} (hf : f.Sound) (hplan : f.erasePlan.failing = [])
    {t : Slot} (hcut : f.erase (f.nor.slotStart t) f.nor.sectorSize.toNat = (false, f'))
    {offset length : Nat} {erased : Bool} (hagain : f'.erase offset length = (erased, f'')) :
    f''.nor.cells = f'.nor.cells := by
  obtain ⟨hfirst, hstuck, hplan'⟩ := erase_unrefused hf.unstuck hplan hcut
  obtain ⟨hsecond, -⟩ := erase_unrefused hstuck hplan' hagain
  have hspent := erase_slot_cut hf.twoSlots t (congrArg Prod.fst hfirst)
  rw [hfirst] at hspent
  have hkept := erase_without_budget hspent offset length
  rwa [hsecond] at hkept

end FaultyFlash

/-- The record that the newest one has replaced. -/
def replaced (records : Slot → Option Record) : Option Record :=
  (newest records).bind fun found => records (Store.spareSlot (some found.1))

/-- Where slots can only be emptied, the newest record stays or none is left, unless just its slot
was emptied. -/
theorem newest_of_emptied {records records' : Slot → Option Record}
    (h : ∀ s, records' s = none ∨ records' s = records s) :
    newest records' = newest records ∨ newest records' = none ∨
      ∃ found old, newest records = some found ∧ replaced records = some old ∧
        records' found.1 = none ∧
        newest records' = some (Store.spareSlot (some found.1), old) := by
  have hslots : ∀ s t : Slot, s = t ∨ s = Store.spareSlot (some t) := by decide
  match hnew : newest records with
  | none => exact .inl (newest_eq_none fun s => (h s).elim id (·.trans (eq_none_of_newest hnew s)))
  | some found =>
    rcases h found.1 with hlost | hkept
    · right
      have hothers : ∀ s, s ≠ Store.spareSlot (some found.1) → records' s = none := by
        intro s hs
        obtain rfl := (hslots s found.1).resolve_right hs
        exact hlost
      rcases hspare : records' (Store.spareSlot (some found.1)) with _ | old
      · left
        refine newest_eq_none fun s => ?_
        by_cases hs : s = Store.spareSlot (some found.1)
        · exact hs ▸ hspare
        · exact hothers s hs
      · right
        have hold : records (Store.spareSlot (some found.1)) = some old := by
          rcases h (Store.spareSlot (some found.1)) with hnone | hsame
          · cases hnone.symm.trans hspare
          · exact hsame.symm.trans hspare
        have hreplaced : replaced records = some old := by
          rw [replaced, hnew]
          exact hold
        exact ⟨found, old, rfl, hreplaced, hlost, newest_of_single hspare hothers⟩
    · left
      rw [← hnew]
      refine newest_of_spared (by rw [hnew, Option.map_some]) ?_ (h _)
      intro s hs
      obtain rfl := (hslots s found.1).resolve_right hs
      exact hkept

namespace Store

variable {sectorSize : UInt32}

/-- If only a cut can stop the clearing, the second slot is touched only once the first is empty. -/
theorem clear_in_order {r r' : Rig FaultyFlash} {outcome : Except StoreError Unit}
    (hr : SoundFor sectorSize r.flash) (hplan : r.flash.erasePlan.failing = [])
    (hclear : clear (quiet sectorSize) r = (outcome, r')) :
    r'.flash.nor.record 0 = none ∨ r'.flash.nor.record 1 = r.flash.nor.record 1 := by
  obtain ⟨first, second, f₀, f₁, f, h₀, h₁, hrun, hsound₀, -, hrecord⟩ := clear_erases r hr
  cases hclear.symm.trans hrun
  obtain ⟨_, _, hrun₀, hin₀, hok₀, -⟩ := eraseSlot_run r hr 0
  cases h₀.symm.trans hrun₀
  obtain ⟨_, _, hrun₁, hin₁, -⟩ := eraseSlot_run { r with flash := f₀ } hsound₀ 1
  cases h₁.symm.trans hrun₁
  rw [hrecord]
  rcases hfirst : r.flash.erase (r.flash.nor.slotStart 0) r.flash.nor.sectorSize.toNat with
    ⟨erased, f₀'⟩
  cases h₀.symm.trans (eraseSlot_eq hr hfirst)
  cases erased with
  | true =>
    left
    rw [hin₁.record_other (by decide)]
    exact hok₀ rfl
  | false =>
    right
    rcases hsecond : f₀.erase (f₀.nor.slotStart 1) f₀.nor.sectorSize.toNat with ⟨again, f₁'⟩
    cases h₁.symm.trans (eraseSlot_eq hsound₀ hsecond)
    have hcells : f₁.nor.cells = f₀.nor.cells := erase_after_cut hr.1 hplan hfirst hsecond
    have hsame : f₁.nor.record 1 = f₀.nor.record 1 := by
      simp only [record, recordsOf, slotBytes, slotStart, hcells, hin₁.sectorSize]
    exact hsame.trans (hin₀.record_other (by decide))

/-- A clearing that may be cut at any byte and have any erases refused. A new store loads what could
be loaded before, or nothing, or the record that the newest one had replaced: that one if the newest
slot was emptied and the clearing failed on the other. A cut alone does so only from the first slot. -/
theorem load_after_interrupted_clear {r r' : Rig FaultyFlash} {outcome : Except StoreError Unit}
    (hflash : SoundFor sectorSize r.flash)
    (hclear : clear (quiet sectorSize) r = (outcome, r')) :
    let before := (load (quiet sectorSize) r).1
    let later := (load (quiet sectorSize) { r' with flash := r'.flash.healthy, store := {} }).1
    (outcome = .ok () → later = none) ∧
      (later = before ∨ later = none ∨
        ∃ found old, newest r.flash.nor.record = some found ∧
          replaced r.flash.nor.record = some old ∧ r'.flash.nor.record found.1 = none ∧
          outcome ≠ .ok () ∧ later = some old.mapping ∧
          (r.flash.erasePlan.failing = [] → found.1 = 0)) := by
  obtain ⟨_, hbefore, -⟩ := load_run slotReads_quiet r hflash
  obtain ⟨_, f, hrun, hsound, hdone, hkept⟩ := clear_run r hflash
  have horder := fun hplan => clear_in_order hflash hplan hclear
  cases hclear.symm.trans hrun
  dsimp only
  rw [hbefore, load_healthy { r with flash := f } ⟨hsound.1.losing, hsound.2⟩]
  have hnothing (hok : outcome = .ok ()) : newest f.nor.record = none := newest_eq_none (hdone hok)
  refine ⟨fun hok => congrArg (Option.map _) (hnothing hok), ?_⟩
  rcases newest_of_emptied hkept with hsame | hnone | ⟨found, old, hfound, hold, hlost, hnewest⟩
  · exact .inl (congrArg (Option.map _) hsame)
  · exact .inr (.inl (congrArg (Option.map _) hnone))
  · refine .inr (.inr ⟨found, old, hfound, hold, hlost, ?_, congrArg (Option.map _) hnewest, ?_⟩)
    · intro hok
      cases (hnothing hok).symm.trans hnewest
    · intro hplan
      have hspare := newest_eq_some hnewest
      obtain ⟨s, record⟩ := found
      match s with
      | 0 => rfl
      | 1 =>
        -- the first slot still has its record, so the second one was not erased
        rcases horder hplan with hempty | hsecond
        · cases hempty.symm.trans hspare
        · cases hlost.symm.trans (hsecond.trans (newest_eq_some hfound))

/-- Two records, the newest in the second slot, and power for a few bytes. -/
def cutShort : List Request :=
  [.commit ⟨1000, 0.001⟩, .commit ⟨2000, 0.001⟩, .faults { budget := some 5 } {}]

theorem load_after_clear_cut_short :
    let r := serveAll 32 cutShort blankRig
    ∃ outcome r', clear (quiet 32) r = (outcome, r') ∧
      ((load (quiet 32) { r' with flash := r'.flash.healthy, store := {} }).1 =
          (load (quiet 32) r).1 ∨
        (load (quiet 32) { r' with flash := r'.flash.healthy, store := {} }).1 = none) := by
  have hsound : SoundFor 32 (serveAll 32 cutShort blankRig).flash := by
    refine ⟨⟨⟨?_, ?_, ?_⟩, ?_, ?_⟩, ?_⟩ <;> decide +kernel
  have hsecond : (newest (serveAll 32 cutShort blankRig).flash.nor.record).map (·.1) = some 1 := by
    decide +kernel
  have hplan : (serveAll 32 cutShort blankRig).flash.erasePlan.failing = [] := by decide +kernel
  dsimp only
  generalize serveAll 32 cutShort blankRig = r at hsound hsecond hplan ⊢
  rcases hclear : clear (quiet 32) r with ⟨outcome, r'⟩
  refine ⟨outcome, r', rfl, ?_⟩
  obtain ⟨-, hsame | hnone | ⟨found, _, hfound, -, -, -, -, hfirst⟩⟩ :=
    load_after_interrupted_clear hsound hclear
  · exact .inl hsame
  · exact .inr hnone
  · rw [hfound] at hsecond
    cases (hfirst hplan).symm.trans (Option.some.inj hsecond)

/-- Power for just the first slot, with the newest of three records in it, and a refused erase of the
first slot, with the newest of two records in the second one: both bring the older record back. -/
theorem load_replaced_after_clear :
    let three : List Request :=
      [.commit ⟨1000, 0.001⟩, .commit ⟨2000, 0.001⟩, .commit ⟨3000, 0.001⟩]
    let dark := serveAll 32 (three ++ [.faults { budget := some 32 } {}]) blankRig
    let refused := serveAll 32 (three.take 2 ++ [.faults { erases := { failing := [0] } } {}]) blankRig
    let cut := clear (quiet 32) dark
    let half := clear (quiet 32) refused
    ((load (quiet 32) dark).1 = some ⟨3000, 0.001⟩ ∧ cut.1 = .error .fault ∧
      (load (quiet 32) { cut.2 with flash := cut.2.flash.healthy, store := {} }).1 =
        some ⟨2000, 0.001⟩) ∧
    (load (quiet 32) refused).1 = some ⟨2000, 0.001⟩ ∧ half.1 = .error .fault ∧
      (load (quiet 32) { half.2 with flash := half.2.flash.healthy, store := {} }).1 =
        some ⟨1000, 0.001⟩ := by
  decide +kernel

end Store

end LoadCell
