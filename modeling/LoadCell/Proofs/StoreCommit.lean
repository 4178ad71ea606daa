import LoadCell.Proofs.FlashCells
import LoadCell.Proofs.RecordWrite
import LoadCell.Proofs.StoreScan

/-!
What a commit and a clearing leave on a flash that may be cut at any byte. The slot that is written
ends up with the whole record, with none, or as it was; the other slot is never touched.
-/
namespace LoadCell

open FaultyFlash NorFlash

/-- The flash of a rig as a medium in which nothing else runs. -/
def quiet (sectorSize : UInt32) : Medium (Rig FaultyFlash) :=
  FaultyFlash.medium sectorSize fun _ => return ()

/-- A sound flash with sectors of a given size. -/
def SoundFor (sectorSize : UInt32) (f : FaultyFlash) : Prop :=
  f.Sound ∧ f.nor.sectorSize = sectorSize

section

variable {sectorSize : UInt32}

@[simp] theorem quiet_sectorSize : (quiet sectorSize).sectorSize = sectorSize := rfl

@[simp] theorem quiet_read (offset : UInt32) (length : Nat) (r : Rig FaultyFlash) :
    (quiet sectorSize).read offset length r = ((r.flash.read offset.toNat length).1,
      { r with flash := (r.flash.read offset.toNat length).2 }) := rfl

@[simp] theorem quiet_erase (offset : UInt32) (length : Nat) (r : Rig FaultyFlash) :
    (quiet sectorSize).erase offset length r = ((r.flash.erase offset.toNat length).1,
      { r with flash := (r.flash.erase offset.toNat length).2 }) := rfl

@[simp] theorem quiet_write (offset : UInt32) (bytes : Bytes) (r : Rig FaultyFlash) :
    (quiet sectorSize).write offset bytes r = ((r.flash.write offset.toNat bytes).1,
      { r with flash := (r.flash.write offset.toNat bytes).2 }) := rfl

@[simp] theorem quiet_sectorCount (r : Rig FaultyFlash) :
    (quiet sectorSize).sectorCount r = (r.flash.nor.sectorCount, r) := rfl

theorem offset_toNat {f : FaultyFlash} (hf : SoundFor sectorSize f) (t : Slot) :
    (Store.offset (quiet sectorSize) t).toNat = f.nor.slotStart t := by
  have hend := hf.1.twoSlots.slot_le t
  have haddressed := hf.1.twoSlots.addressed
  unfold slotStart at *
  rw [hf.2] at *
  exact Store.toNat_offset (quiet sectorSize) t (by rw [quiet_sectorSize]; omega)

theorem slotCount_le {f : NorFlash} (hf : f.TwoSlots) : Store.slotCount ≤ f.sectorCount := by
  have hsector := hf.sector
  have hle : f.cells.size / f.sectorSize.toNat < 2 ^ 32 :=
    Nat.lt_of_le_of_lt (Nat.div_le_self _ _) hf.addressed
  have htwo : 2 ≤ f.cells.size / f.sectorSize.toNat :=
    (Nat.le_div_iff_mul_le (by unfold Record.size at hsector; omega)).2 hf.sectors
  rw [UInt32.le_iff_toNat_le, sectorCount, UInt32.toNat_ofNat', Nat.mod_eq_of_lt hle]
  exact htwo

theorem slotReads_quiet :
    SlotReads (quiet sectorSize) (fun f => f.nor.slotBytes) (SoundFor sectorSize) where
  sectors r hr := ⟨r.flash.nor.sectorCount, rfl, slotCount_le hr.1.twoSlots⟩
  read r s hr := by
    obtain ⟨f, hread, hsound, hnor⟩ := read_slot hr.1 s
    refine ⟨f, ?_, ⟨hsound, hnor ▸ hr.2⟩, by rw [hnor]⟩
    rw [quiet_read, offset_toNat hr, hread]

end

namespace Store

variable {sectorSize : UInt32}

theorem soundFor_within {f f' : FaultyFlash} {t : Slot} {reads : Nat}
    (h : ReadingWithin f f' t reads) (hf : SoundFor sectorSize (f.losing {})) :
    SoundFor sectorSize (f'.losing {}) :=
  ⟨h.within.sound, h.within.sectorSize.trans hf.2⟩

/-- The body of a record gets into an erased slot, or there is no record in the slot. -/
theorem write_body {f : FaultyFlash} (hf : (f.losing {}).Sound) {t : Slot} (record : Record)
    (h : f.nor.Filled t []) :
    let r := f.write (f.nor.slotStart t) record.body
    ReadingWithin f r.2 t 0 ∧ (r.1 = true → r.2.nor.Filled t record.body) ∧
      (r.1 = false → r.2.nor.record t = none) := by
  obtain ⟨hin, k, hk, hfill⟩ := write_slot_losing hf t [] record.body (by
    rw [List.length_nil, Record.length_body]; decide) h
  rw [List.nil_append] at hfill
  refine ⟨hin, ?_, ?_⟩
  · intro hok
    rw [hk.all hok, List.take_length] at hfill
    exact hfill
  · intro _
    apply hfill.record_none
    rw [List.length_take, Record.length_body]
    exact Nat.lt_of_le_of_lt (Nat.min_le_right _ _) (by decide)

/-- The commit word completes the record behind its body, or there is no record in the slot. -/
theorem write_commitWord {f : FaultyFlash} (hf : (f.losing {}).Sound) {t : Slot} {record : Record}
    (h : f.nor.Filled t record.body) :
    let r := f.write (f.nor.slotStart t + Record.bodySize) Record.commitWord
    ReadingWithin f r.2 t 0 ∧ (r.1 = true → r.2.nor.slotBytes t = record.encode) ∧
      (r.1 = false → r.2.nor.record t = none) := by
  have hcommit := Record.length_commitWord
  obtain ⟨hin, k, hk, hfill⟩ := write_slot_losing hf t record.body Record.commitWord (by
    rw [Record.length_body, hcommit]; decide) h
  rw [Record.length_body] at hin hk hfill
  refine ⟨hin, ?_, ?_⟩
  · intro hok
    rw [hk.all hok, List.take_length, ← Record.encode_layout] at hfill
    rw [hfill, Record.length_encode, Nat.sub_self]
    exact List.append_nil _
  · intro hcut
    have hlt := hk.cut hcut (by decide)
    apply hfill.record_none
    rw [List.length_append, List.length_take, Record.length_body]
    unfold Record.size Record.bodySize at *
    omega

section Losing

variable {r r' : Rig FaultyFlash} (hr : SoundFor sectorSize (r.flash.losing {})) {t : Slot}
  {record : Record}
include hr

theorem erase_run {ok : Bool}
    (herase : (quiet sectorSize).erase (offset (quiet sectorSize) t) sectorSize.toNat r =
      (ok, r')) :
    ∃ f, r' = { r with flash := f } ∧ ReadingWithin r.flash f t 0 ∧
      (ok = true → f.nor.Filled t []) ∧
      (f.nor.record t = none ∨ f.nor.record t = r.flash.nor.record t) := by
  have hrun := erase_slot_losing hr.1 t
  rw [quiet_erase, offset_toNat hr, ← hr.2] at herase
  cases herase
  exact ⟨_, rfl, hrun⟩

/-- Once the slot is erased there is no record in it until the commit word is written. -/
theorem body_run {r₁ : Rig FaultyFlash} {ok : Bool}
    (herase : (quiet sectorSize).erase (offset (quiet sectorSize) t) sectorSize.toNat r =
      (true, r₁))
    (hwrite : (quiet sectorSize).write (offset (quiet sectorSize) t) record.body r₁ = (ok, r')) :
    ∃ f, r' = { r with flash := f } ∧ ReadingWithin r.flash f t 0 ∧
      (ok = true → f.nor.Filled t record.body) ∧ f.nor.record t = none := by
  obtain ⟨f₁, rfl, hin₁, hblank, -⟩ := erase_run hr herase
  obtain ⟨hin, hfill, hnone⟩ := write_body hin₁.within.sound record (hblank rfl)
  rw [hin₁.slotStart] at hin hfill hnone
  rw [quiet_write, offset_toNat hr] at hwrite
  cases hwrite
  refine ⟨_, rfl, hin₁.trans hin, hfill, ?_⟩
  cases hok : (f₁.write (r.flash.nor.slotStart t) record.body).1 with
  | true => exact (hfill hok).record_none (by rw [Record.length_body]; decide)
  | false => exact hnone hok

theorem look_run {bytes : Option Bytes}
    (hlook : (quiet sectorSize).read (offset (quiet sectorSize) t) Record.size r =
      (bytes, r')) :
    ∃ f, r' = { r with flash := f } ∧ ReadingWithin r.flash f t 1 ∧ f.nor = r.flash.nor ∧
      (bytes = some (r.flash.nor.slotBytes t) ∨
        bytes = none ∧ r.flash.readPlan.next ∈ r.flash.readPlan.failing) := by
  obtain ⟨_, f, hread, hsame, hplan, hanswer⟩ := read_slot_losing hr.1 t
  rw [quiet_read, offset_toNat hr] at hlook
  rw [losing_nor, hread] at hlook
  cases hlook
  have hnor : (f.losing {}).nor = (r.flash.losing {}).nor := congrArg _ hsame
  exact ⟨f, rfl, .of_read hr.1 hsame hplan t, hnor, hanswer⟩

theorem written_run (hbody : BodyWritten (quiet sectorSize) record t r r') :
    ∃ f, r' = { r with flash := f } ∧ ReadingWithin r.flash f t 1 ∧
      f.nor.Filled t record.body := by
  obtain @⟨_, _, _, bytes, herase, hwrite, hlook, -⟩ := hbody
  obtain ⟨f₂, rfl, hin₂, hfill, -⟩ := body_run hr herase hwrite
  obtain ⟨f, rfl, hin, hnor, -⟩ := look_run (r := { r with flash := f₂ })
    (soundFor_within hin₂ hr) hlook
  exact ⟨f, rfl, hin₂.trans hin, hnor ▸ hfill rfl⟩

/-- The commit word makes the record, if it gets there whole. -/
theorem close_run {r₃ : Rig FaultyFlash} {ok : Bool}
    (hbody : BodyWritten (quiet sectorSize) record t r r₃)
    (hclose : (quiet sectorSize).write
      (offset (quiet sectorSize) t + UInt32.ofNat Record.bodySize) Record.commitWord r₃ =
        (ok, r')) :
    ∃ f, r' = { r with flash := f } ∧ ReadingWithin r.flash f t 1 ∧
      (ok = true → f.nor.slotBytes t = record.encode) ∧ (ok = false → f.nor.record t = none) := by
  obtain ⟨f₃, rfl, hin₃, hfill⟩ := written_run hr hbody
  obtain ⟨hin, hfull, hnone⟩ := write_commitWord hin₃.within.sound hfill
  rw [hin₃.slotStart] at hin hfull hnone
  have hword : (offset (quiet sectorSize) t + UInt32.ofNat Record.bodySize).toNat =
      r.flash.nor.slotStart t + Record.bodySize := by
    have hend := Nat.le_trans (Nat.add_le_add_left hr.1.twoSlots.sector _)
      (hr.1.twoSlots.slot_le t)
    have haddressed := hr.1.twoSlots.addressed
    unfold slotStart at *
    rw [hr.2] at hend
    rw [← losing_nor r.flash {}, hr.2]
    exact toNat_commitOffset (quiet sectorSize) t (by rw [quiet_sectorSize]; omega)
  rw [quiet_write, hword] at hclose
  cases hclose
  exact ⟨_, rfl, hin₃.trans hin, hfull, hnone⟩

theorem confirm_run {found : Option Record}
    (hconfirm : readSlot (quiet sectorSize) t r = (found, r')) :
    ∃ f, r' = { r with flash := f } ∧ ReadingWithin r.flash f t 1 ∧ f.nor = r.flash.nor ∧
      (found = r.flash.nor.record t ∨
        found = none ∧ r.flash.readPlan.next ∈ r.flash.readPlan.failing) := by
  rcases hlook : (quiet sectorSize).read (offset (quiet sectorSize) t) Record.size r with
    ⟨bytes, r''⟩
  obtain ⟨f, rfl, hin, hnor, hbytes⟩ := look_run hr hlook
  rw [readSlot, bind_run, hlook] at hconfirm
  obtain rfl | ⟨rfl, hrefused⟩ := hbytes
  · cases hconfirm
    exact ⟨f, rfl, hin, hnor, .inl rfl⟩
  · simp only [bind_run, debug_run, pure_run] at hconfirm
    cases hconfirm
    exact ⟨f, rfl, hin, hnor, .inr ⟨rfl, hrefused⟩⟩

end Losing

/-- A write into a slot puts the whole record there, or it fails and leaves the former record or
none. Only if the last look at the slot is refused, it fails with the whole record there. -/
theorem writeRecord_losing (r : Rig FaultyFlash) (hr : SoundFor sectorSize (r.flash.losing {}))
    (record : Record) (hvalid : record.mapping.isValid) (t : Slot) :
    ∃ (outcome : Except StoreError Unit) (f : _) (reads : Nat),
      writeRecord (quiet sectorSize) record t r = (outcome, { r with flash := f }) ∧
      ReadingWithin r.flash f t reads ∧
      match outcome with
      | .ok () => f.nor.record t = some record
      | .error _ => f.nor.record t = none ∨ f.nor.record t = r.flash.nor.record t ∨
          f.nor.record t = some record ∧ r.flash.readPlan.next + 1 ∈ r.flash.readPlan.failing := by
  have hcomplete {f : FaultyFlash} (hfull : f.nor.slotBytes t = record.encode) :
      f.nor.record t = some record := by
    rw [NorFlash.record, recordsOf, hfull, Record.parse?_encode hvalid]
  have hend := writeRecord_ends (quiet sectorSize) record t r
  generalize writeRecord (quiet sectorSize) record t r = ended at hend ⊢
  obtain ⟨outcome, r'⟩ := ended
  cases hend with
  | notErased herase =>
    obtain ⟨f, rfl, hin, -, hold⟩ := erase_run hr herase
    exact ⟨_, f, _, rfl, hin, hold.imp_right .inl⟩
  | notWritten herase hwrite =>
    obtain ⟨f, rfl, hin, -, hnone⟩ := body_run hr herase hwrite
    exact ⟨_, f, _, rfl, hin, .inl hnone⟩
  | notVerified herase hwrite hlook =>
    obtain ⟨f₂, rfl, hin₂, -, hnone⟩ := body_run hr herase hwrite
    obtain ⟨f, rfl, hin, hnor, -⟩ := look_run (r := { r with flash := f₂ })
      (soundFor_within hin₂ hr) hlook
    exact ⟨_, f, _, rfl, hin₂.trans hin, .inl (hnor ▸ hnone)⟩
  | notClosed hbody hclose =>
    obtain ⟨f, rfl, hin, -, hnone⟩ := close_run hr hbody hclose
    exact ⟨_, f, _, rfl, hin, .inl (hnone rfl)⟩
  | notConfirmed hbody hclose hconfirm hother =>
    obtain ⟨f₄, rfl, hin₄, hfull, -⟩ := close_run hr hbody hclose
    obtain ⟨f, rfl, hin, hnor, hfound⟩ := confirm_run (r := { r with flash := f₄ })
      (soundFor_within hin₄ hr) hconfirm
    have hrecord := hcomplete (hfull rfl)
    obtain rfl | ⟨-, hrefused⟩ := hfound
    · exact absurd (congrArg (Option.map _) hrecord) hother
    · rw [show f₄.readPlan = _ from hin₄.plan] at hrefused
      exact ⟨_, f, _, rfl, hin₄.trans hin, .inr (.inr ⟨hnor ▸ hrecord, hrefused⟩)⟩
  | done hbody hclose hconfirm =>
    obtain ⟨f₄, rfl, hin₄, hfull, -⟩ := close_run hr hbody hclose
    obtain ⟨f, rfl, hin, hnor, -⟩ := confirm_run (r := { r with flash := f₄ })
      (soundFor_within hin₄ hr) hconfirm
    exact ⟨_, f, _, rfl, hin₄.trans hin, hnor ▸ hcomplete (hfull rfl)⟩

/-- A commit writes its record into the spare slot. A failed one leaves it there only if the last
look at it was refused. -/
theorem commit_losing {r scanned : Rig FaultyFlash} {mapping : Mapping} (hvalid : mapping.isValid)
    (hscan : ensureScanned (quiet sectorSize) r = ((), scanned))
    (hflash : SoundFor sectorSize (scanned.flash.losing {})) :
    let t := spareSlot scanned.store.active
    let record : Record := ⟨scanned.store.generation + 1, mapping⟩
    ∃ (outcome : Except StoreError Unit) (f : _) (reads : Nat),
      commit (quiet sectorSize) mapping r = (outcome, { scanned with
        flash := f
        store := match outcome with
          | .ok () => scanned.store.advanced
          | .error _ => scanned.store }) ∧
      ReadingWithin scanned.flash f t reads ∧
      match outcome with
      | .ok () => f.nor.record t = some record
      | .error _ => f.nor.record t = none ∨ f.nor.record t = scanned.flash.nor.record t ∨
          f.nor.record t = some record ∧
            scanned.flash.readPlan.next + 1 ∈ scanned.flash.readPlan.failing := by
  obtain ⟨outcome, f, reads, hwrite, hin, hrecord⟩ := writeRecord_losing scanned hflash
    ⟨scanned.store.generation + 1, mapping⟩ hvalid (spareSlot scanned.store.active)
  refine ⟨outcome, f, reads, ?_, hin, hrecord⟩
  rw [commit_eq (quiet sectorSize) hvalid hscan (quiet_sectorCount scanned)
    (slotCount_le hflash.1.twoSlots), hwrite]
  cases outcome <;> rfl

/-- What a commit has done when it is over, seen from the records. -/
inductive Committed (f f' : FaultyFlash) (store : Store) (mapping : Mapping) :
    Except StoreError Unit → Store → Prop
  | done (hin : WithinSlot f f' (spareSlot store.active))
      (h : f'.nor.record (spareSlot store.active) = some ⟨store.generation + 1, mapping⟩) :
      Committed f f' store mapping (.ok ())
        { store with active := some (spareSlot store.active), generation := store.generation + 1 }
  | failed (e : StoreError) (hin : WithinSlot f f' (spareSlot store.active))
      (h : f'.nor.record (spareSlot store.active) = none ∨
        f'.nor.record (spareSlot store.active) = f.nor.record (spareSlot store.active)) :
      Committed f f' store mapping (.error e) store

theorem commit_run (r : Rig FaultyFlash) (hr : SoundFor sectorSize r.flash) {mapping : Mapping}
    (hvalid : mapping.isValid) : ∃ (outcome : Except StoreError Unit) (f : _) (store : Store),
      commit (quiet sectorSize) mapping r = (outcome, { r with flash := f, store := store }) ∧
      Committed r.flash f (r.store.onceScanned r.flash.nor.record) mapping outcome store := by
  obtain ⟨f₀, hscan, hsound₀, hslots₀⟩ := ensureScanned_run slotReads_quiet r hr
  change ensureScanned (quiet sectorSize) r = ((), { r with
    flash := f₀
    store := r.store.onceScanned r.flash.nor.record }) at hscan
  generalize r.store.onceScanned r.flash.nor.record = store at hscan ⊢
  have hin₀ : WithinSlot r.flash f₀ (spareSlot store.active) :=
    .of_slots hsound₀.1 (hsound₀.2.trans hr.2.symm) hslots₀ _
  obtain ⟨outcome, f, _, hrun, hin, hrecord⟩ := commit_losing hvalid hscan
    ⟨hsound₀.1.losing, hsound₀.2⟩
  replace hin := hin₀.trans (hin.withinSlot hsound₀.1)
  rw [hrun]
  cases outcome with
  | ok => exact ⟨.ok (), f, _, rfl, .done hin hrecord⟩
  | error e =>
    refine ⟨.error e, f, _, rfl, .failed e hin ?_⟩
    obtain hnone | hkept | ⟨-, hrefused⟩ := hrecord
    · exact .inl hnone
    · refine .inr (hkept.trans ?_)
      rw [record, record, ← hslots₀]
    · simp [hsound₀.1.reads] at hrefused

theorem eraseSlot_eq {r : Rig FaultyFlash} (hr : SoundFor sectorSize r.flash) {t : Slot}
    {erased : Bool} {f : FaultyFlash}
    (h : r.flash.erase (r.flash.nor.slotStart t) r.flash.nor.sectorSize.toNat = (erased, f)) :
    eraseSlot (quiet sectorSize) t r =
      (if erased then .ok () else .error .fault, { r with flash := f }) := by
  obtain ⟨hsound, rfl⟩ := hr
  simp only [eraseSlot, bind_run, quiet_erase, quiet_sectorSize, offset_toNat ⟨hsound, rfl⟩, h]
  cases erased <;> rfl

theorem eraseSlot_run (r : Rig FaultyFlash) (hr : SoundFor sectorSize r.flash) (t : Slot) :
    ∃ (outcome : Except StoreError Unit) (f : _),
      eraseSlot (quiet sectorSize) t r = (outcome, { r with flash := f }) ∧
      WithinSlot r.flash f t ∧ (outcome = .ok () → f.nor.record t = none) ∧
      (f.nor.record t = none ∨ f.nor.record t = r.flash.nor.record t) := by
  obtain ⟨hin, hblank, hold⟩ := erase_slot hr.1 t
  rcases he : r.flash.erase (r.flash.nor.slotStart t) r.flash.nor.sectorSize.toNat with ⟨erased, f⟩
  rw [he] at hin hblank hold
  rw [eraseSlot_eq hr he]
  cases erased with
  | false => exact ⟨.error .fault, f, rfl, hin, by simp, hold⟩
  | true =>
    have hnone : f.nor.record t = none := (hblank rfl).record_none (by decide)
    exact ⟨.ok (), f, rfl, hin, fun _ => hnone, .inl hnone⟩

/-- A clearing erases one slot after the other, and then scans. -/
theorem clear_erases (r : Rig FaultyFlash) (hr : SoundFor sectorSize r.flash) :
    ∃ (first second : Except StoreError Unit) (f₀ f₁ f : FaultyFlash),
      eraseSlot (quiet sectorSize) 0 r = (first, { r with flash := f₀ }) ∧
      eraseSlot (quiet sectorSize) 1 { r with flash := f₀ } = (second, { r with flash := f₁ }) ∧
      clear (quiet sectorSize) r = (first.bind fun _ => second, { r with
        flash := f
        store := r.store.afterScan (newest f.nor.record) }) ∧
      SoundFor sectorSize f₀ ∧ SoundFor sectorSize f ∧ f.nor.record = f₁.nor.record := by
  obtain ⟨first, f₀, h₀, hin₀, -⟩ := eraseSlot_run r hr 0
  have hsound₀ : SoundFor sectorSize f₀ := ⟨hin₀.sound, hin₀.sectorSize.trans hr.2⟩
  obtain ⟨second, f₁, h₁, hin₁, -⟩ := eraseSlot_run { r with flash := f₀ } hsound₀ 1
  have hsound₁ : SoundFor sectorSize f₁ := ⟨hin₁.sound, hin₁.sectorSize.trans hsound₀.2⟩
  obtain ⟨f, hscan, hsound, hslots⟩ := scan_run slotReads_quiet { r with flash := f₁ } hsound₁
  have hrecord : f.nor.record = f₁.nor.record := congrArg recordsOf hslots
  change scan (quiet sectorSize) _ = ((), { r with
    flash := f
    store := r.store.afterScan (newest f₁.nor.record) }) at hscan
  rw [← hrecord] at hscan
  refine ⟨first, second, f₀, f₁, f, h₀, h₁, ?_, hsound₀, hsound, hrecord⟩
  simp only [clear, bind_run, quiet_sectorCount, UInt32.not_lt.2 (slotCount_le hr.1.twoSlots),
    ↓reduceIte, h₀, h₁, hscan, debug_run, pure_run]
  cases first <;> rfl

/-- What a clearing leaves of each slot: nothing if it succeeds, else maybe the old record. -/
theorem clear_run (r : Rig FaultyFlash) (hr : SoundFor sectorSize r.flash) :
    ∃ (outcome : Except StoreError Unit) (f : _),
      clear (quiet sectorSize) r = (outcome, { r with
        flash := f
        store := r.store.afterScan (newest f.nor.record) }) ∧
      SoundFor sectorSize f ∧ (outcome = .ok () → ∀ s, f.nor.record s = none) ∧
      ∀ s, f.nor.record s = none ∨ f.nor.record s = r.flash.nor.record s := by
  obtain ⟨first, second, f₀, f₁, f, h₀, h₁, hclear, hsound₀, hsound, hrecord⟩ := clear_erases r hr
  obtain ⟨_, _, hrun₀, hin₀, hok₀, hold₀⟩ := eraseSlot_run r hr 0
  cases h₀.symm.trans hrun₀
  obtain ⟨_, _, hrun₁, hin₁, hok₁, hold₁⟩ := eraseSlot_run { r with flash := f₀ } hsound₀ 1
  cases h₁.symm.trans hrun₁
  have hzero : f₁.nor.record 0 = f₀.nor.record 0 := hin₁.record_other (by decide)
  have hone : f₀.nor.record 1 = r.flash.nor.record 1 := hin₀.record_other (by decide)
  refine ⟨_, f, hclear, hsound, ?_, ?_⟩
  · intro hok
    cases first with
    | error e => cases hok
    | ok => exact Fin.forall_fin_two.2 ⟨hrecord ▸ hzero ▸ hok₀ rfl, hrecord ▸ hok₁ hok⟩
  · rw [hrecord]
    exact Fin.forall_fin_two.2 ⟨hzero ▸ hold₀, hone ▸ hold₁⟩

end Store

end LoadCell
