import LoadCell.Proofs.StoreLink

/-!
The mapping in force is the stored one. The engine puts a mapping in force only after the store has
taken it, and a save that fails leaves the engine as it was.
-/
namespace LoadCell

variable {sectorSize : UInt32} {r : Rig FaultyFlash} {bound : Nat}

/-- The link does not see the engine or the filter. -/
theorem Linked.of_parts (h : Linked sectorSize r bound) {r' : Rig FaultyFlash}
    (hstore : r'.store = r.store) (hflash : r'.flash = r.flash) : Linked sectorSize r' bound :=
  ⟨hflash ▸ h.sound, hstore ▸ hflash ▸ h.tracks, hstore ▸ h.generation_le,
    hflash ▸ h.records_le⟩

theorem Store.commit_calibration (r : Rig FaultyFlash) (hr : SoundFor sectorSize r.flash)
    (mapping : Mapping) :
    (Store.commit (quiet sectorSize) mapping r).2.calibration = r.calibration := by
  by_cases hvalid : mapping.isValid
  · obtain ⟨outcome, f, store, hcommit, -⟩ := Store.commit_run r hr hvalid
    rw [hcommit]
  · rw [Store.commit_invalid _ hvalid]

/-- A rig whose mapping in force, if there is one, is what its flash holds. -/
structure InForce (sectorSize : UInt32) (r : Rig FaultyFlash) (bound : Nat) : Prop where
  linked : Linked sectorSize r bound
  stored : ∀ mapping, r.calibration.mapping = some mapping →
    storedMapping r.flash = some mapping

/-- A step that changes neither store nor flash and puts no other mapping in force. -/
structure KeepsMapping (r r' : Rig FaultyFlash) : Prop where
  store : r'.store = r.store
  flash : r'.flash = r.flash
  mapping : r'.calibration.mapping = r.calibration.mapping

namespace InForce

theorem of_keeps (h : InForce sectorSize r bound) {r' : Rig FaultyFlash}
    (hkeeps : KeepsMapping r r') : InForce sectorSize r' bound :=
  ⟨h.linked.of_parts hkeeps.store hkeeps.flash, fun mapping hm =>
    hkeeps.flash ▸ h.stored mapping (hkeeps.mapping ▸ hm)⟩

theorem mono (h : InForce sectorSize r bound) {bound' : Nat} (hle : bound ≤ bound') :
    InForce sectorSize r bound' :=
  ⟨h.linked.mono hle, h.stored⟩

end InForce

namespace Calibration

theorem begin_inForce (h : Linked sectorSize r bound) :
    InForce sectorSize (Calibration.begin (quiet sectorSize) r).2 bound := by
  obtain ⟨hstored, hlinked, hkept⟩ := h.load
  rcases hload : Store.load (quiet sectorSize) r with ⟨stored, r'⟩
  rw [hload] at hstored hlinked hkept
  have hrun : (Calibration.begin (quiet sectorSize) r).2 =
      { r' with calibration := { r'.calibration with mapping := stored } } := by
    simp only [Calibration.begin, bind_run, hload, Rig.modifyPart_calibration]
    cases stored <;> simp
  rw [hrun]
  refine ⟨hlinked.of_parts rfl rfl, ?_⟩
  intro mapping hm
  exact hkept.trans (hstored.symm.trans hm)

/-- A rig whose engine is marked as committing or erasing. -/
def engaged (r : Rig FaultyFlash) : Rig FaultyFlash :=
  { r with calibration := { r.calibration with busy := true } }

/-- Activating commits, and puts the mapping in force exactly if the commit succeeds. -/
theorem activate_run (hr : SoundFor sectorSize r.flash) (mapping : Mapping) :
    let committed := Store.commit (quiet sectorSize) mapping (engaged r)
    activate (quiet sectorSize) mapping r = match committed.1 with
      | .ok () => (.ok (), { committed.2 with
          calibration := { r.calibration with busy := false, mapping := some mapping } })
      | .error _ => (.error .storageFault, { committed.2 with
          calibration := { r.calibration with busy := false } }) := by
  have hkept := Store.commit_calibration (engaged r) hr mapping
  rcases hcommit : Store.commit (quiet sectorSize) mapping (engaged r) with ⟨outcome, r'⟩
  rw [hcommit] at hkept
  change Store.commit (quiet sectorSize) mapping { r with calibration := _ } = _ at hcommit
  simp only [activate, setBusy, bind_run, Rig.modifyPart_calibration, hcommit]
  have hsession := congrArg session hkept
  have htare := congrArg tare hkept
  have hmapping := congrArg Calibration.mapping hkept
  cases outcome with
  | ok => simp_all [engaged]
  | error e => simp_all [engaged]

theorem activate_inForce (h : InForce sectorSize r bound) (hbound : bound + 1 < 2 ^ 32)
    (mapping : Mapping) :
    InForce sectorSize (activate (quiet sectorSize) mapping r).2 (bound + 1) := by
  have hengaged : Linked sectorSize (engaged r) bound := h.linked.of_parts rfl rfl
  obtain ⟨hlinked, hstored⟩ := hengaged.commit hbound mapping
  rw [activate_run h.linked.sound]
  rcases hcommit : Store.commit (quiet sectorSize) mapping (engaged r) with ⟨outcome, r'⟩
  rw [hcommit] at hlinked hstored
  cases outcome with
  | ok => exact ⟨hlinked.of_parts rfl rfl, fun _ hm => hstored.trans hm⟩
  | error e => exact ⟨hlinked.of_parts rfl rfl, fun m hm => hstored.trans (h.stored m hm)⟩

/-- A save that is refused has changed nothing, and any other activates the mapping fitted through
the two points. -/
theorem save_run {σ : Type} [Logs σ] [Silent σ] [Holds σ Calibration] [Holds σ Store]
    (medium : Medium σ) (s : σ) :
    let c : Calibration := Holds.part s
    save medium s =
      if c.busy then (.error .busy, s)
      else if c.session.count < sessionCapacity then (.error .insufficientPoints, s)
      else match Mapping.fit (c.session.point 0) (c.session.point 1) with
        | none => (.error .degenerate, s)
        | some mapping => activate medium mapping s := by
  rw [save, bind_run, getPart_run]
  dsimp only
  split
  next => rw [bind_run, message_run, pure_run]
  next =>
    split
    next => rw [bind_run, debug_run, pure_run]
    next =>
      cases Mapping.fit _ _ with
      | none =>
        dsimp only
        rw [bind_run, message_run, pure_run]
      | some mapping => rfl

/-- While a commit or an erase runs, a reset does nothing. -/
theorem reset_of_busy {σ : Type} [Logs σ] [Silent σ] [Holds σ Calibration] [Holds σ Store]
    (medium : Medium σ) {s : σ} (hbusy : (Holds.part s : Calibration).busy = true) :
    reset medium s = (.error .busy, s) := by
  rw [reset, bind_run, getPart_run]
  dsimp only
  rw [if_pos hbusy, bind_run, message_run, pure_run]

/-- A refused save returns at once, any other activates the fitted mapping. -/
theorem save_cases {σ : Type} [Logs σ] [Silent σ] [Holds σ Calibration] [Holds σ Store]
    (medium : Medium σ) (s : σ) :
    (∃ e, save medium s = (.error e, s) ∧ e ≠ .storageFault) ∨
      ((Holds.part s : Calibration).busy = false ∧
        ∃ mapping, save medium s = activate medium mapping s) := by
  rw [save_run]
  split
  next => exact .inl ⟨.busy, rfl, nofun⟩
  next hidle =>
    split
    next => exact .inl ⟨.insufficientPoints, rfl, nofun⟩
    next =>
      split
      next => exact .inl ⟨.degenerate, rfl, nofun⟩
      next mapping _ => exact .inr ⟨Bool.eq_false_of_not_eq_true hidle, mapping, rfl⟩

theorem save_inForce (h : InForce sectorSize r bound) (hbound : bound + 1 < 2 ^ 32) :
    InForce sectorSize (save (quiet sectorSize) r).2 (bound + 1) := by
  rcases save_cases (quiet sectorSize) r with ⟨e, hsave, -⟩ | ⟨-, mapping, hsave⟩
  · rw [hsave]
    exact h.mono (Nat.le_succ bound)
  · rw [hsave]
    exact activate_inForce h hbound mapping

/-- A save that fails leaves the whole engine as it was. -/
theorem save_failed (hr : SoundFor sectorSize r.flash) {e : CalibrationError}
    (hfail : (save (quiet sectorSize) r).1 = .error e) :
    (save (quiet sectorSize) r).2.calibration = r.calibration := by
  rcases save_cases (quiet sectorSize) r with ⟨e', hsave, -⟩ | ⟨hidle, mapping, hsave⟩
  · rw [hsave]
  · rw [hsave, activate_run hr] at hfail ⊢
    rcases hcommit : Store.commit (quiet sectorSize) mapping (engaged r) with ⟨outcome, r'⟩
    rw [hcommit] at hfail
    cases outcome with
    | ok => cases hfail
    | error e' =>
      have hbusy : r.calibration.busy = false := hidle
      simp [← hbusy]

/-- A reset leaves no mapping in force, whatever it could erase. -/
theorem reset_inForce (h : InForce sectorSize r bound) :
    InForce sectorSize (reset (quiet sectorSize) r).2 bound := by
  have hengaged : Linked sectorSize (engaged r) bound := h.linked.of_parts rfl rfl
  have hlinked := hengaged.clear.1
  rw [reset, bind_run, Rig.getPart_calibration]
  cases hbusy : r.calibration.busy with
  | true => exact h
  | false =>
    rcases hclear : Store.clear (quiet sectorSize) (engaged r) with ⟨outcome, r'⟩
    rw [hclear] at hlinked
    change Store.clear (quiet sectorSize) { r with calibration := _ } = _ at hclear
    simp only [Bool.false_eq_true, ↓reduceIte, setBusy, bind_run, Rig.modifyPart_calibration,
      hclear]
    cases outcome with
    | ok => exact ⟨hlinked.of_parts (by simp) (by simp), by simp⟩
    | error e => exact ⟨hlinked.of_parts (by simp) (by simp), by simp⟩

theorem addPoint_keeps (r : Rig FaultyFlash) (reference : Float32) :
    KeepsMapping r (addPoint reference r).2 := by
  rw [addPoint, bind_run, Rig.getPart_filter]
  cases hlatest : r.filter.latest with
  | none => exact ⟨by simp, by simp, by simp⟩
  | some raw => exact ⟨by simp, by simp, by simp⟩

theorem beginTare_keeps (r : Rig FaultyFlash) (warmup average : UInt16) :
    KeepsMapping r (beginTare warmup average r).2 := by
  rw [beginTare, bind_run, Rig.getPart_calibration]
  cases hcalibrated : r.calibration.isCalibrated with
  | false => exact ⟨by simp, by simp, by simp⟩
  | true => exact ⟨by simp, by simp, by simp⟩

theorem applyTare_keeps (r : Rig FaultyFlash) (weight : Float32) :
    KeepsMapping r (applyTare weight r).2 := by
  rw [applyTare, bind_run, Rig.getPart_calibration]
  cases hdone : r.calibration.tare.isRunning && !(r.calibration.tare.absorb weight).isRunning with
  | false => exact ⟨by simp, by simp, by simp⟩
  | true => exact ⟨by simp, by simp, by simp⟩

inductive Event where
  | faults (coming : Faults)
  | samples (filter : MedianFilter)
  | begin
  | addPoint (reference : Float32)
  | save
  | reset
  | beginTare (warmup average : UInt16)
  | applyTare (weight : Float32)
  | clearTare
  | reboot

def Event.next (sectorSize : UInt32) (r : Rig FaultyFlash) : Event → Rig FaultyFlash
  | .faults coming => { r with flash := r.flash.under coming }
  | .samples filter => { r with filter := filter }
  | .begin => (Calibration.begin (quiet sectorSize) r).2
  | .addPoint reference => (Calibration.addPoint reference r).2
  | .save => (Calibration.save (quiet sectorSize) r).2
  | .reset => (Calibration.reset (quiet sectorSize) r).2
  | .beginTare warmup average => (Calibration.beginTare warmup average r).2
  | .applyTare weight => (Calibration.applyTare weight r).2
  | .clearTare => (Calibration.clearTare r).2
  | .reboot => { r with calibration := {}, store := {} }

def run (sectorSize : UInt32) (events : List Event) (r : Rig FaultyFlash) : Rig FaultyFlash :=
  events.foldl (Event.next sectorSize) r

def Event.isSave : Event → Bool
  | .save => true
  | _ => false

/-- One event keeps the mapping in force stored; only a save makes a newer record. -/
theorem Event.next_inForce (h : InForce sectorSize r bound) (hbound : bound + 1 < 2 ^ 32)
    (event : Event) :
    InForce sectorSize (event.next sectorSize r) (bound + if event.isSave then 1 else 0) := by
  cases event with
  | faults coming => exact ⟨h.linked.under coming, h.stored⟩
  | samples filter => exact h.of_keeps ⟨rfl, rfl, rfl⟩
  | begin => exact begin_inForce h.linked
  | addPoint reference => exact h.of_keeps (addPoint_keeps r reference)
  | save => exact save_inForce h hbound
  | reset => exact reset_inForce h
  | beginTare warmup average => exact h.of_keeps (beginTare_keeps r warmup average)
  | applyTare weight => exact h.of_keeps (applyTare_keeps r weight)
  | clearTare => exact h.of_keeps ⟨rfl, rfl, rfl⟩
  | reboot => exact ⟨h.linked.renewed.of_parts rfl rfl, by simp [Event.next]⟩

theorem run_inForce (h : InForce sectorSize r bound) {events : List Event}
    (hbound : bound + events.countP (·.isSave) + 1 < 2 ^ 32) :
    InForce sectorSize (run sectorSize events r) (bound + events.countP (·.isSave)) := by
  induction events generalizing r bound with
  | nil => exact h
  | cons event rest ih =>
    rw [List.countP_cons, Nat.add_comm (rest.countP _), ← Nat.add_assoc] at hbound ⊢
    exact ih (event.next_inForce h (by omega)) hbound

/-- After any run a mapping in force can convert and is the one a new store loads, and a save that
fails changes nothing in the engine. -/
theorem inForce_after_run {r : Rig FaultyFlash} (hengine : r.calibration = {})
    (hnew : r.store = {}) (hflash : SoundFor sectorSize r.flash) {events : List Event}
    (hgenerations : newestGeneration r.flash + events.countP (·.isSave) < 2 ^ 32 - 1) :
    let r' := run sectorSize events r
    (∀ mapping, r'.calibration.mapping = some mapping → mapping.isValid ∧
      (Store.load (quiet sectorSize) { r' with store := {} }).1 = some mapping) ∧
    ∀ e, (save (quiet sectorSize) r').1 = .error e →
      (save (quiet sectorSize) r').2.calibration = r'.calibration := by
  have hstart : InForce sectorSize r (newestGeneration r.flash) :=
    ⟨.new hnew hflash, by simp [hengine]⟩
  have hbound : newestGeneration r.flash + events.countP (·.isSave) + 1 < 2 ^ 32 := by omega
  have hend := run_inForce hstart hbound
  refine ⟨?_, fun e he => save_failed hend.linked.sound he⟩
  intro mapping hm
  have hstored := hend.stored mapping hm
  exact ⟨isValid_of_storedMapping hstored, hend.linked.renewed.load.1.trans hstored⟩

def filterAt (count : Int32) : MedianFilter :=
  { (default : MedianFilter) with latest := some count }

/-- A save, and one with a newer point that the power does not last for. -/
def cutSave : List Event :=
  [.begin, .samples (filterAt 1000), .addPoint 0, .samples (filterAt 2000), .addPoint 1, .save,
    .samples (filterAt 4000), .addPoint 2, .faults { budget := some 40 }, .save]

theorem inForce_after_cutSave : ∃ mapping,
    (run 32 cutSave blankRig).calibration.mapping = some mapping ∧ mapping.zeroRaw = 1000 ∧
    mapping.isValid ∧
    (Store.load (quiet 32) { run 32 cutSave blankRig with store := {} }).1 = some mapping ∧
    (save (quiet 32) (run 32 cutSave blankRig)).2.calibration =
      (run 32 cutSave blankRig).calibration := by
  have hend : (run 32 cutSave blankRig).calibration.mapping.map (·.zeroRaw) = some 1000 := by
    decide +kernel
  have hfail : ((save (quiet 32) (run 32 cutSave blankRig)).1).isOk = false := by decide +kernel
  have hgenerations : newestGeneration blankRig.flash + cutSave.countP (·.isSave) < 2 ^ 32 - 1 := by
    decide +kernel
  obtain ⟨mapping, hmapping, hzero⟩ := Option.map_eq_some_iff.1 hend
  obtain ⟨hstored, hkept⟩ := inForce_after_run rfl rfl soundFor_blankRig hgenerations
  refine ⟨mapping, hmapping, hzero, (hstored mapping hmapping).1, (hstored mapping hmapping).2, ?_⟩
  cases hsave : (save (quiet 32) (run 32 cutSave blankRig)).1 with
  | ok => simp [hsave, Except.isOk, Except.toBool] at hfail
  | error e => exact hkept e hsave

end Calibration

end LoadCell
