import LoadCell.Proofs.CalibrationInForce
import LoadCell.Proofs.Core

/-!
Uses of the filter and the calibration engine one after the other, over a medium of any kind. All that
a use can do to the counts, the points and the tare is said here once; what it does to the store is
left to the store.
-/
namespace LoadCell

namespace Core

variable {ω : Type}

/-- The same state with other things in store. -/
def restored (s : Core ω) (store : Store) (world : ω) : Core ω :=
  { s with chain := { s.chain with store := store }, world := world }

/-- At most other things are in store. -/
def OnlyStored (s t : Core ω) : Prop := t = s.restored t.chain.store t.world

/-- The state while a commit or an erase runs. -/
def engaged (s : Core ω) : Core ω :=
  { s with chain := { s.chain with calibration := { s.chain.calibration with busy := true } } }

def withCalibration (s : Core ω) (c : Calibration) : Core ω :=
  { s with chain := { s.chain with calibration := c } }

/-- The state with one more captured point. -/
def capturing (s : Core ω) (point : CalibrationPoint) : Core ω :=
  s.withCalibration { s.chain.calibration with session := s.chain.calibration.session.add point }

section Stored

variable (medium : Medium ω) (clock : StateM ω UInt32) (s : Core ω)

theorem onlyStored_inWorld {α : Type} (x : StateM ω α) : Keeps s.OnlyStored (inWorld x) := by
  intro t ht
  show { t with world := _ } = s.restored t.chain.store _
  rw [show t = _ from ht]
  rfl

theorem shares_store : Shares (fun t u => t = u ∧ s.OnlyStored t) Store := by
  have hignores : Ignores s.OnlyStored Store := by
    intro store t ht
    show { t with chain := _ } = s.restored store t.world
    rw [show t = _ from ht]
    rfl
  exact hignores.shares

theorem textAlike_onlyStored : TextAlike fun t u => t = u ∧ s.OnlyStored t := by
  have hlog : LogKeeps s.OnlyStored := fun _ => .pure _
  exact hlog.alike.texts

theorem medium_onlyStored : (board medium clock).medium.Alike (board medium clock).medium
    fun t u => t = u ∧ s.OnlyStored t := by
  have hmedium : (board medium clock).medium.Keeping s.OnlyStored :=
    medium.keeping_within (onlyStored_inWorld s)
  exact hmedium.alike

/-- A commit changes nothing but what is in store. -/
theorem commit_onlyStored (mapping : Mapping) :
    s.OnlyStored (Store.commit (board medium clock).medium mapping s).2 :=
  Keeps.of_alike (Store.alike_commit (textAlike_onlyStored s) (medium_onlyStored medium clock s)
    (shares_store s) mapping) s rfl

theorem clear_onlyStored : s.OnlyStored (Store.clear (board medium clock).medium s).2 :=
  Keeps.of_alike (Store.alike_clear (textAlike_onlyStored s) (medium_onlyStored medium clock s)
    (shares_store s)) s rfl

theorem load_onlyStored : s.OnlyStored (Store.load (board medium clock).medium s).2 :=
  Keeps.of_alike (Store.alike_load (textAlike_onlyStored s) (medium_onlyStored medium clock s)
    (shares_store s)) s rfl

/-- Activating commits while the engine is busy, and puts the mapping in force exactly if the store has
taken it. -/
theorem activate_eq (hidle : s.chain.calibration.busy = false) (mapping : Mapping) :
    let committed := Store.commit (board medium clock).medium mapping s.engaged
    let after := s.restored committed.2.chain.store committed.2.world
    Calibration.activate (board medium clock).medium mapping s = match committed.1 with
      | .ok () =>
        (.ok (), after.withCalibration { s.chain.calibration with mapping := some mapping })
      | .error _ => (.error .storageFault, after) := by
  have hcommit := commit_onlyStored medium clock s.engaged mapping
  have hbusy : { s.chain.calibration with busy := false } = s.chain.calibration := by rw [← hidle]
  rcases hrun : Store.commit (board medium clock).medium mapping s.engaged with ⟨outcome, t⟩
  rw [hrun] at hcommit
  obtain ⟨store, world, rfl⟩ : ∃ store world, t = s.engaged.restored store world :=
    ⟨_, _, hcommit⟩
  change Store.commit _ mapping { s with chain := _ } = _ at hrun
  simp only [Calibration.activate, Calibration.setBusy, bind_run, modifyPart_calibration, hrun]
  cases outcome with
  | ok => simp [restored, engaged, withCalibration, ← hidle]
  | error e => simp [restored, engaged, hbusy]

/-- Activating puts the mapping in force, or it leaves all but the store as it was. -/
theorem activate_run (hidle : s.chain.calibration.busy = false) (mapping : Mapping) :
    ∃ store world,
      Calibration.activate (board medium clock).medium mapping s = (.ok (),
        { s.restored store world with
          chain := { (s.restored store world).chain with
            calibration := { s.chain.calibration with mapping := some mapping } } }) ∨
      Calibration.activate (board medium clock).medium mapping s =
        (.error .storageFault, s.restored store world) := by
  have hactivate := activate_eq medium clock s hidle mapping
  rcases hrun : Store.commit (board medium clock).medium mapping s.engaged with ⟨outcome, t⟩
  rw [hrun] at hactivate
  refine ⟨t.chain.store, t.world, ?_⟩
  cases outcome with
  | ok => exact .inl hactivate
  | error e => exact .inr hactivate

end Stored

/-- A use of the filter or the engine. -/
inductive Use
  | push (count : Int32)
  | resetFilter
  | begin
  | addPoint (reference : Float32)
  | save
  | reset
  | beginTare (warmup average : UInt16)
  | applyTare (weight : Float32)
  | clearTare
  deriving DecidableEq

def used (board : Board (Core ω)) (s : Core ω) : Use → Core ω
  | .push count => (Pipeline.filterCount count s).2
  | .resetFilter => (modifyPart MedianFilter.reset s).2
  | .begin => (Calibration.begin board.medium s).2
  | .addPoint reference => (Calibration.addPoint reference s).2
  | .save => (Calibration.save board.medium s).2
  | .reset => (Calibration.reset board.medium s).2
  | .beginTare warmup average => (Calibration.beginTare warmup average s).2
  | .applyTare weight => (Calibration.applyTare weight s).2
  | .clearTare => (Calibration.clearTare s).2

def usedAll (board : Board (Core ω)) (uses : List Use) (s : Core ω) : Core ω :=
  uses.foldl (used board) s

@[simp] theorem usedAll_concat (board : Board (Core ω)) (uses : List Use) (use : Use) (s : Core ω) :
    usedAll board (uses ++ [use]) s = used board (usedAll board uses s) use := by
  rw [usedAll, List.foldl_append]
  rfl

namespace Use

def filterAfter (filter : MedianFilter) : Use → MedianFilter
  | .push count => filter.push count
  | .resetFilter => filter.reset
  | _ => filter

/-- The points after a use: one is captured if the filter shows a count, and all are forgotten by a
reset that is not refused. -/
def sessionAfter (filter : MedianFilter) (c : Calibration) : Use → CalibrationSession
  | .addPoint reference =>
    match filter.latest with
    | none => c.session
    | some raw => c.session.add ⟨raw, reference⟩
  | .reset => if c.busy then c.session else c.session.clear
  | _ => c.session

def tareAfter (c : Calibration) : Use → Tare
  | .beginTare warmup average => if c.isCalibrated then c.tare.start warmup average else c.tare
  | .applyTare weight => c.tare.absorb weight
  | .clearTare => {}
  | .reset => if c.busy then c.tare else {}
  | _ => c.tare

/-- What a use does to all but the mapping and the store. -/
structure Does (use : Use) (s t : Core ω) : Prop where
  filter : t.chain.filter = use.filterAfter s.chain.filter
  session : t.chain.calibration.session = use.sessionAfter s.chain.filter s.chain.calibration
  tare : t.chain.calibration.tare = use.tareAfter s.chain.calibration
  busy : t.chain.calibration.busy = s.chain.calibration.busy

end Use

section Uses

variable (medium : Medium ω) (clock : StateM ω UInt32) (s : Core ω)

theorem addPoint_run (reference : Float32) :
    Calibration.addPoint reference s = match s.chain.filter.latest with
      | none => (.error .noSample, s)
      | some raw => (.ok (), s.capturing ⟨raw, reference⟩) := by
  rw [Calibration.addPoint, bind_run, getPart_filter]
  dsimp only
  cases s.chain.filter.latest with
  | none =>
    dsimp only
    rw [bind_run, debug_run, pure_run]
  | some raw =>
    dsimp only
    rw [bind_run, modifyPart_calibration, bind_run, bind_run, debug_run, pure_run]
    rfl

/-- Beginning loads a mapping from the store. -/
theorem begin_run : ∃ store world stored,
    (Calibration.begin (board medium clock).medium s).2 =
      (s.restored store world).withCalibration { s.chain.calibration with mapping := stored } := by
  have hload := load_onlyStored medium clock s
  rcases hrun : Store.load (board medium clock).medium s with ⟨stored, t⟩
  rw [hrun] at hload
  obtain ⟨store, world, rfl⟩ : ∃ store world, t = s.restored store world := ⟨_, _, hload⟩
  refine ⟨store, world, stored, ?_⟩
  simp only [Calibration.begin, bind_run, hrun, modifyPart_calibration]
  cases stored with
  | none => simp only [bind_run, message_run, pure_run]; rfl
  | some mapping => simp only [bind_run, debug_run, pure_run]; rfl

/-- A reset forgets everything, whatever the store says. -/
theorem reset_run (hidle : s.chain.calibration.busy = false) : ∃ store world,
    (Calibration.reset (board medium clock).medium s).2 =
      (s.restored store world).withCalibration
        { mapping := none, session := s.chain.calibration.session.clear } := by
  have hclear := clear_onlyStored medium clock s.engaged
  rcases hrun : Store.clear (board medium clock).medium s.engaged with ⟨outcome, t⟩
  rw [hrun] at hclear
  obtain ⟨store, world, rfl⟩ : ∃ store world, t = s.engaged.restored store world := ⟨_, _, hclear⟩
  change Store.clear _ { s with chain := _ } = _ at hrun
  refine ⟨store, world, ?_⟩
  simp only [Calibration.reset, Calibration.setBusy, bind_run, getPart_calibration, hidle,
    Bool.false_eq_true, ↓reduceIte, modifyPart_calibration, hrun]
  cases outcome with
  | ok => simp only [bind_run, message_run, pure_run]; rfl
  | error e => simp only [bind_run, message_run, pure_run]; rfl

theorem reset_busy (hbusy : s.chain.calibration.busy = true) :
    (Calibration.reset (board medium clock).medium s).2 = s :=
  congrArg Prod.snd (Calibration.reset_of_busy (board medium clock).medium hbusy)

theorem beginTare_run (warmup average : UInt16) :
    Calibration.beginTare warmup average s =
      if s.chain.calibration.isCalibrated then
        (true, s.withCalibration { s.chain.calibration with
          tare := s.chain.calibration.tare.start warmup average })
      else (false, s) := by
  rw [Calibration.beginTare, bind_run, getPart_calibration]
  cases s.chain.calibration.isCalibrated with
  | false => simp only [Bool.not_false, ↓reduceIte, bind_run, debug_run, pure_run,
      Bool.false_eq_true]
  | true => simp only [Bool.not_true, Bool.false_eq_true, ↓reduceIte, bind_run,
      modifyPart_calibration, debug_run, pure_run]; rfl

theorem save_does : Use.save.Does s (used (board medium clock) s .save) := by
  rw [used, Calibration.save_run]
  split
  next => exact ⟨rfl, rfl, rfl, rfl⟩
  next hidle =>
    split
    next => exact ⟨rfl, rfl, rfl, rfl⟩
    next =>
      split
      next => exact ⟨rfl, rfl, rfl, rfl⟩
      next mapping _ =>
        obtain ⟨store, world, hrun | hrun⟩ :=
          activate_run medium clock s (Bool.eq_false_of_not_eq_true hidle) mapping
        · rw [hrun]
          exact ⟨rfl, rfl, rfl, rfl⟩
        · rw [hrun]
          exact ⟨rfl, rfl, rfl, rfl⟩

theorem used_does (use : Use) : use.Does s (used (board medium clock) s use) := by
  cases use with
  | push count => exact ⟨rfl, rfl, rfl, rfl⟩
  | resetFilter => exact ⟨rfl, rfl, rfl, rfl⟩
  | begin =>
    obtain ⟨store, world, stored, hrun⟩ := begin_run medium clock s
    rw [used, hrun]
    exact ⟨rfl, rfl, rfl, rfl⟩
  | addPoint reference =>
    rw [used, addPoint_run]
    cases hlatest : s.chain.filter.latest with
    | none => exact ⟨rfl, by rw [Use.sessionAfter, hlatest], rfl, rfl⟩
    | some raw => exact ⟨rfl, by rw [Use.sessionAfter, hlatest]; rfl, rfl, rfl⟩
  | save => exact save_does medium clock s
  | reset =>
    by_cases hbusy : s.chain.calibration.busy = true
    · rw [used, reset_busy medium clock s hbusy]
      exact ⟨rfl, (if_pos hbusy).symm, (if_pos hbusy).symm, rfl⟩
    · have hidle := Bool.eq_false_of_not_eq_true hbusy
      obtain ⟨store, world, hrun⟩ := reset_run medium clock s hidle
      rw [used, hrun]
      exact ⟨rfl, (if_neg hbusy).symm, (if_neg hbusy).symm, hidle.symm⟩
  | beginTare warmup average =>
    rw [used, beginTare_run]
    split
    next hcalibrated => exact ⟨rfl, rfl, (if_pos hcalibrated).symm, rfl⟩
    next hcalibrated => exact ⟨rfl, rfl, (if_neg hcalibrated).symm, rfl⟩
  | applyTare weight =>
    rw [used, applyTare_run]
    exact ⟨rfl, rfl, rfl, rfl⟩
  | clearTare => exact ⟨rfl, rfl, rfl, rfl⟩

end Uses

end Core

end LoadCell
