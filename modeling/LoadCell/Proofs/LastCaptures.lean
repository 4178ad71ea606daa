import LoadCell.Proofs.EngineUses
import LoadCell.Proofs.SlidingMedian

/-!
A save fits the last two captures. However samples, resets and captures are mixed, the ring of the
engine has the last points that were captured since its reset, and each of them is the median of the
samples of its moment.
-/
namespace LoadCell

/-- The last captures, as many as a fit takes. -/
def lastPoints (captures : List CalibrationPoint) : List CalibrationPoint :=
  captures.drop (captures.length - sessionCapacity)

theorem lastPoints_concat (captures : List CalibrationPoint) (p : CalibrationPoint) :
    lastPoints (captures ++ [p]) =
      (lastPoints captures ++ [p]).drop ((lastPoints captures).length + 1 - sessionCapacity) := by
  have hle : captures.length - sessionCapacity ≤ captures.length := Nat.sub_le _ _
  have hindex : (captures ++ [p]).length - sessionCapacity = captures.length - sessionCapacity +
      (captures.length - (captures.length - sessionCapacity) + 1 - sessionCapacity) := by
    rw [List.length_append, List.length_singleton]
    omega
  rw [lastPoints, lastPoints, List.length_drop, ← List.drop_append_of_le_length hle,
    List.drop_drop, hindex]

/-- With enough captures there are two last ones. -/
theorem exists_lastPair {captures : List CalibrationPoint}
    (h : ¬captures.length < sessionCapacity) : ∃ earlier p q, captures = earlier ++ [p, q] := by
  rcases List.eq_nil_or_concat captures with rfl | ⟨most, q, rfl⟩
  · exact absurd Nat.two_pos h
  · rcases List.eq_nil_or_concat most with rfl | ⟨earlier, p, rfl⟩
    · exact absurd Nat.one_lt_two h
    · exact ⟨earlier, p, q, by simp⟩

theorem lastPoints_pair (earlier : List CalibrationPoint) (p q : CalibrationPoint) :
    lastPoints (earlier ++ [p, q]) = [p, q] := by
  have hlength : (earlier ++ [p, q]).length - sessionCapacity = earlier.length := by simp
  rw [lastPoints, hlength, List.drop_left]

namespace CalibrationSession

/-- A ring follows the captures. -/
theorem toList_add_last {s : CalibrationSession} {captures : List CalibrationPoint}
    (h : s.toList = lastPoints captures) (p : CalibrationPoint) :
    (s.add p).toList = lastPoints (captures ++ [p]) := by
  rw [toList_add, lastPoints_concat, ← h, length_toList]

theorem count_of_toList {s : CalibrationSession} {captures : List CalibrationPoint}
    (h : s.toList = lastPoints captures) :
    s.count < sessionCapacity ↔ captures.length < sessionCapacity := by
  rw [← length_toList, h, lastPoints, List.length_drop]
  omega

theorem points_of_toList {s : CalibrationSession} {p q : CalibrationPoint}
    (h : s.toList = [p, q]) : s.count = sessionCapacity ∧ s.point 0 = p ∧ s.point 1 = q := by
  have hcount : s.count = sessionCapacity := by rw [← length_toList, h]; rfl
  rw [toList, hcount] at h
  obtain ⟨hfirst, hsecond⟩ := List.cons.inj h
  exact ⟨hcount, hfirst, (List.cons.inj hsecond).1⟩

end CalibrationSession

namespace Core

variable {ω : Type}

/-- What was pushed since the filter was reset, and captured since the engine was. -/
structure Ledger where
  samples : List Int32 := []
  captures : List CalibrationPoint := []

/-- A point is captured with the median of the last samples, if there are enough of them. -/
def Ledger.add (size : WindowSize) (past : Ledger) : Use → Ledger
  | .push count => { past with samples := past.samples ++ [count] }
  | .resetFilter => { past with samples := [] }
  | .addPoint reference =>
    if past.samples.length < size.val then past
    else
      let median := middle (MedianFilter.lastCounts size past.samples)
      { past with captures := past.captures ++ [⟨median, reference⟩] }
  | .reset => { past with captures := [] }
  | _ => past

def ledger (size : WindowSize) (uses : List Use) : Ledger := uses.foldl (Ledger.add size) {}

@[simp] theorem ledger_concat (size : WindowSize) (uses : List Use) (use : Use) :
    ledger size (uses ++ [use]) = (ledger size uses).add size use := by
  rw [ledger, List.foldl_append]
  rfl

/-- An empty filter, and an engine without mapping, points or tare. -/
def booted (s : Core ω) (size : WindowSize) : Core ω :=
  { s with chain := { s.chain with filter := .ofSize size, calibration := {} } }

/-- Filter and engine have what the ledger says. -/
structure Accounts (size : WindowSize) (past : Ledger) (s : Core ω) : Prop where
  filter : ∃ emptied : MedianFilter, emptied.size = size ∧ emptied.filled = 0 ∧
    emptied.latest = none ∧ s.chain.filter = emptied.pushAll past.samples
  points : s.chain.calibration.session.toList = lastPoints past.captures
  idle : s.chain.calibration.busy = false

theorem accounts_booted (s : Core ω) (size : WindowSize) : Accounts size {} (s.booted size) where
  filter := ⟨.ofSize size, rfl, rfl, rfl, rfl⟩
  points := rfl
  idle := rfl

namespace Accounts

variable {size : WindowSize} {past : Ledger} {s : Core ω} (h : Accounts size past s)
include h

theorem latest : s.chain.filter.latest =
    if past.samples.length < size.val then none
    else some (middle (MedianFilter.lastCounts size past.samples)) := by
  obtain ⟨emptied, rfl, hfilled, hnone, hfilter⟩ := h.filter
  rw [hfilter]
  exact MedianFilter.latest_pushAll hfilled hnone past.samples

/-- A use that touches neither samples nor points. -/
theorem aside {use : Use} {t : Core ω} (hdoes : use.Does s t)
    (hfilter : use.filterAfter s.chain.filter = s.chain.filter)
    (hsession : use.sessionAfter s.chain.filter s.chain.calibration =
      s.chain.calibration.session) : Accounts size past t where
  filter := by
    rw [hdoes.filter, hfilter]
    exact h.filter
  points := by
    rw [hdoes.session, hsession]
    exact h.points
  idle := hdoes.busy.trans h.idle

theorem addPoint {reference : Float32} {t : Core ω} (hdoes : (Use.addPoint reference).Does s t) :
    Accounts size (past.add size (.addPoint reference)) t := by
  have hlatest := h.latest
  by_cases hfew : past.samples.length < size.val
  · have hstays : past.add size (.addPoint reference) = past := if_pos hfew
    rw [if_pos hfew] at hlatest
    rw [hstays]
    apply h.aside hdoes rfl
    rw [Use.sessionAfter, hlatest]
  · have hmore : past.add size (.addPoint reference) = { past with captures :=
        past.captures ++ [⟨middle (MedianFilter.lastCounts size past.samples), reference⟩] } :=
      if_neg hfew
    rw [if_neg hfew] at hlatest
    rw [hmore]
    refine ⟨?_, ?_, hdoes.busy.trans h.idle⟩
    · rw [hdoes.filter]
      exact h.filter
    · rw [hdoes.session, Use.sessionAfter, hlatest]
      exact CalibrationSession.toList_add_last h.points _

/-- One use keeps filter and engine to the ledger. -/
theorem after (use : Use) {t : Core ω} (hdoes : use.Does s t) :
    Accounts size (past.add size use) t := by
  cases use with
  | push count =>
    obtain ⟨emptied, hsize, hfilled, hnone, hfilter⟩ := h.filter
    refine ⟨⟨emptied, hsize, hfilled, hnone, ?_⟩, ?_, hdoes.busy.trans h.idle⟩
    · rw [hdoes.filter, hfilter]
      exact (MedianFilter.pushAll_concat emptied past.samples count).symm
    · rw [hdoes.session]
      exact h.points
  | resetFilter =>
    obtain ⟨emptied, rfl, -, -, hfilter⟩ := h.filter
    refine ⟨⟨s.chain.filter.reset, ?_, rfl, rfl, hdoes.filter⟩, ?_, hdoes.busy.trans h.idle⟩
    · rw [hfilter]
      exact MedianFilter.size_pushAll emptied past.samples
    · rw [hdoes.session]
      exact h.points
  | addPoint reference => exact h.addPoint hdoes
  | reset =>
    refine ⟨?_, ?_, hdoes.busy.trans h.idle⟩
    · rw [hdoes.filter]
      exact h.filter
    · rw [hdoes.session, Use.sessionAfter, if_neg (by rw [h.idle]; decide)]
      rfl
  | begin | save | beginTare | applyTare | clearTare => exact h.aside hdoes rfl rfl

theorem addPoint_eq (reference : Float32) : Calibration.addPoint reference s =
    if past.samples.length < size.val then (.error .noSample, s)
    else
      let median := middle (MedianFilter.lastCounts size past.samples)
      (.ok (), s.capturing ⟨median, reference⟩) := by
  rw [addPoint_run, h.latest]
  by_cases hfew : past.samples.length < size.val
  · rw [if_pos hfew, if_pos hfew]
  · rw [if_neg hfew, if_neg hfew]

variable (medium : Medium ω) (clock : StateM ω UInt32)

theorem save_few (hfew : past.captures.length < sessionCapacity) :
    Calibration.save (board medium clock).medium s = (.error .insufficientPoints, s) := by
  have hcount : s.chain.calibration.session.count < sessionCapacity :=
    (CalibrationSession.count_of_toList h.points).2 hfew
  have hidle : ¬s.chain.calibration.busy = true := by rw [h.idle]; decide
  exact (Calibration.save_run _ s).trans ((if_neg hidle).trans (if_pos hcount))

theorem save_fits {earlier : List CalibrationPoint} {p q : CalibrationPoint}
    (hcaptures : past.captures = earlier ++ [p, q]) :
    Calibration.save (board medium clock).medium s = match Mapping.fit p q with
      | none => (.error .degenerate, s)
      | some mapping => Calibration.activate (board medium clock).medium mapping s := by
  have hpoints := h.points
  rw [hcaptures, lastPoints_pair] at hpoints
  obtain ⟨hcount, hfirst, hsecond⟩ := CalibrationSession.points_of_toList hpoints
  have hidle : ¬s.chain.calibration.busy = true := by rw [h.idle]; decide
  have hfull : ¬s.chain.calibration.session.count < sessionCapacity := hcount.not_lt
  have hsave := (Calibration.save_run (board medium clock).medium s).trans
    ((if_neg hidle).trans (if_neg hfull))
  rw [hsave]
  show (match Mapping.fit (s.chain.calibration.session.point 0)
    (s.chain.calibration.session.point 1) with | none => _ | some _ => _) = _
  rw [hfirst, hsecond]

theorem save_enough (henough : ¬past.captures.length < sessionCapacity) :
    (Calibration.save (board medium clock).medium s).1 ≠ .error .insufficientPoints := by
  obtain ⟨earlier, p, q, hcaptures⟩ := exists_lastPair henough
  rw [h.save_fits medium clock hcaptures]
  cases Mapping.fit p q with
  | none => nofun
  | some mapping =>
    obtain ⟨store, world, hrun | hrun⟩ := activate_run medium clock s h.idle mapping
    · dsimp only
      rw [hrun]
      nofun
    · dsimp only
      rw [hrun]
      nofun

end Accounts

variable (medium : Medium ω) (clock : StateM ω UInt32)

theorem accounts_usedAll (s : Core ω) (size : WindowSize) (uses : List Use) :
    Accounts size (ledger size uses) (usedAll (board medium clock) uses (s.booted size)) := by
  induction uses using List.reverseRecOn with
  | nil => exact accounts_booted s size
  | append_singleton uses use ih =>
    rw [usedAll_concat, ledger_concat]
    exact ih.after use (used_does medium clock _ use)

/-- After any uses, a point is refused exactly while fewer samples than the window has places have come
since the filter was reset, and is captured with their median otherwise. A save is refused for want of
points exactly while fewer than two have been captured since the engine was reset. Otherwise it fits
the last two of them in order, commits what it has fitted, and puts it in force if the store has taken
it. The points stay for a later save. -/
theorem save_fits_last_captures (s : Core ω) (size : WindowSize) (uses : List Use) :
    let t := usedAll (board medium clock) uses (s.booted size)
    let past := ledger size uses
    let saved := Calibration.save (board medium clock).medium t
    (∀ reference, Calibration.addPoint reference t =
      if past.samples.length < size.val then (.error .noSample, t)
      else
        let median := middle (MedianFilter.lastCounts size past.samples)
        (.ok (), t.capturing ⟨median, reference⟩)) ∧
    t.chain.calibration.session.toList = lastPoints past.captures ∧
    (saved.1 = .error .insufficientPoints ↔ past.captures.length < sessionCapacity) ∧
    (∀ earlier p q, past.captures = earlier ++ [p, q] →
      saved = match Mapping.fit p q with
        | none => (.error .degenerate, t)
        | some mapping =>
          let committed := Store.commit (board medium clock).medium mapping t.engaged
          let after := t.restored committed.2.chain.store committed.2.world
          match committed.1 with
          | .ok () =>
            (.ok (), after.withCalibration { t.chain.calibration with mapping := some mapping })
          | .error _ => (.error .storageFault, after)) ∧
    saved.2.chain.calibration.session = t.chain.calibration.session := by
  have haccounts := accounts_usedAll medium clock s size uses
  generalize usedAll (board medium clock) uses (s.booted size) = t at haccounts ⊢
  generalize ledger size uses = past at haccounts ⊢
  refine ⟨haccounts.addPoint_eq, haccounts.points, ⟨?_, ?_⟩, ?_, ?_⟩
  · intro hsave
    by_contra henough
    exact haccounts.save_enough medium clock henough hsave
  · intro hfew
    exact congrArg Prod.fst (haccounts.save_few medium clock hfew)
  · intro earlier p q hcaptures
    refine (haccounts.save_fits medium clock hcaptures).trans ?_
    cases Mapping.fit p q with
    | none => rfl
    | some mapping => exact activate_eq medium clock t haccounts.idle mapping
  · exact (save_does medium clock t).session

/-- The second reference is refused, since the filter was emptied before. -/
example : (ledger (.ofRequest 3) [.push 10, .push 30, .push 20, .addPoint 0, .resetFilter, .push 40,
    .addPoint 1]).captures = [⟨20, 0⟩] := by
  decide +kernel

end Core

end LoadCell
