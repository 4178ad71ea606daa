import LoadCell.Proofs.LastCaptures
import LoadCell.Proofs.OppositeFloats

/-!
The order of the two points of a fit. The gradient is the same in either order, bit for bit, and so is
the zero, unless the references have one magnitude: then the first point gives the zero.
-/
namespace LoadCell

open FloatBits

namespace Mapping

/-- The line through two points, with its zero at the first. -/
def through (low high : CalibrationPoint) : Mapping where
  zeroRaw := low.raw
  gradient := (widen high.reference - widen low.reference) /
    Float.ofInt (high.raw.toInt - low.raw.toInt)

/-- Points that share a count or a reference. -/
def Degenerate (a b : CalibrationPoint) : Prop :=
  a.raw = b.raw ∨ (a.reference == b.reference) = true

variable {a b : CalibrationPoint}

theorem fit_of_degenerate (h : Degenerate a b) : fit a b = none := by
  unfold fit
  rw [if_pos (by simpa [Degenerate] using h)]

theorem fit_of_le (hdegenerate : ¬Degenerate a b) (h : a.reference.abs ≤ b.reference.abs) :
    fit a b = if (through a b).isValid then some (through a b) else none := by
  unfold fit
  rw [if_neg (by simpa [Degenerate] using hdegenerate)]
  simp only [h, ↓reduceIte]
  rfl

theorem fit_of_not_le (hdegenerate : ¬Degenerate a b) (h : ¬a.reference.abs ≤ b.reference.abs) :
    fit a b = if (through b a).isValid then some (through b a) else none := by
  unfold fit
  rw [if_neg (by simpa [Degenerate] using hdegenerate)]
  simp only [h, ↓reduceIte]
  rfl

theorem degenerate_comm : Degenerate b a ↔ Degenerate a b := by
  unfold Degenerate
  rw [beq_comm_single, eq_comm]

variable (ha : a.reference.isFinite) (hb : b.reference.isFinite)
include ha hb

/-- Points of different magnitudes give the same line in either order. -/
theorem fit_comm (hmagnitudes : (a.reference.abs == b.reference.abs) = false) :
    fit b a = fit a b := by
  by_cases hdegenerate : Degenerate a b
  · rw [fit_of_degenerate hdegenerate, fit_of_degenerate (degenerate_comm.2 hdegenerate)]
  have hdegenerate' := mt degenerate_comm.1 hdegenerate
  have hboth : ¬(a.reference.abs ≤ b.reference.abs ∧ b.reference.abs ≤ a.reference.abs) := by
    rw [← beq_iff_le_le, hmagnitudes]
    decide
  rcases le_total_of_isFinite (isFinite_abs ha) (isFinite_abs hb) with hle | hle
  · rw [fit_of_le hdegenerate hle, fit_of_not_le hdegenerate' fun hge => hboth ⟨hle, hge⟩]
  · rw [fit_of_not_le hdegenerate fun hge => hboth ⟨hge, hle⟩, fit_of_le hdegenerate' hle]

/-- With references of one magnitude both differences change their sign with the order. -/
theorem gradient_through_comm (hmagnitudes : (a.reference.abs == b.reference.abs) = true)
    (hdegenerate : ¬Degenerate a b) : (through b a).gradient = (through a b).gradient := by
  obtain ⟨hraw, hreference⟩ := not_or.1 hdegenerate
  obtain ⟨s, m, e, hm, hunpack, hunpack'⟩ :=
    opposite_of_abs_beq ha hb hmagnitudes (by simpa using hreference)
  have hrise : Opposite (widen b.reference - widen a.reference)
      (widen a.reference - widen b.reference) := (opposite_widen hunpack hunpack').symm.sub
  have hcounts : b.raw.toInt - a.raw.toInt ≠ 0 := by
    intro hzero
    exact hraw (Int32.toInt_inj.1 (by omega))
  have hspan := opposite_ofInt hcounts
  rw [Int.neg_sub] at hspan
  exact hrise.div hspan

theorem gradient_fit_comm : (fit b a).map (·.gradient) = (fit a b).map (·.gradient) := by
  cases hmagnitudes : a.reference.abs == b.reference.abs with
  | false => rw [fit_comm ha hb hmagnitudes]
  | true =>
    by_cases hdegenerate : Degenerate a b
    · rw [fit_of_degenerate hdegenerate, fit_of_degenerate (degenerate_comm.2 hdegenerate)]
    · obtain ⟨hle, hge⟩ := beq_iff_le_le.1 hmagnitudes
      have hgradient := gradient_through_comm ha hb hmagnitudes hdegenerate
      have hvalid : (through b a).isValid = (through a b).isValid := by
        rw [isValid, hgradient, isValid]
      rw [fit_of_le hdegenerate hle, fit_of_le (mt degenerate_comm.1 hdegenerate) hge, hvalid]
      split
      next => exact congrArg some hgradient
      next => rfl

omit ha hb in
/-- Of two references of one magnitude the first has the zero. -/
theorem zeroRaw_of_tied (hmagnitudes : (a.reference.abs == b.reference.abs) = true)
    {mapping : Mapping} (h : fit a b = some mapping) : mapping.zeroRaw = a.raw := by
  have hdegenerate : ¬Degenerate a b := by
    intro hdegenerate
    cases (fit_of_degenerate hdegenerate).symm.trans h
  rw [fit_of_le hdegenerate (beq_iff_le_le.1 hmagnitudes).1] at h
  split at h
  next => exact (Option.some.inj h) ▸ rfl
  next => cases h

end Mapping

/-- A ring that two points were added to has these two. -/
theorem CalibrationSession.toList_add_add (s : CalibrationSession) (p q : CalibrationPoint) :
    ((s.add p).add q).toList = [p, q] := by
  rcases s.next_count_cases with ⟨hnext, hcount⟩ | ⟨hnext, hcount⟩ | ⟨hnext, hcount⟩ |
    ⟨hnext, hcount⟩
  all_goals
    simp [add, toList, point, place, sessionCapacity, List.range_succ, hnext, hcount]

namespace Core

variable {ω : Type}

def withSession (session : CalibrationSession) (s : Core ω) : Core ω :=
  s.withCalibration { s.chain.calibration with session := session }

def BesideSession (session : CalibrationSession) (s t : Core ω) : Prop := t = s.withSession session

section Beside

variable {session : CalibrationSession}

theorem alike_inWorld_beside {α : Type} (x : StateM ω α) :
    Alike (BesideSession session) (inWorld x) (inWorld x) := by
  rintro s _ rfl
  exact ⟨rfl, rfl⟩

theorem alike_modifyCalibration {f : Calibration → Calibration}
    (hf : ∀ c : Calibration, f { c with session := session } = { f c with session := session }) :
    Alike (BesideSession (ω := ω) session) (modifyPart f) (modifyPart f) := by
  rintro s _ rfl
  refine ⟨rfl, ?_⟩
  show (s.withSession session).withCalibration
    (f { s.chain.calibration with session := session }) = _
  rw [hf]
  rfl

variable (medium : Medium ω) (clock : StateM ω UInt32)

/-- The points make no difference to what a mapping does when it is activated. -/
theorem activate_withSession (mapping : Mapping) :
    Alike (BesideSession session) (Calibration.activate (board medium clock).medium mapping)
      (Calibration.activate (board medium clock).medium mapping) := by
  have htexts : TextAlike (BesideSession (ω := ω) session) := by
    have hlog : LogAlike (BesideSession (ω := ω) session) :=
      ⟨by rintro s _ rfl; rfl, fun _ => .pure _⟩
    exact hlog.texts
  have hmedium : (board medium clock).medium.Alike (board medium clock).medium
      (BesideSession session) :=
    medium.alike_within alike_inWorld_beside
  have hstore : Shares (BesideSession (ω := ω) session) Store :=
    ⟨by rintro s _ rfl; rfl, by rintro store s _ rfl; rfl⟩
  apply Alike.bind (alike_modifyCalibration fun _ => rfl)
  intro _
  apply Alike.bind (Store.alike_commit htexts hmedium hstore mapping)
  intro outcome
  apply Alike.bind (alike_modifyCalibration fun _ => rfl)
  intro _
  cases outcome with
  | error e => exact .bind (htexts.message _) fun _ => .pure _
  | ok =>
    exact .bind (alike_modifyCalibration fun _ => rfl) fun _ =>
      .bind (htexts.message _) fun _ => .pure _

end Beside

section Save

variable (medium : Medium ω) (clock : StateM ω UInt32) (s : Core ω)

theorem save_capturing (a b : CalibrationPoint) :
    let captured := (s.capturing a).capturing b
    Calibration.save (board medium clock).medium captured =
      if s.chain.calibration.busy then (.error .busy, captured)
      else match Mapping.fit a b with
        | none => (.error .degenerate, captured)
        | some mapping => Calibration.activate (board medium clock).medium mapping captured := by
  intro captured
  obtain ⟨hcount, hfirst, hsecond⟩ := CalibrationSession.points_of_toList
    (CalibrationSession.toList_add_add s.chain.calibration.session a b)
  have hsave := Calibration.save_run (board medium clock).medium captured
  dsimp only at hsave
  rw [hsave]
  change (if s.chain.calibration.busy = true then _ else if
    ((s.chain.calibration.session.add a).add b).count < sessionCapacity then _ else
    match Mapping.fit (((s.chain.calibration.session.add a).add b).point 0)
      (((s.chain.calibration.session.add a).add b).point 1) with | none => _ | some _ => _) = _
  rw [hcount, hfirst, hsecond, if_neg (Nat.lt_irrefl _)]
  rfl

/-- Two captures that fit one line in either order are saved alike in either order. -/
theorem save_comm {a b : CalibrationPoint} (hfit : Mapping.fit b a = Mapping.fit a b) :
    let first := Calibration.save (board medium clock).medium ((s.capturing a).capturing b)
    let other := (s.capturing b).capturing a
    Calibration.save (board medium clock).medium other =
      (first.1, first.2.withSession other.chain.calibration.session) := by
  intro first other
  have hother : BesideSession other.chain.calibration.session ((s.capturing a).capturing b) other :=
    rfl
  have hfirst : first = _ := save_capturing medium clock s a b
  have hsecond : Calibration.save (board medium clock).medium other = _ :=
    save_capturing medium clock s b a
  rw [hsecond, hfirst, hfit]
  split
  next => rfl
  next =>
    cases Mapping.fit a b with
    | none => rfl
    | some mapping =>
      obtain ⟨houtcome, hafter⟩ := activate_withSession medium clock mapping _ _ hother
      exact Prod.ext houtcome.symm hafter

end Save

/-- Two points with finite references fit or do not fit in either order, with the same gradient. With
references of different magnitudes they give the same mapping, and saving the two captures does the
same in either order, so that every count has the same weight then. With references of one magnitude
the zero is the count of the point that was captured first. -/
theorem fit_in_either_order {a b : CalibrationPoint} (ha : a.reference.isFinite)
    (hb : b.reference.isFinite) (medium : Medium ω) (clock : StateM ω UInt32) (s : Core ω) :
    let tied := a.reference.abs == b.reference.abs
    let first := Calibration.save (board medium clock).medium ((s.capturing a).capturing b)
    let other := (s.capturing b).capturing a
    let second := Calibration.save (board medium clock).medium other
    (Mapping.fit b a).map (·.gradient) = (Mapping.fit a b).map (·.gradient) ∧
      (tied = false → Mapping.fit b a = Mapping.fit a b ∧
        second = (first.1, first.2.withSession other.chain.calibration.session) ∧
        ∀ raw, second.2.chain.calibration.convert raw =
          first.2.chain.calibration.convert raw) ∧
      (tied = true → ∀ mapping, Mapping.fit a b = some mapping → mapping.zeroRaw = a.raw) := by
  intro tied first other second
  refine ⟨Mapping.gradient_fit_comm ha hb, fun hdifferent => ?_, fun htied mapping h => ?_⟩
  · have hfit := Mapping.fit_comm ha hb hdifferent
    have hsecond : second = (first.1, first.2.withSession other.chain.calibration.session) :=
      save_comm medium clock s hfit
    refine ⟨hfit, hsecond, fun raw => ?_⟩
    rw [hsecond]
    rfl
  · exact Mapping.zeroRaw_of_tied htied h

theorem fit_in_either_order_from_empty :
    Mapping.fit ⟨5000, 5⟩ ⟨1000, 0⟩ = Mapping.fit ⟨1000, 0⟩ ⟨5000, 5⟩ := by
  have hzero : (0 : Float32).isFinite := by decide +kernel
  have hfive : (5 : Float32).isFinite := by decide +kernel
  obtain ⟨-, hdifferent, -⟩ := fit_in_either_order (a := ⟨1000, 0⟩) (b := ⟨5000, 5⟩) hzero hfive
    noFlash (return 0) { world := (), script := fun _ => .ok }
  exact (hdifferent (by decide +kernel)).1

/-- Five kilograms and minus five: the zero is the first count, and the weight of a count between the
two depends on the order. -/
theorem opposite_references_in_either_order :
    let lower : CalibrationPoint := ⟨1000, -5⟩
    let upper : CalibrationPoint := ⟨5000, 5⟩
    Mapping.fit lower upper = some ⟨1000, 0.0025⟩ ∧ Mapping.fit upper lower = some ⟨5000, 0.0025⟩ ∧
      Mapping.weigh ⟨1000, 0.0025⟩ 3000 = 5 ∧ Mapping.weigh ⟨5000, 0.0025⟩ 3000 = -5 := by
  decide +kernel

end Core

end LoadCell
