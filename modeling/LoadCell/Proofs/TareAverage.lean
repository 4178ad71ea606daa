import LoadCell.Proofs.EngineUses

/-!
A tare averages exactly its weights. From the moment it is begun, its state is settled by the numbers
that came since: it counts them down, first those to skip and then those to average, and stops with
the last one. Whatever else happens to the engine in between, and weights that are no numbers, do not
count.
-/
namespace LoadCell

/-- The sum of weights in double precision, from left to right. -/
def doubleSum (weights : List Float32) : Float :=
  weights.foldl (fun sum weight => sum + widen weight) 0

theorem doubleSum_concat (weights : List Float32) (weight : Float32) :
    doubleSum (weights ++ [weight]) = doubleSum weights + widen weight := by
  rw [doubleSum, List.foldl_append]
  rfl

theorem uint16_ofNat_eq_zero_iff {n : ℕ} (h : n < 2 ^ 16) : UInt16.ofNat n = 0 ↔ n = 0 := by
  rw [← UInt16.toNat_inj, UInt16.toNat_ofNat', Nat.mod_eq_of_lt h]
  rfl

theorem uint16_ofNat_pred {n : ℕ} (h : 0 < n) : UInt16.ofNat n - 1 = UInt16.ofNat (n - 1) :=
  (UInt16.ofNat_sub h).symm

attribute [ext] Tare

namespace Tare

/-- How many weights are averaged if so many are asked for. -/
def averaged (average : UInt16) : ℕ := max average.toNat 1

theorem averaged_pos (average : UInt16) : 0 < averaged average := by
  rw [averaged]
  omega

theorem averaged_lt (average : UInt16) : averaged average < 2 ^ 16 := by
  have := average.toNat_lt
  rw [averaged]
  omega

theorem ofNat_averaged (average : UInt16) :
    UInt16.ofNat (averaged average) = if average = 0 then 1 else average := by
  split
  next hzero => rw [hzero]; rfl
  next hsome =>
    have hpos : average.toNat ≠ 0 := fun h => hsome (UInt16.toNat_inj.1 h)
    have hmax : averaged average = average.toNat := by
      rw [averaged]
      omega
    rw [hmax, UInt16.ofNat_toNat]

/-- The weights to average, out of all those since the beginning. -/
def window (warmup average : UInt16) (weights : List Float32) : List Float32 :=
  (weights.take (warmup.toNat + averaged average)).drop warmup.toNat

theorem window_of_few {warmup average : UInt16} {weights : List Float32}
    (h : weights.length ≤ warmup.toNat) : window warmup average weights = [] :=
  List.drop_eq_nil_of_le ((List.length_take_le' _ _).trans h)

theorem window_concat {warmup average : UInt16} {weights : List Float32}
    (hskipped : warmup.toNat ≤ weights.length)
    (hroom : weights.length < warmup.toNat + averaged average) (weight : Float32) :
    window warmup average (weights ++ [weight]) = window warmup average weights ++ [weight] := by
  have hall : (weights ++ [weight]).length ≤ warmup.toNat + averaged average := by simpa using hroom
  rw [window, window, List.take_of_length_le hall, List.take_of_length_le hroom.le,
    List.drop_append_of_le_length hskipped]

theorem window_of_full {warmup average : UInt16} {weights : List Float32}
    (hfull : warmup.toNat + averaged average ≤ weights.length) (weight : Float32) :
    window warmup average (weights ++ [weight]) = window warmup average weights := by
  rw [window, window, List.take_append_of_le_length hfull]

/-- A tare that was begun with an offset in force, and the numbers that have come since. -/
def since (offset : Float32) (warmup average : UInt16) (weights : List Float32) : Tare where
  offset :=
    if weights.length < warmup.toNat + averaged average then offset
    else narrow (doubleSum (window warmup average weights) / Float.ofNat (averaged average))
  warmup := UInt16.ofNat (warmup.toNat - weights.length)
  remaining := UInt16.ofNat (averaged average - (weights.length - warmup.toNat))
  total := UInt16.ofNat (averaged average)
  sum := doubleSum (window warmup average weights)

theorem start_eq (t : Tare) (warmup average : UInt16) :
    t.start warmup average = since t.offset warmup average [] := by
  have hpos : (0 : ℕ) < warmup.toNat + averaged average :=
    Nat.lt_add_left _ (averaged_pos average)
  have hnone : window warmup average [] = [] := by simp [window]
  rw [since, hnone, List.length_nil, if_pos hpos, Nat.zero_sub, Nat.sub_zero, Nat.sub_zero,
    UInt16.ofNat_toNat, ofNat_averaged]
  rfl

variable {offset : Float32} {warmup average : UInt16} {weights : List Float32}

theorem remaining_since : (since offset warmup average weights).remaining = 0 ↔
    warmup.toNat + averaged average ≤ weights.length := by
  have hlt := averaged_lt average
  have hpos := averaged_pos average
  have hleft : averaged average - (weights.length - warmup.toNat) < 2 ^ 16 := by omega
  refine (uint16_ofNat_eq_zero_iff hleft).trans ?_
  omega

theorem warmup_since : (since offset warmup average weights).warmup = 0 ↔
    warmup.toNat ≤ weights.length := by
  have hlt := warmup.toNat_lt
  have hleft : warmup.toNat - weights.length < 2 ^ 16 := by omega
  refine (uint16_ofNat_eq_zero_iff hleft).trans ?_
  omega

theorem isRunning_since : (since offset warmup average weights).isRunning = true ↔
    weights.length < warmup.toNat + averaged average := by
  rw [isRunning, bne_iff_ne, ne_eq, remaining_since, not_le]

variable {weight : Float32} (hnumber : weight.isNaN = false)
include hnumber

/-- Skips a weight. -/
theorem absorb_skipped (hskip : weights.length < warmup.toNat) :
    (since offset warmup average weights).absorb weight =
      since offset warmup average (weights ++ [weight]) := by
  have hpos := averaged_pos average
  have hrunning : (since offset warmup average weights).isRunning = true :=
    isRunning_since.2 (by omega)
  have hwarmup : (since offset warmup average weights).warmup ≠ 0 := by
    rw [ne_eq, warmup_since]
    omega
  have habsorb : (since offset warmup average weights).absorb weight =
      { since offset warmup average weights with
        warmup := (since offset warmup average weights).warmup - 1 } := by
    rw [absorb, hnumber, hrunning]
    exact if_pos hwarmup
  have hless : UInt16.ofNat (warmup.toNat - weights.length) - 1 =
      UInt16.ofNat (warmup.toNat - (weights.length + 1)) := uint16_ofNat_pred (by omega)
  have hwindow : window warmup average weights = [] := window_of_few hskip.le
  have hwindow' : window warmup average (weights ++ [weight]) = [] :=
    window_of_few (by simpa using hskip)
  have hleft : weights.length - warmup.toNat = 0 := by omega
  have hleft' : weights.length + 1 - warmup.toNat = 0 := by omega
  rw [habsorb, since, since, hwindow, hwindow', List.length_append, List.length_singleton,
    if_pos (by omega), if_pos (by omega), hleft, hleft', hless]

/-- Takes a weight into the sum; the last one ends the tare. -/
theorem absorb_averaged (hskipped : warmup.toNat ≤ weights.length)
    (hroom : weights.length < warmup.toNat + averaged average) :
    (since offset warmup average weights).absorb weight =
      since offset warmup average (weights ++ [weight]) := by
  have hlt := averaged_lt average
  have hrunning : (since offset warmup average weights).isRunning = true := isRunning_since.2 hroom
  have hwarmup : ¬(since offset warmup average weights).warmup ≠ 0 :=
    not_not.2 (warmup_since.2 hskipped)
  have hsum : (since offset warmup average weights).sum + widen weight =
      (since offset warmup average (weights ++ [weight])).sum := by
    refine (doubleSum_concat _ _).symm.trans ?_
    rw [← window_concat hskipped hroom]
    rfl
  have hremaining : (since offset warmup average weights).remaining - 1 =
      (since offset warmup average (weights ++ [weight])).remaining := by
    refine (uint16_ofNat_pred (by omega)).trans (congrArg UInt16.ofNat ?_)
    rw [List.length_append, List.length_singleton]
    omega
  have hbefore : (since offset warmup average weights).offset = offset := if_pos hroom
  have htotal : (since offset warmup average weights).total.toNat = averaged average := by
    rw [since, UInt16.toNat_ofNat', Nat.mod_eq_of_lt hlt]
  rw [absorb, hnumber, hrunning]
  refine (if_neg hwarmup).trans ?_
  rw [hsum, hremaining]
  refine Tare.ext ?_ ?_ rfl rfl rfl
  · rw [hbefore, htotal]
    by_cases hmore : (weights ++ [weight]).length < warmup.toNat + averaged average
    · rw [if_neg (remaining_since.not.2 hmore.not_ge)]
      exact (if_pos hmore).symm
    · rw [if_pos (remaining_since.2 (not_lt.1 hmore))]
      exact (if_neg hmore).symm
  · refine congrArg UInt16.ofNat ?_
    rw [List.length_append, List.length_singleton]
    omega

/-- A tare that is over stays as it is. -/
theorem absorb_over (hfull : warmup.toNat + averaged average ≤ weights.length) :
    (since offset warmup average weights).absorb weight =
      since offset warmup average (weights ++ [weight]) := by
  have hover : (since offset warmup average weights).isRunning = false := by
    rw [Bool.eq_false_iff, ne_eq, isRunning_since]
    omega
  have hstays : (since offset warmup average weights).absorb weight =
      since offset warmup average weights := by
    rw [absorb, hnumber, hover]
    rfl
  have hwarmup : warmup.toNat - weights.length = warmup.toNat - (weights.length + 1) := by omega
  have hremaining : averaged average - (weights.length - warmup.toNat) =
      averaged average - (weights.length + 1 - warmup.toNat) := by omega
  rw [hstays, since, since, window_of_full hfull, List.length_append, List.length_singleton,
    if_neg (by omega), if_neg (by omega), hwarmup, hremaining]

theorem absorb_since : (since offset warmup average weights).absorb weight =
    since offset warmup average (weights ++ [weight]) := by
  rcases lt_or_ge weights.length warmup.toNat with hskip | hskipped
  · exact absorb_skipped hnumber hskip
  · rcases lt_or_ge weights.length (warmup.toNat + averaged average) with hroom | hfull
    · exact absorb_averaged hnumber hskipped hroom
    · exact absorb_over hnumber hfull

omit hnumber in
/-- A weight that is no number does not count. -/
theorem absorb_nan (t : Tare) (hnan : weight.isNaN = true) : t.absorb weight = t := by
  rw [absorb, hnan]
  rfl

end Tare

namespace Core

variable {ω : Type}

/-- Whether a use begins the tare anew or ends it. -/
def Use.disturbs : Use → Bool
  | .beginTare _ _ | .clearTare | .reset => true
  | _ => false

/-- The weight that the tare counts. -/
def Use.number? : Use → Option Float32
  | .applyTare weight => if weight.isNaN then none else some weight
  | _ => none

/-- A use that leaves the tare to itself gives it at most a number. -/
theorem Use.tareAfter_since {use : Use} (huse : use.disturbs = false) {c : Calibration}
    {offset : Float32} {warmup average : UInt16} {weights : List Float32}
    (h : c.tare = .since offset warmup average weights) :
    use.tareAfter c = .since offset warmup average (weights ++ use.number?.toList) := by
  have hidle (hnone : use.number? = none) (hsame : use.tareAfter c = c.tare) :
      use.tareAfter c = .since offset warmup average (weights ++ use.number?.toList) := by
    rw [hnone, Option.toList_none, List.append_nil, hsame, h]
  cases use with
  | beginTare | clearTare | reset => cases huse
  | push | resetFilter | begin | addPoint | save => exact hidle rfl rfl
  | applyTare weight =>
    by_cases hnan : weight.isNaN = true
    · exact hidle (if_pos hnan) (c.tare.absorb_nan hnan)
    · have hnumber : (Use.applyTare weight).number? = some weight := if_neg hnan
      have hafter : (Use.applyTare weight).tareAfter c = c.tare.absorb weight := rfl
      rw [hnumber, hafter, h]
      exact Tare.absorb_since (Bool.eq_false_of_not_eq_true hnan)

variable (medium : Medium ω) (clock : StateM ω UInt32)

/-- As long as nothing disturbs it, a tare is settled by the numbers since it was begun. -/
theorem tare_usedAll {s : Core ω} {offset : Float32} {warmup average : UInt16}
    (h : s.chain.calibration.tare = .since offset warmup average []) {uses : List Use}
    (huses : ∀ use ∈ uses, use.disturbs = false) :
    (usedAll (board medium clock) uses s).chain.calibration.tare =
      .since offset warmup average (uses.filterMap (·.number?)) := by
  induction uses using List.reverseRecOn with
  | nil => exact h
  | append_singleton uses use ih =>
    obtain ⟨hearlier, hlast⟩ := List.forall_mem_append.1 huses
    have hone : [use].filterMap (·.number?) = use.number?.toList := by
      cases hnumber : use.number? with
      | none => exact List.filterMap_cons_none hnumber
      | some number => exact List.filterMap_cons_some hnumber
    rw [usedAll_concat, (used_does medium clock _ use).tare, List.filterMap_append, hone]
    exact Use.tareAfter_since (hlast use (List.mem_singleton_self use)) (ih hearlier)

/-- A number comes out less the offset in force after it, and what is no number changes nothing. -/
theorem applyTare_answer (t : Core ω) (weight : Float32) :
    let applied := Calibration.applyTare weight t
    if weight.isNaN then applied = (weight, t)
    else applied.1 = weight - applied.2.chain.calibration.tare.offset := by
  rw [applyTare_run]
  dsimp only
  by_cases hnan : weight.isNaN = true
  · rw [if_pos hnan, Tare.absorb_nan _ hnan, Tare.net, if_pos hnan]
  · rw [if_neg hnan, Tare.net, if_neg hnan]

/-- After a tare was begun with `warmup` weights to skip and `average`, at least one, to average, and
as long as nothing begins it anew or ends it, it runs with the old offset until so many numbers have
come. Then the offset is the average of those after the skipped ones, and stays. A number comes out
less the offset in force after it was counted, and what is no number comes out as it is. -/
theorem tare_averages (s : Core ω) (warmup average : UInt16)
    (haccepted : (Calibration.beginTare warmup average s).1 = true) (uses : List Use)
    (huses : ∀ use ∈ uses, use.disturbs = false) :
    let t := usedAll (board medium clock) uses (Calibration.beginTare warmup average s).2
    let numbers := uses.filterMap (·.number?)
    let count := max average.toNat 1
    (numbers.length < warmup.toNat + count →
      t.chain.calibration.tare.isRunning = true ∧
        t.chain.calibration.tare.offset = s.chain.calibration.tare.offset) ∧
    (warmup.toNat + count ≤ numbers.length →
      t.chain.calibration.tare.isRunning = false ∧
        t.chain.calibration.tare.offset = narrow
          (doubleSum ((numbers.take (warmup.toNat + count)).drop warmup.toNat) /
            Float.ofNat count)) ∧
    ∀ weight, let applied := Calibration.applyTare weight t
      if weight.isNaN then applied = (weight, t)
      else applied.1 = weight - applied.2.chain.calibration.tare.offset := by
  have hbegun : (Calibration.beginTare warmup average s).2.chain.calibration.tare =
      .since s.chain.calibration.tare.offset warmup average [] := by
    rw [beginTare_run] at haccepted ⊢
    split at haccepted
    next hcalibrated =>
      rw [if_pos hcalibrated]
      exact Tare.start_eq _ warmup average
    next => cases haccepted
  have htare := tare_usedAll medium clock hbegun huses
  generalize usedAll (board medium clock) uses _ = t at htare ⊢
  generalize uses.filterMap (·.number?) = numbers at htare ⊢
  refine ⟨?_, ?_, applyTare_answer t⟩
  · intro hfew
    rw [htare]
    exact ⟨Tare.isRunning_since.2 hfew, if_pos hfew⟩
  · intro hall
    rw [htare]
    exact ⟨Bool.eq_false_iff.2 (Tare.isRunning_since.not.2 hall.not_gt), if_neg hall.not_gt⟩

/-- An engine in the middle of a tare. -/
def midTare : Core Unit where
  chain := { calibration := {
    mapping := some ⟨0, 1⟩
    tare := { offset := 9, warmup := 0, remaining := 1, total := 2, sum := 5 } } }
  world := ()
  script := fun _ => .ok

/-- A tare of one weight to skip and two to average, with other uses and weights that are no numbers
in between. -/
def threeNumbers : List Use :=
  [.applyTare 5, .push 7, .applyTare notANumber, .applyTare 1, .addPoint 2, .applyTare 3, .applyTare 8]

theorem tare_averages_midTare : (Calibration.beginTare 1 2 midTare).1 = true ∧
    (usedAll (board noFlash (return 0)) threeNumbers
      (Calibration.beginTare 1 2 midTare).2).chain.calibration.tare.offset = 2 := by
  have huses : ∀ use ∈ threeNumbers, use.disturbs = false := by decide
  obtain ⟨-, hdone, -⟩ := tare_averages noFlash (return 0) midTare 1 2 rfl threeNumbers huses
  obtain ⟨-, hoffset⟩ := hdone (by decide +kernel)
  exact ⟨rfl, hoffset.trans (by decide +kernel)⟩

end Core

end LoadCell
