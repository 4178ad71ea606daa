import LoadCell.Calibration.Mapping

/-!
The points captured for the next fit, the last two of them. They stand in a ring: the oldest is in
the first cell until the ring is full, and then in the cell that the next point goes into.
-/

namespace LoadCell

/-- How many points a fit takes. -/
abbrev sessionCapacity : Nat := 2

structure CalibrationSession where
  points : Vector CalibrationPoint sessionCapacity
  /-- The cell of the next point. -/
  next : Nat
  count : Nat
  next_lt : next < sessionCapacity
  count_le : count ≤ sessionCapacity
  next_eq : count < sessionCapacity → next = count

namespace CalibrationSession

def empty : CalibrationSession where
  points := Vector.replicate sessionCapacity ⟨0, 0⟩
  next := 0
  count := 0
  next_lt := Nat.two_pos
  count_le := Nat.zero_le _
  next_eq _ := rfl

instance : Inhabited CalibrationSession := ⟨empty⟩

/-- Forgets the points. -/
def clear (s : CalibrationSession) : CalibrationSession :=
  { s with
    next := 0
    count := 0
    next_lt := Nat.two_pos
    count_le := Nat.zero_le _
    next_eq := fun _ => rfl }

/-- Takes in a point; a third one evicts the oldest. -/
def add (point : CalibrationPoint) (s : CalibrationSession) : CalibrationSession :=
  { s with
    points := s.points.set s.next point s.next_lt
    next := (s.next + 1) % sessionCapacity
    count := if s.count < sessionCapacity then s.count + 1 else s.count
    next_lt := Nat.mod_lt _ Nat.two_pos
    count_le := by have := s.count_le; split <;> omega
    next_eq := by
      have := s.next_eq
      split
      next hroom =>
        intro h
        rw [this hroom, Nat.mod_eq_of_lt h]
      next => omega }

/-- The cell of the `i`-th oldest point. -/
def place (s : CalibrationSession) (i : Nat) : Fin sessionCapacity :=
  let oldest := if s.count < sessionCapacity then 0 else s.next
  ⟨(oldest + i) % sessionCapacity, Nat.mod_lt _ Nat.two_pos⟩

/-- The `i`-th oldest point. -/
def point (s : CalibrationSession) (i : Nat) : CalibrationPoint := s.points[s.place i]

/-- The points, oldest first. -/
def toList (s : CalibrationSession) : List CalibrationPoint := (List.range s.count).map s.point

@[simp] theorem length_toList (s : CalibrationSession) : s.toList.length = s.count := by
  simp [toList]

@[simp] theorem toList_empty : empty.toList = [] := rfl

@[simp] theorem toList_clear (s : CalibrationSession) : s.clear.toList = [] := rfl

/-- The states of a ring of two cells. -/
theorem next_count_cases (s : CalibrationSession) :
    s.next = 0 ∧ s.count = 0 ∨ s.next = 1 ∧ s.count = 1 ∨ s.next = 0 ∧ s.count = 2 ∨
      s.next = 1 ∧ s.count = 2 := by
  have hnext : s.next < 2 := s.next_lt
  have hcount : s.count ≤ 2 := s.count_le
  have heq : s.count < 2 → s.next = s.count := s.next_eq
  omega

/-- With a new point, the ring has the last ones of those that it had and the new one. -/
theorem toList_add (s : CalibrationSession) (p : CalibrationPoint) :
    (s.add p).toList = (s.toList ++ [p]).drop (s.count + 1 - sessionCapacity) := by
  rcases s.next_count_cases with ⟨hnext, hcount⟩ | ⟨hnext, hcount⟩ | ⟨hnext, hcount⟩ | ⟨hnext, hcount⟩
  all_goals
    simp [add, toList, point, place, sessionCapacity, List.range_succ, hnext, hcount]

end CalibrationSession

end LoadCell
