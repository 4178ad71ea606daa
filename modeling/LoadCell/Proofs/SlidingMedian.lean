import LoadCell.Proofs.WindowSort

/-!
The filter yields the median of the last counts. The circular window, read from the place of the
next count on, is the list of the last counts; what stands in it does not depend on how it was
filled, and its middle one in order is what the sorted copy of the window has in the middle.
-/
namespace LoadCell

/-- The middle count in order. -/
def middle (counts : List Int32) : Int32 :=
  (counts.insertionSort (· ≤ ·)).getD (counts.length / 2) 0

theorem middle_congr {l l' : List Int32} (h : l.Perm l') : middle l = middle l' := by
  have hsort : l.insertionSort (· ≤ ·) = l'.insertionSort (· ≤ ·) :=
    eq_insertionSort ((List.perm_insertionSort _ _).trans h) (List.pairwise_insertionSort _ _)
  rw [middle, middle, hsort, h.length_eq]

/-- Writing at the place where a rotation begins and then beginning one later appends. -/
theorem rotate_set {l : List Int32} {n : ℕ} (h : n < l.length) (v : Int32) :
    (l.set n v).rotate (n + 1) = (l.rotate n).tail ++ [v] := by
  have hset : n + 1 ≤ (l.set n v).length := by
    rw [List.length_set]
    exact h
  have htake : (l.take n).length = n := List.length_take_of_le h.le
  rw [List.rotate_eq_drop_append_take hset, List.rotate_eq_drop_append_take h.le,
    List.set_eq_take_append_cons_drop, if_pos h, List.drop_eq_getElem_cons h]
  have hleft : (l.take n).drop (n + 1) = [] := List.drop_eq_nil_of_le (by omega)
  have hright : (l.take n).take (n + 1) = l.take n := List.take_of_length_le (by omega)
  simp only [List.drop_append, List.take_append, htake, hleft, hright, Nat.add_sub_cancel_left,
    List.drop_succ_cons, List.take_succ_cons, List.drop_zero, List.take_zero, List.nil_append,
    List.cons_append, List.tail_cons, List.append_assoc]

namespace MedianFilter

/-- The counts in the window, oldest first. -/
def recent (f : MedianFilter) : List Int32 := f.window.toList.rotate f.next

theorem length_recent (f : MedianFilter) : f.recent.length = f.size.val := by
  simp [recent]

theorem recent_push (f : MedianFilter) (count : Int32) :
    (f.push count).recent = f.recent.tail ++ [count] := by
  have hlength : f.window.toList.length = f.size.val := by simp
  have hnext : (f.next : ℕ) < f.window.toList.length := by
    rw [hlength]
    exact f.next.isLt
  have hwindow : (f.push count).window.toList = f.window.toList.set f.next count := by
    simp [push, Vector.toList_set]
  have hplace : ((f.push count).next : ℕ) = (f.next + 1) % f.window.toList.length := by
    rw [hlength]
    rfl
  calc (f.push count).recent
      = (f.window.toList.set f.next count).rotate ((f.next + 1) % f.window.toList.length) := by
        rw [recent, hwindow, hplace]
    _ = (f.window.toList.set f.next count).rotate (f.next + 1) := by
        rw [← List.length_set, List.rotate_mod]
    _ = f.recent.tail ++ [count] := rotate_set hnext count

/-- The sort of a full window makes no wrong access, and its middle cell has the middle count. -/
theorem median_eq_middle (size : WindowSize) (window : Vector Int32 size.val) :
    median size window = some (middle window.toList) := by
  obtain ⟨sorted, hsort, hholds⟩ := SortCells.ofWindow_sorted window size.le_nine (Nat.le_refl _)
  have hlength : window.toList.length = size.val := Vector.length_toList
  have htake : window.toList.take size.val = window.toList := List.take_of_length_le (by omega)
  have hpos := size.pos
  rw [htake] at hholds
  have hmiddle : size.val / 2 < (window.toList.insertionSort (· ≤ ·)).length := by
    rw [List.length_insertionSort, hlength]
    omega
  have hcell := hholds (size.val / 2) hmiddle
  rw [Nat.zero_add] at hcell
  rw [median, hsort, middle, hlength, List.getD_eq_getElem _ _ hmiddle]
  exact hcell

/-- A full window yields the middle one of the last counts. -/
theorem latest_push (f : MedianFilter) (count : Int32) :
    (f.push count).latest =
      if (f.push count).filled < f.size.val then f.latest
      else some (middle (f.push count).recent) := by
  have hperm : (f.push count).recent.Perm (f.push count).window.toList := List.rotate_perm _ _
  rw [middle_congr hperm, ← median_eq_middle]
  rfl

/-- Takes counts one after the other. -/
def pushAll (f : MedianFilter) (counts : List Int32) : MedianFilter := counts.foldl push f

theorem pushAll_concat (f : MedianFilter) (counts : List Int32) (count : Int32) :
    f.pushAll (counts ++ [count]) = (f.pushAll counts).push count := by
  simp [pushAll]

@[simp] theorem size_pushAll (f : MedianFilter) (counts : List Int32) :
    (f.pushAll counts).size = f.size := by
  induction counts using List.reverseRecOn with
  | nil => rfl
  | append_singleton counts count ih => rw [pushAll_concat, ← ih]; rfl

/-- The window has the last counts, in the order in which they came. -/
theorem recent_pushAll (f : MedianFilter) (counts : List Int32) :
    (f.pushAll counts).recent = (f.recent ++ counts).drop counts.length := by
  induction counts using List.reverseRecOn with
  | nil => simp [pushAll]
  | append_singleton counts count ih =>
    rw [pushAll_concat, recent_push, ih, List.tail_drop, ← List.append_assoc]
    have hlength : counts.length + 1 ≤ (f.recent ++ counts).length := by
      have := f.size.pos
      rw [List.length_append, length_recent]
      omega
    rw [List.length_append, List.length_singleton, List.drop_append_of_le_length hlength]

theorem filled_pushAll {f : MedianFilter} (hempty : f.filled = 0) (counts : List Int32) :
    (f.pushAll counts).filled = min counts.length f.size.val := by
  induction counts using List.reverseRecOn with
  | nil => simp [pushAll, hempty]
  | append_singleton counts count ih =>
    have hfilled : ((f.pushAll counts).push count).filled =
        if (f.pushAll counts).filled < (f.pushAll counts).size.val then
          (f.pushAll counts).filled + 1 else (f.pushAll counts).filled := rfl
    rw [pushAll_concat, hfilled, size_pushAll, ih, List.length_append, List.length_singleton]
    split <;> omega

/-- The counts that the window shows: the last ones, as many as it has places. -/
def lastCounts (size : WindowSize) (counts : List Int32) : List Int32 :=
  counts.drop (counts.length - size.val)

/-- From an empty window on, a filter yields nothing until the window is full, and from then on
the middle one of the last counts. -/
theorem latest_pushAll {f : MedianFilter} (hempty : f.filled = 0) (hlatest : f.latest = none)
    (counts : List Int32) :
    (f.pushAll counts).latest =
      if counts.length < f.size.val then none else some (middle (lastCounts f.size counts)) := by
  induction counts using List.reverseRecOn with
  | nil => simp [pushAll, hlatest, f.size.pos]
  | append_singleton counts count ih =>
    have hfilled := filled_pushAll hempty (counts ++ [count])
    have hrecent := recent_pushAll f (counts ++ [count])
    rw [pushAll_concat] at hfilled hrecent
    rw [pushAll_concat, latest_push, hfilled, size_pushAll, hrecent, ih]
    have hlength : (counts ++ [count]).length = counts.length + 1 := by simp
    by_cases hfull : counts.length + 1 < f.size.val
    · rw [if_pos (by omega), if_pos (by omega), if_pos (by omega)]
    · rw [if_neg (by omega), if_neg (by omega), lastCounts]
      congr 2
      rw [List.drop_append, length_recent, List.drop_eq_nil_of_le (by rw [length_recent]; omega),
        List.nil_append]

inductive Call
  | push (count : Int32)
  | reset
  deriving DecidableEq

/-- What a call yields, and the filter after it. -/
def serve (f : MedianFilter) : Call → Option Int32 × MedianFilter
  | .push count => ((f.push count).latest, f.push count)
  | .reset => (none, f.reset)

/-- What calls yield, one after the other, and the filter after them. -/
def serveAll (f : MedianFilter) (calls : List Call) : List (Option Int32) × MedianFilter :=
  calls.foldl (fun done call => (done.1 ++ [(done.2.serve call).1], (done.2.serve call).2)) ([], f)

theorem serveAll_concat (f : MedianFilter) (calls : List Call) (call : Call) :
    f.serveAll (calls ++ [call]) =
      ((f.serveAll calls).1 ++ [((f.serveAll calls).2.serve call).1],
        ((f.serveAll calls).2.serve call).2) := by
  rw [serveAll, List.foldl_append]
  rfl

/-- The counts since the last reset. -/
def countsSince (calls : List Call) : List Int32 :=
  calls.foldl (fun counts call => match call with
    | .push count => counts ++ [count]
    | .reset => []) []

theorem countsSince_concat (calls : List Call) (call : Call) :
    countsSince (calls ++ [call]) = match call with
      | .push count => countsSince calls ++ [count]
      | .reset => [] := by
  rw [countsSince, List.foldl_append]
  rfl

/-- What a filter shows after counts: nothing while they are too few for its window, and then the
middle one of the last. -/
def shown (size : WindowSize) (counts : List Int32) : Option Int32 :=
  if counts.length < size.val then none else some (middle (lastCounts size counts))

/-- A filter that has taken counts since it was empty. -/
def HasTaken (f : MedianFilter) (size : WindowSize) (counts : List Int32) : Prop :=
  ∃ emptied : MedianFilter, emptied.size = size ∧ emptied.filled = 0 ∧ emptied.latest = none ∧
    f = emptied.pushAll counts

namespace HasTaken

variable {f : MedianFilter} {size : WindowSize} {counts : List Int32}

theorem latest (h : f.HasTaken size counts) : f.latest = shown size counts := by
  obtain ⟨emptied, rfl, hfilled, hnone, rfl⟩ := h
  exact latest_pushAll hfilled hnone counts

theorem size_eq (h : f.HasTaken size counts) : f.size = size := by
  obtain ⟨emptied, rfl, -, -, rfl⟩ := h
  exact size_pushAll emptied counts

theorem push (h : f.HasTaken size counts) (count : Int32) :
    (f.push count).HasTaken size (counts ++ [count]) := by
  obtain ⟨emptied, hsize, hfilled, hnone, rfl⟩ := h
  exact ⟨emptied, hsize, hfilled, hnone, (pushAll_concat emptied counts count).symm⟩

theorem reset (h : f.HasTaken size counts) : f.reset.HasTaken size [] :=
  ⟨f.reset, h.size_eq, rfl, rfl, rfl⟩

end HasTaken

theorem serveAll_hasTaken {f : MedianFilter} {size : WindowSize} (h : f.HasTaken size [])
    (calls : List Call) : (f.serveAll calls).2.HasTaken size (countsSince calls) := by
  induction calls using List.reverseRecOn with
  | nil => exact h
  | append_singleton calls call ih =>
    rw [serveAll_concat, countsSince_concat]
    cases call with
    | push count => exact ih.push count
    | reset => exact ih.reset

/-- A call yields what the filter shows after it. -/
theorem latest_serve (f : MedianFilter) (call : Call) :
    (f.serve call).1 = (f.serve call).2.latest := by
  cases call with
  | push => rfl
  | reset => rfl

theorem yields_serveAll {f : MedianFilter} {size : WindowSize} (h : f.HasTaken size [])
    (calls : List Call) :
    (f.serveAll calls).1 = calls.inits.tail.map fun past => shown size (countsSince past) := by
  induction calls using List.reverseRecOn with
  | nil => rfl
  | append_singleton calls call ih =>
    have hafter := (serveAll_hasTaken h (calls ++ [call])).latest
    rw [serveAll_concat] at hafter ⊢
    have hinits : (calls ++ [call]).inits.tail = calls.inits.tail ++ [calls ++ [call]] := by
      rw [List.inits_append]
      exact List.tail_append_of_ne_nil (List.ne_nil_of_mem ((List.mem_inits [] calls).2 List.nil_prefix))
    rw [latest_serve, hafter, ih, hinits, List.map_append]
    rfl

theorem create_eq {σ : Type} [Logs σ] (wish : UInt8) (s : σ) :
    (create wish s).1 = ofSize (.ofRequest wish) := by
  unfold create
  split
  next => rfl
  next => rfl

theorem shown_nil (size : WindowSize) : shown size [] = none := if_pos size.pos

/-- A filter shows what it has yielded last. -/
theorem latest_serveAll {f : MedianFilter} (hlatest : f.latest = none) (calls : List Call) :
    (f.serveAll calls).2.latest = (f.serveAll calls).1.getLastD none := by
  induction calls using List.reverseRecOn with
  | nil => exact hlatest
  | append_singleton calls call _ => rw [serveAll_concat, List.getLastD_concat, latest_serve]

/-- Whatever window is asked for, it has an odd number of places from 3 to 9. After any calls the filter
has yielded, call by call, nothing while fewer counts than the window has places have come since the
last reset, and then the middle one of the last counts in order; it shows what it yielded last. The
next count has a place in the window, and sorting the window makes no wrong access. -/
theorem yields_sliding_median {σ : Type} [Logs σ] (s : σ) (wish : UInt8) (calls : List Call) :
    let created := (create wish s).1
    let done := created.serveAll calls
    let size := created.size
    (size = .ofRequest wish ∧ size.val % 2 = 1 ∧ 3 ≤ size.val ∧ size.val ≤ 9) ∧
      done.1 = calls.inits.tail.map (fun past => shown size (countsSince past)) ∧
      done.2.latest = shown size (countsSince calls) ∧
      done.2.latest = done.1.getLastD none ∧
      done.2.size = size ∧ done.2.next < size.val ∧
      ∃ sorted, SortCells.ofWindow done.2.window done.2.size.val = some sorted := by
  dsimp only
  have hcreated : (create wish s).1.size = .ofRequest wish := congrArg size (create_eq wish s)
  have hnew : (create wish s).1.HasTaken (create wish s).1.size [] := by
    rw [create_eq]
    exact ⟨_, rfl, rfl, rfl, rfl⟩
  generalize (create wish s).1 = created at hcreated hnew ⊢
  have hdone := serveAll_hasTaken hnew calls
  obtain ⟨sorted, hsort, -⟩ := SortCells.ofWindow_sorted (created.serveAll calls).2.window
    (created.serveAll calls).2.size.le_nine (Nat.le_refl _)
  refine ⟨⟨hcreated, created.size.odd, created.size.three_le, created.size.le_nine⟩,
    yields_serveAll hnew calls, hdone.latest,
    latest_serveAll (hnew.latest.trans (shown_nil _)) calls, hdone.size_eq, ?_, sorted, hsort⟩
  rw [← hdone.size_eq]
  exact (created.serveAll calls).2.next.isLt

/-- Windows of three: a spike does not get through, and after a reset the filter starts anew. -/
example : (((ofSize (.ofRequest 2)).serveAll
    [.push 500, .push 502, .push 8000000, .push 501, .reset, .push 9]).1) =
    [none, none, some 502, some 502, none, none] := by
  decide +kernel

end MedianFilter

end LoadCell
