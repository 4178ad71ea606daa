/-!
A queue of bounded length in a fixed number of cells. The live items start at `head` and go round
at the end of the cells; `toList` is the queue they stand for, oldest first. `push?` refuses an
item when the cells are full, `pushOverwrite` evicts the oldest one and counts it.
-/

namespace LoadCell

structure BoundedQueue (α : Type) (capacity : Nat) where
  cells : Vector α capacity
  head : Nat
  size : Nat
  overruns : UInt32
  head_lt : head < capacity
  size_le : size ≤ capacity

namespace BoundedQueue

variable {α : Type} {n : Nat}

def empty [Inhabited α] (pos : 0 < n) : BoundedQueue α n where
  cells := Vector.replicate n default
  head := 0
  size := 0
  overruns := 0
  head_lt := pos
  size_le := Nat.zero_le n

theorem capacity_pos (q : BoundedQueue α n) : 0 < n :=
  Nat.lt_of_le_of_lt (Nat.zero_le _) q.head_lt

/-- The cell of the `i`-th oldest item. -/
def place (q : BoundedQueue α n) (i : Nat) : Fin n :=
  ⟨(q.head + i) % n, Nat.mod_lt _ q.capacity_pos⟩

/-- The items, oldest first. -/
def toList (q : BoundedQueue α n) : List α :=
  (List.range q.size).map fun i => q.cells[q.place i]

def isEmpty (q : BoundedQueue α n) : Bool := q.size == 0

def peek? (q : BoundedQueue α n) : Option α :=
  if q.size = 0 then none else some q.cells[q.place 0]

def dropOldest (q : BoundedQueue α n) : BoundedQueue α n :=
  { q with
    head := q.place 1
    size := q.size - 1
    head_lt := (q.place 1).isLt
    size_le := Nat.le_trans (Nat.sub_le _ _) q.size_le }

def pop? (q : BoundedQueue α n) : Option (α × BoundedQueue α n) :=
  q.peek?.map fun a => (a, q.dropOldest)

/-- Appends an item, or gives nothing if there is no free cell. -/
def push? (q : BoundedQueue α n) (a : α) : Option (BoundedQueue α n) :=
  if h : q.size < n then
    some { q with
      cells := q.cells.set (q.place q.size) a (q.place q.size).isLt
      size := q.size + 1
      size_le := h }
  else none

/-- Appends an item, in the place of the oldest one if there is no free cell. -/
def pushOverwrite (q : BoundedQueue α n) (a : α) : BoundedQueue α n :=
  match q.push? a with
  | some pushed => pushed
  | none =>
    let freed := { q.dropOldest with overruns := q.overruns + 1 }
    (freed.push? a).getD freed

/-- Forgets the items but not the count of overruns. -/
def clear (q : BoundedQueue α n) : BoundedQueue α n :=
  { q with
    head := 0
    size := 0
    head_lt := q.capacity_pos
    size_le := Nat.zero_le n }

@[simp] theorem length_toList (q : BoundedQueue α n) : q.toList.length = q.size := by
  simp [toList]

@[simp] theorem toList_empty [Inhabited α] (pos : 0 < n) :
    (empty pos : BoundedQueue α n).toList = [] := rfl

@[simp] theorem toList_clear (q : BoundedQueue α n) : q.clear.toList = [] := rfl

theorem place_val (q : BoundedQueue α n) {i : Nat} (hi : i ≤ n) :
    (q.place i).val = if q.head + i < n then q.head + i else q.head + i - n := by
  have := q.head_lt
  simp only [place]
  split
  · exact Nat.mod_eq_of_lt (by omega)
  · rw [Nat.mod_eq_sub_mod (by omega), Nat.mod_eq_of_lt (by omega)]

/-- Different items have different cells. -/
theorem place_ne (q : BoundedQueue α n) {i j : Nat} (hij : i < j) (hj : j < n) :
    (q.place j).val ≠ (q.place i).val := by
  have := q.head_lt
  rw [place_val q (by omega), place_val q (by omega)]
  split <;> split <;> omega

theorem map_toList_push? (q : BoundedQueue α n) (a : α) (h : q.size < n) :
    (q.push? a).map toList = some (q.toList ++ [a]) := by
  simp only [push?, h, ↓reduceDIte, Option.map_some, Option.some.injEq, toList,
    List.range_succ, List.map_append, List.map_cons, List.map_nil]
  congr 1
  · apply List.map_congr_left
    intro i hi
    exact Vector.getElem_set_ne _ _ (q.place_ne (List.mem_range.mp hi) h)
  · simp [place]

theorem push?_eq_none_iff (q : BoundedQueue α n) (a : α) : q.push? a = none ↔ q.size = n := by
  have := q.size_le
  simp only [push?]
  split <;> simp <;> omega

/-- A queue that takes an item has room for it, and it is the last one then. -/
theorem toList_of_push? {q r : BoundedQueue α n} {a : α} (h : q.push? a = some r) :
    q.size < n ∧ r.toList = q.toList ++ [a] := by
  have hroom : q.size < n := by
    have := q.size_le
    have := mt (push?_eq_none_iff q a).2 (by simp [h])
    omega
  have hlist := map_toList_push? q a hroom
  rw [h, Option.map_some, Option.some.injEq] at hlist
  exact ⟨hroom, hlist⟩

theorem toList_dropOldest (q : BoundedQueue α n) : q.dropOldest.toList = q.toList.tail := by
  simp only [toList, dropOldest, ← List.map_tail, List.tail_range, List.range'_eq_map_range,
    List.map_map]
  apply List.map_congr_left
  intro i _
  simp only [Function.comp, place, Fin.getElem_fin]
  congr 1
  rw [Nat.mod_add_mod, Nat.add_assoc]

theorem peek?_eq_head? (q : BoundedQueue α n) : q.peek? = q.toList.head? := by
  cases h : q.size with
  | zero => simp [peek?, toList, h]
  | succ m => simp [peek?, toList, h, List.range_succ_eq_map]

theorem map_toList_pop? (q : BoundedQueue α n) :
    q.pop?.map (fun r => (r.1, r.2.toList)) = q.toList.head?.map fun a => (a, q.toList.tail) := by
  simp only [pop?, peek?_eq_head?, Option.map_map, Function.comp_def, toList_dropOldest]

theorem toList_of_pop? {q r : BoundedQueue α n} {a : α} (h : q.pop? = some (a, r)) :
    q.toList = a :: r.toList := by
  have hlist := map_toList_pop? q
  rw [h] at hlist
  cases hq : q.toList with
  | nil => simp [hq] at hlist
  | cons b rest =>
    simp only [hq, Option.map_some, List.head?_cons, List.tail_cons, Option.some.injEq,
      Prod.mk.injEq] at hlist
    rw [hlist.1, hlist.2]

theorem toList_of_pop?_none {q : BoundedQueue α n} (h : q.pop? = none) : q.toList = [] := by
  have hlist := map_toList_pop? q
  rw [h] at hlist
  cases hq : q.toList with
  | nil => rfl
  | cons b rest => simp [hq] at hlist

theorem toList_pushOverwrite (q : BoundedQueue α n) (a : α) :
    (q.pushOverwrite a).toList = (if q.size = n then q.toList.tail else q.toList) ++ [a] := by
  have hn := q.capacity_pos
  have hs := q.size_le
  unfold pushOverwrite
  by_cases h : q.size = n
  · have hlt : ({ q.dropOldest with overruns := q.overruns + 1 } : BoundedQueue α n).size < n := by
      show q.size - 1 < n
      omega
    obtain ⟨r, hr, hl⟩ := Option.map_eq_some_iff.1 (map_toList_push? _ a hlt)
    simp only [(push?_eq_none_iff q a).2 h, hr, Option.getD_some, hl, h, ↓reduceIte]
    congr 1
    exact toList_dropOldest q
  · obtain ⟨r, hr, hl⟩ := Option.map_eq_some_iff.1 (map_toList_push? q a (by omega))
    simp [hr, hl, h]

theorem overruns_of_push? {q r : BoundedQueue α n} {a : α} (h : q.push? a = some r) :
    r.overruns = q.overruns := by
  unfold push? at h
  split at h
  next => exact Option.some.inj h ▸ rfl
  next => cases h

theorem overruns_of_pop? {q r : BoundedQueue α n} {a : α} (h : q.pop? = some (a, r)) :
    r.overruns = q.overruns := by
  obtain ⟨b, -, hpopped⟩ := Option.map_eq_some_iff.1 h
  rw [← (Prod.mk.inj hpopped).2]
  rfl

/-- Every eviction is counted, and nothing else. -/
theorem overruns_pushOverwrite (q : BoundedQueue α n) (a : α) :
    (q.pushOverwrite a).overruns = if q.size = n then q.overruns + 1 else q.overruns := by
  unfold pushOverwrite
  by_cases h : q.size = n
  · rw [(push?_eq_none_iff q a).2 h, if_pos h]
    dsimp only
    cases hpush : push? { q.dropOldest with overruns := q.overruns + 1 } a with
    | none => rfl
    | some r => exact overruns_of_push? hpush
  · rw [if_neg h]
    cases hpush : q.push? a with
    | none => exact absurd ((push?_eq_none_iff q a).1 hpush) h
    | some r => exact overruns_of_push? hpush

end BoundedQueue

end LoadCell
