import LoadCell.Median
import Mathlib

/-!
Sorting a window in place. While a count sinks, the cells below the gap and those above it hold the
sorted counts around it, so every cell that is read was written before, and none is looked for beside
the cells; after `n` counts the first `n` cells hold them in order.
-/
namespace LoadCell

/-- Counts in order are the same counts in one order only. -/
theorem eq_insertionSort {counts sorted : List Int32} (hperm : sorted.Perm counts)
    (hsorted : sorted.Pairwise (· ≤ ·)) : sorted = counts.insertionSort (· ≤ ·) :=
  (hperm.trans (List.perm_insertionSort _ _).symm).eq_of_pairwise' hsorted
    (List.pairwise_insertionSort _ _)

namespace SortCells

/-- The cells from a place on hold these counts. -/
def Holds (cells : SortCells) (start : ℕ) (counts : List Int32) : Prop :=
  ∀ i (h : i < counts.length), cells.read (start + i) = some counts[i]

theorem read_write {cells written : SortCells} {i : ℕ} {count : Int32}
    (h : cells.write i count = some written) (j : ℕ) :
    written.read j = if j = i then some count else cells.read j := by
  unfold write at h
  split at h
  next hi =>
    obtain rfl := Option.some.inj h
    unfold read
    rw [Vector.getElem?_set]
    by_cases hj : i = j
    · subst hj
      simp
    · rw [if_neg hj, if_neg (Ne.symm hj)]
  next => cases h

theorem exists_write (cells : SortCells) {i : ℕ} (hi : i < 9) (count : Int32) :
    ∃ written, cells.write i count = some written :=
  ⟨_, dif_pos hi⟩

namespace Holds

variable {cells written : SortCells} {start i : ℕ} {count : Int32} {counts : List Int32}

theorem nil (cells : SortCells) (start : ℕ) : cells.Holds start [] := by
  intro i h
  cases h

/-- A write beside the counts leaves them. -/
theorem write (h : cells.Holds start counts) (hwrite : cells.write i count = some written)
    (hbeside : i < start ∨ start + counts.length ≤ i) : written.Holds start counts := by
  intro j hj
  rw [read_write hwrite, if_neg (by omega)]
  exact h j hj

theorem cons (h : cells.Holds (start + 1) counts) (hcell : cells.read start = some count) :
    cells.Holds start (count :: counts) := by
  intro j hj
  cases j with
  | zero => exact hcell
  | succ j =>
    rw [show start + (j + 1) = start + 1 + j by omega]
    exact h j (Nat.lt_of_succ_lt_succ hj)

theorem append {more : List Int32} (h : cells.Holds start counts)
    (hmore : cells.Holds (start + counts.length) more) : cells.Holds start (counts ++ more) := by
  intro j hj
  by_cases hleft : j < counts.length
  · rw [List.getElem_append_left hleft]
    exact h j hleft
  · rw [List.getElem_append_right (by omega),
      show start + j = start + counts.length + (j - counts.length) by omega]
    exact hmore _ _

theorem left {more : List Int32} (h : cells.Holds start (counts ++ more)) :
    cells.Holds start counts := by
  intro j hj
  rw [h j (by rw [List.length_append]; omega), List.getElem_append_left hj]

theorem last (h : cells.Holds 0 (counts ++ [count])) : cells.read counts.length = some count := by
  have hcell := h counts.length (by simp)
  rw [Nat.zero_add, List.getElem_concat_length rfl] at hcell
  exact hcell

/-- Writing between lower and greater counts. -/
theorem fill {low high : List Int32} (hlow : cells.Holds 0 low)
    (hhigh : cells.Holds (low.length + 1) high)
    (hwrite : cells.write low.length count = some written) :
    written.Holds 0 (low ++ count :: high) := by
  have hcell : written.read low.length = some count := by
    rw [read_write hwrite, if_pos rfl]
  apply (hlow.write hwrite (.inr (by omega))).append
  rw [Nat.zero_add]
  exact (hhigh.write hwrite (.inl (by omega))).cons hcell

end Holds

/-- A count sinks to its place between sorted counts of which those above the gap are greater. -/
theorem sink_sorted (count : Int32) {cells : SortCells} {low high : List Int32}
    (hlow : cells.Holds 0 low) (hhigh : cells.Holds (low.length + 1) high)
    (hroom : low.length + high.length < 9) (hsorted : (low ++ high).Pairwise (· ≤ ·))
    (hgreater : ∀ w ∈ high, count ≤ w) :
    ∃ sunk sorted, sink count low.length cells = some sunk ∧ sunk.Holds 0 sorted ∧
      sorted.Perm (count :: (low ++ high)) ∧ sorted.Pairwise (· ≤ ·) := by
  -- Every step looks at the last of the lower counts.
  induction low using List.reverseRecOn generalizing cells high with
  | nil =>
    obtain ⟨written, hwrite⟩ := cells.exists_write (i := 0) (by omega) count
    exact ⟨written, count :: high, hwrite, hlow.fill hhigh hwrite, .refl _,
      List.pairwise_cons.2 ⟨hgreater, hsorted⟩⟩
  | append_singleton low w ih =>
    rw [List.length_append, List.length_singleton] at hhigh hroom ⊢
    have hgap : sink count (low.length + 1) cells =
        if count < w then cells.write (low.length + 1) w >>= sink count low.length
        else cells.write (low.length + 1) count := by
      rw [sink, hlow.last]
      rfl
    rw [hgap]
    by_cases hlt : count < w
    · obtain ⟨shifted, hwrite⟩ := cells.exists_write (i := low.length + 1) (by omega) w
      rw [if_pos hlt, hwrite]
      rw [List.append_assoc, List.singleton_append] at hsorted ⊢
      have hcell : shifted.read (low.length + 1) = some w := by
        rw [read_write hwrite, if_pos rfl]
      apply ih (hlow.left.write hwrite (.inr (by omega)))
        ((hhigh.write hwrite (.inl (by omega))).cons hcell) (by simp; omega) hsorted
      exact List.forall_mem_cons.2 ⟨Int32.le_of_lt hlt, hgreater⟩
    · obtain ⟨written, hwrite⟩ := cells.exists_write (i := low.length + 1) (by omega) count
      have hle : w ≤ count := Int32.not_lt.1 hlt
      rw [if_neg hlt]
      refine ⟨written, low ++ [w] ++ count :: high, hwrite, ?_, List.perm_middle, ?_⟩
      · have hlength : (low ++ [w]).length = low.length + 1 := by simp
        exact hlow.fill (hlength ▸ hhigh) (hlength ▸ hwrite)
      · obtain ⟨hfirst, hsecond, hacross⟩ := List.pairwise_append.1 hsorted
        refine List.pairwise_append.2 ⟨hfirst, List.pairwise_cons.2 ⟨hgreater, hsecond⟩, ?_⟩
        intro u hu v hv
        rcases List.mem_cons.1 hv with rfl | hhigher
        · refine Int32.le_trans ?_ hle
          rcases List.mem_append.1 hu with hbefore | hlast
          · exact (List.pairwise_append.1 hfirst).2.2 u hbefore w (List.mem_singleton_self w)
          · exact Int32.le_of_eq (List.mem_singleton.1 hlast)
        · exact hacross u hu v hhigher

/-- Every window that the cells can take is sorted without a wrong access. -/
theorem ofWindow_sorted {size : ℕ} (window : Vector Int32 size) (hsize : size ≤ 9) {n : ℕ}
    (hn : n ≤ size) : ∃ sorted, ofWindow window n = some sorted ∧
      sorted.Holds 0 ((window.toList.take n).insertionSort (· ≤ ·)) := by
  induction n with
  | zero => exact ⟨blank, rfl, .nil _ _⟩
  | succ n ih =>
    obtain ⟨cells, hcells, hholds⟩ := ih (by omega)
    have hlength : ((window.toList.take n).insertionSort (· ≤ ·)).length = n := by
      rw [List.length_insertionSort, List.length_take, Vector.length_toList]
      omega
    have hsink := sink_sorted window[n] hholds (Holds.nil cells _)
      (by rw [hlength, List.length_nil]; omega)
      (by rw [List.append_nil]; exact List.pairwise_insertionSort _ _) (by simp)
    rw [hlength, List.append_nil] at hsink
    obtain ⟨sunk, sorted, hsunk, hsorts, hperm, hsorted⟩ := hsink
    refine ⟨sunk, ?_, ?_⟩
    · rw [ofWindow, hcells, Vector.getElem?_eq_getElem hn]
      exact hsunk
    · have htake : window.toList.take (n + 1) = window.toList.take n ++ [window[n]] := by
        rw [List.take_succ_eq_append_getElem (by rw [Vector.length_toList]; exact hn),
          Vector.getElem_toList]
      have hcounts : sorted.Perm (window.toList.take (n + 1)) := by
        rw [htake]
        exact (hperm.trans ((List.perm_insertionSort _ _).cons _)).trans
          (List.perm_append_singleton _ _).symm
      rw [← eq_insertionSort hcounts hsorted]
      exact hsorts

end SortCells

end LoadCell
