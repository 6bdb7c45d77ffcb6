import Mathlib.Data.List.GetD
import Mathlib.Data.List.Sort

/- The k-th smallest element of a list, read from a sorted copy, and its rank: fewer than
   k + 1 elements lie below it and more than k do not lie above it. -/
namespace OrderStatistics
variable {α : Type} [LinearOrder α]

def sorted (l : List α) : List α := l.insertionSort (· ≤ ·)

theorem sorted_perm (l : List α) : (sorted l).Perm l := List.perm_insertionSort _ l

theorem sorted_length (l : List α) : (sorted l).length = l.length := (sorted_perm l).length_eq

theorem sorted_pairwise (l : List α) : (sorted l).Pairwise (· ≤ ·) :=
  List.pairwise_insertionSort _ l

theorem sorted_eq_of_perm {l l' : List α} (same : l.Perm l') : sorted l = sorted l' := by
  have joined : (sorted l).Perm (sorted l') :=
    ((sorted_perm l).trans same).trans (sorted_perm l').symm
  exact joined.eq_of_pairwise' (sorted_pairwise l) (sorted_pairwise l')

theorem sorted_mono (l : List α) {i j : Nat} (first : i ≤ j) (second : j < (sorted l).length) :
    (sorted l)[i] ≤ (sorted l)[j] := by
  rcases Nat.eq_or_lt_of_le first with rfl | less
  · exact le_refl _
  · exact List.pairwise_iff_getElem.mp (sorted_pairwise l) i j _ second less

theorem below_rank (l : List α) {k : Nat} (inside : k < (sorted l).length) :
    l.countP (· < (sorted l)[k]) ≤ k := by
  have rest : ((sorted l).drop k).countP (· < (sorted l)[k]) = 0 := by
    rw [List.countP_eq_zero]
    intro x member
    obtain ⟨j, bound, rfl⟩ := List.mem_iff_getElem.mp member
    rw [List.length_drop] at bound
    rw [List.getElem_drop]
    simpa using sorted_mono l (Nat.le_add_right k j) (by omega)
  have split : (sorted l).countP (· < (sorted l)[k]) =
      ((sorted l).take k).countP (· < (sorted l)[k]) +
        ((sorted l).drop k).countP (· < (sorted l)[k]) := by
    rw [← List.countP_append, List.take_append_drop]
  have front : ((sorted l).take k).countP (· < (sorted l)[k]) ≤ k :=
    List.countP_le_length.trans (List.length_take_le k _)
  rw [← (sorted_perm l).countP_eq, split, rest]
  omega

theorem rank_below (l : List α) {k : Nat} (inside : k < (sorted l).length) :
    k < l.countP (· ≤ (sorted l)[k]) := by
  have front : ((sorted l).take (k + 1)).countP (· ≤ (sorted l)[k]) = k + 1 := by
    rw [List.countP_eq_length.mpr, List.length_take, Nat.min_eq_left inside]
    intro x member
    obtain ⟨j, bound, rfl⟩ := List.mem_iff_getElem.mp member
    rw [List.length_take] at bound
    rw [List.getElem_take]
    simpa using sorted_mono l (show j ≤ k by omega) inside
  have within := (List.take_sublist (k + 1) (sorted l)).countP_le (p := (· ≤ (sorted l)[k]))
  rw [← (sorted_perm l).countP_eq]
  omega

end OrderStatistics
