import Mathlib.Algebra.Ring.Nat
import Mathlib.Order.Lattice.Nat
import Mathlib.Data.List.Chain

/- Counters that are read from time to time. The growth of a list of readings adds up the
   rises between neighbours; a fall, which is a reset, counts as nothing. -/
namespace Growth

variable {α β γ δ : Type}

def neighbours (f : α → α → β) : List α → List β
  | [] => []
  | [_] => []
  | a :: b :: rest => f a b :: neighbours f (b :: rest)

theorem neighbours_map {f : α → α → β} {g : γ → γ → δ} {h : α → γ} {k : β → δ}
    (same : ∀ a b, k (f a b) = g (h a) (h b)) (xs : List α) :
    (neighbours f xs).map k = neighbours g (xs.map h) := by
  induction xs with
  | nil => rfl
  | cons a xs ih =>
    cases xs with
    | nil => rfl
    | cons b rest =>
      rw [List.map_cons] at ih
      rw [neighbours, List.map_cons, ih, List.map_cons, List.map_cons, neighbours, same]

theorem neighbours_snoc {f : α → α → β} {xs : List α} {a : α} (last : xs.getLast? = some a)
    (b : α) : neighbours f (xs ++ [b]) = neighbours f xs ++ [f a b] := by
  induction xs with
  | nil => cases last
  | cons x xs ih =>
    cases xs with
    | nil =>
      cases last
      rfl
    | cons y rest =>
      rw [List.getLast?_cons_cons] at last
      rw [List.cons_append, List.cons_append, neighbours, ← List.cons_append, ih last, neighbours,
        List.cons_append]

theorem neighbours_zip {f : γ → β → δ} {g : α → α → β} (xs : List (γ × α)) :
    neighbours (fun a b => f b.1 (g a.2 b.2)) xs =
      List.zipWith f (xs.map Prod.fst).tail (neighbours g (xs.map Prod.snd)) := by
  induction xs with
  | nil => rfl
  | cons a xs ih =>
    cases xs with
    | nil => rfl
    | cons b rest =>
      rw [neighbours, ih]
      rfl

def growth (xs : List ℕ) : ℕ := (neighbours (fun a b => b - a) xs).sum

def falls (xs : List ℕ) : ℕ := (neighbours (fun a b => a - b) xs).sum

theorem growth_balance (x : ℕ) (xs : List ℕ) :
    x + growth (x :: xs) = xs.getLastD x + falls (x :: xs) := by
  induction xs generalizing x with
  | nil => rfl
  | cons y rest ih =>
    have later := ih y
    unfold growth falls at later ⊢
    rw [neighbours, neighbours, List.sum_cons, List.sum_cons, List.getLastD_cons]
    omega

theorem falls_eq_zero_iff (xs : List ℕ) : falls xs = 0 ↔ xs.IsChain (· ≤ ·) := by
  induction xs with
  | nil => simp [falls, neighbours]
  | cons x xs ih =>
    cases xs with
    | nil => simp [falls, neighbours]
    | cons y rest =>
      rw [List.isChain_cons_cons, ← ih, falls, neighbours, List.sum_cons, falls]
      omega

/-- A counter that never falls grows by the difference of its last and first readings. -/
theorem growth_sorted {x : ℕ} {xs : List ℕ} (sorted : (x :: xs).IsChain (· ≤ ·)) :
    growth (x :: xs) = xs.getLastD x - x := by
  have balance := growth_balance x xs
  have level := (falls_eq_zero_iff _).mpr sorted
  omega

theorem sorted_bounds {xs : List ℕ} (sorted : xs.IsChain (· ≤ ·)) :
    ∀ t ∈ xs, xs.headD 0 ≤ t ∧ t ≤ xs.getLastD 0 := by
  induction xs with
  | nil => simp
  | cons x xs ih =>
    cases xs with
    | nil => simp
    | cons y rest =>
      rw [List.isChain_cons_cons] at sorted
      obtain ⟨step, later⟩ := sorted
      intro t member
      rw [List.headD_cons, List.getLastD_cons, List.getLastD_cons]
      rcases List.mem_cons.mp member with first | other
      · have next := ih later y List.mem_cons_self
        rw [List.getLastD_cons] at next
        exact ⟨first.ge, first.trans_le (step.trans next.2)⟩
      · have next := ih later t other
        rw [List.headD_cons, List.getLastD_cons] at next
        exact ⟨step.trans next.1, next.2⟩

/-- Between readings that do not fall overall, more is counted than the difference as soon as
    one of them falls. -/
theorem growth_le_iff {x : ℕ} {xs : List ℕ} (rise : x ≤ xs.getLastD x) :
    growth (x :: xs) ≤ xs.getLastD x - x ↔ (x :: xs).IsChain (· ≤ ·) := by
  have balance := growth_balance x xs
  rw [← falls_eq_zero_iff]
  omega

end Growth
