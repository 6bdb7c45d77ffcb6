import Mathlib.Algebra.Order.Field.Basic
import Mathlib.Algebra.Order.Ring.Abs
import Mathlib.Data.List.Induction
import Mathlib.Data.Nat.Dist
import Mathlib.Tactic.Linarith
import Mathlib.Tactic.Ring

/- A moving average of weight 1/k and the moving average of weight 1/l of its own error, in
   rational numbers and in whole numbers rounded down at every step. Rounding pulls the mean
   down, each step adds less than one unit to what earlier steps have lost, and the weights
   forget the older losses, so that the two stay close over any number of steps. -/
namespace Averages

structure Tracker (α : Type) where
  mean : α
  deviation : α

def exact (k l : ℕ) (t : Tracker ℚ) (r : ℚ) : Tracker ℚ where
  mean := ((k - 1) * t.mean + r) / k
  deviation := ((l - 1) * t.deviation + |r - t.mean|) / l

def truncated (k l : ℕ) (t : Tracker ℕ) (r : ℕ) : Tracker ℕ where
  mean := ((k - 1) * t.mean + r) / k
  deviation := ((l - 1) * t.deviation + Nat.dist r t.mean) / l

theorem cast_dist (a b : ℕ) : (Nat.dist a b : ℚ) = |(a : ℚ) - b| := by
  rcases Nat.le_total a b with below | above
  · rw [Nat.dist_eq_sub_of_le below, Nat.cast_sub below, abs_sub_comm, abs_of_nonneg]
    exact sub_nonneg.mpr (Nat.cast_le.mpr below)
  · rw [Nat.dist_eq_sub_of_le_right above, Nat.cast_sub above, abs_of_nonneg]
    exact sub_nonneg.mpr (Nat.cast_le.mpr above)

theorem rounded_down (a : ℕ) {k : ℕ} (positive : 0 < k) :
    (k : ℚ) * (a / k : ℕ) ≤ a ∧ (a : ℚ) ≤ k * (a / k : ℕ) + (k - 1) := by
  have split := Nat.div_add_mod a k
  have small := Nat.mod_lt a positive
  constructor
  · exact_mod_cast (by omega : k * (a / k) ≤ a)
  · have upper : a + 1 ≤ k * (a / k) + k := by omega
    have cast : (a : ℚ) + 1 ≤ k * (a / k : ℕ) + k := by exact_mod_cast upper
    linarith

/-- How far the rounded tracker may be from the exact one. -/
structure Drift (k l : ℕ) (t : Tracker ℕ) (T : Tracker ℚ) : Prop where
  mean_lower : 0 ≤ T.mean - t.mean
  mean_upper : T.mean - t.mean < k - 1
  deviation_lower : -(k - 1) < T.deviation - t.deviation
  deviation_upper : T.deviation - t.deviation < (k - 1) + (l - 1)

section

variable {k l : ℕ} (wide : 1 < k) (broad : 1 < l)

include wide in
theorem mean_drift {s r : ℕ} {S : ℚ} (lower : 0 ≤ S - s) (upper : S - s < k - 1) :
    0 ≤ ((k - 1) * S + r) / k - (((k - 1) * s + r) / k : ℕ) ∧
      ((k - 1) * S + r) / k - (((k - 1) * s + r) / k : ℕ) < (k : ℚ) - 1 := by
  have one : (1 : ℚ) < k := by exact_mod_cast wide
  obtain ⟨below, above⟩ := rounded_down ((k - 1) * s + r) (by omega : 0 < k)
  have cast : (((k - 1) * s + r : ℕ) : ℚ) = (k - 1) * s + r := by
    push_cast [Nat.cast_sub wide.le]
    ring
  rw [cast] at below above
  generalize ((((k - 1) * s + r) / k : ℕ) : ℚ) = q at below above ⊢
  have grown : 0 ≤ ((k : ℚ) - 1) * (S - s) := mul_nonneg (by linarith) lower
  have bounded : ((k : ℚ) - 1) * (S - s) < (k - 1) * (k - 1) :=
    mul_lt_mul_of_pos_left upper (by linarith)
  constructor
  · rw [sub_nonneg, le_div_iff₀ (by linarith)]
    linarith
  · rw [sub_lt_iff_lt_add, div_lt_iff₀ (by linarith)]
    linarith

include broad in
theorem deviation_drift {s m r : ℕ} {S M : ℚ} (lower : 0 ≤ S - s) (upper : S - s < k - 1)
    (below : -((k : ℚ) - 1) < M - m) (above : M - m < (k - 1) + (l - 1)) :
    -((k : ℚ) - 1) < ((l - 1) * M + |r - S|) / l - (((l - 1) * m + Nat.dist r s) / l : ℕ) ∧
      ((l - 1) * M + |r - S|) / l - (((l - 1) * m + Nat.dist r s) / l : ℕ) <
        ((k : ℚ) - 1) + (l - 1) := by
  have one : (1 : ℚ) < l := by exact_mod_cast broad
  obtain ⟨less, more⟩ := rounded_down ((l - 1) * m + Nat.dist r s) (by omega : 0 < l)
  have cast : (((l - 1) * m + Nat.dist r s : ℕ) : ℚ) = (l - 1) * m + |(r : ℚ) - s| := by
    push_cast [Nat.cast_sub broad.le, cast_dist]
    ring
  rw [cast] at less more
  generalize ((((l - 1) * m + Nat.dist r s) / l : ℕ) : ℚ) = q at less more ⊢
  have close : |(|(r : ℚ) - S| - |(r : ℚ) - s|)| ≤ S - s := by
    have triangle := abs_abs_sub_abs_le_abs_sub ((r : ℚ) - S) (r - s)
    have same : (r : ℚ) - S - (r - s) = -(S - s) := by ring
    rw [same, abs_neg, abs_of_nonneg lower] at triangle
    exact triangle
  obtain ⟨errorBelow, errorAbove⟩ := abs_le.mp close
  have lowered : ((l : ℚ) - 1) * (-(k - 1)) < (l - 1) * (M - m) :=
    mul_lt_mul_of_pos_left below (by linarith)
  have raised : ((l : ℚ) - 1) * (M - m) < (l - 1) * ((k - 1) + (l - 1)) :=
    mul_lt_mul_of_pos_left above (by linarith)
  constructor
  · rw [lt_sub_iff_add_lt, lt_div_iff₀ (by linarith)]
    linarith
  · rw [sub_lt_iff_lt_add, div_lt_iff₀ (by linarith)]
    linarith

include wide broad in
theorem drift_step {t : Tracker ℕ} {T : Tracker ℚ} (drift : Drift k l t T) (r : ℕ) :
    Drift k l (truncated k l t r) (exact k l T r) := by
  obtain ⟨meanLower, meanUpper⟩ := mean_drift wide (r := r) drift.mean_lower drift.mean_upper
  obtain ⟨lower, upper⟩ := deviation_drift broad (r := r) drift.mean_lower drift.mean_upper
    drift.deviation_lower drift.deviation_upper
  exact ⟨meanLower, meanUpper, lower, upper⟩

include wide broad in
theorem drift_start (r : ℕ) : Drift k l ⟨r, 0⟩ ⟨r, 0⟩ := by
  have one : (1 : ℚ) < k := by exact_mod_cast wide
  have two : (1 : ℚ) < l := by exact_mod_cast broad
  constructor <;> simp <;> linarith

include wide broad in
theorem drift_run (first : ℕ) (rs : List ℕ) :
    Drift k l (rs.foldl (truncated k l) ⟨first, 0⟩)
      (rs.foldl (fun T (r : ℕ) => exact k l T r) ⟨first, 0⟩) := by
  induction rs using List.reverseRecOn with
  | nil => exact drift_start wide broad first
  | append_singleton rs r ih =>
    rw [List.foldl_append, List.foldl_append]
    exact drift_step wide broad ih r

end

/-- The mean lies among the samples and the deviation within their spread. -/
structure Within (lo hi : ℕ) (t : Tracker ℕ) : Prop where
  lower : lo ≤ t.mean
  upper : t.mean ≤ hi
  spread : t.deviation ≤ hi - lo

theorem weighted_div_mem {k lo hi a b : ℕ} (positive : 0 < k) (low : lo ≤ a) (high : a ≤ hi)
    (low' : lo ≤ b) (high' : b ≤ hi) :
    lo ≤ ((k - 1) * a + b) / k ∧ ((k - 1) * a + b) / k ≤ hi := by
  obtain ⟨j, rfl⟩ : ∃ j, k = j + 1 := ⟨k - 1, by omega⟩
  rw [Nat.add_sub_cancel]
  constructor
  · rw [Nat.le_div_iff_mul_le positive]
    calc lo * (j + 1) = j * lo + lo := by ring
      _ ≤ j * a + b := Nat.add_le_add (Nat.mul_le_mul_left j low) low'
  · apply Nat.div_le_of_le_mul
    calc j * a + b ≤ j * hi + hi := Nat.add_le_add (Nat.mul_le_mul_left j high) high'
      _ = (j + 1) * hi := by ring

theorem dist_le {lo hi a b : ℕ} (low : lo ≤ a) (high : a ≤ hi) (low' : lo ≤ b)
    (high' : b ≤ hi) : Nat.dist a b ≤ hi - lo := by
  unfold Nat.dist
  omega

theorem within_step {k l lo hi r : ℕ} {t : Tracker ℕ} (positive : 0 < k) (positive' : 0 < l)
    (within : Within lo hi t) (low : lo ≤ r) (high : r ≤ hi) :
    Within lo hi (truncated k l t r) := by
  obtain ⟨lower, upper⟩ := weighted_div_mem positive within.lower within.upper low high
  have error := dist_le low high within.lower within.upper
  exact ⟨lower, upper,
    (weighted_div_mem positive' (Nat.zero_le _) within.spread (Nat.zero_le _) error).2⟩

theorem within_run {k l lo hi first : ℕ} {rs : List ℕ} (positive : 0 < k) (positive' : 0 < l)
    (inside : ∀ r ∈ first :: rs, lo ≤ r ∧ r ≤ hi) :
    Within lo hi (rs.foldl (truncated k l) ⟨first, 0⟩) := by
  induction rs using List.reverseRecOn with
  | nil =>
    obtain ⟨low, high⟩ := inside first List.mem_cons_self
    exact ⟨low, high, Nat.zero_le _⟩
  | append_singleton rs r ih =>
    rw [List.foldl_append]
    obtain ⟨low, high⟩ := inside r (by simp)
    apply within_step positive positive' _ low high
    apply ih
    intro q member
    apply inside q
    simp only [List.mem_cons, List.mem_append] at member ⊢
    tauto

end Averages
