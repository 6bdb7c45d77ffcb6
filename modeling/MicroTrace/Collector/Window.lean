import Mathlib.Algebra.BigOperators.Group.List.Basic
import Mathlib.Algebra.GroupWithZero.Nat
import MicroTrace.Library.OrderStatistics
import MicroTrace.Collector.ConnStats

/- The windows of one connection over any sequence of addRTT and addJitter calls, and the
   percentiles read from the RTT window (stats.go, percentiles) as the loop that copies the
   ring, sums it and sorts the copy. -/
namespace CollectorStats
open CollectorModel RingBuffer OrderStatistics

inductive RingCall where
  | addRTT (us : Nat)
  | addJitter (us : Nat)
  deriving DecidableEq

def ConnStats.call (s : ConnStats) : RingCall → ConnStats
  | .addRTT us => s.addRTT us
  | .addJitter us => s.addJitter us

def RingCall.rtt : RingCall → Option Nat
  | .addRTT us => some us
  | .addJitter _ => none

def RingCall.jitter : RingCall → Option Nat
  | .addRTT _ => none
  | .addJitter us => some us

def ConnStats.calls (s : ConnStats) (cs : List RingCall) : ConnStats := cs.foldl ConnStats.call s

theorem calls_ring (s : ConnStats) (cs : List RingCall) :
    (s.calls cs).ring = (cs.filterMap RingCall.rtt).foldl Ring.push s.ring := by
  induction cs generalizing s with
  | nil => rfl
  | cons c cs ih => cases c <;> exact ih _

theorem calls_jitterRing (s : ConnStats) (cs : List RingCall) :
    (s.calls cs).jitterRing = (cs.filterMap RingCall.jitter).foldl Ring.push s.jitterRing := by
  induction cs generalizing s with
  | nil => rfl
  | cons c cs ih => cases c <;> exact ih _

structure Holds (r : Ring Nat rttRingSize) (xs : List Nat) : Prop where
  head_lt : r.head.val < rttRingSize
  count_eq : r.count = min xs.length rttRingSize
  slot_inside : ∀ i < r.count, 0 ≤ r.slot i ∧ r.slot i < rttRingSize
  lastSlot_inside : 0 ≤ r.lastSlot ∧ r.lastSlot < rttRingSize
  samples_eq : r.samples = xs.rtake rttRingSize
  latest_eq : latestOf r = xs.getLastD 0

theorem holds_pushes (xs : List Nat) : Holds (xs.foldl Ring.push emptyRing) xs where
  head_lt := (xs.foldl Ring.push emptyRing).head.isLt
  count_eq := count_pushes 0 (by decide) xs
  slot_inside := fun i _ => slot_in_bounds _ i
  lastSlot_inside := lastSlot_in_bounds _
  samples_eq := samples_pushes 0 (by decide) xs
  latest_eq := by
    have count : (xs.foldl Ring.push emptyRing).count = min xs.length rttRingSize :=
      count_pushes 0 (by decide) xs
    unfold latestOf
    by_cases none : xs = []
    · subst none
      rfl
    · have some : (xs.foldl Ring.push emptyRing).count ≠ 0 := by
        have := List.length_pos_iff.mpr none
        have : 0 < rttRingSize := by decide
        omega
      rw [if_neg some, emptyRing, newest_pushes 0 (by decide) xs none,
        List.getLastD_eq_getLast?, List.getLast?_eq_some_getLast none, Option.getD_some]

structure PercentileLoop where
  stats : ConnStats
  samples : List Nat
  sum : Nat

def PercentileLoop.copy (w : PercentileLoop) (i : Nat) : PercentileLoop :=
  { w with
    samples := w.samples.set i (w.stats.ring.read i)
    sum := wrap64 (w.sum + w.stats.ring.read i) }

def PercentileLoop.sort (w : PercentileLoop) : PercentileLoop :=
  { w with samples := w.samples.insertionSort (· ≤ ·) }

def PercentileLoop.pick (w : PercentileLoop) (p : Nat) : Nat :=
  w.samples.getD (percentileIdx w.stats.ring.count p) 0

def ConnStats.percentilesCall (s : ConnStats) : Percentiles × ConnStats :=
  if s.ring.count = 0 then (⟨0, 0, 0, 0⟩, s)
  else
    let w := (List.range s.ring.count).foldl PercentileLoop.copy
      ⟨s, List.replicate s.ring.count 0, 0⟩
    let avg := w.sum / w.stats.ring.count
    let w := w.sort
    (⟨avg, w.pick 50, w.pick 95, w.pick 99⟩, w.stats)

theorem copy_loop (s : ConnStats) (n k : Nat) (bound : k ≤ n) :
    (List.range k).foldl PercentileLoop.copy ⟨s, List.replicate n 0, 0⟩ =
      ⟨s, (List.range k).map s.ring.read ++ List.replicate (n - k) 0,
        ((List.range k).map s.ring.read).foldl (fun sum us => wrap64 (sum + us)) 0⟩ := by
  induction k with
  | zero => simp
  | succ k ih =>
    obtain ⟨m, left, next⟩ : ∃ m, n - k = m + 1 ∧ n - (k + 1) = m := ⟨n - (k + 1), by omega, rfl⟩
    rw [List.range_succ, List.foldl_append, ih (by omega), List.map_append, List.foldl_append,
      left, next]
    simp [PercentileLoop.copy, List.replicate_succ, List.set_append_right]

theorem percentilesCall_eq (s : ConnStats) : s.percentilesCall = (s.percentiles, s) := by
  unfold ConnStats.percentilesCall ConnStats.percentiles percentilesOf
  rw [samples_length]
  split
  · rfl
  · rw [copy_loop s s.ring.count s.ring.count (le_refl _)]
    simp only [Nat.sub_self, List.replicate_zero, List.append_nil, PercentileLoop.sort,
      PercentileLoop.pick, average, percentile, samples_length]
    rfl

/- The value v has the rank of a p-th percentile among the samples. -/
structure Quantile (samples : List Nat) (p v : Nat) : Prop where
  member : v ∈ samples
  below : samples.countP (· < v) ≤ samples.length * p / 100
  above : samples.length * p / 100 < samples.countP (· ≤ v)

theorem percentileIdx_eq {n p : Nat} (positive : 0 < n) (proper : p < 100) :
    percentileIdx n p = n * p / 100 := by
  have less : n * p < n * 100 := Nat.mul_lt_mul_of_pos_left proper positive
  unfold percentileIdx
  rw [if_neg]
  omega

theorem percentile_eq_getElem {samples : List Nat} {p : Nat} (nonempty : samples ≠ [])
    (proper : p < 100) : ∃ inside : samples.length * p / 100 < (sorted samples).length,
      percentile samples p = (sorted samples)[samples.length * p / 100] := by
  have positive := List.length_pos_iff.mpr nonempty
  have index := percentileIdx_eq positive proper
  have inside : samples.length * p / 100 < (sorted samples).length := by
    rw [sorted_length, ← index]
    exact percentileIdx_lt p positive
  refine ⟨inside, ?_⟩
  rw [percentile, index]
  exact List.getD_eq_getElem _ 0 inside

theorem percentile_quantile {samples : List Nat} {p : Nat} (nonempty : samples ≠ [])
    (proper : p < 100) : Quantile samples p (percentile samples p) := by
  obtain ⟨inside, read⟩ := percentile_eq_getElem nonempty proper
  constructor
  · exact percentile_mem p nonempty
  · rw [read]
    exact below_rank samples inside
  · rw [read]
    exact rank_below samples inside

theorem percentile_mono {samples : List Nat} {p q : Nat} (nonempty : samples ≠ [])
    (order : p ≤ q) (proper : q < 100) : percentile samples p ≤ percentile samples q := by
  obtain ⟨_, first⟩ := percentile_eq_getElem nonempty (Nat.lt_of_le_of_lt order proper)
  obtain ⟨inside, second⟩ := percentile_eq_getElem nonempty proper
  rw [first, second]
  exact sorted_mono samples (Nat.div_le_div_right (Nat.mul_le_mul_left _ order)) inside

theorem wrapped_sum (samples : List Nat) (start : Nat) :
    wrap64 (samples.foldl (fun sum us => wrap64 (sum + us)) start) =
      wrap64 (start + samples.sum) := by
  induction samples generalizing start with
  | nil => rfl
  | cons us samples ih =>
    rw [List.foldl_cons, ih, List.sum_cons, ← Nat.add_assoc]
    simp only [wrap64, Nat.mod_add_mod]

theorem average_eq (samples : List Nat) :
    average samples = wrap64 samples.sum / samples.length := by
  have wrapped := wrapped_sum samples 0
  have small : samples.foldl (fun sum us => wrap64 (sum + us)) 0 < 2 ^ 64 := by
    rcases List.eq_nil_or_concat samples with rfl | ⟨front, us, rfl⟩
    · decide
    · rw [List.concat_eq_append, List.foldl_append]
      exact Nat.mod_lt _ (by decide)
  rw [wrap64_of_lt small, Nat.zero_add] at wrapped
  rw [average, wrapped]

theorem percentilesOf_perm {samples others : List Nat} (same : samples.Perm others) :
    percentilesOf samples = percentilesOf others := by
  have sums : average samples = average others := by
    rw [average_eq, average_eq, same.sum_eq, same.length_eq]
  have reads (p : Nat) : percentile samples p = percentile others p := by
    have copies : samples.insertionSort (· ≤ ·) = others.insertionSort (· ≤ ·) :=
      sorted_eq_of_perm same
    rw [percentile, percentile, copies, same.length_eq]
  rw [percentilesOf, percentilesOf, sums, reads 50, reads 95, reads 99, same.length_eq]

theorem rtake_nonempty {xs : List Nat} (nonempty : xs ≠ []) : xs.rtake rttRingSize ≠ [] := by
  have := List.length_pos_iff.mpr nonempty
  have : 0 < rttRingSize := by decide
  intro none
  have empty := congrArg List.length none
  rw [List.rtake, List.length_drop, List.length_nil] at empty
  omega

structure Summarizes (samples : List Nat) (q : Percentiles) : Prop where
  p50_quantile : Quantile samples 50 q.p50
  p95_quantile : Quantile samples 95 q.p95
  p99_quantile : Quantile samples 99 q.p99
  p50_le_p95 : q.p50 ≤ q.p95
  p95_le_p99 : q.p95 ≤ q.p99
  avg_eq : samples.sum < 2 ^ 64 → q.avg = samples.sum / samples.length

theorem percentilesOf_summarizes {samples : List Nat} (nonempty : samples ≠ []) :
    Summarizes samples (percentilesOf samples) := by
  rw [percentilesOf_nonempty nonempty]
  constructor
  · exact percentile_quantile nonempty (by decide)
  · exact percentile_quantile nonempty (by decide)
  · exact percentile_quantile nonempty (by decide)
  · exact percentile_mono nonempty (by decide) (by decide)
  · exact percentile_mono nonempty (by decide) (by decide)
  · intro small
    rw [average_eq, wrap64_of_lt small]

/-- After any calls on a fresh connection: both rings hold the end of what was added, the
    percentiles are those of that window and depend on its multiset alone, and computing
    them leaves the connection as it was. -/
theorem window_and_percentiles_exact (now : Time) (cs : List RingCall) :
    Holds ((ConnStats.fresh now).calls cs).ring (cs.filterMap RingCall.rtt) ∧
      Holds ((ConnStats.fresh now).calls cs).jitterRing (cs.filterMap RingCall.jitter) ∧
      ((ConnStats.fresh now).calls cs).latestRTT = (cs.filterMap RingCall.rtt).getLastD 0 ∧
      ((ConnStats.fresh now).calls cs).latestJitter = (cs.filterMap RingCall.jitter).getLastD 0 ∧
      ((ConnStats.fresh now).calls cs).percentilesCall =
        (((ConnStats.fresh now).calls cs).percentiles, (ConnStats.fresh now).calls cs) ∧
      (cs.filterMap RingCall.rtt ≠ [] →
        Summarizes ((cs.filterMap RingCall.rtt).rtake rttRingSize)
          ((ConnStats.fresh now).calls cs).percentiles) ∧
      ∀ now' others, ((others.filterMap RingCall.rtt).rtake rttRingSize).Perm
          ((cs.filterMap RingCall.rtt).rtake rttRingSize) →
        ((ConnStats.fresh now').calls others).percentiles =
          ((ConnStats.fresh now).calls cs).percentiles := by
  have rtts (start : Time) (cs : List RingCall) :
      Holds ((ConnStats.fresh start).calls cs).ring (cs.filterMap RingCall.rtt) := by
    rw [calls_ring]
    exact holds_pushes _
  have jitters : Holds ((ConnStats.fresh now).calls cs).jitterRing
      (cs.filterMap RingCall.jitter) := by
    rw [calls_jitterRing]
    exact holds_pushes _
  have window (start : Time) (cs : List RingCall) :
      ((ConnStats.fresh start).calls cs).percentiles =
        percentilesOf ((cs.filterMap RingCall.rtt).rtake rttRingSize) := by
    rw [ConnStats.percentiles, (rtts start cs).samples_eq]
  refine ⟨rtts now cs, jitters, (rtts now cs).latest_eq, jitters.latest_eq,
    percentilesCall_eq _, ?_, ?_⟩
  · intro nonempty
    rw [window now cs]
    exact percentilesOf_summarizes (rtake_nonempty nonempty)
  · intro now' others same
    rw [window now' others, window now cs]
    exact percentilesOf_perm same

example : ((ConnStats.fresh 0).calls
    [.addRTT 30, .addJitter 7, .addRTT 10, .addRTT 20]).percentilesCall.1 = ⟨20, 20, 30, 30⟩ := by
  decide

end CollectorStats
