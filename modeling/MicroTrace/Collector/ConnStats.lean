import Mathlib.Data.List.GetD
import Mathlib.Data.List.Sort
import MicroTrace.Library.RingBuffer
import MicroTrace.Collector.Model

/- State of one tracked connection (stats.go, connStats): the RTT and jitter rings, the
   percentiles over the RTT window, and the spike baseline. -/
namespace CollectorStats
open CollectorModel RingBuffer

def rttRingSize : Nat := 1000
def spikeMultiplier : Nat := 3
def maxHistory : Nat := 3600

structure ConnStats where
  ring : Ring Nat rttRingSize
  jitterRing : Ring Nat rttRingSize
  stableP99 : Nat
  retransmit : UInt32
  lastSeen : Time
  srcType : NodeType
  dstType : NodeType
  history : List HistoryPoint

def emptyRing : Ring Nat rttRingSize := Ring.empty 0 (by decide)

def ConnStats.fresh (now : Time) : ConnStats where
  ring := emptyRing
  jitterRing := emptyRing
  stableP99 := 0
  retransmit := 0
  lastSeen := now
  srcType := .unset
  dstType := .unset
  history := []

def ConnStats.addRTT (s : ConnStats) (us : Nat) : ConnStats := { s with ring := s.ring.push us }

def ConnStats.addJitter (s : ConnStats) (us : Nat) : ConnStats :=
  { s with jitterRing := s.jitterRing.push us }

def latestOf (r : Ring Nat rttRingSize) : Nat := if r.count = 0 then 0 else r.newest

def ConnStats.latestJitter (s : ConnStats) : Nat := latestOf s.jitterRing

def ConnStats.latestRTT (s : ConnStats) : Nat := latestOf s.ring

def percentileIdx (n p : Nat) : Nat :=
  let idx := n * p / 100
  if idx ≥ n then n - 1 else idx

structure Percentiles where
  avg : Nat
  p50 : Nat
  p95 : Nat
  p99 : Nat
  deriving DecidableEq

def percentile (samples : List Nat) (p : Nat) : Nat :=
  (samples.insertionSort (· ≤ ·)).getD (percentileIdx samples.length p) 0

def average (samples : List Nat) : Nat :=
  samples.foldl (fun sum us => wrap64 (sum + us)) 0 / samples.length

def percentilesOf (samples : List Nat) : Percentiles :=
  if samples.length = 0 then ⟨0, 0, 0, 0⟩
  else ⟨average samples, percentile samples 50, percentile samples 95, percentile samples 99⟩

def ConnStats.percentiles (s : ConnStats) : Percentiles := percentilesOf s.ring.samples

def ConnStats.updateStableP99 (s : ConnStats) (jitterUs : Nat) : ConnStats :=
  let q := s.percentiles
  if q.p99 = 0 then s
  else
    let stableThreshold := q.p50 / 2
    if s.stableP99 = 0 ∨ jitterUs ≤ stableThreshold then { s with stableP99 := q.p99 } else s

def ConnStats.isSpike (s : ConnStats) (latestUs : Nat) : Bool × Nat :=
  let baseline := if s.stableP99 = 0 then s.percentiles.p99 else s.stableP99
  if baseline = 0 then (false, 0)
  else
    let threshold := wrap64 (baseline * spikeMultiplier)
    (decide (threshold < latestUs), threshold)

def ConnStats.historyPoint (s : ConnStats) (now : Time) : HistoryPoint where
  time := unixMilli now
  latestSRTTUs := s.latestRTT
  avgUs := s.percentiles.avg
  p50Us := s.percentiles.p50
  p95Us := s.percentiles.p95
  p99Us := s.percentiles.p99
  jitterUs := s.latestJitter

def ConnStats.appendHistory (s : ConnStats) (now : Time) : ConnStats :=
  let history := s.history ++ [s.historyPoint now]
  { s with history :=
      if history.length > maxHistory then history.drop (history.length - maxHistory) else history }

theorem append_history_trimmed (s : ConnStats) (now : Time) :
    (s.appendHistory now).history = (s.history ++ [s.historyPoint now]).rtake maxHistory := by
  simp only [ConnStats.appendHistory, List.rtake]
  split
  · rfl
  · rename_i short
    have none : (s.history ++ [s.historyPoint now]).length - maxHistory = 0 := by omega
    rw [none, List.drop_zero]

/- One RTT sample, in the order of the source: ring, jitter ring, then the baseline, which
   therefore reads a window that already holds the sample. -/
def ConnStats.sample (s : ConnStats) (rttUs jitterUs : Nat) : ConnStats :=
  ((s.addRTT rttUs).addJitter jitterUs).updateStableP99 jitterUs

theorem update_stable_ring (s : ConnStats) (jitterUs : Nat) :
    (s.updateStableP99 jitterUs).ring = s.ring := by
  simp only [ConnStats.updateStableP99]
  split
  · rfl
  · split <;> rfl

theorem update_stable_fields (s : ConnStats) (jitterUs : Nat) :
    (s.updateStableP99 jitterUs).jitterRing = s.jitterRing ∧
      (s.updateStableP99 jitterUs).retransmit = s.retransmit ∧
      (s.updateStableP99 jitterUs).lastSeen = s.lastSeen ∧
      (s.updateStableP99 jitterUs).history = s.history := by
  simp only [ConnStats.updateStableP99]
  split
  · simp
  · split <;> simp

/- The window a sample is judged by: the samples kept so far, then the new one. -/
def windowWith (s : ConnStats) (rttUs : Nat) : List Nat :=
  (s.ring.samples ++ [rttUs]).rtake rttRingSize

theorem window_of_one (us : Nat) : [us].rtake rttRingSize = [us] := by
  have short : [us].length - rttRingSize = 0 := by simp [rttRingSize]
  rw [List.rtake, short, List.drop_zero]

theorem windowWith_nonempty (s : ConnStats) (rttUs : Nat) : windowWith s rttUs ≠ [] := by
  have last : windowWith s rttUs = s.ring.samples.rtake 999 ++ [rttUs] :=
    List.rtake_concat_succ s.ring.samples 999 rttUs
  simp [last]

theorem windowWith_subset (s : ConnStats) (rttUs : Nat) :
    windowWith s rttUs ⊆ s.ring.samples ++ [rttUs] := List.drop_subset _ _

theorem sample_window (s : ConnStats) (rttUs jitterUs : Nat) :
    (s.sample rttUs jitterUs).ring.samples = windowWith s rttUs := by
  rw [ConnStats.sample, update_stable_ring]
  exact samples_push s.ring rttUs

theorem sample_latest (s : ConnStats) (rttUs jitterUs : Nat) :
    (s.sample rttUs jitterUs).latestRTT = rttUs := by
  have ring : (s.sample rttUs jitterUs).ring = s.ring.push rttUs := by
    rw [ConnStats.sample, update_stable_ring]
    rfl
  have filled : (s.ring.push rttUs).count ≠ 0 := by
    have positive : 0 < rttRingSize := by decide
    simp only [Ring.push]
    split <;> omega
  rw [ConnStats.latestRTT, latestOf, ring, if_neg filled, newest_push]

theorem sample_baseline (s : ConnStats) (rttUs jitterUs : Nat) :
    (s.sample rttUs jitterUs).stableP99 =
      (let q := percentilesOf (windowWith s rttUs)
       if q.p99 = 0 then s.stableP99
       else if s.stableP99 = 0 ∨ jitterUs ≤ q.p50 / 2 then q.p99 else s.stableP99) := by
  have window : ((s.addRTT rttUs).addJitter jitterUs).ring.samples = windowWith s rttUs :=
    samples_push s.ring rttUs
  simp only [ConnStats.sample, ConnStats.updateStableP99, ConnStats.percentiles, window,
    apply_ite ConnStats.stableP99]
  rfl

theorem isSpike_with_baseline {s : ConnStats} (latestUs : Nat) (set : 0 < s.stableP99)
    (small : 3 * s.stableP99 < 2 ^ 64) :
    s.isSpike latestUs = (decide (3 * s.stableP99 < latestUs), 3 * s.stableP99) := by
  have threshold : wrap64 (s.stableP99 * spikeMultiplier) = 3 * s.stableP99 := by
    rw [Nat.mul_comm]
    exact wrap64_of_lt small
  simp only [ConnStats.isSpike, Nat.ne_of_gt set, ↓reduceIte, threshold]

theorem percentileIdx_lt {n : Nat} (p : Nat) (positive : 0 < n) : percentileIdx n p < n := by
  simp only [percentileIdx]
  split <;> omega

theorem percentile_mem {samples : List Nat} (p : Nat) (nonempty : samples ≠ []) :
    percentile samples p ∈ samples := by
  have positive : 0 < samples.length := List.length_pos_iff.mpr nonempty
  have inside : percentileIdx samples.length p < (samples.insertionSort (· ≤ ·)).length := by
    rw [List.length_insertionSort]
    exact percentileIdx_lt p positive
  rw [percentile, List.getD_eq_getElem _ _ inside]
  exact (List.mem_insertionSort _).mp (List.getElem_mem inside)

theorem percentilesOf_nonempty {samples : List Nat} (nonempty : samples ≠ []) :
    percentilesOf samples = ⟨average samples, percentile samples 50, percentile samples 95,
      percentile samples 99⟩ := by
  have filled : samples.length ≠ 0 := fun h => nonempty (List.length_eq_zero_iff.mp h)
  rw [percentilesOf, if_neg filled]

end CollectorStats
