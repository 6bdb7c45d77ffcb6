import Mathlib.Data.Finset.Max
import MicroTrace.Library.Averages
import MicroTrace.Library.Lives
import MicroTrace.Collector.SpikeBaseline

/- The smoothed round-trip time and the mean deviation that updateFlowMdev keeps for a socket.
   A flow lives from the first sample on its key until a sweep drops it; its state is a
   function of the samples of its current life. -/
namespace CollectorStats
open Averages CollectorModel Lives RangeLoops Runs

def FlowState.tracker (fs : FlowState) : Tracker ℕ := ⟨fs.srttUs, fs.mdevUs⟩

/- The update of updateFlowMdev in uint64 arithmetic. -/
def flowStep (t : Tracker ℕ) (rttUs : ℕ) : Tracker ℕ where
  mean := wrap64 (7 * t.mean + rttUs) / 8
  deviation := wrap64 (3 * t.deviation + absDiff rttUs t.mean) / 4

/- What an input tells about a socket: a sample, or that a sweep forgets it. -/
def flowWords (f : FlowKey) (m : Machine) : Input → List (Word ℕ)
  | .event _ _ e =>
      if Event.sampled e ∧ Event.flowKey e = f then [.put e.latencyUs.toNat] else []
  | .sweep now _ _ =>
      if (m.proc.flows.lookup f).any fun fs => expired now fs.lastSeen then [.cut] else []
  | .tick _ _ => []
  | .closed _ _ => []
  | .resource _ => []

theorem flow_after_own_event {a : Answers} {now : Time} {e : Event} {p : Processor}
    (sampled : Event.sampled e) : (applyEvent a now e p).flows.lookup (Event.flowKey e) =
      some ((getOrCreateFlow p (Event.flowKey e) now).observe e.latencyUs.toNat now) := by
  rw [applyEvent_flows, if_pos sampled, Finmap.lookup_insert]

def flowAfter (f : FlowKey) (flow : Option FlowState) : Input → Option FlowState
  | .event _ now e =>
      if Event.sampled e ∧ Event.flowKey e = f then
        some ((flow.getD (FlowState.created now)).observe e.latencyUs.toNat now)
      else flow
  | .sweep now _ _ => flow.filter fun fs => !expired now fs.lastSeen
  | .tick _ _ => flow
  | .closed _ _ => flow
  | .resource _ => flow

theorem flow_after_step {f : FlowKey} {m m' : Machine} {i : Input} {out : List Emission}
    (taken : step m i = some (m', out)) :
    m'.proc.flows.lookup f = flowAfter f (m.proc.flows.lookup f) i := by
  rcases step_cases taken with ⟨a, now, e, rfl, _, _, rfl, _⟩ |
    ⟨now, order, running, input, _, _, _, rfl, _⟩ |
    ⟨now, order, flowOrder, rfl, _, _, _, visit, rfl, _⟩ | ⟨s, rfl, rfl, _⟩
  · by_cases own : Event.sampled e ∧ Event.flowKey e = f
    · rw [flowAfter, if_pos own]
      obtain ⟨sampled, rfl⟩ := own
      exact flow_after_own_event sampled
    · rw [flowAfter, if_neg own]
      exact flow_after_other_event fun sampled same => own ⟨sampled, same.symm⟩
  · rcases input with ⟨rfl, _⟩ | ⟨rfl, _⟩ <;> rfl
  · exact flow_after_sweep visit f
  · rfl

/-- A flow is tracked exactly when its current life has a sample, and it has been updated by
    each of them in turn. -/
structure FlowHistory (samples : List ℕ) (flow : Option FlowState) : Prop where
  silent : samples = [] → flow = none
  heard : ∀ r rs, samples = r :: rs → ∃ fs, flow = some fs ∧ fs.initialized = true ∧
    fs.tracker = rs.foldl flowStep ⟨r, 0⟩

theorem observe_tracker {fs : FlowState} (known : fs.initialized = true) (rttUs : ℕ)
    (now : Time) : (fs.observe rttUs now).tracker = flowStep fs.tracker rttUs := by
  unfold FlowState.observe
  rw [if_pos known]
  rfl

theorem observe_initialized (fs : FlowState) (rttUs : ℕ) (now : Time) :
    (fs.observe rttUs now).initialized = true := by
  unfold FlowState.observe
  split
  · assumption
  · rfl

theorem history_sample {samples : List ℕ} {flow : Option FlowState} (rttUs : ℕ) (now : Time)
    (history : FlowHistory samples flow) :
    FlowHistory (samples ++ [rttUs])
      (some ((flow.getD (FlowState.created now)).observe rttUs now)) := by
  constructor
  · intro none
    simp at none
  · intro r rs split
    refine ⟨_, rfl, observe_initialized _ _ _, ?_⟩
    cases samples with
    | nil =>
      rw [history.silent rfl]
      simp only [List.nil_append, List.cons.injEq] at split
      obtain ⟨rfl, rfl⟩ := split
      rfl
    | cons q qs =>
      obtain ⟨fs, rfl, known, state⟩ := history.heard q qs rfl
      simp only [List.cons_append, List.cons.injEq] at split
      obtain ⟨rfl, rfl⟩ := split
      rw [Option.getD_some, observe_tracker known, state, List.foldl_append]
      rfl

theorem history_cut : FlowHistory [] none :=
  ⟨fun _ => rfl, by simp⟩

theorem history_sweep {words : List (Word ℕ)} {flow : Option FlowState} (now : Time)
    (history : FlowHistory (lastLife words) flow) :
    FlowHistory
      (lastLife (words ++ if flow.any fun fs => expired now fs.lastSeen then [.cut] else []))
      (flow.filter fun fs => !expired now fs.lastSeen) := by
  cases flow with
  | none => simpa using history
  | some fs =>
    cases late : expired now fs.lastSeen with
    | true =>
      rw [Option.any_some, late, if_pos rfl, lastLife_cut]
      simpa [Option.filter, late] using history_cut
    | false => simpa [late, Option.filter] using history

theorem history_step {f : FlowKey} {m m' : Machine} {i : Input} {words seen : List (Word ℕ)}
    (history : FlowHistory (lastLife words) (m.proc.flows.lookup f))
    (told : watch (flowWords f) step m i = some (m', seen)) :
    FlowHistory (lastLife (words ++ seen)) (m'.proc.flows.lookup f) := by
  obtain ⟨⟨out, taken⟩, rfl⟩ := watch_iff.mp told
  rw [flow_after_step taken]
  cases i with
  | event a now e =>
    by_cases own : Event.sampled e ∧ Event.flowKey e = f
    · rw [flowAfter, flowWords, if_pos own, if_pos own, lastLife_put]
      exact history_sample _ _ history
    · rw [flowAfter, flowWords, if_neg own, if_neg own, List.append_nil]
      exact history
  | sweep now order flowOrder => exact history_sweep now history
  | tick now order =>
    rw [flowWords, List.append_nil]
    exact history
  | closed now order =>
    rw [flowWords, List.append_nil]
    exact history
  | resource s =>
    rw [flowWords, List.append_nil]
    exact history

theorem history_run {storing : Bool} {clock : Time} {ls : List Input} {m : Machine}
    {f : FlowKey} {words : List (Word ℕ)}
    (run : exec (watch (flowWords f) step) (Machine.start storing clock) ls = some (m, words)) :
    FlowHistory (lastLife words) (m.proc.flows.lookup f) :=
  exec_history (I := fun _ m words => FlowHistory (lastLife words) (m.proc.flows.lookup f))
    (by simpa [Machine.start, Processor.new, lastLife] using history_cut)
    (fun _ history told => history_step history told) run

theorem absDiff_eq_dist (a b : ℕ) : absDiff a b = Nat.dist a b := by
  unfold absDiff Nat.dist
  split <;> omega

theorem flowStep_truncated {t : Tracker ℕ} {r : ℕ} (within : Within 0 (2 ^ 61 - 1) t)
    (small : r < 2 ^ 61) : flowStep t r = truncated 8 4 t r := by
  obtain ⟨_, mean, deviation⟩ := within
  have error : Nat.dist r t.mean ≤ 2 ^ 61 - 1 := by
    unfold Nat.dist
    omega
  unfold flowStep truncated
  rw [absDiff_eq_dist, wrap64_of_lt (by omega), wrap64_of_lt (by omega)]

theorem flowStep_run {first : ℕ} {rs : List ℕ} (small : ∀ r ∈ first :: rs, r < 2 ^ 61) :
    rs.foldl flowStep ⟨first, 0⟩ = rs.foldl (truncated 8 4) ⟨first, 0⟩ := by
  induction rs using List.reverseRecOn with
  | nil => rfl
  | append_singleton rs r ih =>
    have earlier : ∀ q ∈ first :: rs, q < 2 ^ 61 := by
      intro q member
      apply small q
      simp only [List.mem_cons, List.mem_append] at member ⊢
      tauto
    have within : Within 0 (2 ^ 61 - 1) (rs.foldl (truncated 8 4) ⟨first, 0⟩) := by
      apply within_run (by decide) (by decide)
      intro q member
      have := earlier q member
      omega
    rw [List.foldl_append, List.foldl_append, ih earlier]
    exact flowStep_truncated within (small r (by simp))

/- The formulas in the comment on updateFlowMdev. -/
def documentedStep (T : Tracker ℚ) (rtt : ℕ) : Tracker ℚ where
  mean := 7 / 8 * T.mean + 1 / 8 * rtt
  deviation := 3 / 4 * T.deviation + 1 / 4 * |(rtt : ℚ) - T.mean|

def documented : List ℕ → Tracker ℚ
  | [] => ⟨0, 0⟩
  | r :: rs => rs.foldl documentedStep ⟨r, 0⟩

theorem documented_eq (first : ℕ) (rs : List ℕ) :
    documented (first :: rs) = rs.foldl (fun T (r : ℕ) => exact 8 4 T r) ⟨first, 0⟩ := by
  have same : documentedStep = fun T (r : ℕ) => exact 8 4 T r := by
    funext T r
    unfold documentedStep exact
    congr 1
    · push_cast
      ring
    · push_cast
      ring
  rw [documented, same]

/-- The state of a socket beside the exact averages of its samples. -/
structure Tracks (samples : List ℕ) (fs : FlowState) : Prop where
  srtt_lower : 0 ≤ (documented samples).mean - fs.srttUs
  srtt_upper : (documented samples).mean - fs.srttUs < 7
  mdev_lower : -7 < (documented samples).deviation - fs.mdevUs
  mdev_upper : (documented samples).deviation - fs.mdevUs < 10
  hull : ∃ lo ∈ samples, ∃ hi ∈ samples, (∀ r ∈ samples, lo ≤ r ∧ r ≤ hi) ∧
    lo ≤ fs.srttUs ∧ fs.srttUs ≤ hi ∧ fs.mdevUs ≤ hi - lo

theorem extremes {samples : List ℕ} (some : samples ≠ []) :
    ∃ lo ∈ samples, ∃ hi ∈ samples, ∀ r ∈ samples, lo ≤ r ∧ r ≤ hi := by
  have nonempty : samples.toFinset.Nonempty := List.toFinset_nonempty_iff samples |>.mpr some
  obtain ⟨lo, least, lower⟩ := samples.toFinset.exists_min_image id nonempty
  obtain ⟨hi, greatest, upper⟩ := samples.toFinset.exists_max_image id nonempty
  refine ⟨lo, List.mem_toFinset.mp least, hi, List.mem_toFinset.mp greatest, ?_⟩
  intro r member
  exact ⟨lower r (List.mem_toFinset.mpr member), upper r (List.mem_toFinset.mpr member)⟩

theorem truncated_tracks {first : ℕ} {rs : List ℕ} {fs : FlowState}
    (state : fs.tracker = rs.foldl (truncated 8 4) ⟨first, 0⟩) : Tracks (first :: rs) fs := by
  obtain ⟨lo, least, hi, greatest, hull⟩ := extremes (List.cons_ne_nil first rs)
  have within := within_run (k := 8) (l := 4) (by decide) (by decide) hull
  have drift := drift_run (k := 8) (l := 4) (by decide) (by decide) first rs
  rw [← state] at within
  rw [← state, ← documented_eq] at drift
  constructor
  · exact drift.mean_lower
  · exact lt_of_lt_of_eq drift.mean_upper (by norm_num)
  · exact lt_of_eq_of_lt (by norm_num) drift.deviation_lower
  · exact lt_of_lt_of_eq drift.deviation_upper (by norm_num)
  · exact ⟨lo, least, hi, greatest, hull, within.lower, within.upper, within.spread⟩

/-- In every run, for every socket that is tracked at its end. -/
theorem flow_tracks_documented {storing : Bool} {clock : Time} {ls : List Input} {m : Machine}
    {f : FlowKey} {words : List (Word ℕ)} {fs : FlowState}
    (run : exec (watch (flowWords f) step) (Machine.start storing clock) ls = some (m, words))
    (small : ∀ r ∈ lastLife words, r < 2 ^ 61) (tracked : m.proc.flows.lookup f = some fs) :
    Tracks (lastLife words) fs := by
  have history := history_run run
  cases samples : lastLife words with
  | nil =>
    rw [history.silent samples] at tracked
    cases tracked
  | cons r rs =>
    rw [samples] at small
    obtain ⟨fs', same, _, state⟩ := history.heard r rs samples
    rw [tracked, Option.some.injEq] at same
    subst same
    rw [flowStep_run small] at state
    exact truncated_tracks state

def unevenSamples : List Input :=
  [.event bridgePair 1 (bridgeSample .connect 40001 100),
   .event bridgePair 2 (bridgeSample .rtt 40001 180),
   .event bridgePair 3 (bridgeSample .rtt 40002 500),
   .event bridgePair 4 (bridgeSample .rtt 40001 20)]

def bridgeSocket : FlowKey := ⟨40001, "172.19.0.3", "172.19.0.4", 8080⟩

theorem uneven_samples_tracked : ∃ m words fs,
    exec (watch (flowWords bridgeSocket) step) (Machine.start true 0) unevenSamples =
        some (m, words) ∧
      lastLife words = [100, 180, 20] ∧ m.proc.flows.lookup bridgeSocket = some fs ∧
      fs.srttUs = 98 ∧ fs.mdevUs = 37 ∧ Tracks (lastLife words) fs :=
  ⟨_, _, _, rfl, rfl, rfl, rfl, rfl,
    @flow_tracks_documented true 0 unevenSamples _ bridgeSocket _ _ rfl (by decide) rfl⟩

end CollectorStats
