import MicroTrace.Collector.Processor

/- The baseline against which a spike is judged. A sample moves it when the deviation of
   the sample's own socket passes the gate, and a socket seen for the first time always
   reports deviation zero. -/
namespace CollectorStats
open CollectorModel RangeLoops Runs

def PositiveSamples (p : Processor) : Prop :=
  ∀ k cs, p.conns.lookup k = some cs → ∀ us ∈ cs.ring.samples, 0 < us

theorem event_conn_samples {a : Answers} {now : Time} {e : Event} {p : Processor} :
    (eventConn a now e p).ring.samples =
      if Event.sampled e then
        windowWith (getOrCreateConn p a.connKey now) e.latencyUs.toNat
      else (getOrCreateConn p a.connKey now).ring.samples := by
  unfold eventConn
  split
  · exact sample_window _ _ _
  · split <;> rfl

theorem positive_samples_event {a : Answers} {now : Time} {e : Event} {p : Processor}
    (positive : PositiveSamples p) : PositiveSamples (applyEvent a now e p) := by
  intro k cs found us member
  by_cases own : k = a.connKey
  · subst own
    rw [conn_after_own_event, Option.some.injEq] at found
    subst found
    have old : ∀ us ∈ (getOrCreateConn p a.connKey now).ring.samples, 0 < us := by
      intro us member
      cases before : p.conns.lookup a.connKey with
      | none =>
        simp only [getOrCreateConn, before, Option.getD_none] at member
        exact absurd member List.not_mem_nil
      | some cs =>
        simp only [getOrCreateConn, before, Option.getD_some] at member
        exact positive _ cs before us member
    rw [event_conn_samples] at member
    split at member
    · rename_i sampled
      rcases List.mem_append.mp (windowWith_subset _ _ member) with earlier | last
      · exact old us earlier
      · rw [List.mem_singleton.mp last]
        exact sampled.2
    · exact old us member
  · rw [conn_after_other_event own] at found
    exact positive k cs found us member

theorem positive_samples_step {m m' : Machine} {i : Input} {out : List Emission}
    (positive : PositiveSamples m.proc) (taken : step m i = some (m', out)) :
    PositiveSamples m'.proc := by
  rcases step_cases taken with ⟨a, now, e, _, _, _, rfl, _⟩ |
    ⟨now, order, running, _, _, _, visit, rfl, _⟩ |
    ⟨now, order, flowOrder, _, _, _, visit, _, rfl, _⟩ | ⟨s, _, rfl, _⟩
  · exact positive_samples_event positive
  · intro k cs found
    rw [conn_after_tick visit, Option.map_eq_some_iff] at found
    obtain ⟨before, tracked, rfl⟩ := found
    exact positive k before tracked
  · intro k cs found
    rw [conn_after_sweep visit, Option.filter_eq_some_iff] at found
    exact positive k cs found.1
  · exact positive

theorem positive_samples_run {storing : Bool} {clock : Time} {ls : List Input} {m : Machine}
    {out : List Emission} (run : exec step (Machine.start storing clock) ls = some (m, out)) :
    PositiveSamples m.proc := by
  apply exec_keeps (I := fun m => PositiveSamples m.proc) positive_samples_step _ run
  intro k cs found
  simp [Machine.start, Processor.new] at found

def socketDeviation (flow : Option FlowState) (rttUs : Nat) : Nat :=
  match flow with
  | none => 0
  | some fs =>
    if fs.initialized then wrap64 (3 * fs.mdevUs + absDiff rttUs fs.srttUs) / 4 else 0

theorem event_jitter_eq (now : Time) (e : Event) (p : Processor) :
    eventJitter now e p =
      socketDeviation (p.flows.lookup (Event.flowKey e)) e.latencyUs.toNat := by
  unfold eventJitter getOrCreateFlow socketDeviation
  cases p.flows.lookup (Event.flowKey e) with
  | none => rfl
  | some fs =>
    simp only [Option.getD_some, FlowState.observe]
    split <;> rfl

section Spike

variable {a : Answers} {now : Time} {e : Event} {p : Processor} {cs : ConnStats}

theorem baseline_after_sample (tracked : p.conns.lookup a.connKey = some cs)
    (set : 0 < cs.stableP99) (positive : PositiveSamples p) (sampled : Event.sampled e) :
    (eventConn a now e p).stableP99 =
      if socketDeviation (p.flows.lookup (Event.flowKey e)) e.latencyUs.toNat ≤
          percentile (windowWith cs e.latencyUs.toNat) 50 / 2 then
        percentile (windowWith cs e.latencyUs.toNat) 99
      else cs.stableP99 := by
  have nonempty := windowWith_nonempty cs e.latencyUs.toNat
  have above : 0 < percentile (windowWith cs e.latencyUs.toNat) 99 := by
    rcases List.mem_append.mp (windowWith_subset _ _ (percentile_mem 99 nonempty)) with
      earlier | last
    · exact positive _ cs tracked _ earlier
    · rw [List.mem_singleton.mp last]
      exact sampled.2
  have same : getOrCreateConn p a.connKey now = cs := by simp [getOrCreateConn, tracked]
  unfold eventConn
  have window : windowWith (cs.touch a now) e.latencyUs.toNat =
      windowWith cs e.latencyUs.toNat := rfl
  have baseline : (cs.touch a now).stableP99 = cs.stableP99 := rfl
  rw [if_pos sampled, sample_baseline, same, event_jitter_eq, window, baseline,
    percentilesOf_nonempty nonempty]
  simp only [Nat.ne_of_gt above, Nat.ne_of_gt set, false_or, ↓reduceIte]

/-- A sample leaves the baseline B and the tick after it reports a spike against 3B. -/
def BaselineHeld (p : Processor) (k : ConnKey) (B : Nat) (a : Answers) (now : Time) (e : Event) :
    Prop :=
  ((handleEvent a now e p).1.conns.lookup k).map (·.stableP99) = some B ∧
    ∀ order later, Enumerates order (handleEvent a now e p).1.conns →
      ∃ snap, published k (publishSnapshots order later (handleEvent a now e p).1).2 = [snap] ∧
        snap.isSpike = true ∧ snap.spikeThresholdUs = 3 * B

theorem held_of_baseline (set : 0 < cs.stableP99) (sampled : Event.sampled e)
    (spike : 3 * cs.stableP99 < e.latencyUs.toNat)
    (kept : (eventConn a now e p).stableP99 = cs.stableP99) :
    BaselineHeld p a.connKey cs.stableP99 a now e := by
  have latest : (eventConn a now e p).latestRTT = e.latencyUs.toNat := by
    unfold eventConn
    rw [if_pos sampled]
    exact sample_latest _ _ _
  have judged : (eventConn a now e p).isSpike e.latencyUs.toNat =
      (true, 3 * cs.stableP99) := by
    have small := e.latencyUs.toNat_lt
    rw [isSpike_with_baseline _ (by omega) (by omega), kept, decide_eq_true spike]
  refine ⟨?_, ?_⟩
  · rw [handleEvent, conn_after_own_event, Option.map_some, kept]
  · intro order later visit
    refine ⟨_, by rw [published_by_tick visit, handleEvent, conn_after_own_event]; rfl, ?_, ?_⟩
    · simp only [snapshot, latest, judged]
    · simp only [snapshot, latest, judged]

end Spike

/-- A spiking sample leaves its own baseline alone exactly when the p99 of the window with
    the sample in it is still the baseline, or the socket was known already and its
    deviation exceeds half of the window's p50. -/
theorem spike_keeps_baseline_iff {storing : Bool} {clock : Time} {ls : List Input} {m : Machine}
    {out : List Emission} (run : exec step (Machine.start storing clock) ls = some (m, out))
    {a : Answers} {now : Time} {e : Event} {cs : ConnStats}
    (tracked : m.proc.conns.lookup a.connKey = some cs) (set : 0 < cs.stableP99)
    (kind : e.type = .connect ∨ e.type = .rtt)
    (spike : 3 * cs.stableP99 < e.latencyUs.toNat) :
    BaselineHeld m.proc a.connKey cs.stableP99 a now e ↔
      percentile (windowWith cs e.latencyUs.toNat) 99 = cs.stableP99 ∨
        percentile (windowWith cs e.latencyUs.toNat) 50 / 2 <
          socketDeviation (m.proc.flows.lookup (Event.flowKey e)) e.latencyUs.toNat := by
  have sampled : Event.sampled e := ⟨kind, by omega⟩
  have after := @baseline_after_sample a now e m.proc cs tracked set (positive_samples_run run)
    sampled
  constructor
  · intro held
    have same := held.1
    rw [handleEvent, conn_after_own_event, Option.map_some, Option.some.injEq, after] at same
    by_cases gate : socketDeviation (m.proc.flows.lookup (Event.flowKey e)) e.latencyUs.toNat ≤
        percentile (windowWith cs e.latencyUs.toNat) 50 / 2
    · rw [if_pos gate] at same
      exact .inl same
    · exact .inr (by omega)
  · intro safe
    apply held_of_baseline set sampled spike
    rw [after]
    split
    · rcases safe with same | closed
      · exact same
      · omega
    · rfl

def bridgePair : Answers := ⟨"service-b", "service-a", true, true⟩

def bridgeSample (type : EventType) (localPort : UInt32) (latencyUs : UInt64) : Event :=
  ⟨type, localPort, "", "172.19.0.3", "172.19.0.4", 8080, latencyUs, 0⟩

def calmSamples : List Input :=
  [.event bridgePair 1 (bridgeSample .connect 40001 100),
   .event bridgePair 2 (bridgeSample .rtt 40001 100),
   .event bridgePair 3 (bridgeSample .rtt 40001 100)]

/-- Three calm samples of a socket and then a spike on the same socket: the deviation 225
    exceeds half of the p50, so the baseline stays at 100. -/
theorem known_socket_spike_held :
    ∃ m out cs, exec step (Machine.start true 0) calmSamples = some (m, out) ∧
      m.proc.conns.lookup bridgePair.connKey = some cs ∧ cs.stableP99 = 100 ∧
      BaselineHeld m.proc bridgePair.connKey cs.stableP99 bridgePair 4
        (bridgeSample .rtt 40001 1000) :=
  ⟨_, _, _, rfl, rfl, by decide,
    (@spike_keeps_baseline_iff true 0 calmSamples _ _ rfl _ _ _ _ rfl (by decide) (.inr rfl)
      (by decide)).mpr (.inr (by decide))⟩

/-- One calm sample and then a spike on a second socket: the new socket reports deviation
    zero, the gate opens, and the spike becomes the baseline it is judged by. -/
theorem new_socket_spike_raises_baseline :
    ¬ ∀ (storing : Bool) (clock : Time) (ls : List Input) (m : Machine) (out : List Emission)
        (a : Answers) (now : Time) (e : Event) (cs : ConnStats),
      exec step (Machine.start storing clock) ls = some (m, out) →
      m.proc.conns.lookup a.connKey = some cs → 0 < cs.stableP99 →
      (e.type = .connect ∨ e.type = .rtt) → 3 * cs.stableP99 < e.latencyUs.toNat →
      BaselineHeld m.proc a.connKey cs.stableP99 a now e := by
  intro claim
  have held := claim true 0 [.event bridgePair 1 (bridgeSample .connect 40001 100)] _ _
    bridgePair 2 (bridgeSample .connect 40002 1000) _ rfl rfl (by decide) (.inl rfl) (by decide)
  have raised := held.1
  revert raised
  decide

end CollectorStats
