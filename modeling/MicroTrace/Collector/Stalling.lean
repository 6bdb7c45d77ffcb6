import Mathlib.Tactic.IntervalCases
import MicroTrace.Collector.Settling

/- The constants from 3 to 13. A socket whose average has stalled below one of them keeps a
   deviation above the gate, which is then shut for good: the baseline stays what it was. -/
namespace CollectorStats
open CollectorModel Lives RangeLoops RingBuffer Runs

/- A state that samples of c on the socket no longer change: the average has stalled, the
   deviation is above the gate, and most of the window is at most c. -/
structure Stuck (K : ConnKey) (f : FlowKey) (c B : ℕ) (m : Machine) : Prop where
  loop : m.running = true
  flow : ∃ fs, m.proc.flows.lookup f = some fs ∧ fs.initialized = true ∧
    (7 * fs.srttUs + c) / 8 = fs.srttUs ∧ (3 * fs.mdevUs + gap c fs) / 4 = fs.mdevUs ∧
    fs.srttUs < 2 ^ 54 ∧ fs.mdevUs < 2 ^ 54 ∧ c / 2 < fs.mdevUs
  conn : ∃ cs, m.proc.conns.lookup K = some cs ∧ cs.stableP99 = B ∧
    cs.ring.samples.countP (c < ·) ≤ 2 ∧
    2 * cs.ring.samples.countP (c < ·) ≤ cs.ring.samples.length

section Stuck

variable {c B : ℕ}

theorem median_le {samples : List ℕ} (nonempty : samples ≠ [])
    (most : 2 * samples.countP (c < ·) < samples.length) : percentile samples 50 ≤ c := by
  by_contra above
  have rank := (percentile_quantile (p := 50) nonempty (by decide)).below
  have within : samples.countP (· ≤ c) ≤ samples.countP (· < percentile samples 50) := by
    apply List.countP_mono_left
    intro us _ low
    simp only [decide_eq_true_eq] at low ⊢
    omega
  have split := List.length_eq_countP_add_countP (c < ·) (l := samples)
  have rest : samples.countP (fun us => ¬ decide (c < us) = true) = samples.countP (· ≤ c) := by
    apply List.countP_congr
    intro us _
    simp
  omega

theorem window_low (cs : ConnStats) (few : cs.ring.samples.countP (c < ·) ≤ 2)
    (most : 2 * cs.ring.samples.countP (c < ·) ≤ cs.ring.samples.length) :
    (windowWith cs c).countP (c < ·) ≤ 2 ∧
      2 * (windowWith cs c).countP (c < ·) < (windowWith cs c).length := by
  have less : (windowWith cs c).countP (c < ·) ≤ (cs.ring.samples ++ [c]).countP (c < ·) := by
    unfold windowWith List.rtake
    exact (List.drop_sublist _ _).countP_le
  have none : [c].countP (c < ·) = 0 := by simp
  rw [List.countP_append, none, Nat.add_zero] at less
  have length : (windowWith cs c).length = min (cs.ring.samples.length + 1) rttRingSize := by
    rw [windowWith, List.rtake, List.length_drop, List.length_append, List.length_singleton]
    omega
  have room : rttRingSize = 1000 := rfl
  omega

theorem shut_sample (cs : ConnStats) {jitterUs : ℕ} (set : 0 < cs.stableP99)
    (few : cs.ring.samples.countP (c < ·) ≤ 2)
    (most : 2 * cs.ring.samples.countP (c < ·) ≤ cs.ring.samples.length)
    (above : c / 2 < jitterUs) : (cs.sample c jitterUs).stableP99 = cs.stableP99 := by
  have nonempty := windowWith_nonempty cs c
  have median := median_le nonempty (window_low cs few most).2
  have kept := sample_baseline cs c jitterUs
  rw [percentilesOf_nonempty nonempty] at kept
  dsimp only at kept
  split at kept
  · exact kept
  · split at kept
    · omega
    · exact kept

theorem stuck_step {m : Machine} {a : Answers} {e : Event} {f : FlowKey} {now : Time}
    (set : 0 < B) (small : c < 2 ^ 54) (stuck : Stuck a.connKey f c B m) (time : m.clock ≤ now)
    (sampled : Event.sampled e) (socket : Event.flowKey e = f) (constant : e.latencyUs.toNat = c) :
    Stuck a.connKey f c B { m with proc := applyEvent a now e m.proc, clock := now } := by
  have taken := step_event (a := a) (e := e) stuck.loop time
  obtain ⟨fs, known, begun, average, deviation, srtt, mdev, above⟩ := stuck.flow
  obtain ⟨cs, tracked, stable, few, most⟩ := stuck.conn
  obtain ⟨averaged, deviated⟩ := observe_fields begun srtt mdev small now
  rw [average] at averaged
  rw [deviation] at deviated
  refine ⟨stuck.loop, ⟨fs.observe c now, ?_, observe_initialized _ _ _, ?_⟩, ?_⟩
  · rw [flow_after_step taken, flowAfter, if_pos ⟨sampled, socket⟩, known, constant]
    rfl
  · rw [gap, averaged, deviated]
    exact ⟨average, deviation, srtt, mdev, above⟩
  · have jitter : eventJitter now e m.proc = fs.mdevUs := by
      rw [eventJitter, socket, getOrCreateFlow, known, constant]
      exact deviated
    have entry : getOrCreateConn m.proc a.connKey now = cs := by
      rw [getOrCreateConn, tracked]
      rfl
    refine ⟨eventConn a now e m.proc, ?_, ?_⟩
    · rw [conn_after_step taken, connAfter, if_pos rfl]
    · obtain ⟨fewer, less⟩ := window_low (cs.touch a now) few most
      rw [eventConn, if_pos sampled, entry, constant, jitter, sample_window]
      refine ⟨?_, fewer, less.le⟩
      exact (shut_sample (cs.touch a now) (set.trans_eq stable.symm) few most above).trans stable

theorem stuck_run {a : Answers} {e : Event} {f : FlowKey} {now : Time} (set : 0 < B)
    (small : c < 2 ^ 54) (sampled : Event.sampled e) (socket : Event.flowKey e = f)
    (constant : e.latencyUs.toNat = c) (n : ℕ) :
    ∀ m : Machine, Stuck a.connKey f c B m → m.clock ≤ now → ∃ m' out,
      exec step m (List.replicate n (.event a now e)) = some (m', out) ∧
        Stuck a.connKey f c B m' ∧ .remove a.connKey ∉ out := by
  induction n with
  | zero =>
    intro m stuck _
    exact ⟨m, [], rfl, stuck, List.not_mem_nil⟩
  | succ n ih =>
    intro m stuck time
    obtain ⟨m', out, run, held, kept⟩ :=
      ih _ (stuck_step set small stuck time sampled socket constant) le_rfl
    refine ⟨m', _, exec_cons_iff.mpr ⟨_, _, _, step_event stuck.loop time, run, rfl⟩, held, ?_⟩
    rw [List.singleton_append, List.mem_cons, not_or]
    exact ⟨Emission.noConfusion, kept⟩

theorem stuck_never_adapts {a : Answers} {e : Event} {now : Time} {m : Machine}
    (set : 0 < B) (other : B ≠ c) (small : c < 2 ^ 54) (sampled : Event.sampled e)
    (constant : e.latencyUs.toNat = c) (stuck : Stuck a.connKey (Event.flowKey e) c B m)
    (time : m.clock ≤ now) (n : ℕ) : ¬ AdaptsFrom n a.connKey (Event.flowKey e) c m := by
  intro adapts
  obtain ⟨m', out, run, held, kept⟩ :=
    stuck_run set small sampled rfl constant n m stuck time
  have counted : (Input.event a now e).samplesOn a.connKey = true := decide_eq_true ⟨sampled, rfl⟩
  obtain ⟨cs, tracked, stable, _⟩ := held.conn
  obtain ⟨cs', tracked', adapted, _⟩ := by
    refine adapts _ m' out run ?_ kept ?_
    · intro i member
      obtain rfl := List.eq_of_mem_replicate member
      exact fun _ _ => ⟨rfl, rfl, constant⟩
    · rw [List.countP_replicate, if_pos counted]
  rw [tracked, Option.some.injEq] at tracked'
  rw [tracked', adapted] at stable
  exact other stable.symm

end Stuck

def bridgeSamples (latencies : List UInt64) : List Input :=
  latencies.map fun us => .event bridgePair 1 (bridgeSample .rtt 40001 us)

/- For each constant from 3 to 13 a few samples that leave the socket stuck, and the baseline
   they leave. -/
def wildStart : ℕ → List UInt64 × ℕ
  | 3 => ([1, 13, 1], 13)
  | 4 => ([1, 5, 14, 1], 5)
  | 5 => ([1, 13], 13)
  | 6 => ([1, 5, 14], 5)
  | 7 => ([1, 17], 17)
  | 8 => ([1, 21], 21)
  | 9 => ([1, 21], 21)
  | 10 => ([1, 25], 25)
  | 11 => ([1, 25], 25)
  | 12 => ([1, 29, 12], 29)
  | _ => ([1, 29, 13, 13], 29)

theorem wild_start_stuck {c : ℕ} (low : 3 ≤ c) (high : c ≤ 13) :
    ∃ m out, exec step (Machine.start true 0) (bridgeSamples (wildStart c).1) = some (m, out) ∧
      Stuck bridgePair.connKey bridgeSocket c (wildStart c).2 m ∧ m.clock = 1 ∧
      0 < (wildStart c).2 ∧ (wildStart c).2 ≠ c := by
  interval_cases c
  all_goals
    refine ⟨_, _, rfl, ⟨rfl, ⟨_, rfl, rfl, rfl, rfl, ?_⟩, ⟨_, rfl, rfl, ?_⟩⟩, rfl, ?_⟩
    · decide
    · decide
    · decide

theorem wild_start_small {c : ℕ} (low : 3 ≤ c) (high : c ≤ 13) :
    ∀ i ∈ bridgeSamples (wildStart c).1, i.latency < 2 ^ 54 := by
  interval_cases c
  all_goals decide

theorem not_adapts {c : ℕ} (low : 3 ≤ c) (high : c ≤ 13) : ¬ Adapts c := by
  intro adapts
  obtain ⟨m, out, run, stuck, time, set, other⟩ := wild_start_stuck low high
  obtain ⟨n, settles⟩ :=
    adapts true 0 _ m out bridgePair.connKey run (wild_start_small low high)
  have constant : (bridgeSample .rtt 40001 (UInt64.ofNat c)).latencyUs.toNat = c :=
    UInt64.toNat_ofNat_of_lt' (high.trans_lt (by decide))
  have sampled : Event.sampled (bridgeSample .rtt 40001 (UInt64.ofNat c)) := by
    refine ⟨.inr rfl, ?_⟩
    rw [constant]
    omega
  exact stuck_never_adapts (a := bridgePair) set other (by omega) sampled constant stuck time.le n
    (settles bridgeSocket)

/-- The baseline is re-established after every history for every constant but those from 3 to
    13, and for these when the socket is new or its average is already close. -/
theorem baseline_adapts_iff {c : ℕ} (positive : 0 < c) (inside : c < 2 ^ 54) :
    (Adapts c ↔ c ≤ 2 ∨ 14 ≤ c) ∧
      ∀ (storing : Bool) (clock : Time) (ls : List Input) (m : Machine) (out : List Emission)
          (K : ConnKey) (f : FlowKey),
        exec step (Machine.start storing clock) ls = some (m, out) →
        (∀ i ∈ ls, i.latency < 2 ^ 54) → Near c (m.proc.flows.lookup f) →
          ∃ n, AdaptsFrom n K f c m := by
  constructor
  · constructor
    · intro adapts
      by_contra between
      exact not_adapts (c := c) (by omega) (by omega) adapts
    · intro outside storing clock ls m out K run small
      refine ⟨2 ^ 55 + 1, fun f => ?_⟩
      exact adapts_from positive inside run small (outside.imp id .inl)
  · intro storing clock ls m out K f run small near
    exact ⟨2 ^ 55 + 1, adapts_from positive inside run small (.inr (.inr near))⟩

theorem hundred_is_adapted : Adapts 100 ∧
    ∃ n, AdaptsFrom n bridgePair.connKey bridgeSocket 5 (Machine.start true 0) :=
  ⟨(baseline_adapts_iff (c := 100) (by decide) (by decide)).1.mpr (.inr (by decide)),
    (baseline_adapts_iff (c := 5) (by decide) (by decide)).2 true 0 [] _ _ _ _ rfl (by simp)
      (by simp [Near, Machine.start, Processor.new])⟩

theorem five_stays_at_thirteen :
    (∃ m out, exec step (Machine.start true 0) (bridgeSamples [1, 13]) = some (m, out) ∧
      ∀ n, ∃ m' out' cs, exec step m (bridgeSamples (List.replicate n 5)) = some (m', out') ∧
        .remove bridgePair.connKey ∉ out' ∧
        m'.proc.conns.lookup bridgePair.connKey = some cs ∧ cs.stableP99 = 13) ∧
      ¬ ∀ c, 0 < c → c < 2 ^ 54 → Adapts c := by
  constructor
  · obtain ⟨m, out, run, stuck, time, set, _⟩ :=
      wild_start_stuck (c := 5) (by decide) (by decide)
    refine ⟨m, out, run, fun n => ?_⟩
    obtain ⟨m', out', later, held, kept⟩ := stuck_run (a := bridgePair) (c := 5)
      (e := bridgeSample .rtt 40001 5) set (by decide) (by decide) rfl rfl n m stuck time.le
    obtain ⟨cs, tracked, stable, _⟩ := held.conn
    refine ⟨m', out', cs, ?_, kept, tracked, stable⟩
    rw [bridgeSamples, List.map_replicate]
    exact later
  · intro claim
    exact not_adapts (c := 5) (by decide) (by decide) (claim 5 (by decide) (by decide))

end CollectorStats
