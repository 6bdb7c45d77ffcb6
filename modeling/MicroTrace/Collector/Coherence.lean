import MicroTrace.Collector.Bounds
import MicroTrace.Collector.Evidence
import MicroTrace.Collector.Isolation

/- What a published snapshot says about its connection. The threshold goes back to one sample
   of the connection's history: the last one whose socket was calm by the window as it stood
   then, or the first of all. -/
namespace CollectorStats
open CollectorModel Lives RangeLoops RingBuffer Runs

/- What an event tells about a connection: a sample with the deviation of its socket, or a
   retransmission. -/
inductive Heard where
  | sample (us jitterUs : ℕ)
  | retransmit
  deriving DecidableEq

def Heard.sample? : Heard → Option (ℕ × ℕ)
  | .sample us jitterUs => some (us, jitterUs)
  | .retransmit => none

/- A cut is the removal of the connection by a sweep. -/
def connWords (K : ConnKey) (m : Machine) : Input → List (Word Heard)
  | .event a now e =>
      if a.connKey = K then
        if Event.sampled e then
          [.put (.sample e.latencyUs.toNat
            (updateFlowMdev m.proc (Event.flowKey e) e.latencyUs.toNat now).2)]
        else if e.type = .retransmit then [.put .retransmit] else []
      else []
  | .sweep now _ _ =>
      if (m.proc.conns.lookup K).any fun cs => expired now cs.lastSeen then [.cut] else []
  | .tick _ _ => []
  | .closed _ _ => []
  | .resource _ => []

def samplesOf (life : List Heard) : List (ℕ × ℕ) := life.filterMap Heard.sample?

def retransmits (life : List Heard) : ℕ := life.count .retransmit

def windowOf (samples : List (ℕ × ℕ)) : List ℕ := (samples.map Prod.fst).rtake rttRingSize

/- A sample may move the baseline: it is the first, or its socket is calm. -/
def Gate (early : List (ℕ × ℕ)) (x : ℕ × ℕ) : Prop :=
  early = [] ∨ x.2 ≤ (percentilesOf (windowOf (early ++ [x]))).p50 / 2

/-- B is the p99 of the window right after the last sample that passed the gate. -/
def Baseline (samples : List (ℕ × ℕ)) (B : ℕ) : Prop :=
  ∃ early x late, samples = early ++ x :: late ∧ Gate early x ∧
    (∀ pre y post, late = pre ++ y :: post → ¬ Gate (early ++ x :: pre) y) ∧
    B = (percentilesOf (windowOf (early ++ [x]))).p99

structure Tells (life : List Heard) (cs : ConnStats) : Prop where
  window : cs.ring.samples = windowOf (samplesOf life)
  positive : ∀ x ∈ samplesOf life, 0 < x.1
  unset : samplesOf life = [] → cs.stableP99 = 0
  baseline : samplesOf life ≠ [] → Baseline (samplesOf life) cs.stableP99
  retransmit : cs.retransmit = UInt32.ofNat (retransmits life)

/-- The state of a connection and what has been heard of it since it was created. -/
structure ConnHistory (life : List Heard) (conn : Option ConnStats) : Prop where
  silent : conn = none → life = []
  known : ∀ cs, conn = some cs → Tells life cs

section Samples

variable {life : List Heard} {cs : ConnStats} {us jitterUs : ℕ}

theorem samplesOf_sample (life : List Heard) (us jitterUs : ℕ) :
    samplesOf (life ++ [.sample us jitterUs]) = samplesOf life ++ [(us, jitterUs)] := by
  simp [samplesOf, Heard.sample?]

theorem samplesOf_retransmit (life : List Heard) :
    samplesOf (life ++ [.retransmit]) = samplesOf life := by
  simp [samplesOf, Heard.sample?]

theorem windowOf_append (samples : List (ℕ × ℕ)) (x : ℕ × ℕ) :
    windowOf (samples ++ [x]) = (windowOf samples ++ [x.1]).rtake rttRingSize := by
  rw [windowOf, windowOf, List.map_append, rtake_concat_rtake]
  rfl

theorem windowOf_positive {samples : List (ℕ × ℕ)} (positive : ∀ x ∈ samples, 0 < x.1) :
    ∀ us ∈ windowOf samples, 0 < us := by
  intro us member
  unfold windowOf List.rtake at member
  obtain ⟨x, heard, rfl⟩ := List.mem_map.mp (List.mem_of_mem_drop member)
  exact positive x heard

theorem windowOf_nonempty {samples : List (ℕ × ℕ)} (some : samples ≠ []) :
    windowOf samples ≠ [] :=
  rtake_nonempty (by simpa using some)

theorem p99_positive {samples : List ℕ} (positive : ∀ us ∈ samples, 0 < us)
    (nonempty : samples ≠ []) : 0 < (percentilesOf samples).p99 := by
  rw [percentilesOf_nonempty nonempty]
  exact positive _ (percentile_mem 99 nonempty)

theorem baseline_positive {samples : List (ℕ × ℕ)} {B : ℕ} (positive : ∀ x ∈ samples, 0 < x.1)
    (baseline : Baseline samples B) : 0 < B := by
  obtain ⟨early, x, late, rfl, _, _, value⟩ := baseline
  rw [value]
  have some : early ++ [x] ≠ [] := by simp
  have earlier : ∀ y ∈ early ++ [x], 0 < y.1 := by
    intro y member
    apply positive y
    simp only [List.mem_append, List.mem_cons] at member ⊢
    tauto
  exact p99_positive (windowOf_positive earlier) (windowOf_nonempty some)

/- The last sample passes the gate or leaves the baseline where it was. -/
theorem baseline_append {samples : List (ℕ × ℕ)} {B : ℕ} (x : ℕ × ℕ)
    (baseline : samples ≠ [] → Baseline samples B) :
    (Gate samples x → Baseline (samples ++ [x]) (percentilesOf (windowOf (samples ++ [x]))).p99) ∧
      (¬ Gate samples x → Baseline (samples ++ [x]) B) := by
  constructor
  · intro gate
    exact ⟨samples, x, [], rfl, gate, by simp, rfl⟩
  · intro closed
    have some : samples ≠ [] := fun none => closed (.inl none)
    obtain ⟨early, y, late, rfl, gate, shut, value⟩ := baseline some
    refine ⟨early, y, late ++ [x], by simp, gate, ?_, value⟩
    intro pre z post split
    rcases List.append_eq_append_iff.mp split with ⟨mid, rfl, rest⟩ | ⟨mid, rfl, rest⟩
    · cases mid with
      | nil =>
        obtain ⟨rfl, _⟩ := List.cons.inj rest
        simpa using closed
      | cons w mid => simp at rest
    · cases mid with
      | nil =>
        obtain ⟨rfl, _⟩ := List.cons.inj rest
        simpa using closed
      | cons w mid =>
        obtain ⟨rfl, _⟩ := List.cons.inj rest
        exact shut pre z mid rfl

theorem tells_window (tells : Tells life cs) (us jitterUs : ℕ) :
    windowWith cs us = windowOf (samplesOf life ++ [(us, jitterUs)]) := by
  rw [windowWith, tells.window, windowOf_append]

theorem tells_sample (tells : Tells life cs) (positive : 0 < us) :
    Tells (life ++ [.sample us jitterUs]) (cs.sample us jitterUs) := by
  have window := tells_window tells us jitterUs
  have all : ∀ x ∈ samplesOf life ++ [(us, jitterUs)], 0 < x.1 := by
    intro x member
    rcases List.mem_append.mp member with earlier | last
    · exact tells.positive x earlier
    · rw [List.mem_singleton.mp last]
      exact positive
  have above := p99_positive (windowOf_positive all) (windowOf_nonempty (by simp))
  obtain ⟨opened, closed⟩ := baseline_append (us, jitterUs) tells.baseline
  have gate : Gate (samplesOf life) (us, jitterUs) ↔ cs.stableP99 = 0 ∨ jitterUs ≤
      (percentilesOf (windowOf (samplesOf life ++ [(us, jitterUs)]))).p50 / 2 := by
    unfold Gate
    constructor
    · rintro (first | calm)
      · exact .inl (tells.unset first)
      · exact .inr calm
    · rintro (unset | calm)
      · left
        by_contra some
        exact absurd unset (Nat.ne_of_gt (baseline_positive tells.positive (tells.baseline some)))
      · exact .inr calm
  constructor
  · rw [sample_window, samplesOf_sample, window]
  · rw [samplesOf_sample]
    exact all
  · intro none
    simp [samplesOf_sample] at none
  · intro _
    rw [samplesOf_sample, sample_baseline, window]
    dsimp only
    rw [if_neg (Nat.ne_of_gt above)]
    split
    · rename_i passed
      exact opened (gate.mpr passed)
    · rename_i shut
      exact closed fun passed => shut (gate.mp passed)
  · have same : (cs.sample us jitterUs).retransmit = cs.retransmit :=
      (update_stable_fields _ jitterUs).2.1
    rw [same, tells.retransmit]
    simp [retransmits]

theorem tells_retransmit (tells : Tells life cs) :
    Tells (life ++ [.retransmit]) { cs with retransmit := cs.retransmit + 1 } := by
  constructor
  · rw [samplesOf_retransmit]
    exact tells.window
  · rw [samplesOf_retransmit]
    exact tells.positive
  · rw [samplesOf_retransmit]
    exact tells.unset
  · rw [samplesOf_retransmit]
    exact tells.baseline
  · dsimp only
    rw [tells.retransmit]
    simp [retransmits]

theorem tells_fresh (now : Time) : Tells [] (ConnStats.fresh now) :=
  ⟨rfl, by simp [samplesOf], fun _ => rfl, by simp [samplesOf], rfl⟩

theorem tells_congr {other : ConnStats} (tells : Tells life cs) (ring : other.ring = cs.ring)
    (stable : other.stableP99 = cs.stableP99) (count : other.retransmit = cs.retransmit) :
    Tells life other := by
  obtain ⟨window, positive, unset, baseline, retransmit⟩ := tells
  rw [← ring] at window
  rw [← stable] at unset baseline
  rw [← count] at retransmit
  exact ⟨window, positive, unset, baseline, retransmit⟩

end Samples

def connAfter (K : ConnKey) (m : Machine) : Input → Option ConnStats
  | .event a now e =>
      if a.connKey = K then some (eventConn a now e m.proc) else m.proc.conns.lookup K
  | .sweep now _ _ => (m.proc.conns.lookup K).filter fun cs => !expired now cs.lastSeen
  | .tick now _ => (m.proc.conns.lookup K).map (·.appendHistory now)
  | .closed now _ => (m.proc.conns.lookup K).map (·.appendHistory now)
  | .resource _ => m.proc.conns.lookup K

section Steps

variable {K : ConnKey} {m m' : Machine} {i : Input} {life : List Heard}
  {words seen : List (Word Heard)}

theorem conn_after_step {out : List Emission} (taken : step m i = some (m', out)) :
    m'.proc.conns.lookup K = connAfter K m i := by
  rcases step_cases taken with ⟨a, now, e, rfl, _, _, rfl, _⟩ |
    ⟨now, order, running, input, _, _, visit, rfl, _⟩ |
    ⟨now, order, flowOrder, rfl, _, _, visit, _, rfl, _⟩ | ⟨s, rfl, rfl, _⟩
  · by_cases own : a.connKey = K
    · rw [connAfter, if_pos own]
      subst own
      exact conn_after_own_event
    · rw [connAfter, if_neg own]
      exact conn_after_other_event (Ne.symm own)
  · rcases input with ⟨rfl, _⟩ | ⟨rfl, _⟩
    · exact conn_after_tick visit K
    · exact conn_after_tick visit K
  · exact conn_after_sweep visit K
  · rfl

theorem conn_entry {a : Answers} (now : Time)
    (history : ConnHistory life (m.proc.conns.lookup a.connKey)) :
    Tells life ((getOrCreateConn m.proc a.connKey now).touch a now) := by
  unfold getOrCreateConn
  cases tracked : m.proc.conns.lookup a.connKey with
  | none =>
    rw [history.silent tracked]
    exact tells_congr (tells_fresh now) rfl rfl rfl
  | some cs => exact tells_congr (history.known cs tracked) rfl rfl rfl

theorem history_event {a : Answers} {now : Time} {e : Event}
    (history : ConnHistory (lastLife words) (m.proc.conns.lookup a.connKey)) :
    ConnHistory (lastLife (words ++ connWords a.connKey m (.event a now e)))
      (some (eventConn a now e m.proc)) := by
  have entry := conn_entry now history
  refine ⟨by simp, ?_⟩
  intro cs same
  obtain rfl := Option.some.inj same
  rw [connWords, if_pos rfl, eventConn]
  by_cases sampled : Event.sampled e
  · rw [if_pos sampled, if_pos sampled, lastLife_put]
    exact tells_sample entry sampled.2
  · rw [if_neg sampled, if_neg sampled]
    by_cases again : e.type = .retransmit
    · rw [if_pos again, if_pos again, lastLife_put]
      exact tells_retransmit entry
    · rw [if_neg again, if_neg again, List.append_nil]
      exact entry

theorem history_removal {conn : Option ConnStats} (now : Time)
    (history : ConnHistory (lastLife words) conn) :
    ConnHistory
      (lastLife (words ++ if conn.any fun cs => expired now cs.lastSeen then [.cut] else []))
      (conn.filter fun cs => !expired now cs.lastSeen) := by
  cases conn with
  | none => simpa using history
  | some cs =>
    cases late : expired now cs.lastSeen with
    | true =>
      rw [Option.any_some, late, if_pos rfl, lastLife_cut]
      refine ⟨fun _ => rfl, ?_⟩
      simp [Option.filter, late]
    | false => simpa [late, Option.filter] using history

theorem history_tick {conn : Option ConnStats} (now : Time) (history : ConnHistory life conn) :
    ConnHistory life (conn.map (·.appendHistory now)) := by
  constructor
  · intro none
    exact history.silent (Option.map_eq_none_iff.mp none)
  · intro cs tracked
    obtain ⟨before, known, rfl⟩ := Option.map_eq_some_iff.mp tracked
    exact tells_congr (history.known before known) rfl rfl rfl

theorem conn_history_step (history : ConnHistory (lastLife words) (m.proc.conns.lookup K))
    (told : watch (connWords K) step m i = some (m', seen)) :
    ConnHistory (lastLife (words ++ seen)) (m'.proc.conns.lookup K) := by
  obtain ⟨⟨out, taken⟩, rfl⟩ := watch_iff.mp told
  rw [conn_after_step taken]
  cases i with
  | event a now e =>
    by_cases own : a.connKey = K
    · rw [connAfter, if_pos own]
      subst own
      exact history_event history
    · rw [connAfter, connWords, if_neg own, if_neg own, List.append_nil]
      exact history
  | sweep now order flowOrder => exact history_removal now history
  | tick now order =>
    rw [connWords, List.append_nil]
    exact history_tick now history
  | closed now order =>
    rw [connWords, List.append_nil]
    exact history_tick now history
  | resource s =>
    rw [connWords, List.append_nil]
    exact history

theorem conn_history_run {storing : Bool} {clock : Time} {ls : List Input}
    (run : exec (watch (connWords K) step) (Machine.start storing clock) ls = some (m, words)) :
    ConnHistory (lastLife words) (m.proc.conns.lookup K) := by
  apply exec_history (I := fun _ m words => ConnHistory (lastLife words) (m.proc.conns.lookup K))
    _ (fun _ history told => conn_history_step history told) run
  exact ⟨fun _ => rfl, by simp [Machine.start, Processor.new]⟩

end Steps

/-- A snapshot beside what has been heard of its connection since it was created. -/
structure Coherent (life : List Heard) (snap : StatSnapshot) : Prop where
  count : snap.sampleCount = min (samplesOf life).length rttRingSize
  baseline : 0 < snap.sampleCount →
    ∃ B, Baseline (samplesOf life) B ∧ snap.spikeThresholdUs = 3 * B
  threshold : 0 < snap.spikeThresholdUs ↔ 0 < snap.sampleCount
  spike : snap.isSpike = true ↔
    snap.spikeThresholdUs < snap.latestSRTTUs ∧ 0 < snap.spikeThresholdUs
  causeKind : snap.causeKind ≠ .empty ↔ snap.isSpike = true
  causeSignal : snap.causeSignal ≠ .empty ↔ snap.isSpike = true
  external : snap.causeKind = .external ↔ snap.isSpike = true ∧ snap.dstType = .external
  retransmitCount : snap.retransmitCount.toNat = retransmits life % 2 ^ 32

def StatSnapshot.point (snap : StatSnapshot) (now : Time) : HistoryPoint where
  time := unixMilli now
  latestSRTTUs := snap.latestSRTTUs
  avgUs := snap.avgUs
  p50Us := snap.p50Us
  p95Us := snap.p95Us
  p99Us := snap.p99Us
  jitterUs := snap.jitterUs

/-- The tick that publishes a snapshot appends its values to the history of its connection and
    hands it to the store. -/
structure Recorded (m m' : Machine) (calls : List Emission) (now : Time) (snap : StatSnapshot) :
    Prop where
  calls : calls.filter (·.about (StatSnapshot.connKey snap)) =
    .stats snap :: if m.proc.storing then [.storeConn snap] else []
  history : ∃ cs cs', m.proc.conns.lookup (StatSnapshot.connKey snap) = some cs ∧
    m'.proc.conns.lookup (StatSnapshot.connKey snap) = some cs' ∧
    cs'.history = (cs.history ++ [StatSnapshot.point snap now]).rtake maxHistory

section Snapshot

variable {K : ConnKey} {life : List Heard} {cs : ConnStats} {res : Option ResourceSnapshot}

theorem cause_found (dstType : NodeType) (res : Option ResourceSnapshot) :
    (detectCause dstType res).1 ≠ .empty ∧ (detectCause dstType res).2 ≠ .empty ∧
      ((detectCause dstType res).1 = .external ↔ dstType = .external) := by
  unfold detectCause
  split
  · rename_i external
    simp [external]
  · rename_i internal
    cases res with
    | none => simp [internal]
    | some res =>
      dsimp only
      split
      · simp [internal]
      · split
        · simp [internal]
        · split
          · simp [internal]
          · split <;> simp [internal]

theorem count_heard (tells : Tells life cs) :
    cs.ring.count = min (samplesOf life).length rttRingSize := by
  rw [← samples_length, tells.window, windowOf, List.rtake, List.length_drop, List.length_map]
  omega

theorem spike_unheard (tells : Tells life cs) (none : samplesOf life = []) (latestUs : ℕ) :
    cs.isSpike latestUs = (false, 0) := by
  have empty : cs.percentiles.p99 = 0 := by
    rw [ConnStats.percentiles, tells.window, none]
    rfl
  rw [ConnStats.isSpike, tells.unset none, if_pos rfl, empty]
  rfl

theorem coherent_unheard (tells : Tells life cs) (none : samplesOf life = []) :
    Coherent life (snapshot K cs res) := by
  have judged := spike_unheard tells none cs.latestRTT
  have empty : cs.ring.count = 0 := by
    rw [count_heard tells, none]
    rfl
  constructor
  · exact count_heard tells
  · intro some
    exact absurd some (by simp [snapshot, empty])
  · simp [snapshot, judged, empty]
  · simp [snapshot, judged]
  · simp [snapshot, judged]
  · simp [snapshot, judged]
  · simp [snapshot, judged]
  · rw [snapshot, tells.retransmit]
    exact UInt32.toNat_ofNat'

theorem coherent_heard (tells : Tells life cs) (some : samplesOf life ≠ [])
    (small : 3 * cs.stableP99 < 2 ^ 64) : Coherent life (snapshot K cs res) := by
  have baseline := tells.baseline some
  have positive := baseline_positive tells.positive baseline
  have judged := isSpike_with_baseline cs.latestRTT positive small
  have filled : 0 < cs.ring.count := by
    have := List.length_pos_iff.mpr some
    have : 0 < rttRingSize := by decide
    rw [count_heard tells]
    omega
  obtain ⟨kind, signal, external⟩ := cause_found cs.dstType res
  constructor
  · exact count_heard tells
  · intro _
    exact ⟨cs.stableP99, baseline, by simp [snapshot, judged]⟩
  · simp [snapshot, judged, filled, positive]
  · simp [snapshot, judged, positive]
  · by_cases spike : 3 * cs.stableP99 < cs.latestRTT <;> simp [snapshot, judged, spike, kind]
  · by_cases spike : 3 * cs.stableP99 < cs.latestRTT <;> simp [snapshot, judged, spike, signal]
  · by_cases spike : 3 * cs.stableP99 < cs.latestRTT <;> simp [snapshot, judged, spike, external]
  · rw [snapshot, tells.retransmit]
    exact UInt32.toNat_ofNat'

theorem coherent_snapshot (tells : Tells life cs) (small : 3 * cs.stableP99 < 2 ^ 64) :
    Coherent life (snapshot K cs res) := by
  by_cases none : samplesOf life = []
  · exact coherent_unheard tells none
  · exact coherent_heard tells none small

end Snapshot

theorem recorded_tick {m : Machine} {order : List ConnKey} {now : Time} {running : Bool}
    {k : ConnKey} {cs : ConnStats} (visit : Enumerates order m.proc.conns)
    (tracked : m.proc.conns.lookup k = some cs) :
    Recorded m ⟨(publishSnapshots order now m.proc).1, now, running⟩
      (publishCalls m.proc.storing (publishSnapshots order now m.proc).2) now
      (snapshot k cs (m.proc.resources.lookup k.dst)) := by
  have key : StatSnapshot.connKey (snapshot k cs (m.proc.resources.lookup k.dst)) = k := rfl
  constructor
  · rw [about_publishCalls, key, published_by_tick visit, tracked]
    exact List.append_nil _
  · refine ⟨cs, cs.appendHistory now, tracked, ?_, append_history_trimmed cs now⟩
    rw [key, conn_after_tick visit, tracked]
    rfl

/-- Every snapshot published in a run with latencies below 2^54. -/
theorem snapshots_coherent {storing : Bool} {clock : Time} {ls : List Input} {m m' : Machine}
    {i : Input} {out calls : List Emission} {snap : StatSnapshot}
    (run : exec step (Machine.start storing clock) ls = some (m, out))
    (small : ∀ i ∈ ls, i.latency < 2 ^ 54) (taken : step m i = some (m', calls))
    (published : Emission.stats snap ∈ calls) :
    ∃ words now order,
      exec (watch (connWords (StatSnapshot.connKey snap)) step) (Machine.start storing clock) ls =
          some (m, words) ∧
        (i = .tick now order ∨ i = .closed now order) ∧ Coherent (lastLife words) snap ∧
          Recorded m m' calls now snap := by
  obtain ⟨words, told⟩ := exec_watched (connWords (StatSnapshot.connKey snap)) run
  rcases step_cases taken with ⟨a, now, e, _, _, _, _, rfl⟩ |
    ⟨now, order, running, label, _, _, visit, rfl, rfl⟩ | ⟨_, _, _, _, _, _, _, _, _, rfl⟩ |
    ⟨s, _, _, rfl⟩
  · simp at published
  · obtain ⟨k, cs, tracked, rfl⟩ := (stats_of_tick visit snap).mp published
    have bounded := bounded_below run small
    have stable := (bounded.conns k cs tracked).stableP99
    have history := conn_history_run told
    refine ⟨words, now, order, told, label.imp And.left And.left, ?_, recorded_tick visit tracked⟩
    exact coherent_snapshot (history.known cs tracked) (by omega)
  · simp at published
  · unfold resourceCalls at published
    split at published <;> simp at published

def spikeRun : List Input :=
  spikingSamples ++ [.event bridgePair 5 (bridgeSample .retransmit 40001 0)]

theorem spike_snapshot_coherent : ∃ m out m' calls snap words,
    exec step (Machine.start true 0) spikeRun = some (m, out) ∧
      step m (.tick 6 [bridgePair.connKey]) = some (m', calls) ∧ Emission.stats snap ∈ calls ∧
      snap.isSpike = true ∧ snap.spikeThresholdUs = 300 ∧ Coherent (lastLife words) snap := by
  obtain ⟨words, _, _, _, _, coherent, _⟩ := @snapshots_coherent true 0 spikeRun _ _
    (.tick 6 [bridgePair.connKey]) _ _ _ rfl (by decide) rfl List.mem_cons_self
  exact ⟨_, _, _, _, _, words, rfl, rfl, List.mem_cons_self, by decide, by decide, coherent⟩

end CollectorStats
