import MicroTrace.Agent.SockOps
import MicroTrace.Collector.Flows
import MicroTrace.Collector.Window

/- No uint64 operation on the RTT path wraps when every latency is at most M and 1000 M is
   below 2^64. Each operation is safe because of bounds that the others keep: a deviation is
   bounded through the average, a baseline through the ring, and a ring holds the samples of
   many sockets. -/
namespace CollectorStats
open Averages CollectorModel RangeLoops RingBuffer Runs

structure BoundedConn (M : ℕ) (cs : ConnStats) : Prop where
  ring : ∀ i, cs.ring.cells i ≤ M
  jitterRing : ∀ i, cs.jitterRing.cells i ≤ M
  stableP99 : cs.stableP99 ≤ M

structure BoundedFlow (M : ℕ) (fs : FlowState) : Prop where
  srttUs : fs.srttUs ≤ M
  mdevUs : fs.mdevUs ≤ M

structure Bounded (M : ℕ) (p : Processor) : Prop where
  conns : ∀ k cs, p.conns.lookup k = some cs → BoundedConn M cs
  flows : ∀ f fs, p.flows.lookup f = some fs → BoundedFlow M fs

def Input.latency : Input → ℕ
  | .event _ _ e => e.latencyUs.toNat
  | .tick _ _ => 0
  | .sweep _ _ _ => 0
  | .closed _ _ => 0
  | .resource _ => 0

section Rings

variable {M us : ℕ} {cs : ConnStats}

theorem bounded_push {r : Ring ℕ rttRingSize} (bounded : ∀ i, r.cells i ≤ M) (small : us ≤ M)
    (i : Fin rttRingSize) : (r.push us).cells i ≤ M := by
  simp only [Ring.push, Function.update_apply]
  split
  · exact small
  · exact bounded i

theorem bounded_samples {r : Ring ℕ rttRingSize} (bounded : ∀ i, r.cells i ≤ M) :
    ∀ us ∈ r.samples, us ≤ M := by
  intro us member
  obtain ⟨i, _, rfl⟩ := List.mem_map.mp member
  exact bounded _

theorem percentile_bounded {samples : List ℕ} (bounded : ∀ us ∈ samples, us ≤ M) (p : ℕ)
    (nonempty : samples ≠ []) : percentile samples p ≤ M :=
  bounded _ (percentile_mem p nonempty)

theorem p99_bounded {samples : List ℕ} (bounded : ∀ us ∈ samples, us ≤ M) :
    (percentilesOf samples).p99 ≤ M := by
  by_cases nonempty : samples = []
  · subst nonempty
    exact Nat.zero_le M
  · rw [percentilesOf_nonempty nonempty]
    exact percentile_bounded bounded 99 nonempty

theorem bounded_update {jitterUs : ℕ} (bounded : BoundedConn M cs) :
    BoundedConn M (cs.updateStableP99 jitterUs) := by
  have p99 := p99_bounded (bounded_samples bounded.ring)
  unfold ConnStats.updateStableP99
  dsimp only
  split
  · exact bounded
  · split
    · exact ⟨bounded.ring, bounded.jitterRing, p99⟩
    · exact bounded

theorem bounded_sample {jitterUs : ℕ} (bounded : BoundedConn M cs) (small : us ≤ M)
    (jitter : jitterUs ≤ M) : BoundedConn M (cs.sample us jitterUs) := by
  apply bounded_update
  exact ⟨bounded_push bounded.ring small, bounded_push bounded.jitterRing jitter,
    bounded.stableP99⟩

theorem bounded_fresh (now : Time) : BoundedConn M (ConnStats.fresh now) :=
  ⟨fun _ => Nat.zero_le M, fun _ => Nat.zero_le M, Nat.zero_le M⟩

end Rings

section Flows

variable {M r : ℕ} {fs : FlowState}

theorem absDiff_le {a b : ℕ} (first : a ≤ M) (second : b ≤ M) : absDiff a b ≤ M := by
  unfold absDiff
  split <;> omega

theorem mdev_exact (room : 1000 * M < 2 ^ 64) (bounded : BoundedFlow M fs) (small : r ≤ M) :
    wrap64 (3 * fs.mdevUs + absDiff r fs.srttUs) = 3 * fs.mdevUs + absDiff r fs.srttUs := by
  have error := absDiff_le small bounded.srttUs
  have mdev := bounded.mdevUs
  exact wrap64_of_lt (by omega)

theorem srtt_exact (room : 1000 * M < 2 ^ 64) (bounded : BoundedFlow M fs) (small : r ≤ M) :
    wrap64 (7 * fs.srttUs + r) = 7 * fs.srttUs + r := by
  have srtt := bounded.srttUs
  exact wrap64_of_lt (by omega)

theorem bounded_observe (room : 1000 * M < 2 ^ 64) (bounded : BoundedFlow M fs) (small : r ≤ M)
    (now : Time) : BoundedFlow M (fs.observe r now) := by
  have error := absDiff_le small bounded.srttUs
  have mdev := bounded.mdevUs
  have srtt := bounded.srttUs
  unfold FlowState.observe
  split
  · rw [mdev_exact room bounded small, srtt_exact room bounded small]
    exact ⟨by dsimp only; omega, by dsimp only; omega⟩
  · exact ⟨small, Nat.zero_le M⟩

end Flows

section Steps

variable {M : ℕ} (room : 1000 * M < 2 ^ 64) {m m' : Machine} {i : Input} {p : Processor}

theorem bounded_flow_entry (bounded : Bounded M p) (f : FlowKey) (now : Time) :
    BoundedFlow M (getOrCreateFlow p f now) := by
  unfold getOrCreateFlow
  cases tracked : p.flows.lookup f with
  | none => exact ⟨Nat.zero_le M, Nat.zero_le M⟩
  | some fs => exact bounded.flows f fs tracked

theorem bounded_conn_entry (bounded : Bounded M p) (k : ConnKey) (now : Time) :
    BoundedConn M (getOrCreateConn p k now) := by
  unfold getOrCreateConn
  cases tracked : p.conns.lookup k with
  | none => exact bounded_fresh now
  | some cs => exact bounded.conns k cs tracked

include room in
theorem bounded_event_conn {a : Answers} {now : Time} {e : Event} (bounded : Bounded M p)
    (small : e.latencyUs.toNat ≤ M) : BoundedConn M (eventConn a now e p) := by
  have entry := bounded_conn_entry bounded a.connKey now
  have touched : BoundedConn M ((getOrCreateConn p a.connKey now).touch a now) :=
    ⟨entry.ring, entry.jitterRing, entry.stableP99⟩
  have jitter : eventJitter now e p ≤ M :=
    (bounded_observe room (bounded_flow_entry bounded _ now) small now).mdevUs
  unfold eventConn
  split
  · exact bounded_sample touched small jitter
  · split
    · exact ⟨touched.ring, touched.jitterRing, touched.stableP99⟩
    · exact touched

include room in
theorem bounded_event {a : Answers} {now : Time} {e : Event} (bounded : Bounded M p)
    (small : e.latencyUs.toNat ≤ M) : Bounded M (applyEvent a now e p) := by
  constructor
  · intro k cs found
    by_cases own : k = a.connKey
    · subst own
      rw [conn_after_own_event, Option.some.injEq] at found
      subst found
      exact bounded_event_conn room bounded small
    · rw [conn_after_other_event own] at found
      exact bounded.conns k cs found
  · intro f fs found
    by_cases own : Event.sampled e ∧ Event.flowKey e = f
    · obtain ⟨sampled, rfl⟩ := own
      rw [flow_after_own_event sampled, Option.some.injEq] at found
      subst found
      exact bounded_observe room (bounded_flow_entry bounded _ now) small now
    · rw [flow_after_other_event fun sampled same => own ⟨sampled, same.symm⟩] at found
      exact bounded.flows f fs found

include room in
theorem bounded_step {out : List Emission} (bounded : Bounded M m.proc) (small : i.latency ≤ M)
    (taken : step m i = some (m', out)) : Bounded M m'.proc := by
  rcases step_cases taken with ⟨a, now, e, rfl, _, _, rfl, _⟩ |
    ⟨now, order, running, _, _, _, visit, rfl, _⟩ |
    ⟨now, order, flowOrder, _, _, _, visit, flowVisit, rfl, _⟩ | ⟨s, _, rfl, _⟩
  · exact bounded_event room bounded small
  · constructor
    · intro k cs found
      rw [conn_after_tick visit, Option.map_eq_some_iff] at found
      obtain ⟨before, tracked, rfl⟩ := found
      obtain ⟨ring, jitterRing, stableP99⟩ := bounded.conns k before tracked
      exact ⟨ring, jitterRing, stableP99⟩
    · exact bounded.flows
  · constructor
    · intro k cs found
      rw [conn_after_sweep visit, Option.filter_eq_some_iff] at found
      exact bounded.conns k cs found.1
    · intro f fs found
      rw [flow_after_sweep flowVisit, Option.filter_eq_some_iff] at found
      exact bounded.flows f fs found.1
  · exact ⟨bounded.conns, bounded.flows⟩

include room in
theorem bounded_run {storing : Bool} {clock : Time} {ls : List Input} {out : List Emission}
    (run : exec step (Machine.start storing clock) ls = some (m, out))
    (small : ∀ i ∈ ls, i.latency ≤ M) : Bounded M m.proc := by
  refine exec_history (I := fun ls m _ => (∀ i ∈ ls, i.latency ≤ M) → Bounded M m.proc)
    ?_ ?_ run small
  · intro _
    constructor <;> simp [Machine.start, Processor.new]
  · intro ls t u i out o _ held taken small
    apply bounded_step room _ (small i (by simp)) taken
    exact held fun j member => small j (List.mem_append_left _ member)

theorem bounded_below {storing : Bool} {clock : Time} {ls : List Input} {m : Machine}
    {out : List Emission} (run : exec step (Machine.start storing clock) ls = some (m, out))
    (small : ∀ i ∈ ls, i.latency < 2 ^ 54) : Bounded (2 ^ 54 - 1) m.proc := by
  apply bounded_run (by decide) run
  intro i member
  exact Nat.le_sub_one_of_lt (small i member)

end Steps

/- The running sum of percentiles over this window never wraps. -/
def SumExact (samples : List ℕ) : Prop :=
  ∀ i ≤ samples.length,
    (samples.take i).foldl (fun sum us => wrap64 (sum + us)) 0 = (samples.take i).sum

/-- Every uint64 operation that the next input can make the Processor do gives the integer it
    stands for. -/
structure NoWrap (M : ℕ) (p : Processor) : Prop where
  sum : ∀ k cs, p.conns.lookup k = some cs → SumExact cs.ring.samples
  sum_with_sample : ∀ k now, ∀ us ≤ M, SumExact (windowWith (getOrCreateConn p k now) us)
  threshold : ∀ k cs, p.conns.lookup k = some cs →
    wrap64 (cs.stableP99 * spikeMultiplier) = cs.stableP99 * spikeMultiplier
  fallback : ∀ k cs, p.conns.lookup k = some cs →
    wrap64 (cs.percentiles.p99 * spikeMultiplier) = cs.percentiles.p99 * spikeMultiplier
  error : ∀ f fs, p.flows.lookup f = some fs →
    ∀ us ≤ M, (absDiff us fs.srttUs : ℤ) = |(us : ℤ) - fs.srttUs|
  mdev : ∀ f fs, p.flows.lookup f = some fs → ∀ us ≤ M,
    wrap64 (3 * fs.mdevUs + absDiff us fs.srttUs) = 3 * fs.mdevUs + absDiff us fs.srttUs
  srtt : ∀ f fs, p.flows.lookup f = some fs → ∀ us ≤ M,
    wrap64 (7 * fs.srttUs + us) = 7 * fs.srttUs + us

theorem sum_bounded {M : ℕ} {samples : List ℕ} (bounded : ∀ us ∈ samples, us ≤ M) :
    samples.sum ≤ samples.length * M := by
  induction samples with
  | nil => exact Nat.zero_le _
  | cons us samples ih =>
    have first := bounded us List.mem_cons_self
    have rest := ih fun v member => bounded v (List.mem_cons_of_mem us member)
    rw [List.sum_cons, List.length_cons, Nat.succ_mul]
    omega

theorem sum_exact {M : ℕ} (room : 1000 * M < 2 ^ 64) {samples : List ℕ}
    (bounded : ∀ us ∈ samples, us ≤ M) (short : samples.length ≤ rttRingSize) :
    SumExact samples := by
  intro i _
  induction i with
  | zero => simp
  | succ i ih =>
    have within := sum_bounded fun us member =>
      bounded us (List.mem_of_mem_take (i := i + 1) member)
    have length : (samples.take (i + 1)).length * M ≤ 1000 * M := by
      apply Nat.mul_le_mul_right
      rw [List.length_take]
      exact (Nat.min_le_right _ _).trans short
    cases next : samples[i]? with
    | none =>
      rw [List.take_add_one, next, Option.toList_none, List.append_nil]
      exact ih (by omega)
    | some us =>
      rw [List.take_add_one, next, Option.toList_some, List.sum_append,
        List.sum_singleton] at within
      rw [List.take_add_one, next, Option.toList_some, List.foldl_append, ih (by omega),
        List.sum_append, List.sum_singleton]
      apply wrap64_of_lt
      rw [List.take_add_one, next, Option.toList_some] at length
      omega

theorem absDiff_exact (a b : ℕ) : (absDiff a b : ℤ) = |(a : ℤ) - b| := by
  unfold absDiff
  split
  · rw [abs_of_nonneg (by omega), Nat.cast_sub (by omega)]
  · rw [abs_of_nonpos (by omega), Nat.cast_sub (by omega), neg_sub]

theorem no_wrap_of_bounded {M : ℕ} (room : 1000 * M < 2 ^ 64) {p : Processor}
    (bounded : Bounded M p) : NoWrap M p where
  sum k cs tracked := by
    apply sum_exact room (bounded_samples (bounded.conns k cs tracked).ring)
    rw [samples_length]
    exact cs.ring.count_le
  sum_with_sample k now us small := by
    have entry := bounded_conn_entry bounded k now
    apply sum_exact room
    · intro v member
      rcases List.mem_append.mp (windowWith_subset _ _ member) with earlier | last
      · exact bounded_samples entry.ring v earlier
      · rw [List.mem_singleton.mp last]
        exact small
    · rw [windowWith, List.rtake, List.length_drop]
      omega
  threshold k cs tracked := by
    have stable := (bounded.conns k cs tracked).stableP99
    apply wrap64_of_lt
    rw [spikeMultiplier]
    omega
  fallback k cs tracked := by
    have p99 := p99_bounded (bounded_samples (bounded.conns k cs tracked).ring)
    apply wrap64_of_lt
    rw [spikeMultiplier, ConnStats.percentiles]
    omega
  error f fs _ us _ := absDiff_exact us fs.srttUs
  mdev f fs tracked us small := mdev_exact room (bounded.flows f fs tracked) small
  srtt f fs tracked us small := srtt_exact room (bounded.flows f fs tracked) small

/- The agent reports a 32-bit srtt_us shifted right by 3. -/
theorem agent_latency_bounded {room : Bool} {skops : AgentSockOps.BpfSockOps}
    {e : AgentSockOps.RingEvent} (submitted : e ∈ (AgentSockOps.handleSockOps room skops).2) :
    e.latencyUs.toNat ≤ 2 ^ 29 - 1 := by
  have real : (AgentSockOps.srttReal skops.toSockView).toNat ≤ 2 ^ 29 - 1 := by
    have wide := skops.srttUs.toNat_lt
    rw [AgentSockOps.srttReal, UInt32.toNat_toUInt64, UInt32.toNat_shiftRight]
    simp only [UInt32.reduceToNat, Nat.reduceMod, Nat.shiftRight_eq_div_pow]
    omega
  unfold AgentSockOps.handleSockOps at submitted
  split at submitted
  · cases submitted
  · split at submitted <;> cases room <;> simp at submitted <;> subst submitted
    · exact real
    · exact real
    · exact Nat.zero_le _

/-- In every run whose latencies are at most M all entries stay at most M and nothing wraps;
    what the agent reports is at most 2^29 - 1. -/
theorem no_arithmetic_wraps {M : ℕ} (room : 1000 * M < 2 ^ 64) {storing : Bool} {clock : Time}
    {ls : List Input} {m : Machine} {out : List Emission}
    (run : exec step (Machine.start storing clock) ls = some (m, out))
    (small : ∀ i ∈ ls, i.latency ≤ M) :
    Bounded M m.proc ∧ NoWrap M m.proc ∧
      (∀ free skops, ∀ e ∈ (AgentSockOps.handleSockOps free skops).2,
        e.latencyUs.toNat ≤ 2 ^ 29 - 1) ∧ 1000 * (2 ^ 29 - 1) < 2 ^ 64 := by
  have bounded := bounded_run room run small
  refine ⟨bounded, no_wrap_of_bounded room bounded, ?_, by decide⟩
  intro free skops e submitted
  exact agent_latency_bounded submitted

theorem calm_samples_bounded : ∃ m out,
    exec step (Machine.start true 0) calmSamples = some (m, out) ∧ Bounded (2 ^ 29 - 1) m.proc ∧
      NoWrap (2 ^ 29 - 1) m.proc := by
  obtain ⟨bounded, safe, _⟩ := @no_arithmetic_wraps (2 ^ 29 - 1) (by decide) true 0 calmSamples _ _
    rfl (by decide)
  exact ⟨_, _, rfl, bounded, safe⟩

end CollectorStats
