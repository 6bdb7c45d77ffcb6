import MicroTrace.Collector.SpikeBaseline

/- Where the numbers of a snapshot come from. A property of the latencies that enter the
   Processor is one of the samples that it keeps, and so of the latest sample and of the
   percentiles that it publishes. -/
namespace CollectorStats
open CollectorModel RangeLoops RingBuffer Runs

section Among

variable {E : ConnKey → Nat → Prop} {p : Processor}

def SamplesAmong (E : ConnKey → Nat → Prop) (p : Processor) : Prop :=
  ∀ k cs, p.conns.lookup k = some cs → ∀ us ∈ cs.ring.samples, E k us

def Adds (E : ConnKey → Nat → Prop) (a : Answers) (e : Event) : Prop :=
  Event.sampled e → E a.connKey e.latencyUs.toNat

theorem among_new (storing : Bool) : SamplesAmong E (Processor.new storing) := by
  intro k cs found
  cases found

theorem among_event {a : Answers} {now : Time} {e : Event} (among : SamplesAmong E p)
    (adds : Adds E a e) : SamplesAmong E (applyEvent a now e p) := by
  intro k cs found us member
  by_cases own : k = a.connKey
  · subst own
    rw [conn_after_own_event, Option.some.injEq] at found
    subst found
    have old : ∀ us ∈ (getOrCreateConn p a.connKey now).ring.samples, E a.connKey us := by
      intro us member
      cases before : p.conns.lookup a.connKey with
      | none =>
        simp only [getOrCreateConn, before, Option.getD_none] at member
        exact absurd member List.not_mem_nil
      | some cs =>
        simp only [getOrCreateConn, before, Option.getD_some] at member
        exact among _ cs before us member
    rw [event_conn_samples] at member
    split at member
    · rename_i sampled
      rcases List.mem_append.mp (windowWith_subset _ _ member) with earlier | last
      · exact old us earlier
      · rw [List.mem_singleton.mp last]
        exact adds sampled
    · exact old us member
  · rw [conn_after_other_event own] at found
    exact among k cs found us member

theorem among_tick {order : List ConnKey} {now : Time} (among : SamplesAmong E p)
    (visit : Enumerates order p.conns) : SamplesAmong E (publishSnapshots order now p).1 := by
  intro k cs found
  rw [conn_after_tick visit, Option.map_eq_some_iff] at found
  obtain ⟨before, tracked, rfl⟩ := found
  exact among k before tracked

theorem among_sweep {order : List ConnKey} {flowOrder : List FlowKey} {now : Time}
    (among : SamplesAmong E p) (visit : Enumerates order p.conns) :
    SamplesAmong E (sweepExpired order flowOrder now p).1 := by
  intro k cs found
  rw [conn_after_sweep visit, Option.filter_eq_some_iff] at found
  exact among k cs found.1

end Among

def StatSnapshot.latencies (s : StatSnapshot) : List Nat :=
  [s.latestSRTTUs, s.p50Us, s.p95Us, s.p99Us]

/-- A snapshot without samples shows zeros, and one with samples shows numbers of the kind. -/
structure Measured (E : ConnKey → Nat → Prop) (s : StatSnapshot) : Prop where
  count_le : s.sampleCount ≤ rttRingSize
  unsampled : s.sampleCount = 0 → ∀ us ∈ StatSnapshot.latencies s, us = 0
  sampled : s.sampleCount ≠ 0 → ∀ us ∈ StatSnapshot.latencies s, E (StatSnapshot.connKey s) us

variable {E : ConnKey → Nat → Prop} {p : Processor}

theorem measured_snapshot (k : ConnKey) {cs : ConnStats} (res : Option ResourceSnapshot)
    (among : ∀ us ∈ cs.ring.samples, E k us) : Measured E (snapshot k cs res) where
  count_le := cs.ring.count_le
  unsampled none := by
    have count : cs.ring.count = 0 := none
    have empty : cs.ring.samples = [] :=
      List.length_eq_zero_iff.mp ((samples_length cs.ring).trans count)
    simp [StatSnapshot.latencies, snapshot, ConnStats.latestRTT, latestOf, count,
      ConnStats.percentiles, percentilesOf, empty]
  sampled some := by
    have count : cs.ring.count ≠ 0 := some
    have nonempty : cs.ring.samples ≠ [] := by
      intro empty
      exact count ((samples_length cs.ring).symm.trans (List.length_eq_zero_iff.mpr empty))
    have latest : cs.latestRTT ∈ cs.ring.samples := by
      rw [ConnStats.latestRTT, latestOf, if_neg count]
      exact newest_mem (Nat.pos_of_ne_zero count)
    have found : cs.percentiles = percentilesOf cs.ring.samples := rfl
    intro us member
    refine among us ?_
    simp only [StatSnapshot.latencies, snapshot, found, percentilesOf_nonempty nonempty,
      List.mem_cons, List.not_mem_nil, or_false] at member
    rcases member with rfl | rfl | rfl | rfl
    · exact latest
    all_goals exact percentile_mem _ nonempty

theorem measured_published {order : List ConnKey} (now : Time) (visit : Enumerates order p.conns)
    (among : SamplesAmong E p) : ∀ snap ∈ (publishSnapshots order now p).2, Measured E snap := by
  intro snap member
  obtain ⟨k, cs, found, made⟩ := (mem_rangeCollect _ visit snap).mp member
  rw [← Option.some.inj made]
  exact measured_snapshot k _ (among k cs found)

end CollectorStats
