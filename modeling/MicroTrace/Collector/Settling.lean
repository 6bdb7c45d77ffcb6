import MicroTrace.Collector.Coherence
import MicroTrace.Collector.Lifecycle
import MicroTrace.Collector.PortReuse

/- A link whose samples are all equal. The average of a socket moves towards the constant but
   stalls up to 7 below it, since an eighth of the difference rounds to zero, and the deviation
   stays at the difference. Where that is inside the gate, half of the constant, the baseline
   is the constant in the end. -/
namespace CollectorStats
open CollectorModel Lives RangeLoops RingBuffer Runs

def gap (c : ℕ) (fs : FlowState) : ℕ := absDiff c fs.srttUs

/- The average does not stall above the gate: it comes from above, the gate is wide enough, or
   it is close already. -/
def Free (c : ℕ) (fs : FlowState) : Prop :=
  7 ≤ c / 2 ∨ c ≤ fs.srttUs ∨ gap c fs ≤ c / 2

/- The deviation is below the gate and can not leave it. -/
def Calm (c : ℕ) (fs : FlowState) : Prop := fs.mdevUs ≤ c / 2 ∧ gap c fs ≤ c / 2 + 3

/- After j samples both distances have shrunk by j, up to the width of the gate. -/
structure Approaching (c j : ℕ) (fs : FlowState) : Prop where
  free : Free c fs
  average : gap c fs ≤ c / 2 ∨ gap c fs + j ≤ 2 ^ 54
  deviation : fs.mdevUs ≤ c / 2 ∨ fs.mdevUs + j ≤ 2 ^ 55

structure Settling (c j : ℕ) (fs : FlowState) : Prop where
  begun : fs.initialized = true
  srtt : fs.srttUs < 2 ^ 54
  mdev : fs.mdevUs < 2 ^ 54
  course : Calm c fs ∨ Approaching c j fs

section Flow

variable {c j : ℕ} {fs : FlowState} (small : c < 2 ^ 54)

theorem gap_lt (small : c < 2 ^ 54) (srtt : fs.srttUs < 2 ^ 54) : gap c fs < 2 ^ 54 := by
  unfold gap absDiff
  split <;> omega

theorem observe_fields (begun : fs.initialized = true) (srtt : fs.srttUs < 2 ^ 54)
    (mdev : fs.mdevUs < 2 ^ 54) (small : c < 2 ^ 54) (now : Time) :
    (fs.observe c now).srttUs = (7 * fs.srttUs + c) / 8 ∧
      (fs.observe c now).mdevUs = (3 * fs.mdevUs + gap c fs) / 4 := by
  have error := gap_lt small srtt
  unfold gap at error
  unfold FlowState.observe gap
  rw [if_pos begun, wrap64_of_lt (by omega), wrap64_of_lt (by omega)]
  exact ⟨rfl, rfl⟩

theorem gap_step {s : ℕ} :
    absDiff c ((7 * s + c) / 8) ≤ absDiff c s ∧
      (8 ≤ absDiff c s → absDiff c ((7 * s + c) / 8) < absDiff c s) ∧
      (c ≤ s → c ≤ (7 * s + c) / 8 ∧
        (0 < absDiff c s → absDiff c ((7 * s + c) / 8) < absDiff c s)) := by
  simp only [absDiff_eq_dist, Nat.dist]
  omega

include small in
theorem calm_step (begun : fs.initialized = true) (srtt : fs.srttUs < 2 ^ 54)
    (mdev : fs.mdevUs < 2 ^ 54) (calm : Calm c fs) (now : Time) : Calm c (fs.observe c now) := by
  obtain ⟨average, deviation⟩ := observe_fields begun srtt mdev small now
  obtain ⟨shrinks, _⟩ := @gap_step c fs.srttUs
  obtain ⟨low, near⟩ := calm
  unfold Calm
  rw [deviation]
  constructor
  · omega
  · rw [gap, average]
    exact shrinks.trans near

include small in
theorem free_step (begun : fs.initialized = true) (srtt : fs.srttUs < 2 ^ 54)
    (mdev : fs.mdevUs < 2 ^ 54) (free : Free c fs) (now : Time) : Free c (fs.observe c now) := by
  obtain ⟨average, _⟩ := observe_fields begun srtt mdev small now
  obtain ⟨shrinks, _, above⟩ := @gap_step c fs.srttUs
  rcases free with wide | higher | near
  · exact .inl wide
  · right; left
    rw [average]
    exact (above higher).1
  · right; right
    rw [gap, average]
    exact shrinks.trans near

include small in
theorem approaching_step (begun : fs.initialized = true) (srtt : fs.srttUs < 2 ^ 54)
    (mdev : fs.mdevUs < 2 ^ 54) (approaching : Approaching c j fs) (now : Time) :
    Approaching c (j + 1) (fs.observe c now) := by
  obtain ⟨average, deviation⟩ := observe_fields begun srtt mdev small now
  obtain ⟨shrinks, far, above⟩ := @gap_step c fs.srttUs
  obtain ⟨free, nearer, calmer⟩ := approaching
  have bound := gap_lt small srtt
  refine ⟨free_step small begun srtt mdev free now, ?_, ?_⟩
  · rw [gap, average]
    unfold gap at nearer bound
    unfold Free gap at free
    rcases nearer with near | away
    · exact .inl (shrinks.trans near)
    · by_cases near : absDiff c fs.srttUs ≤ c / 2
      · exact .inl (shrinks.trans near)
      · right
        have moved : absDiff c ((7 * fs.srttUs + c) / 8) < absDiff c fs.srttUs := by
          rcases free with wide | higher | close
          · exact far (by omega)
          · exact (above higher).2 (by omega)
          · exact absurd close near
        omega
  · rw [deviation]
    omega

include small in
theorem settling_step (settling : Settling c j fs) (now : Time) :
    Settling c (j + 1) (fs.observe c now) := by
  obtain ⟨begun, srtt, mdev, course⟩ := settling
  obtain ⟨average, deviation⟩ := observe_fields begun srtt mdev small now
  have bound := gap_lt small srtt
  refine ⟨observe_initialized _ _ _, by omega, by omega, ?_⟩
  rcases course with calm | approaching
  · exact .inl (calm_step small begun srtt mdev calm now)
  · exact .inr (approaching_step small begun srtt mdev approaching now)

include small in
theorem settling_new (now : Time) : Settling c j ((FlowState.created now).observe c now) := by
  refine ⟨rfl, small, Nat.two_pow_pos 54, .inl ⟨Nat.zero_le _, ?_⟩⟩
  simp [gap, absDiff, FlowState.observe, FlowState.created]

theorem calm_of_settling (settling : Settling c j fs) (late : 2 ^ 55 ≤ j) :
    fs.mdevUs ≤ c / 2 := by
  rcases settling.course with calm | approaching
  · exact calm.1
  · rcases approaching.deviation with low | counted
    · exact low
    · omega

end Flow

structure Born (c : ℕ) (cs : ConnStats) : Prop where
  same : ∀ us ∈ cs.ring.samples, us = c
  unset : cs.ring.samples = [] → cs.stableP99 = 0
  stable : cs.ring.samples ≠ [] → cs.stableP99 = c

structure Aged (c j : ℕ) (cs : ConnStats) : Prop where
  recent : ∃ xs, cs.ring.samples = xs ++ List.replicate (min j rttRingSize) c
  stable : 2 ^ 55 < j → cs.stableP99 = c

section Conn

variable {c j : ℕ} {cs : ConnStats}

theorem constant_percentiles {samples : List ℕ} (same : ∀ us ∈ samples, us = c)
    (nonempty : samples ≠ []) :
    (percentilesOf samples).p50 = c ∧ (percentilesOf samples).p99 = c := by
  rw [percentilesOf_nonempty nonempty]
  exact ⟨same _ (percentile_mem 50 nonempty), same _ (percentile_mem 99 nonempty)⟩

theorem recent_step (recent : ∃ xs, cs.ring.samples = xs ++ List.replicate (min j rttRingSize) c) :
    ∃ xs, windowWith cs c = xs ++ List.replicate (min (j + 1) rttRingSize) c := by
  obtain ⟨xs, window⟩ := recent
  obtain ⟨ys, tail⟩ := rtake_copies xs c (min j rttRingSize + 1) rttRingSize
  refine ⟨ys, ?_⟩
  have grown : min (min j rttRingSize + 1) rttRingSize = min (j + 1) rttRingSize := by omega
  rw [windowWith, window, List.append_assoc, ← List.replicate_succ', tail, grown]

theorem recent_full {samples : List ℕ} (short : samples.length ≤ rttRingSize)
    (recent : ∃ xs, samples = xs ++ List.replicate (min j rttRingSize) c)
    (late : rttRingSize ≤ j) : ∀ us ∈ samples, us = c := by
  obtain ⟨xs, rfl⟩ := recent
  rw [List.length_append, List.length_replicate] at short
  have none : xs = [] := List.length_eq_zero_iff.mp (by omega)
  intro us member
  rw [none, List.nil_append] at member
  exact List.eq_of_mem_replicate member

theorem windowWith_short (cs : ConnStats) (us : ℕ) : (windowWith cs us).length ≤ rttRingSize := by
  rw [windowWith, List.rtake, List.length_drop]
  omega

theorem born_sample (positive : 0 < c) (born : Born c cs) (jitterUs : ℕ) :
    Born c (cs.sample c jitterUs) := by
  have some := windowWith_nonempty cs c
  have same : ∀ us ∈ windowWith cs c, us = c := by
    intro us member
    rcases List.mem_append.mp (windowWith_subset _ _ member) with earlier | last
    · exact born.same us earlier
    · exact List.mem_singleton.mp last
  obtain ⟨_, p99⟩ := constant_percentiles same some
  have window := sample_window cs c jitterUs
  refine ⟨by rw [window]; exact same, by rw [window]; exact fun none => absurd none some, ?_⟩
  intro _
  rw [sample_baseline]
  dsimp only
  rw [p99, if_neg (Nat.ne_of_gt positive)]
  split
  · rfl
  · rename_i kept
    by_cases none : cs.ring.samples = []
    · exact absurd (.inl (born.unset none)) kept
    · exact born.stable none

theorem aged_sample (positive : 0 < c) (aged : Aged c j cs) {jitterUs : ℕ}
    (calm : 2 ^ 55 ≤ j → jitterUs ≤ c / 2) : Aged c (j + 1) (cs.sample c jitterUs) := by
  have recent := recent_step aged.recent
  refine ⟨by rw [sample_window]; exact recent, ?_⟩
  intro late
  have same := recent_full (windowWith_short cs c) recent (by unfold rttRingSize; omega)
  obtain ⟨p50, p99⟩ := constant_percentiles same (windowWith_nonempty cs c)
  rw [sample_baseline]
  dsimp only
  rw [p99, p50, if_neg (Nat.ne_of_gt positive), if_pos (.inr (calm (by omega)))]

theorem born_fresh (now : Time) : Born c (ConnStats.fresh now) :=
  ⟨by simp [ConnStats.fresh, emptyRing, samples_empty], fun _ => rfl,
    fun some => absurd rfl some⟩

theorem settling_congr {other : ConnStats} (settling : Born c cs ∨ Aged c j cs)
    (ring : other.ring = cs.ring) (stable : other.stableP99 = cs.stableP99) :
    Born c other ∨ Aged c j other := by
  rcases settling with ⟨same, unset, born⟩ | ⟨recent, aged⟩
  · left
    rw [← ring] at same unset born
    rw [← stable] at unset born
    exact ⟨same, unset, born⟩
  · right
    rw [← ring] at recent
    rw [← stable] at aged
    exact ⟨recent, aged⟩

end Conn

def Input.samplesOn (K : ConnKey) : Input → Bool
  | .event a _ e => decide (Event.sampled e ∧ a.connKey = K)
  | .tick _ _ => false
  | .sweep _ _ _ => false
  | .closed _ _ => false
  | .resource _ => false

/- Every sample of the connection or of the socket belongs to both and equals c; anything else
   may happen. -/
def Steady (K : ConnKey) (f : FlowKey) (c : ℕ) : Input → Prop
  | .event a _ e => Event.sampled e → a.connKey = K ∨ Event.flowKey e = f →
      a.connKey = K ∧ Event.flowKey e = f ∧ e.latencyUs.toNat = c
  | .tick _ _ => True
  | .sweep _ _ _ => True
  | .closed _ _ => True
  | .resource _ => True

/-- The baseline of the connection is c: its threshold is 3c and it is not a spike. -/
def Adapted (K : ConnKey) (c : ℕ) (m : Machine) : Prop :=
  ∃ cs, m.proc.conns.lookup K = some cs ∧ cs.stableP99 = c ∧
    ∀ order now, Enumerates order m.proc.conns →
      ∃ snap, published K (publishSnapshots order now m.proc).2 = [snap] ∧
        snap.spikeThresholdUs = 3 * c ∧ snap.isSpike = false

/-- After n or more samples of a connection that has not been removed meanwhile. -/
def AdaptsFrom (n : ℕ) (K : ConnKey) (f : FlowKey) (c : ℕ) (m : Machine) : Prop :=
  ∀ (more : List Input) (m' : Machine) (out : List Emission),
    exec step m more = some (m', out) → (∀ i ∈ more, Steady K f c i) → .remove K ∉ out →
      n ≤ more.countP (·.samplesOn K) → Adapted K c m'

/-- From every state reachable with latencies below 2^54, for every connection. -/
def Adapts (c : ℕ) : Prop :=
  ∀ (storing : Bool) (clock : Time) (ls : List Input) (m : Machine) (out : List Emission)
      (K : ConnKey),
    exec step (Machine.start storing clock) ls = some (m, out) →
    (∀ i ∈ ls, i.latency < 2 ^ 54) → ∃ n, ∀ f, AdaptsFrom n K f c m

structure Course (K : ConnKey) (f : FlowKey) (c j : ℕ) (m : Machine) : Prop where
  conn : ∀ cs, m.proc.conns.lookup K = some cs → Born c cs ∨ Aged c j cs
  flow : ∀ fs, m.proc.flows.lookup f = some fs → Settling c j fs

section Course

variable {K : ConnKey} {f : FlowKey} {c j : ℕ} {m m' : Machine} {i : Input}

theorem course_conn_entry (course : Course K f c j m) (a : Answers) (own : a.connKey = K)
    (now : Time) : Born c ((getOrCreateConn m.proc a.connKey now).touch a now) ∨
      Aged c j ((getOrCreateConn m.proc a.connKey now).touch a now) := by
  subst own
  unfold getOrCreateConn
  cases tracked : m.proc.conns.lookup a.connKey with
  | none => exact settling_congr (.inl (born_fresh now)) rfl rfl
  | some cs => exact settling_congr (course.conn cs tracked) rfl rfl

theorem course_flow_entry (course : Course K f c j m) (small : c < 2 ^ 54) (now : Time) :
    Settling c (j + 1) ((getOrCreateFlow m.proc f now).observe c now) := by
  unfold getOrCreateFlow
  cases tracked : m.proc.flows.lookup f with
  | none => exact settling_new small now
  | some fs => exact settling_step small (course.flow fs tracked) now

theorem course_sample {a : Answers} {now : Time} {e : Event} {out : List Emission}
    (course : Course K f c j m) (positive : 0 < c) (small : c < 2 ^ 54)
    (sampled : Event.sampled e) (own : a.connKey = K) (socket : Event.flowKey e = f)
    (constant : e.latencyUs.toNat = c) (taken : step m (.event a now e) = some (m', out)) :
    Course K f c (j + 1) m' := by
  have flow := course_flow_entry course small now
  constructor
  · intro cs tracked
    rw [conn_after_step taken, connAfter, if_pos own, Option.some.injEq] at tracked
    subst tracked
    rw [eventConn, if_pos sampled, constant]
    rcases course_conn_entry course a own now with born | aged
    · exact .inl (born_sample positive born _)
    · refine .inr (aged_sample positive aged ?_)
      intro late
      rw [eventJitter, socket, constant]
      exact calm_of_settling flow (late.trans (Nat.le_succ j))
  · intro fs tracked
    rw [flow_after_step taken, flowAfter, if_pos ⟨sampled, socket⟩, constant,
      Option.some.injEq] at tracked
    subst tracked
    exact flow

theorem course_other {a : Answers} {now : Time} {e : Event} {out : List Emission}
    (course : Course K f c j m)
    (other : ¬ (Event.sampled e ∧ (a.connKey = K ∨ Event.flowKey e = f)))
    (taken : step m (.event a now e) = some (m', out)) : Course K f c j m' := by
  constructor
  · intro cs tracked
    rw [conn_after_step taken, connAfter] at tracked
    split at tracked
    · rename_i own
      obtain rfl := Option.some.inj tracked
      have quiet : ¬ Event.sampled e := fun sampled => other ⟨sampled, .inl own⟩
      have entry := course_conn_entry course a own now
      rw [eventConn, if_neg quiet]
      split
      · exact settling_congr entry rfl rfl
      · exact entry
    · exact course.conn cs tracked
  · intro fs tracked
    rw [flow_after_step taken, flowAfter,
      if_neg fun both => other ⟨both.1, .inr both.2⟩] at tracked
    exact course.flow fs tracked

theorem course_tick {now : Time} {out : List Emission} (course : Course K f c j m)
    (conn : connAfter K m i = (m.proc.conns.lookup K).map (·.appendHistory now))
    (flow : ∀ flow, flowAfter f flow i = flow) (taken : step m i = some (m', out)) :
    Course K f c j m' := by
  constructor
  · intro cs tracked
    rw [conn_after_step taken, conn] at tracked
    obtain ⟨before, known, rfl⟩ := Option.map_eq_some_iff.mp tracked
    exact settling_congr (course.conn before known) rfl rfl
  · intro fs tracked
    rw [flow_after_step taken, flow] at tracked
    exact course.flow fs tracked

theorem course_step {out : List Emission} (course : Course K f c j m) (positive : 0 < c)
    (small : c < 2 ^ 54) (steady : Steady K f c i) (taken : step m i = some (m', out)) :
    Course K f c (j + if i.samplesOn K then 1 else 0) m' := by
  cases i with
  | event a now e =>
    by_cases touching : Event.sampled e ∧ (a.connKey = K ∨ Event.flowKey e = f)
    · obtain ⟨own, socket, constant⟩ := steady touching.1 touching.2
      have counted : (Input.event a now e).samplesOn K = true :=
        decide_eq_true ⟨touching.1, own⟩
      rw [if_pos counted]
      exact course_sample course positive small touching.1 own socket constant taken
    · have skipped : ¬ (Input.event a now e).samplesOn K = true := by
        simp only [Input.samplesOn, decide_eq_true_eq]
        exact fun sample => touching ⟨sample.1, .inl sample.2⟩
      rw [if_neg skipped]
      exact course_other course touching taken
  | tick now order => exact course_tick course rfl (fun _ => rfl) taken
  | closed now order => exact course_tick course rfl (fun _ => rfl) taken
  | sweep now order flowOrder =>
    constructor
    · intro cs tracked
      rw [conn_after_step taken, connAfter, Option.filter_eq_some_iff] at tracked
      exact course.conn cs tracked.1
    · intro fs tracked
      rw [flow_after_step taken, flowAfter, Option.filter_eq_some_iff] at tracked
      exact course.flow fs tracked.1
  | resource s =>
    constructor
    · intro cs tracked
      rw [conn_after_step taken] at tracked
      exact course.conn cs tracked
    · intro fs tracked
      rw [flow_after_step taken] at tracked
      exact course.flow fs tracked

theorem course_run {more : List Input} {out : List Emission} (course : Course K f c 0 m)
    (positive : 0 < c) (small : c < 2 ^ 54) (run : exec step m more = some (m', out))
    (steady : ∀ i ∈ more, Steady K f c i) : Course K f c (more.countP (·.samplesOn K)) m' := by
  refine exec_history (I := fun more m' _ => (∀ i ∈ more, Steady K f c i) →
    Course K f c (more.countP (·.samplesOn K)) m') (fun _ => course) ?_ run steady
  intro more t u i _ _ _ held taken steady
  have before := held fun j member => steady j (List.mem_append_left _ member)
  rw [List.countP_append, List.countP_singleton]
  exact course_step before positive small (steady i (by simp)) taken

def Sampled (K : ConnKey) (m : Machine) : Prop :=
  ∃ cs, m.proc.conns.lookup K = some cs ∧ cs.ring.samples ≠ []

theorem sampled_own {a : Answers} {now : Time} {e : Event} {out : List Emission}
    (sampled : Event.sampled e) (own : a.connKey = K)
    (taken : step m (.event a now e) = some (m', out)) : Sampled K m' := by
  refine ⟨eventConn a now e m.proc, ?_, ?_⟩
  · rw [conn_after_step taken, connAfter, if_pos own]
  · rw [event_conn_samples, if_pos sampled]
    exact windowWith_nonempty _ _

theorem sampled_event {a : Answers} {now : Time} {e : Event} {out : List Emission}
    (heard : Sampled K m) (taken : step m (.event a now e) = some (m', out)) : Sampled K m' := by
  obtain ⟨cs, tracked, some⟩ := heard
  by_cases own : a.connKey = K
  · by_cases sampled : Event.sampled e
    · exact sampled_own sampled own taken
    · refine ⟨eventConn a now e m.proc, ?_, ?_⟩
      · rw [conn_after_step taken, connAfter, if_pos own]
      · rw [event_conn_samples, if_neg sampled, getOrCreateConn, own, tracked]
        exact some
  · refine ⟨cs, ?_, some⟩
    rw [conn_after_step taken, connAfter, if_neg own]
    exact tracked

theorem sampled_step {out : List Emission} (heard : Sampled K m) (kept : .remove K ∉ out)
    (taken : step m i = some (m', out)) : Sampled K m' := by
  obtain ⟨cs, tracked, some⟩ := heard
  cases i with
  | event a now e => exact sampled_event ⟨cs, tracked, some⟩ taken
  | tick now order =>
    refine ⟨cs.appendHistory now, ?_, some⟩
    rw [conn_after_step taken, connAfter, tracked]
    rfl
  | closed now order =>
    refine ⟨cs.appendHistory now, ?_, some⟩
    rw [conn_after_step taken, connAfter, tracked]
    rfl
  | sweep now order flowOrder =>
    refine ⟨cs, ?_, some⟩
    rw [conn_after_step taken, connAfter, tracked, Option.filter_eq_some_iff]
    refine ⟨rfl, ?_⟩
    by_contra fresh
    apply kept
    have late : expired now cs.lastSeen = true := by simpa using fresh
    rcases step_cases taken with ⟨_, _, _, label, _⟩ | ⟨_, _, _, label, _⟩ |
      ⟨_, _, _, label, _, _, visit, _, _, rfl⟩ | ⟨_, label, _⟩
    · cases label
    · rcases label with ⟨label, _⟩ | ⟨label, _⟩ <;> cases label
    · cases label
      refine List.mem_map.mpr ⟨K, (swept_iff visit K).mpr ⟨cs, tracked, ?_⟩, rfl⟩
      exact of_decide_eq_true late
    · cases label
  | resource s =>
    refine ⟨cs, ?_, some⟩
    rw [conn_after_step taken]
    exact tracked

theorem sampled_run {more : List Input} {out : List Emission}
    (run : exec step m more = some (m', out)) (kept : .remove K ∉ out)
    (some : 0 < more.countP (·.samplesOn K)) : Sampled K m' := by
  refine exec_history (I := fun more m' out => .remove K ∉ out →
    0 < more.countP (·.samplesOn K) → Sampled K m') (by simp) ?_ run kept some
  intro more t u i out o _ held taken kept some
  rw [List.mem_append, not_or] at kept
  rw [List.countP_append, List.countP_singleton] at some
  by_cases now : i.samplesOn K = true
  · cases i with
    | event a time e =>
      obtain ⟨sampled, own⟩ := of_decide_eq_true now
      exact sampled_own sampled own taken
    | tick time order => cases now
    | sweep time order flowOrder => cases now
    | closed time order => cases now
    | resource s => cases now
  · rw [if_neg now] at some
    exact sampled_step (held kept.1 some) kept.2 taken

theorem adapted_of_course (course : Course K f c j m) (positive : 0 < c) (small : c < 2 ^ 54)
    (late : 2 ^ 55 < j) (heard : Sampled K m) : Adapted K c m := by
  obtain ⟨cs, tracked, some⟩ := heard
  have settled : cs.stableP99 = c ∧ ∀ us ∈ cs.ring.samples, us = c := by
    rcases course.conn cs tracked with born | aged
    · exact ⟨born.stable some, born.same⟩
    · refine ⟨aged.stable late, recent_full ?_ aged.recent (by unfold rttRingSize; omega)⟩
      rw [samples_length]
      exact cs.ring.count_le
  obtain ⟨stable, same⟩ := settled
  have filled : 0 < cs.ring.count := by
    rw [← samples_length]
    exact List.length_pos_iff.mpr some
  have latest : cs.latestRTT = c := by
    rw [ConnStats.latestRTT, latestOf, if_neg (Nat.ne_of_gt filled)]
    exact same _ (newest_mem filled)
  have judged : cs.isSpike cs.latestRTT = (false, 3 * c) := by
    rw [isSpike_with_baseline _ (by omega) (by omega), stable, latest, decide_eq_false (by omega)]
  refine ⟨cs, tracked, stable, ?_⟩
  intro order now visit
  refine ⟨_, by rw [published_by_tick visit, tracked]; rfl, ?_, ?_⟩
  · simp only [snapshot, judged]
  · simp only [snapshot, judged]

end Course

section Start

variable {c : ℕ} {m m' : Machine} {i : Input}

/- No average is zero: samples are positive and rounding keeps it at 1 or more. -/
def PositiveFlows (m : Machine) : Prop :=
  ∀ f fs, m.proc.flows.lookup f = some fs → 0 < fs.srttUs

theorem positive_flows_step {out : List Emission} (bounded : Bounded (2 ^ 54 - 1) m.proc)
    (positive : PositiveFlows m) (small : i.latency < 2 ^ 54)
    (taken : step m i = some (m', out)) : PositiveFlows m' := by
  intro f fs tracked
  rw [flow_after_step taken] at tracked
  cases i with
  | event a now e =>
    simp only [flowAfter] at tracked
    split at tracked
    · rename_i own
      obtain rfl := Option.some.inj tracked
      have sample := own.1.2
      cases before : m.proc.flows.lookup f with
      | none => exact sample
      | some old =>
        have above := positive f old before
        have within := bounded.flows f old before
        have sum := srtt_exact (r := e.latencyUs.toNat) (by decide) within
          (Nat.le_sub_one_of_lt small)
        rw [Option.getD_some, FlowState.observe]
        split
        · dsimp only
          rw [sum]
          omega
        · exact sample
    · exact positive f fs tracked
  | tick now order => exact positive f fs tracked
  | closed now order => exact positive f fs tracked
  | sweep now order flowOrder =>
    exact positive f fs (Option.filter_eq_some_iff.mp tracked).1
  | resource s => exact positive f fs tracked

theorem positive_flows_run {storing : Bool} {clock : Time} {ls : List Input}
    {out : List Emission} (run : exec step (Machine.start storing clock) ls = some (m, out))
    (small : ∀ i ∈ ls, i.latency < 2 ^ 54) : PositiveFlows m := by
  refine exec_history (I := fun ls m _ => (∀ i ∈ ls, i.latency < 2 ^ 54) → PositiveFlows m)
    ?_ ?_ run small
  · intro _ f fs tracked
    simp [Machine.start, Processor.new] at tracked
  · intro ls t u i out o before held taken small
    have earlier : ∀ j ∈ ls, j.latency < 2 ^ 54 :=
      fun j member => small j (List.mem_append_left _ member)
    have bounded := bounded_below before earlier
    exact positive_flows_step bounded (held earlier) (small i (by simp)) taken

def Near (c : ℕ) (flow : Option FlowState) : Prop :=
  ∀ fs, flow = some fs → c ≤ fs.srttUs + c / 2 ∨
    fs.mdevUs ≤ c / 2 ∧ c ≤ fs.srttUs + c / 2 + 3

theorem course_start {K : ConnKey} {f : FlowKey} {storing : Bool} {clock : Time}
    {ls : List Input} {out : List Emission} (inside : c < 2 ^ 54)
    (run : exec step (Machine.start storing clock) ls = some (m, out))
    (small : ∀ i ∈ ls, i.latency < 2 ^ 54)
    (start : c ≤ 2 ∨ 14 ≤ c ∨ Near c (m.proc.flows.lookup f)) : Course K f c 0 m := by
  have bounded := bounded_below run small
  constructor
  · intro cs _
    exact .inr ⟨⟨cs.ring.samples, by simp⟩, by omega⟩
  · intro fs tracked
    obtain ⟨srtt, mdev⟩ := bounded.flows f fs tracked
    have positive := positive_flows_run run small f fs tracked
    have course : Calm c fs ∨ Free c fs := by
      unfold Calm Free gap
      simp only [absDiff_eq_dist, Nat.dist]
      rcases start with low | high | near
      · omega
      · omega
      · have := near fs tracked
        omega
    refine ⟨(begun_run run f fs tracked).1, by omega, by omega, course.imp id ?_⟩
    intro free
    have bound := @gap_lt c fs inside (by omega)
    exact ⟨free, .inr bound.le, .inr (by omega)⟩

/-- A socket adapts to every constant but those from 3 to 13, and to these from nearby. -/
theorem adapts_from {K : ConnKey} {f : FlowKey} {storing : Bool} {clock : Time}
    {ls : List Input} {out : List Emission} (positive : 0 < c) (inside : c < 2 ^ 54)
    (run : exec step (Machine.start storing clock) ls = some (m, out))
    (small : ∀ i ∈ ls, i.latency < 2 ^ 54)
    (start : c ≤ 2 ∨ 14 ≤ c ∨ Near c (m.proc.flows.lookup f)) :
    AdaptsFrom (2 ^ 55 + 1) K f c m := by
  intro more m' out' later steady kept enough
  have course := course_run (course_start inside run small start) positive inside later steady
  exact adapted_of_course course positive inside enough (sampled_run later kept (by omega))

end Start

end CollectorStats
