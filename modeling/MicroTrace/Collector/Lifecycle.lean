import MicroTrace.Collector.Processor

/- The life of a connection: created by an event, announced on the hub, kept while events
   arrive, removed by the first sweep that finds it idle for more than connTTL. Flows have
   a clock of their own; the invariant ties each flow to the connection that carried its
   last sample. -/
namespace CollectorStats
open CollectorModel RangeLoops RingBuffer Runs

def eventTime (K : ConnKey) : Input → Option Time
  | .event a now _ => if a.connKey = K then some now else none
  | _ => none

def lastEvent (K : ConnKey) (ls : List Input) : Option Time :=
  (ls.filterMap (eventTime K)).getLast?

def carries (f : FlowKey) : Input → Option ConnKey
  | .event a _ e => if Event.sampled e ∧ Event.flowKey e = f then some a.connKey else none
  | _ => none

def carrier (f : FlowKey) (ls : List Input) : Option ConnKey :=
  (ls.filterMap (carries f)).getLast?

def RawEvent.connKey (raw : RawEvent) : ConnKey := ⟨raw.srcService, raw.dstService⟩

/-- An event of K has been broadcast, and no removal of K since. -/
def Announced (K : ConnKey) (out : List Emission) : Prop :=
  ∃ early raw late, out = early ++ .event raw :: late ∧ RawEvent.connKey raw = K ∧
    Emission.remove K ∉ late

structure Alive (ls : List Input) (m : Machine) (out : List Emission) : Prop where
  seen : ∀ K cs, m.proc.conns.lookup K = some cs → lastEvent K ls = some cs.lastSeen
  past : ∀ K cs, m.proc.conns.lookup K = some cs → cs.lastSeen ≤ m.clock
  announced : ∀ K, K ∈ m.proc.conns → Announced K out
  carried : ∀ f fs, m.proc.flows.lookup f = some fs →
    ∃ K cs, carrier f ls = some K ∧ m.proc.conns.lookup K = some cs ∧ fs.lastSeen ≤ cs.lastSeen

variable {ls : List Input} {m m' : Machine} {out o : List Emission} {K : ConnKey}
  {a : Answers} {now : Time} {e : Event}

theorem last_snoc {A : Type} (g : Input → Option A) (ls : List Input) (i : Input) :
    ((ls ++ [i]).filterMap g).getLast? = (g i).or (ls.filterMap g).getLast? := by
  rw [List.filterMap_append, List.getLast?_append]
  cases got : g i with
  | none => rw [List.filterMap_cons_none got]; rfl
  | some x => rw [List.filterMap_cons_some got]; rfl

theorem lastEvent_snoc (i : Input) :
    lastEvent K (ls ++ [i]) = (eventTime K i).or (lastEvent K ls) :=
  last_snoc _ _ _

theorem carrier_snoc (f : FlowKey) (i : Input) :
    carrier f (ls ++ [i]) = (carries f i).or (carrier f ls) := last_snoc _ _ _

theorem announced_append (known : Announced K out) (kept : Emission.remove K ∉ o) :
    Announced K (out ++ o) := by
  obtain ⟨early, raw, late, rfl, own, quiet⟩ := known
  refine ⟨early, raw, late ++ o, by simp, own, ?_⟩
  simp [quiet, kept]

theorem publishCalls_no_removal (storing : Bool) (snaps : List StatSnapshot) :
    Emission.remove K ∉ publishCalls storing snaps := by
  simp only [publishCalls, List.mem_flatMap, List.mem_cons, not_exists, not_and]
  intro snap _
  cases storing <;> simp

theorem alive_event (alive : Alive ls m out) (time : m.clock ≤ now) :
    Alive (ls ++ [.event a now e]) { m with proc := applyEvent a now e m.proc, clock := now }
      (out ++ [.event (rawEvent a now e)]) := by
  refine ⟨?_, ?_, ?_, ?_⟩
  · intro K cs found
    rw [lastEvent_snoc]
    by_cases own : a.connKey = K
    · subst own
      rw [conn_after_own_event, Option.some.injEq] at found
      subst found
      simp [eventTime, event_conn_lastSeen]
    · rw [conn_after_other_event (Ne.symm own)] at found
      simp [eventTime, own, alive.seen K cs found]
  · intro K cs found
    by_cases own : a.connKey = K
    · subst own
      rw [conn_after_own_event, Option.some.injEq] at found
      subst found
      exact le_of_eq event_conn_lastSeen
    · rw [conn_after_other_event (Ne.symm own)] at found
      exact (alive.past K cs found).trans time
  · intro K member
    by_cases own : a.connKey = K
    · exact ⟨out, rawEvent a now e, [], rfl, own, by simp⟩
    · have before : K ∈ m.proc.conns := by
        rw [← Finmap.lookup_isSome, conn_after_other_event (Ne.symm own)] at member
        exact Finmap.lookup_isSome.mp member
      exact announced_append (alive.announced K before) (by simp)
  · -- a connection only gets younger, so every flow keeps its carrier
    have younger : ∀ K cs, m.proc.conns.lookup K = some cs → ∃ cs',
        (applyEvent a now e m.proc).conns.lookup K = some cs' ∧ cs.lastSeen ≤ cs'.lastSeen := by
      intro K cs found
      by_cases own : a.connKey = K
      · subst own
        refine ⟨_, conn_after_own_event, ?_⟩
        rw [event_conn_lastSeen]
        exact (alive.past _ cs found).trans time
      · exact ⟨cs, by rw [conn_after_other_event (Ne.symm own), found], le_refl _⟩
    intro f fs found
    rw [carrier_snoc]
    by_cases sample : Event.sampled e ∧ Event.flowKey e = f
    · obtain ⟨sampled, rfl⟩ := sample
      rw [applyEvent_flows, if_pos sampled, Finmap.lookup_insert, Option.some.injEq] at found
      subst found
      refine ⟨a.connKey, _, by simp [carries, sampled], conn_after_own_event, ?_⟩
      rw [observe_lastSeen, event_conn_lastSeen]
    · rw [flow_after_other_event (fun sampled same => sample ⟨sampled, same.symm⟩)] at found
      obtain ⟨K, cs, carried, tracked, older⟩ := alive.carried f fs found
      obtain ⟨cs', tracked', newer⟩ := younger K cs tracked
      exact ⟨K, cs', by simp [carries, sample, carried], tracked', older.trans newer⟩

theorem alive_tick {i : Input} {order : List ConnKey} {running : Bool} (alive : Alive ls m out)
    (time : m.clock ≤ now) (visit : Enumerates order m.proc.conns)
    (timer : ∀ K, eventTime K i = none) (idle : ∀ f, carries f i = none) :
    Alive (ls ++ [i]) ⟨(publishSnapshots order now m.proc).1, now, running⟩
      (out ++ publishCalls m.proc.storing (publishSnapshots order now m.proc).2) := by
  have before : ∀ K cs, (publishSnapshots order now m.proc).1.conns.lookup K = some cs →
      ∃ old, m.proc.conns.lookup K = some old ∧ old.lastSeen = cs.lastSeen := by
    intro K cs found
    rw [conn_after_tick visit, Option.map_eq_some_iff] at found
    obtain ⟨old, tracked, rfl⟩ := found
    exact ⟨old, tracked, rfl⟩
  refine ⟨?_, ?_, ?_, ?_⟩
  · intro K cs found
    obtain ⟨old, tracked, same⟩ := before K cs found
    rw [lastEvent_snoc, timer, Option.none_or, alive.seen K old tracked, same]
  · intro K cs found
    obtain ⟨old, tracked, same⟩ := before K cs found
    rw [← same]
    exact (alive.past K old tracked).trans time
  · intro K member
    have tracked : K ∈ m.proc.conns := (mem_rangeUpdate _ visit K).mp member
    exact announced_append (alive.announced K tracked) (publishCalls_no_removal _ _)
  · intro f fs found
    obtain ⟨K, cs, carried, tracked, older⟩ := alive.carried f fs found
    refine ⟨K, cs.appendHistory now, ?_, ?_, older⟩
    · rw [carrier_snoc, idle, Option.none_or, carried]
    · rw [conn_after_tick visit, tracked, Option.map_some]

theorem swept_iff {order : List ConnKey} {flowOrder : List FlowKey} {p : Processor}
    (visit : Enumerates order p.conns) (K : ConnKey) :
    K ∈ (sweepExpired order flowOrder now p).2 ↔
      ∃ cs, p.conns.lookup K = some cs ∧ connTTL < now - cs.lastSeen := by
  simp only [sweepExpired, mem_rangeCollect _ visit, expired, decide_eq_true_eq]
  constructor
  · rintro ⟨k, cs, found, made⟩
    split at made
    · rename_i idle
      cases made
      exact ⟨cs, found, idle⟩
    · simp at made
  · rintro ⟨cs, found, idle⟩
    exact ⟨K, cs, found, by rw [if_pos idle]⟩

theorem survives_iff {order : List ConnKey} {flowOrder : List FlowKey} {p : Processor}
    (visit : Enumerates order p.conns) (K : ConnKey) (cs : ConnStats) :
    (sweepExpired order flowOrder now p).1.conns.lookup K = some cs ↔
      p.conns.lookup K = some cs ∧ now - cs.lastSeen ≤ connTTL := by
  rw [conn_after_sweep visit, Option.filter_eq_some_iff]
  simp [expired]

theorem flow_survives_iff {order : List ConnKey} {flowOrder : List FlowKey} {p : Processor}
    (visit : Enumerates flowOrder p.flows) (f : FlowKey) (fs : FlowState) :
    (sweepExpired order flowOrder now p).1.flows.lookup f = some fs ↔
      p.flows.lookup f = some fs ∧ now - fs.lastSeen ≤ connTTL := by
  rw [flow_after_sweep visit, Option.filter_eq_some_iff]
  simp [expired]

theorem alive_sweep {order : List ConnKey} {flowOrder : List FlowKey} (alive : Alive ls m out)
    (time : m.clock ≤ now) (visit : Enumerates order m.proc.conns)
    (flowVisit : Enumerates flowOrder m.proc.flows) :
    Alive (ls ++ [.sweep now order flowOrder])
      { m with proc := (sweepExpired order flowOrder now m.proc).1, clock := now }
      (out ++ (sweepExpired order flowOrder now m.proc).2.map Emission.remove) := by
  refine ⟨?_, ?_, ?_, ?_⟩
  · intro K cs found
    rw [lastEvent_snoc, alive.seen K cs ((survives_iff visit K cs).mp found).1]
    rfl
  · intro K cs found
    exact (alive.past K cs ((survives_iff visit K cs).mp found).1).trans time
  · intro K member
    obtain ⟨cs, found⟩ := Finmap.mem_iff.mp member
    obtain ⟨tracked, fresh⟩ := (survives_iff visit K cs).mp found
    apply announced_append (alive.announced K (Finmap.mem_of_lookup_eq_some tracked))
    intro removed
    obtain ⟨key, swept, same⟩ := List.mem_map.mp removed
    cases same
    obtain ⟨old, tracked', idle⟩ := (swept_iff visit K).mp swept
    rw [tracked, Option.some.injEq] at tracked'
    subst tracked'
    exact not_lt.mpr fresh idle
  · intro f fs found
    obtain ⟨kept, fresh⟩ := (flow_survives_iff flowVisit f fs).mp found
    obtain ⟨K, cs, carried, tracked, older⟩ := alive.carried f fs kept
    have young : now - cs.lastSeen ≤ connTTL := (sub_le_sub_left older now).trans fresh
    refine ⟨K, cs, ?_, (survives_iff visit K cs).mpr ⟨tracked, young⟩, older⟩
    rw [carrier_snoc, carried]
    rfl

theorem alive_resource (s : ResourceSnapshot) (alive : Alive ls m out) :
    Alive (ls ++ [.resource s]) { m with proc := forwardResource s m.proc }
      (out ++ resourceCalls m.proc.storing s) := by
  refine ⟨?_, alive.past, ?_, ?_⟩
  · intro K cs found
    rw [lastEvent_snoc, alive.seen K cs found]
    rfl
  · intro K member
    apply announced_append (alive.announced K member)
    simp only [resourceCalls]
    split <;> simp
  · intro f fs found
    obtain ⟨K, cs, carried, tracked, older⟩ := alive.carried f fs found
    refine ⟨K, cs, ?_, tracked, older⟩
    rw [carrier_snoc, carried]
    rfl

theorem alive_step {i : Input} (alive : Alive ls m out) (taken : step m i = some (m', o)) :
    Alive (ls ++ [i]) m' (out ++ o) := by
  rcases step_cases taken with ⟨a, now, e, rfl, _, time, rfl, rfl⟩ |
    ⟨now, order, running, input, _, time, visit, rfl, rfl⟩ |
    ⟨now, order, flowOrder, rfl, _, time, visit, flowVisit, rfl, rfl⟩ | ⟨s, rfl, rfl, rfl⟩
  · exact alive_event alive time
  · rcases input with ⟨rfl, _⟩ | ⟨rfl, _⟩
    · exact alive_tick alive time visit (fun _ => rfl) (fun _ => rfl)
    · exact alive_tick alive time visit (fun _ => rfl) (fun _ => rfl)
  · exact alive_sweep alive time visit flowVisit
  · exact alive_resource s alive

theorem alive_run {storing : Bool} {clock : Time}
    (run : exec step (Machine.start storing clock) ls = some (m, out)) : Alive ls m out := by
  apply exec_history (I := Alive) _ (fun _ alive taken => alive_step alive taken) run
  refine ⟨?_, ?_, ?_, ?_⟩
  · intro K cs found
    simp [Machine.start, Processor.new] at found
  · intro K cs found
    simp [Machine.start, Processor.new] at found
  · intro K member
    exact absurd member Finmap.notMem_empty
  · intro f fs found
    simp [Machine.start, Processor.new] at found

/-- A sweep removes what has been idle for more than connTTL, says so once for each
    removed connection, and says nothing else. -/
def SweepExact (ls : List Input) (m : Machine) : Prop :=
  ∀ now order flowOrder m' o, step m (.sweep now order flowOrder) = some (m', o) →
    (∀ K, K ∈ m.proc.conns → ∃ last, lastEvent K ls = some last ∧
      (K ∉ m'.proc.conns ↔ connTTL < now - last)) ∧
    (∀ K, K ∉ m.proc.conns → K ∉ m'.proc.conns) ∧
    (∀ K, o.count (.remove K) = if K ∈ m.proc.conns ∧ K ∉ m'.proc.conns then 1 else 0) ∧
    ∀ call ∈ o, ∃ K, call = .remove K

/-- Every stats message is preceded by an event of its connection with no removal of that
    connection in between. -/
def StatsAnnounced (out : List Emission) : Prop :=
  ∀ before snap after, out = before ++ .stats snap :: after →
    Announced (StatSnapshot.connKey snap) before

/-- After a sweep each flow left has the connection that carried its last sample, seen no
    earlier than the flow, and no flow left has been idle for more than connTTL. -/
def FlowsCarried (ls : List Input) (m : Machine) : Prop :=
  ∀ now order flowOrder m' o, step m (.sweep now order flowOrder) = some (m', o) →
    ∀ f fs, m'.proc.flows.lookup f = some fs → now - fs.lastSeen ≤ connTTL ∧
      ∃ K cs, carrier f ls = some K ∧ m'.proc.conns.lookup K = some cs ∧
        fs.lastSeen ≤ cs.lastSeen

def FlowKey.of (r : Resolver) (K : ConnKey) (f : FlowKey) : Prop :=
  (⟨r.resolve f.sAddr, r.resolve f.dAddr⟩ : ConnKey) = K

/-- A connection that is not tracked begins with nothing: no samples, no retransmissions,
    no baseline, no history, and no state of any of its sockets, so that until a socket is
    sampled again its next sample reports jitter zero. -/
def StartsFresh (r : Resolver) (m : Machine) : Prop :=
  ∀ K, K ∉ m.proc.conns →
    (∀ now, (getOrCreateConn m.proc K now).ring.samples = [] ∧
      (getOrCreateConn m.proc K now).jitterRing.samples = [] ∧
      (getOrCreateConn m.proc K now).retransmit = 0 ∧
      (getOrCreateConn m.proc K now).stableP99 = 0 ∧
      (getOrCreateConn m.proc K now).history = []) ∧
    (∀ now e m' o, (r.answers e).connKey = K → step m (.event (r.answers e) now e) = some (m', o) →
      ∃ cs, m'.proc.conns.lookup K = some cs ∧
        cs.ring.samples = (if Event.sampled e then [e.latencyUs.toNat] else []) ∧
        cs.jitterRing.samples = (if Event.sampled e then [0] else []) ∧
        cs.retransmit = (if e.type = .retransmit then 1 else 0) ∧
        cs.stableP99 = (if Event.sampled e then e.latencyUs.toNat else 0) ∧
        cs.history = []) ∧
    ∀ f, FlowKey.of r K f → m.proc.flows.lookup f = none ∧
      ∀ rest m' o, exec step m rest = some (m', o) → rest.filterMap (carries f) = [] →
        ∀ now e, Event.flowKey e = f → eventJitter now e m'.proc = 0

theorem sweep_exact_of_alive (alive : Alive ls m out) : SweepExact ls m := by
  intro now order flowOrder m' o taken
  rcases step_cases taken with ⟨_, _, _, input, _⟩ | ⟨_, _, _, input, _⟩ |
    ⟨_, _, _, input, _, _, visit, flowVisit, rfl, rfl⟩ | ⟨_, input, _⟩
  · cases input
  · rcases input with ⟨input, _⟩ | ⟨input, _⟩ <;> cases input
  · cases input
    have gone : ∀ K cs, m.proc.conns.lookup K = some cs →
        (K ∉ (sweepExpired order flowOrder now m.proc).1.conns ↔
          connTTL < now - cs.lastSeen) := by
      intro K cs found
      rw [← Finmap.lookup_eq_none, conn_after_sweep visit, found]
      by_cases idle : connTTL < now - cs.lastSeen <;> simp [Option.filter, expired, idle]
    refine ⟨?_, ?_, ?_, ?_⟩
    · intro K member
      obtain ⟨cs, found⟩ := Finmap.mem_iff.mp member
      exact ⟨cs.lastSeen, alive.seen K cs found, gone K cs found⟩
    · intro K absent
      rw [← Finmap.lookup_eq_none, conn_after_sweep visit, Finmap.lookup_eq_none.mpr absent]
      rfl
    · intro K
      have injective : Function.Injective Emission.remove := fun _ _ same => by cases same; rfl
      rw [List.count_map_of_injective _ _ injective, List.count_eq_length_filter]
      simp only [beq_eq_decide]
      rw [swept_by_sweep visit K]
      cases found : m.proc.conns.lookup K with
      | none =>
        have absent := Finmap.lookup_eq_none.mp found
        simp [absent]
      | some cs =>
        have member := Finmap.mem_of_lookup_eq_some found
        by_cases idle : connTTL < now - cs.lastSeen <;>
          simp [member, gone K cs found, expired, idle]
    · intro call member
      obtain ⟨K, _, rfl⟩ := List.mem_map.mp member
      exact ⟨K, rfl⟩
  · cases input

theorem stats_source {order : List ConnKey} {p : Processor} {snap : StatSnapshot}
    (visit : Enumerates order p.conns)
    (member : Emission.stats snap ∈ publishCalls p.storing (publishSnapshots order now p).2) :
    StatSnapshot.connKey snap ∈ p.conns := by
  simp only [publishCalls, List.mem_flatMap, List.mem_cons] at member
  obtain ⟨shown, made, same⟩ := member
  have eq : snap = shown := by
    rcases same with same | stored
    · exact Emission.stats.inj same
    · cases storing : p.storing <;> simp [storing] at stored
  subst eq
  obtain ⟨K, cs, found, built⟩ := (mem_rangeCollect _ visit snap).mp made
  rw [← Option.some.inj built]
  exact Finmap.mem_of_lookup_eq_some found

/- A step emits stats messages only for tracked connections and never together with a
   removal, so the announcement found before the step still stands. -/
theorem stats_announced_step {i : Input} (alive : Alive ls m out) (known : StatsAnnounced out)
    (taken : step m i = some (m', o)) : StatsAnnounced (out ++ o) := by
  have fresh : ∀ head snap tail, o = head ++ .stats snap :: tail →
      StatSnapshot.connKey snap ∈ m.proc.conns ∧
        Emission.remove (StatSnapshot.connKey snap) ∉ head := by
    intro head snap tail shape
    have member : Emission.stats snap ∈ o := by simp [shape]
    rcases step_cases taken with ⟨_, _, _, _, _, _, _, rfl⟩ |
      ⟨_, _, _, _, _, _, visit, _, rfl⟩ | ⟨_, _, _, _, _, _, _, _, _, rfl⟩ | ⟨_, _, _, rfl⟩
    · simp at member
    · refine ⟨stats_source visit member, fun removed => ?_⟩
      exact publishCalls_no_removal _ _ (shape ▸ List.mem_append_left _ removed)
    · simp at member
    · simp only [resourceCalls] at member
      split at member <;> simp at member
  have latest : ∀ head snap tail, o = head ++ .stats snap :: tail →
      Announced (StatSnapshot.connKey snap) (out ++ head) := by
    intro head snap tail shape
    obtain ⟨tracked, quiet⟩ := fresh head snap tail shape
    exact announced_append (alive.announced _ tracked) quiet
  intro before snap after shape
  rcases List.append_eq_append_iff.mp shape with ⟨head, rfl, rest⟩ | ⟨head, split, rest⟩
  · exact latest head snap after rest
  · cases head with
    | nil =>
      rw [List.append_nil] at split
      subst split
      have := latest [] snap after (by simpa using rest.symm)
      simpa using this
    | cons first tail =>
      simp only [List.cons_append, List.cons.injEq] at rest
      rw [← rest.1] at split
      exact known before snap tail split

theorem stats_announced_run {storing : Bool} {clock : Time}
    (run : exec step (Machine.start storing clock) ls = some (m, out)) : StatsAnnounced out := by
  apply exec_history (I := fun _ _ out => StatsAnnounced out) _ _ run
  · intro before snap after shape
    simp at shape
  · intro ls t u l out o sofar known taken
    exact stats_announced_step (alive_run sofar) known taken

theorem flows_carried_of_alive (alive : Alive ls m out) : FlowsCarried ls m := by
  intro now order flowOrder m' o taken f fs found
  have next := alive_step alive taken
  obtain ⟨K, cs, carried, tracked, older⟩ := next.carried f fs found
  refine ⟨?_, K, cs, by simpa [carrier_snoc, carries] using carried, tracked, older⟩
  rcases step_cases taken with ⟨_, _, _, input, _⟩ | ⟨_, _, _, input, _⟩ |
    ⟨_, _, _, input, _, _, _, flowVisit, rfl, _⟩ | ⟨_, input, _⟩
  · cases input
  · rcases input with ⟨input, _⟩ | ⟨input, _⟩ <;> cases input
  · cases input
    exact ((flow_survives_iff flowVisit f fs).mp found).2
  · cases input

theorem carrier_resolves {r : Resolver} (answered : ∀ i ∈ ls, i.AnsweredBy r) {f : FlowKey}
    (carried : carrier f ls = some K) : FlowKey.of r K f := by
  have member := List.mem_of_getLast? carried
  obtain ⟨i, inside, shown⟩ := List.mem_filterMap.mp member
  have source := answered i inside
  cases i with
  | event a now e =>
    simp only [carries] at shown
    split at shown
    · rename_i sample
      have asked : a = r.answers e := source
      rw [FlowKey.of, ← sample.2, ← Option.some.inj shown, asked]
      rfl
    · simp at shown
  | tick => simp [carries] at shown
  | sweep => simp [carries] at shown
  | closed => simp [carries] at shown
  | resource => simp [carries] at shown

theorem flow_absent_step {i : Input} {f : FlowKey} (absent : m.proc.flows.lookup f = none)
    (idle : carries f i = none) (taken : step m i = some (m', o)) :
    m'.proc.flows.lookup f = none := by
  rcases step_cases taken with ⟨a, now, e, rfl, _, _, rfl, _⟩ | ⟨_, _, _, _, _, _, _, rfl, _⟩ |
    ⟨_, _, _, _, _, _, _, flowVisit, rfl, _⟩ | ⟨_, _, rfl, _⟩
  · rw [flow_after_other_event, absent]
    intro sampled same
    simp [carries, sampled, same] at idle
  · exact absent
  · rw [flow_after_sweep flowVisit, absent]
    rfl
  · exact absent

theorem flow_absent_run {rest : List Input} {f : FlowKey}
    (absent : m.proc.flows.lookup f = none) (idle : rest.filterMap (carries f) = [])
    (run : exec step m rest = some (m', o)) : m'.proc.flows.lookup f = none := by
  induction rest generalizing m o with
  | nil =>
    obtain ⟨rfl, rfl⟩ := exec_nil_iff.mp run
    exact absent
  | cons i rest ih =>
    obtain ⟨u, p, q, first, later, rfl⟩ := exec_cons_iff.mp run
    have none := List.filterMap_eq_nil_iff.mp idle
    exact ih (flow_absent_step absent (none i (by simp)) first)
      (List.filterMap_eq_nil_iff.mpr fun j hj => none j (by simp [hj])) later

theorem jitter_of_absent {p : Processor} (absent : p.flows.lookup (Event.flowKey e) = none) :
    eventJitter now e p = 0 := by
  simp only [eventJitter, getOrCreateFlow, absent, Option.getD_none]
  rfl

theorem first_event_of_fresh {p : Processor}
    (created : getOrCreateConn p a.connKey now = ConnStats.fresh now)
    (quiet : eventJitter now e p = 0) :
    (eventConn a now e p).ring.samples =
        (if Event.sampled e then [e.latencyUs.toNat] else []) ∧
      (eventConn a now e p).jitterRing.samples = (if Event.sampled e then [0] else []) ∧
      (eventConn a now e p).retransmit = (if e.type = .retransmit then 1 else 0) ∧
      (eventConn a now e p).stableP99 = (if Event.sampled e then e.latencyUs.toNat else 0) ∧
      (eventConn a now e p).history = [] := by
  unfold eventConn
  rw [created, quiet]
  by_cases sampled : Event.sampled e
  · have kind : e.type ≠ .retransmit := by
      rcases sampled.1 with connect | rtt
      · simp [connect]
      · simp [rtt]
    have above : e.latencyUs.toNat ≠ 0 := Nat.ne_of_gt sampled.2
    have window : windowWith ((ConnStats.fresh now).touch a now) e.latencyUs.toNat =
        [e.latencyUs.toNat] := by
      have none : ((ConnStats.fresh now).touch a now).ring.samples = [] := rfl
      rw [windowWith, none]
      exact window_of_one _
    have fields := update_stable_fields
      ((((ConnStats.fresh now).touch a now).addRTT e.latencyUs.toNat).addJitter 0) 0
    simp only [if_pos sampled, if_neg kind]
    refine ⟨(sample_window _ _ _).trans window, ?_, fields.2.1, ?_, fields.2.2.2⟩
    · have pushed : (emptyRing.push 0).samples = [0] := by
        rw [samples_push, emptyRing, samples_empty]
        exact window_of_one 0
      rw [ConnStats.sample, fields.1]
      exact pushed
    · have single : percentilesOf [e.latencyUs.toNat] =
          ⟨average [e.latencyUs.toNat], e.latencyUs.toNat, e.latencyUs.toNat,
            e.latencyUs.toNat⟩ := by
        simp [percentilesOf, percentile, percentileIdx]
      have unset : ((ConnStats.fresh now).touch a now).stableP99 = 0 := rfl
      rw [sample_baseline, window, single, unset]
      simp [above]
  · simp only [if_neg sampled]
    split
    · rename_i kind
      exact ⟨rfl, rfl, rfl, rfl, rfl⟩
    · exact ⟨rfl, rfl, rfl, rfl, rfl⟩

theorem starts_fresh_of_alive {r : Resolver} (answered : ∀ i ∈ ls, i.AnsweredBy r)
    (alive : Alive ls m out) : StartsFresh r m := by
  intro K absent
  have missing := Finmap.lookup_eq_none.mpr absent
  have created : ∀ now, getOrCreateConn m.proc K now = ConnStats.fresh now := by
    intro now
    rw [getOrCreateConn, missing, Option.getD_none]
  have noFlow : ∀ f, FlowKey.of r K f → m.proc.flows.lookup f = none := by
    intro f own
    cases found : m.proc.flows.lookup f with
    | none => rfl
    | some fs =>
      obtain ⟨J, cs, carried, tracked, _⟩ := alive.carried f fs found
      have same : J = K := (carrier_resolves answered carried).symm.trans own
      exact absurd (same ▸ Finmap.mem_of_lookup_eq_some tracked) absent
  refine ⟨fun now => by rw [created]; exact ⟨rfl, rfl, rfl, rfl, rfl⟩, ?_, ?_⟩
  · intro now e m' o own taken
    have quiet : eventJitter now e m.proc = 0 := jitter_of_absent (noFlow _ own)
    have tracked : m'.proc.conns.lookup K = some (eventConn (r.answers e) now e m.proc) := by
      rcases step_cases taken with ⟨_, _, _, input, _, _, rfl, _⟩ | ⟨_, _, _, input, _⟩ |
        ⟨_, _, _, input, _⟩ | ⟨_, input, _⟩
      · cases input
        rw [← own]
        exact conn_after_own_event
      · rcases input with ⟨input, _⟩ | ⟨input, _⟩ <;> cases input
      · cases input
      · cases input
    exact ⟨_, tracked, first_event_of_fresh (own ▸ created now) quiet⟩
  · intro f own
    refine ⟨noFlow f own, fun rest m' o run idle now e socket => ?_⟩
    subst socket
    exact jitter_of_absent (flow_absent_run (noFlow _ own) idle run)

/-- The lifecycle of connections, for every run of the Processor from its creation. -/
theorem connection_lifecycle {storing : Bool} {clock : Time}
    (run : exec step (Machine.start storing clock) ls = some (m, out)) :
    SweepExact ls m ∧ StatsAnnounced out ∧ FlowsCarried ls m ∧
      ∀ r, (∀ i ∈ ls, i.AnsweredBy r) → StartsFresh r m := by
  have alive := alive_run run
  exact ⟨sweep_exact_of_alive alive, stats_announced_run run, flows_carried_of_alive alive,
    fun r answered => starts_fresh_of_alive answered alive⟩

def idleConnection : List Input :=
  [.event ⟨"b", "a", true, true⟩ 0 ⟨.connect, 40001, "", "10.0.0.1", "10.0.0.2", 80, 250, 0⟩,
   .tick 1000000000 [⟨"a", "b"⟩],
   .sweep 31000000000 [⟨"a", "b"⟩] [⟨40001, "10.0.0.1", "10.0.0.2", 80⟩]]

theorem idle_connection_lifecycle :
    ∃ m out, exec step (Machine.start false 0) idleConnection = some (m, out) ∧
      SweepExact idleConnection m ∧ StatsAnnounced out ∧ FlowsCarried idleConnection m :=
  ⟨_, _, rfl, (@connection_lifecycle idleConnection _ _ false 0 rfl).1,
    (@connection_lifecycle idleConnection _ _ false 0 rfl).2.1,
    (@connection_lifecycle idleConnection _ _ false 0 rfl).2.2.1⟩

end CollectorStats
