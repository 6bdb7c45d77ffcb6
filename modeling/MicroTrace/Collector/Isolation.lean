import MicroTrace.Collector.Processor

/- Connections do not interfere. Two runs that agree on the events of one connection, on
   the resource updates of its destination and on the ticks and sweeps treat that
   connection alike, whatever else happens in either of them. -/
namespace CollectorStats
open CollectorModel RangeLoops Runs

def Input.concerns (K : ConnKey) : Input → Bool
  | .event a _ _ => a.connKey = K
  | .resource s => s.serviceName = K.dst
  | _ => true

/- An input without the iteration orders, which depend on the other connections. -/
def Input.unordered : Input → Input
  | .tick now _ => .tick now []
  | .sweep now _ _ => .sweep now [] []
  | .closed now _ => .closed now []
  | i => i

def project (K : ConnKey) (ls : List Input) : List Input :=
  (ls.filter (·.concerns K)).map Input.unordered

def Emission.about (K : ConnKey) : Emission → Bool
  | .event raw => (⟨raw.srcService, raw.dstService⟩ : ConnKey) = K
  | .stats snap => StatSnapshot.connKey snap = K
  | .storeConn snap => StatSnapshot.connKey snap = K
  | .remove key => key = K
  | .resource _ => false
  | .storeResource _ => false

/- The part of the state that can reach connection K. A socket belongs to the connection
   its two addresses resolve to. -/
structure Agree (r : Resolver) (K : ConnKey) (m n : Machine) : Prop where
  conn : m.proc.conns.lookup K = n.proc.conns.lookup K
  flow : ∀ f : FlowKey, (⟨r.resolve f.sAddr, r.resolve f.dAddr⟩ : ConnKey) = K →
    m.proc.flows.lookup f = n.proc.flows.lookup f
  res : m.proc.resources.lookup K.dst = n.proc.resources.lookup K.dst
  storing : m.proc.storing = n.proc.storing

variable {r : Resolver} {K : ConnKey} {m n m' n' : Machine} {i j : Input}
  {out out' : List Emission}

theorem agree_symm (agree : Agree r K m n) : Agree r K n m :=
  ⟨agree.conn.symm, fun f own => (agree.flow f own).symm, agree.res.symm, agree.storing.symm⟩

theorem agree_trans {u : Machine} (first : Agree r K m n) (second : Agree r K n u) :
    Agree r K m u :=
  ⟨first.conn.trans second.conn, fun f own => (first.flow f own).trans (second.flow f own),
    first.res.trans second.res, first.storing.trans second.storing⟩

theorem unconcerned_step (answered : i.AnsweredBy r) (foreign : i.concerns K = false)
    (taken : step m i = some (m', out)) :
    Agree r K m' m ∧ out.filter (·.about K) = [] := by
  rcases step_cases taken with ⟨a, now, e, rfl, _, _, rfl, rfl⟩ |
    ⟨now, order, running, input, _⟩ | ⟨now, order, flowOrder, rfl, _⟩ | ⟨s, rfl, rfl, rfl⟩
  · simp only [Input.concerns, decide_eq_false_iff_not] at foreign
    have source : a = r.answers e := answered
    refine ⟨⟨conn_after_other_event (Ne.symm foreign), ?_, ?_, applyEvent_storing⟩, ?_⟩
    · intro f own
      apply flow_after_other_event
      intro _ same
      apply foreign
      rw [source, ← own, same]
      rfl
    · rw [applyEvent_resources]
    · simp only [List.filter_cons, Emission.about, rawEvent, List.filter_nil]
      rw [if_neg (by simpa [Answers.connKey] using foreign)]
  · rcases input with ⟨rfl, _⟩ | ⟨rfl, _⟩ <;> simp [Input.concerns] at foreign
  · simp [Input.concerns] at foreign
  · simp only [Input.concerns, decide_eq_false_iff_not] at foreign
    refine ⟨⟨rfl, fun _ _ => rfl, ?_, rfl⟩, ?_⟩
    · exact Finmap.lookup_insert_of_ne _ (Ne.symm foreign)
    · simp only [resourceCalls]
      split <;> simp [Emission.about]

theorem event_conn_congr {a : Answers} {now : Time} {e : Event} {p q : Processor}
    (conn : p.conns.lookup a.connKey = q.conns.lookup a.connKey)
    (flow : p.flows.lookup (Event.flowKey e) = q.flows.lookup (Event.flowKey e)) :
    eventConn a now e p = eventConn a now e q := by
  unfold eventConn eventJitter getOrCreateConn getOrCreateFlow
  rw [conn, flow]

theorem agree_event {a : Answers} {now : Time} {e : Event} (answered : a = r.answers e)
    (own : a.connKey = K) (agree : Agree r K m n) {c d : Time} {x y : Bool} :
    Agree r K ⟨applyEvent a now e m.proc, c, x⟩ ⟨applyEvent a now e n.proc, d, y⟩ := by
  have socket : m.proc.flows.lookup (Event.flowKey e) = n.proc.flows.lookup (Event.flowKey e) := by
    apply agree.flow
    rw [← own, answered]
    rfl
  subst own
  refine ⟨?_, ?_, ?_, ?_⟩
  · rw [conn_after_own_event, conn_after_own_event, event_conn_congr agree.conn socket]
  · intro f mine
    simp only [applyEvent_flows, getOrCreateFlow, socket]
    split
    · by_cases same : f = Event.flowKey e
      · subst same
        rw [Finmap.lookup_insert, Finmap.lookup_insert]
      · rw [Finmap.lookup_insert_of_ne _ same, Finmap.lookup_insert_of_ne _ same]
        exact agree.flow f mine
    · exact agree.flow f mine
  · rw [applyEvent_resources, applyEvent_resources]
    exact agree.res
  · rw [applyEvent_storing, applyEvent_storing]
    exact agree.storing

theorem about_publishCalls (storing : Bool) (snaps : List StatSnapshot) :
    (publishCalls storing snaps).filter (·.about K) =
      publishCalls storing (published K snaps) := by
  induction snaps with
  | nil => rfl
  | cons s snaps ih =>
    simp only [publishCalls, published, List.flatMap_cons, List.filter_append,
      List.filter_cons] at ih ⊢
    rw [ih]
    by_cases own : StatSnapshot.connKey s = K <;> cases storing <;>
      simp [Emission.about, own]

theorem about_removals (keys : List ConnKey) :
    (keys.map Emission.remove).filter (·.about K) =
      (keys.filter fun key => key = K).map Emission.remove := by
  rw [List.filter_map]
  rfl

/-- Two machines that agree on K and consume the same input of K still agree on K, and K's
    emissions are the same. -/
theorem concerned_step (left : i.AnsweredBy r) (right : j.AnsweredBy r)
    (same : i.unordered = j.unordered) (mine : i.concerns K = true) (agree : Agree r K m n)
    (first : step m i = some (m', out)) (second : step n j = some (n', out')) :
    Agree r K m' n' ∧ out.filter (·.about K) = out'.filter (·.about K) := by
  rcases step_cases first with ⟨a, now, e, rfl, _, _, rfl, rfl⟩ |
    ⟨now, order, running, input, _, _, visit, rfl, rfl⟩ |
    ⟨now, order, flowOrder, rfl, _, _, visit, flowVisit, rfl, rfl⟩ | ⟨s, rfl, rfl, rfl⟩
  · rcases step_cases second with ⟨b, later, d, rfl, _, _, rfl, rfl⟩ |
      ⟨_, _, _, input, _⟩ | ⟨_, _, _, rfl, _⟩ | ⟨_, rfl, _⟩
    · simp only [Input.unordered, Input.event.injEq] at same
      obtain ⟨rfl, rfl, rfl⟩ := same
      simp only [Input.concerns, decide_eq_true_eq] at mine
      exact ⟨agree_event left mine agree, rfl⟩
    · rcases input with ⟨rfl, _⟩ | ⟨rfl, _⟩ <;> simp [Input.unordered] at same
    · simp [Input.unordered] at same
    · simp [Input.unordered] at same
  · rcases step_cases second with ⟨b, later, d, rfl, _, _, rfl, rfl⟩ |
      ⟨later, order', running', input', _, _, visit', rfl, rfl⟩ | ⟨_, _, _, rfl, _⟩ | ⟨_, rfl, _⟩
    · rcases input with ⟨rfl, _⟩ | ⟨rfl, _⟩ <;> simp [Input.unordered] at same
    · have time : now = later := by
        rcases input with ⟨rfl, _⟩ | ⟨rfl, _⟩ <;> rcases input' with ⟨rfl, _⟩ | ⟨rfl, _⟩ <;>
          simp_all [Input.unordered]
      subst time
      refine ⟨⟨?_, agree.flow, agree.res, agree.storing⟩, ?_⟩
      · rw [conn_after_tick visit, conn_after_tick visit', agree.conn]
      · rw [about_publishCalls, about_publishCalls, published_by_tick visit,
          published_by_tick visit', agree.conn, agree.res, agree.storing]
    · rcases input with ⟨rfl, _⟩ | ⟨rfl, _⟩ <;> simp [Input.unordered] at same
    · rcases input with ⟨rfl, _⟩ | ⟨rfl, _⟩ <;> simp [Input.unordered] at same
  · rcases step_cases second with ⟨_, _, _, rfl, _⟩ | ⟨_, _, _, input, _⟩ |
      ⟨later, order', flowOrder', rfl, _, _, visit', flowVisit', rfl, rfl⟩ | ⟨_, rfl, _⟩
    · simp [Input.unordered] at same
    · rcases input with ⟨rfl, _⟩ | ⟨rfl, _⟩ <;> simp [Input.unordered] at same
    · simp only [Input.unordered, Input.sweep.injEq, and_true] at same
      subst same
      refine ⟨⟨?_, ?_, agree.res, agree.storing⟩, ?_⟩
      · rw [conn_after_sweep visit, conn_after_sweep visit', agree.conn]
      · intro f own
        rw [flow_after_sweep flowVisit, flow_after_sweep flowVisit', agree.flow f own]
      · rw [about_removals, about_removals, swept_by_sweep visit, swept_by_sweep visit', agree.conn]
    · simp [Input.unordered] at same
  · rcases step_cases second with ⟨_, _, _, rfl, _⟩ | ⟨_, _, _, input, _⟩ | ⟨_, _, _, rfl, _⟩ |
      ⟨s', rfl, rfl, rfl⟩
    · simp [Input.unordered] at same
    · rcases input with ⟨rfl, _⟩ | ⟨rfl, _⟩ <;> simp [Input.unordered] at same
    · simp [Input.unordered] at same
    · simp only [Input.unordered, Input.resource.injEq] at same
      subst same
      simp only [Input.concerns, decide_eq_true_eq] at mine
      refine ⟨⟨agree.conn, agree.flow, ?_, agree.storing⟩, by rw [agree.storing]⟩
      simp only [forwardResource]
      rw [← mine, Finmap.lookup_insert, Finmap.lookup_insert]

theorem unconcerned_run {ls : List Input} (answered : ∀ i ∈ ls, i.AnsweredBy r)
    (foreign : project K ls = []) (run : exec step m ls = some (m', out)) :
    Agree r K m' m ∧ out.filter (·.about K) = [] := by
  induction ls generalizing m out with
  | nil =>
    obtain ⟨rfl, rfl⟩ := exec_nil_iff.mp run
    exact ⟨⟨rfl, fun _ _ => rfl, rfl, rfl⟩, rfl⟩
  | cons i ls ih =>
    obtain ⟨u, o, o', first, rest, rfl⟩ := exec_cons_iff.mp run
    have none : i.concerns K = false ∧ project K ls = [] := by
      cases kept : i.concerns K <;> simp [project, kept] at foreign ⊢
      exact foreign
    obtain ⟨back, quiet⟩ := unconcerned_step (answered i (by simp)) none.1 first
    obtain ⟨tail, silent⟩ := ih (fun j hj => answered j (by simp [hj])) none.2 rest
    exact ⟨agree_trans tail back, by rw [List.filter_append, quiet, silent]; rfl⟩

theorem project_cons_split {ls : List Input} {x : Input} {xs : List Input}
    (shape : project K ls = x :: xs) :
    ∃ before i after, ls = before ++ i :: after ∧ project K before = [] ∧
      i.concerns K = true ∧ i.unordered = x ∧ project K after = xs := by
  obtain ⟨i, kept, filtered, first, rest⟩ := List.map_eq_cons_iff.mp shape
  obtain ⟨before, after, rfl, foreign, mine, tail⟩ := List.filter_eq_cons_iff.mp filtered
  refine ⟨before, i, after, rfl, ?_, mine, first, ?_⟩
  · simp only [project, List.map_eq_nil_iff, List.filter_eq_nil_iff]
    exact foreign
  · rw [project, tail, rest]

theorem agree_run {ls ks : List Input} (left : ∀ i ∈ ls, i.AnsweredBy r)
    (right : ∀ i ∈ ks, i.AnsweredBy r) (same : project K ls = project K ks)
    (agree : Agree r K m n) (first : exec step m ls = some (m', out))
    (second : exec step n ks = some (n', out')) :
    Agree r K m' n' ∧ out.filter (·.about K) = out'.filter (·.about K) := by
  induction shape : project K ls generalizing ls ks m n out out' with
  | nil =>
    obtain ⟨back, quiet⟩ := unconcerned_run left shape first
    obtain ⟨back', quiet'⟩ := unconcerned_run right (same ▸ shape) second
    exact ⟨agree_trans back (agree_trans agree (agree_symm back')), by rw [quiet, quiet']⟩
  | cons x xs ih =>
    obtain ⟨before, i, after, rfl, foreign, mine, shown, tail⟩ := project_cons_split shape
    obtain ⟨before', j, after', rfl, foreign', _, shown', tail'⟩ :=
      project_cons_split (same ▸ shape)
    obtain ⟨m₁, o₁, o₂, runBefore, runRest, rfl⟩ := exec_append_iff.mp first
    obtain ⟨m₂, o₃, o₄, stepI, runAfter, rfl⟩ := exec_cons_iff.mp runRest
    obtain ⟨n₁, p₁, p₂, runBefore', runRest', rfl⟩ := exec_append_iff.mp second
    obtain ⟨n₂, p₃, p₄, stepJ, runAfter', rfl⟩ := exec_cons_iff.mp runRest'
    obtain ⟨back, quiet⟩ := unconcerned_run (fun i hi => left i (by simp [hi])) foreign runBefore
    obtain ⟨back', quiet'⟩ :=
      unconcerned_run (fun i hi => right i (by simp [hi])) foreign' runBefore'
    have middle : Agree r K m₁ n₁ := agree_trans back (agree_trans agree (agree_symm back'))
    obtain ⟨next, emitted⟩ := concerned_step (left i (by simp)) (right j (by simp))
      (shown.trans shown'.symm) mine middle stepI stepJ
    obtain ⟨final, later⟩ := ih (fun i hi => left i (by simp [hi]))
      (fun i hi => right i (by simp [hi])) (tail.trans tail'.symm) next runAfter runAfter' tail
    exact ⟨final, by simp only [List.filter_append, quiet, quiet', emitted, later]⟩

theorem answered_unordered (i : Input) : i.unordered.AnsweredBy r ↔ i.AnsweredBy r := by
  cases i <;> rfl

theorem concerns_unordered (i : Input) : i.unordered.concerns K = i.concerns K := by
  cases i <;> rfl

theorem project_of_deleted {ls ks : List Input} (deleted : ks.map Input.unordered = project K ls) :
    project K ks = project K ls := by
  have all : ∀ j ∈ ks, j.concerns K = true := by
    intro j member
    have image : j.unordered ∈ project K ls := deleted ▸ List.mem_map_of_mem member
    obtain ⟨i, kept, same⟩ := List.mem_map.mp image
    rw [← concerns_unordered, ← same, concerns_unordered]
    exact (List.mem_filter.mp kept).2
  rw [project, List.filter_eq_self.mpr all, deleted]

theorem answered_of_deleted {ls ks : List Input} (answered : ∀ i ∈ ls, i.AnsweredBy r)
    (deleted : ks.map Input.unordered = project K ls) : ∀ j ∈ ks, j.AnsweredBy r := by
  intro j member
  have image : j.unordered ∈ project K ls := deleted ▸ List.mem_map_of_mem member
  obtain ⟨i, kept, same⟩ := List.mem_map.mp image
  rw [← answered_unordered, ← same, answered_unordered]
  exact answered i (List.mem_filter.mp kept).1

/- Go picks some order for every range, so an input that one machine accepts another
   machine accepts as well, when its loop is running and its clock is not ahead. -/
theorem step_available (running : n.running = m.running) (clock : n.clock ≤ m.clock)
    (taken : step m i = some (m', out)) :
    ∃ j n' out', j.unordered = i.unordered ∧ step n j = some (n', out') ∧
      n'.running = m'.running ∧ n'.clock ≤ m'.clock := by
  obtain ⟨order, visit⟩ := exists_enumeration n.proc.conns
  obtain ⟨flowOrder, flowVisit⟩ := exists_enumeration n.proc.flows
  rcases step_cases taken with ⟨a, now, e, rfl, loop, time, rfl, rfl⟩ |
    ⟨now, _, after, input, loop, time, _, rfl, rfl⟩ |
    ⟨now, _, _, rfl, loop, time, _, _, rfl, rfl⟩ | ⟨s, rfl, rfl, rfl⟩
  · exact ⟨.event a now e, _, _, rfl, step_event (running.trans loop) (clock.trans time), running,
      le_refl now⟩
  · have accepted := fun after =>
      publish_accepted after (running.trans loop) (clock.trans time) visit
    rcases input with ⟨rfl, rfl⟩ | ⟨rfl, rfl⟩
    · exact ⟨.tick now order, _, _, rfl, accepted true, rfl, le_refl now⟩
    · exact ⟨.closed now order, _, _, rfl, accepted false, rfl, le_refl now⟩
  · exact ⟨.sweep now order flowOrder, _, _, rfl,
      step_sweep (running.trans loop) (clock.trans time) visit flowVisit, running, le_refl now⟩
  · exact ⟨.resource s, _, _, rfl, rfl, running, clock⟩

theorem unconcerned_keeps_running (foreign : i.concerns K = false)
    (taken : step m i = some (m', out)) : m'.running = m.running := by
  rcases step_cases taken with ⟨_, _, _, _, _, _, rfl, _⟩ | ⟨_, _, _, input, _⟩ |
    ⟨_, _, _, _, _, _, _, _, rfl, _⟩ | ⟨_, _, rfl, _⟩
  · rfl
  · rcases input with ⟨rfl, _⟩ | ⟨rfl, _⟩ <;> simp [Input.concerns] at foreign
  · rfl
  · rfl

theorem deleted_run_available {ls : List Input} (running : n.running = m.running)
    (clock : n.clock ≤ m.clock) (run : exec step m ls = some (m', out)) :
    ∃ ks n' out', ks.map Input.unordered = project K ls ∧ exec step n ks = some (n', out') := by
  induction ls generalizing m n out with
  | nil => exact ⟨[], n, [], rfl, rfl⟩
  | cons i ls ih =>
    obtain ⟨u, o, o', first, rest, rfl⟩ := exec_cons_iff.mp run
    cases kept : i.concerns K with
    | false =>
      obtain ⟨ks, n', out', shape, done⟩ := ih
        (running.trans (unconcerned_keeps_running kept first).symm)
        (clock.trans (clock_monotone first)) rest
      exact ⟨ks, n', out', by simpa [project, kept] using shape, done⟩
    | true =>
      obtain ⟨j, v, p, same, taken, loop, time⟩ := step_available running clock first
      obtain ⟨ks, n', out', shape, done⟩ := ih loop time rest
      refine ⟨j :: ks, n', p ++ out', ?_, exec_cons_iff.mpr ⟨v, p, out', taken, done, rfl⟩⟩
      simp only [project, List.filter_cons, kept, ↓reduceIte, List.map_cons, same] at shape ⊢
      rw [shape]

/-- With a resolver that is a function, everything the Processor does for connection K (its
    published snapshots, its removals, its state and history) is what it does in the run
    from which all other events and all resource updates of other services were deleted.
    So two runs in which K sees the same inputs treat K alike, however those inputs are
    interleaved with the rest. -/
theorem connections_do_not_interfere {storing : Bool} {clock : Time} {ls : List Input}
    (answered : ∀ i ∈ ls, i.AnsweredBy r)
    (run : exec step (Machine.start storing clock) ls = some (m, out)) :
    (∃ ks n out', ks.map Input.unordered = project K ls ∧
      exec step (Machine.start storing clock) ks = some (n, out')) ∧
    (∀ ks n out', ks.map Input.unordered = project K ls →
      exec step (Machine.start storing clock) ks = some (n, out') →
        out'.filter (·.about K) = out.filter (·.about K) ∧
        n.proc.conns.lookup K = m.proc.conns.lookup K) ∧
    (∀ ks n out', (∀ i ∈ ks, i.AnsweredBy r) → project K ks = project K ls →
      exec step (Machine.start storing clock) ks = some (n, out') →
        out'.filter (·.about K) = out.filter (·.about K) ∧
        n.proc.conns.lookup K = m.proc.conns.lookup K) := by
  have start : Agree r K (Machine.start storing clock) (Machine.start storing clock) :=
    ⟨rfl, fun _ _ => rfl, rfl, rfl⟩
  refine ⟨deleted_run_available rfl (le_refl clock) run, ?_, ?_⟩
  · intro ks n out' deleted second
    obtain ⟨agree, emitted⟩ := agree_run (answered_of_deleted answered deleted) answered
      (project_of_deleted deleted) start second run
    exact ⟨emitted, agree.conn⟩
  · intro ks n out' answered' same second
    obtain ⟨agree, emitted⟩ := agree_run answered' answered same start second run
    exact ⟨emitted, agree.conn⟩

def bridgeResolver : Resolver where
  resolve ip := if ip = "172.19.0.3" then "service-a" else
    if ip = "172.19.0.4" then "service-b" else ip
  isInternal ip := ip = "172.19.0.3" || ip = "172.19.0.4"

def requestTo (dAddr : String) (latencyUs : UInt64) : Event :=
  ⟨.rtt, 40001, "", "172.19.0.3", dAddr, 8080, latencyUs, 0⟩

def twoDestinations : List Input :=
  [.event (bridgeResolver.answers (requestTo "172.19.0.4" 100)) 1 (requestTo "172.19.0.4" 100),
   .event (bridgeResolver.answers (requestTo "8.8.8.8" 900)) 2 (requestTo "8.8.8.8" 900),
   .tick 3 [⟨"service-a", "8.8.8.8"⟩, ⟨"service-a", "service-b"⟩]]

def oneDestination : List Input :=
  [.event (bridgeResolver.answers (requestTo "172.19.0.4" 100)) 1 (requestTo "172.19.0.4" 100),
   .tick 3 [⟨"service-a", "service-b"⟩]]

theorem second_destination_does_not_interfere :
    ∃ m out n out', exec step (Machine.start true 0) twoDestinations = some (m, out) ∧
      exec step (Machine.start true 0) oneDestination = some (n, out') ∧
      oneDestination.map Input.unordered = project ⟨"service-a", "service-b"⟩ twoDestinations ∧
      out'.filter (·.about ⟨"service-a", "service-b"⟩) =
        out.filter (·.about ⟨"service-a", "service-b"⟩) ∧
      n.proc.conns.lookup ⟨"service-a", "service-b"⟩ =
        m.proc.conns.lookup ⟨"service-a", "service-b"⟩ :=
  ⟨_, _, _, _, rfl, rfl, rfl, (@connections_do_not_interfere bridgeResolver
    ⟨"service-a", "service-b"⟩ _ _ true 0 twoDestinations
    (by simp [twoDestinations, Input.AnsweredBy]) rfl).2.1 oneDestination _ _ rfl rfl⟩

end CollectorStats
