import MicroTrace.Library.Runs
import MicroTrace.Library.RangeLoops
import MicroTrace.Collector.ConnStats

/- The Processor of stats.go: its three maps, the handlers that change them, and the Run
   loop as a machine that consumes one input at a time. A handler that ranges over a map
   takes the order the runtime picked; a handler that asks the resolver takes the answers
   it got, so that a resolver may change its mind between calls. -/
namespace CollectorStats
open CollectorModel RangeLoops Runs

def connTTL : Time := 30 * 1000000000

structure ConnKey where
  src : String
  dst : String
  deriving DecidableEq

structure FlowKey where
  sockID : UInt32
  sAddr : String
  dAddr : String
  dPort : UInt16
  deriving DecidableEq

structure FlowState where
  srttUs : Nat
  mdevUs : Nat
  lastSeen : Time
  initialized : Bool
  deriving DecidableEq

structure Processor where
  storing : Bool
  conns : GoMap ConnKey ConnStats
  flows : GoMap FlowKey FlowState
  resources : GoMap String ResourceSnapshot

/-- The calls a Processor makes on the hub and on the store, in order. -/
inductive Emission where
  | event (raw : RawEvent)
  | stats (snap : StatSnapshot)
  | remove (key : ConnKey)
  | resource (res : ResourceSnapshot)
  | storeConn (snap : StatSnapshot)
  | storeResource (res : ResourceSnapshot)
  deriving DecidableEq

def ConnKey.text (k : ConnKey) : String := k.src ++ "→" ++ k.dst

def Emission.broadcast : Emission → Option OutboundMsg
  | .event raw => some (.event raw)
  | .stats snap => some (.stats snap)
  | .remove key => some (.remove key.text)
  | .resource res => some (.resource res)
  | .storeConn _ => none
  | .storeResource _ => none

structure Resolver where
  resolve : String → String
  isInternal : String → Bool

/-- Answers to the four resolver calls one handleEvent makes. -/
structure Answers where
  dstService : String
  srcService : String
  srcInternal : Bool
  dstInternal : Bool
  deriving DecidableEq

def Resolver.answers (r : Resolver) (e : Event) : Answers where
  dstService := r.resolve e.dAddr
  srcService := r.resolve e.sAddr
  srcInternal := r.isInternal e.sAddr
  dstInternal := r.isInternal e.dAddr

def Answers.connKey (a : Answers) : ConnKey := ⟨a.srcService, a.dstService⟩

def Event.flowKey (e : Event) : FlowKey := ⟨e.pid, e.sAddr, e.dAddr, e.dPort⟩

def nodeType (isInternal : Bool) : NodeType := if isInternal then .internal else .external

def absDiff (a b : Nat) : Nat := if a > b then a - b else b - a

def FlowState.created (now : Time) : FlowState := ⟨0, 0, now, false⟩

def getOrCreateFlow (p : Processor) (key : FlowKey) (now : Time) : FlowState :=
  (p.flows.lookup key).getD (FlowState.created now)

/- The new srtt/mdev of a socket and the jitter reported for the sample. -/
def FlowState.observe (fs : FlowState) (rttUs : Nat) (now : Time) : FlowState :=
  if fs.initialized then
    { fs with
      lastSeen := now
      mdevUs := wrap64 (3 * fs.mdevUs + absDiff rttUs fs.srttUs) / 4
      srttUs := wrap64 (7 * fs.srttUs + rttUs) / 8 }
  else ⟨rttUs, 0, now, true⟩

def updateFlowMdev (p : Processor) (key : FlowKey) (rttUs : Nat) (now : Time) :
    Processor × Nat :=
  let fs := (getOrCreateFlow p key now).observe rttUs now
  ({ p with flows := p.flows.insert key fs }, fs.mdevUs)

def getOrCreateConn (p : Processor) (key : ConnKey) (now : Time) : ConnStats :=
  (p.conns.lookup key).getD (ConnStats.fresh now)

def ConnStats.touch (cs : ConnStats) (a : Answers) (now : Time) : ConnStats :=
  { cs with
    srcType := nodeType a.srcInternal
    dstType := nodeType a.dstInternal
    lastSeen := now }

def Event.sampled (e : Event) : Prop :=
  (e.type = .connect ∨ e.type = .rtt) ∧ 0 < e.latencyUs.toNat

instance (e : Event) : Decidable (Event.sampled e) :=
  inferInstanceAs (Decidable ((_ ∨ _) ∧ _))

/-- The locked section of handleEvent. -/
def applyEvent (a : Answers) (now : Time) (e : Event) (p : Processor) : Processor :=
  let cs := (getOrCreateConn p a.connKey now).touch a now
  if Event.sampled e then
    let (q, jitterUs) := updateFlowMdev p (Event.flowKey e) e.latencyUs.toNat now
    { q with conns := q.conns.insert a.connKey (cs.sample e.latencyUs.toNat jitterUs) }
  else if e.type = .retransmit then
    { p with conns := p.conns.insert a.connKey { cs with retransmit := cs.retransmit + 1 } }
  else { p with conns := p.conns.insert a.connKey cs }

def rawEvent (a : Answers) (now : Time) (e : Event) : RawEvent where
  type := e.type
  srcService := a.srcService
  dstService := a.dstService
  dPort := e.dPort
  latencyUs := e.latencyUs
  timestampNs := now

def handleEvent (a : Answers) (now : Time) (e : Event) (p : Processor) :
    Processor × List Emission :=
  (applyEvent a now e p, [.event (rawEvent a now e)])

def detectCause (dstType : NodeType) (res : Option ResourceSnapshot) : CauseKind × CauseSignal :=
  if dstType = .external then (.external, .externalDst)
  else match res with
    | none => (.network, .none)
    | some res =>
      if 0 < res.oomKillCount.toNat then (.memory, .oomKill)
      else if res.cpuThrottlePct.exceeds 25 then (.cpu, .cpuThrottleHigh)
      else if res.cpuThrottlePct.exceeds 1 && res.cpuPct.exceeds 60 then (.cpu, .cpuThrottleBurst)
      else if res.memPressurePct.exceeds 20 then (.memory, .memPressure)
      else (.network, .none)

def zeroPct : Float64 := .finite 0

def snapshot (key : ConnKey) (cs : ConnStats) (dstRes : Option ResourceSnapshot) : StatSnapshot :=
  let q := cs.percentiles
  let latestUs := cs.latestRTT
  let (spike, threshold) := cs.isSpike latestUs
  let cause := if spike then detectCause cs.dstType dstRes else (.empty, .empty)
  let shown := if spike then dstRes else none
  { srcService := key.src
    dstService := key.dst
    srcType := cs.srcType
    dstType := cs.dstType
    latestSRTTUs := latestUs
    avgUs := q.avg
    p50Us := q.p50
    p95Us := q.p95
    p99Us := q.p99
    jitterUs := cs.latestJitter
    retransmitCount := cs.retransmit
    sampleCount := cs.ring.count
    isSpike := spike
    spikeThresholdUs := threshold
    causeKind := cause.1
    causeSignal := cause.2
    dstCPUPct := (shown.map (·.cpuPct)).getD zeroPct
    dstCPUThrottlePct := (shown.map (·.cpuThrottlePct)).getD zeroPct
    dstMemPressurePct := (shown.map (·.memPressurePct)).getD zeroPct
    dstIOWaitPct := (shown.map (·.ioWaitPct)).getD zeroPct }

/-- The locked section of publishSnapshots: one snapshot and one history point for each
    connection, in the order of the range. -/
def publishSnapshots (order : List ConnKey) (now : Time) (p : Processor) :
    Processor × List StatSnapshot :=
  ({ p with conns := rangeUpdate (fun _ cs => cs.appendHistory now) order p.conns },
   rangeCollect (fun key cs => some (snapshot key cs (p.resources.lookup key.dst))) order p.conns)

/- After unlocking, each snapshot goes to the hub and then to the store. -/
def publishCalls (storing : Bool) (snaps : List StatSnapshot) : List Emission :=
  snaps.flatMap fun snap => .stats snap :: if storing then [.storeConn snap] else []

def expired (now lastSeen : Time) : Bool := decide (connTTL < now - lastSeen)

def sweepExpired (order : List ConnKey) (flowOrder : List FlowKey) (now : Time) (p : Processor) :
    Processor × List ConnKey :=
  ({ p with
      conns := rangeDelete (fun _ cs => expired now cs.lastSeen) order p.conns
      flows := rangeDelete (fun _ fs => expired now fs.lastSeen) flowOrder p.flows },
   rangeCollect (fun key cs => if expired now cs.lastSeen then some key else none) order p.conns)

def forwardResource (s : ResourceSnapshot) (p : Processor) : Processor :=
  { p with resources := p.resources.insert s.serviceName s }

def resourceCalls (storing : Bool) (s : ResourceSnapshot) : List Emission :=
  .resource s :: if storing then [.storeResource s] else []

def getHistory (order : List ConnKey) (p : Processor) : List ConnHistory :=
  rangeCollect (fun key cs =>
    if cs.history.length = 0 then none else some ⟨key.text, cs.history⟩) order p.conns

def Processor.new (storing : Bool) : Processor := ⟨storing, ∅, ∅, ∅⟩

inductive Input where
  | event (a : Answers) (now : Time) (e : Event)
  | tick (now : Time) (order : List ConnKey)
  | sweep (now : Time) (order : List ConnKey) (flowOrder : List FlowKey)
  | closed (now : Time) (order : List ConnKey)
  | resource (s : ResourceSnapshot)
  deriving DecidableEq

/-- The resolver answered this event as one fixed function of the addresses. -/
def Input.AnsweredBy (r : Resolver) : Input → Prop
  | .event a _ e => a = r.answers e
  | _ => True

/-- The Run loop with the clock it has read last. Once the event channel is closed the
    loop has returned; ForwardResource is a goroutine of its own and goes on. -/
structure Machine where
  proc : Processor
  clock : Time
  running : Bool

def Machine.start (storing : Bool) (clock : Time) : Machine :=
  ⟨Processor.new storing, clock, true⟩

def Machine.publish (m : Machine) (now : Time) (order : List ConnKey) (running : Bool) :
    Option (Machine × List Emission) :=
  if m.running ∧ m.clock ≤ now ∧ Enumerates order m.proc.conns then
    let (p, snaps) := publishSnapshots order now m.proc
    some (⟨p, now, running⟩, publishCalls p.storing snaps)
  else none

def step : Stepper Machine Input Emission
  | m, .event a now e =>
      if m.running ∧ m.clock ≤ now then
        let (p, calls) := handleEvent a now e m.proc
        some ({ m with proc := p, clock := now }, calls)
      else none
  | m, .tick now order => m.publish now order true
  | m, .closed now order => m.publish now order false
  | m, .sweep now order flowOrder =>
      if m.running ∧ m.clock ≤ now ∧ Enumerates order m.proc.conns ∧
          Enumerates flowOrder m.proc.flows then
        let (p, keys) := sweepExpired order flowOrder now m.proc
        some ({ m with proc := p, clock := now }, keys.map Emission.remove)
      else none
  | m, .resource s =>
      some ({ m with proc := forwardResource s m.proc }, resourceCalls m.proc.storing s)

section Handlers

variable {a : Answers} {now : Time} {e : Event} {p : Processor}

/- Deviation a sample reports for its socket, read off the state before the event. -/
def eventJitter (now : Time) (e : Event) (p : Processor) : Nat :=
  ((getOrCreateFlow p (Event.flowKey e) now).observe e.latencyUs.toNat now).mdevUs

def eventConn (a : Answers) (now : Time) (e : Event) (p : Processor) : ConnStats :=
  let cs := (getOrCreateConn p a.connKey now).touch a now
  if Event.sampled e then cs.sample e.latencyUs.toNat (eventJitter now e p)
  else if e.type = .retransmit then { cs with retransmit := cs.retransmit + 1 }
  else cs

theorem applyEvent_conns :
    (applyEvent a now e p).conns = p.conns.insert a.connKey (eventConn a now e p) := by
  unfold applyEvent eventConn
  split
  · rfl
  · split <;> rfl

theorem applyEvent_flows :
    (applyEvent a now e p).flows = if Event.sampled e then
      p.flows.insert (Event.flowKey e)
        ((getOrCreateFlow p (Event.flowKey e) now).observe e.latencyUs.toNat now)
      else p.flows := by
  unfold applyEvent
  split
  · rfl
  · split <;> rfl

theorem applyEvent_resources : (applyEvent a now e p).resources = p.resources := by
  unfold applyEvent
  split
  · rfl
  · split <;> rfl

theorem applyEvent_storing : (applyEvent a now e p).storing = p.storing := by
  unfold applyEvent
  split
  · rfl
  · split <;> rfl

theorem conn_after_own_event :
    (applyEvent a now e p).conns.lookup a.connKey = some (eventConn a now e p) := by
  rw [applyEvent_conns, Finmap.lookup_insert]

theorem conn_after_other_event {k : ConnKey} (other : k ≠ a.connKey) :
    (applyEvent a now e p).conns.lookup k = p.conns.lookup k := by
  rw [applyEvent_conns, Finmap.lookup_insert_of_ne _ other]

theorem flow_after_other_event {f : FlowKey} (other : Event.sampled e → f ≠ Event.flowKey e) :
    (applyEvent a now e p).flows.lookup f = p.flows.lookup f := by
  rw [applyEvent_flows]
  split
  · rename_i sampled
    exact Finmap.lookup_insert_of_ne _ (other sampled)
  · rfl

def StatSnapshot.connKey (s : StatSnapshot) : ConnKey := ⟨s.srcService, s.dstService⟩

def published (k : ConnKey) (snaps : List StatSnapshot) : List StatSnapshot :=
  snaps.filter fun s => StatSnapshot.connKey s = k

/-- A tick publishes one snapshot for a tracked connection, made from that connection's own
    state, and none for any other key. -/
theorem published_by_tick {order : List ConnKey} (visit : Enumerates order p.conns)
    (k : ConnKey) : published k (publishSnapshots order now p).2 =
      ((p.conns.lookup k).map fun cs => snapshot k cs (p.resources.lookup k.dst)).toList := by
  have own := filter_rangeCollect
    (fun key cs => some (snapshot key cs (p.resources.lookup key.dst))) StatSnapshot.connKey visit
    (by intro k cs s made; rw [← Option.some.inj made]; rfl) k
  rw [published, publishSnapshots, own]
  cases p.conns.lookup k <;> rfl

theorem conn_after_tick {order : List ConnKey} (visit : Enumerates order p.conns) (k : ConnKey) :
    (publishSnapshots order now p).1.conns.lookup k =
      (p.conns.lookup k).map (·.appendHistory now) :=
  lookup_rangeUpdate _ visit k

theorem swept_by_sweep {order : List ConnKey} {flowOrder : List FlowKey}
    (visit : Enumerates order p.conns) (k : ConnKey) :
    ((sweepExpired order flowOrder now p).2.filter fun key => key = k) =
      ((p.conns.lookup k).bind fun cs =>
        if expired now cs.lastSeen then some k else none).toList := by
  apply filter_rangeCollect _ (fun key => key) visit
  intro key cs got made
  split at made
  · exact (Option.some.inj made).symm
  · simp at made

theorem conn_after_sweep {order : List ConnKey} {flowOrder : List FlowKey}
    (visit : Enumerates order p.conns) (k : ConnKey) :
    (sweepExpired order flowOrder now p).1.conns.lookup k =
      (p.conns.lookup k).filter fun cs => !expired now cs.lastSeen :=
  lookup_rangeDelete _ visit k

theorem flow_after_sweep {order : List ConnKey} {flowOrder : List FlowKey}
    (visit : Enumerates flowOrder p.flows) (f : FlowKey) :
    (sweepExpired order flowOrder now p).1.flows.lookup f =
      (p.flows.lookup f).filter fun fs => !expired now fs.lastSeen :=
  lookup_rangeDelete _ visit f

theorem event_conn_lastSeen : (eventConn a now e p).lastSeen = now := by
  unfold eventConn
  split
  · exact (update_stable_fields _ _).2.2.1
  · split <;> rfl

theorem observe_lastSeen (fs : FlowState) (rttUs : Nat) :
    (fs.observe rttUs now).lastSeen = now := by
  unfold FlowState.observe
  split <;> rfl

end Handlers

theorem step_event {m : Machine} {a : Answers} {now : Time} {e : Event}
    (loop : m.running = true) (time : m.clock ≤ now) :
    step m (.event a now e) = some ({ m with proc := applyEvent a now e m.proc, clock := now },
      [.event (rawEvent a now e)]) := by
  rw [step, if_pos ⟨loop, time⟩]
  rfl

theorem publish_accepted {m : Machine} {now : Time} {order : List ConnKey} (running : Bool)
    (loop : m.running = true) (time : m.clock ≤ now) (visit : Enumerates order m.proc.conns) :
    m.publish now order running = some (⟨(publishSnapshots order now m.proc).1, now, running⟩,
      publishCalls m.proc.storing (publishSnapshots order now m.proc).2) := by
  rw [Machine.publish, if_pos ⟨loop, time, visit⟩]
  rfl

theorem step_sweep {m : Machine} {now : Time} {order : List ConnKey} {flowOrder : List FlowKey}
    (loop : m.running = true) (time : m.clock ≤ now) (visit : Enumerates order m.proc.conns)
    (flowVisit : Enumerates flowOrder m.proc.flows) :
    step m (.sweep now order flowOrder) =
      some ({ m with proc := (sweepExpired order flowOrder now m.proc).1, clock := now },
        (sweepExpired order flowOrder now m.proc).2.map Emission.remove) := by
  rw [step, if_pos ⟨loop, time, visit, flowVisit⟩]

/-- Everything one step of the machine can do, guards included. -/
theorem step_cases {m m' : Machine} {i : Input} {out : List Emission}
    (taken : step m i = some (m', out)) :
    (∃ a now e, i = .event a now e ∧ m.running = true ∧ m.clock ≤ now ∧
      m' = { m with proc := applyEvent a now e m.proc, clock := now } ∧
      out = [.event (rawEvent a now e)]) ∨
    (∃ now order running, (i = .tick now order ∧ running = true ∨
        i = .closed now order ∧ running = false) ∧
      m.running = true ∧ m.clock ≤ now ∧ Enumerates order m.proc.conns ∧
      m' = ⟨(publishSnapshots order now m.proc).1, now, running⟩ ∧
      out = publishCalls m.proc.storing (publishSnapshots order now m.proc).2) ∨
    (∃ now order flowOrder, i = .sweep now order flowOrder ∧ m.running = true ∧ m.clock ≤ now ∧
      Enumerates order m.proc.conns ∧ Enumerates flowOrder m.proc.flows ∧
      m' = { m with proc := (sweepExpired order flowOrder now m.proc).1, clock := now } ∧
      out = (sweepExpired order flowOrder now m.proc).2.map Emission.remove) ∨
    (∃ s, i = .resource s ∧ m' = { m with proc := forwardResource s m.proc } ∧
      out = resourceCalls m.proc.storing s) := by
  have published : ∀ now order running, m.publish now order running = some (m', out) →
      m.running = true ∧ m.clock ≤ now ∧ Enumerates order m.proc.conns ∧
      m' = ⟨(publishSnapshots order now m.proc).1, now, running⟩ ∧
      out = publishCalls m.proc.storing (publishSnapshots order now m.proc).2 := by
    intro now order running h
    simp only [Machine.publish] at h
    split at h
    · rename_i guard
      simp only [Option.some.injEq, Prod.mk.injEq] at h
      exact ⟨guard.1, guard.2.1, guard.2.2, h.1.symm, h.2.symm⟩
    · simp at h
  cases i with
  | event a now e =>
    simp only [step] at taken
    split at taken
    · rename_i guard
      simp only [handleEvent, Option.some.injEq, Prod.mk.injEq] at taken
      exact .inl ⟨a, now, e, rfl, guard.1, guard.2, taken.1.symm, taken.2.symm⟩
    · simp at taken
  | tick now order =>
    obtain ⟨run, time, visit, state, calls⟩ := published now order true taken
    exact .inr (.inl ⟨now, order, true, .inl ⟨rfl, rfl⟩, run, time, visit, state, calls⟩)
  | closed now order =>
    obtain ⟨run, time, visit, state, calls⟩ := published now order false taken
    exact .inr (.inl ⟨now, order, false, .inr ⟨rfl, rfl⟩, run, time, visit, state, calls⟩)
  | sweep now order flowOrder =>
    simp only [step] at taken
    split at taken
    · rename_i guard
      simp only [Option.some.injEq, Prod.mk.injEq] at taken
      exact .inr (.inr (.inl ⟨now, order, flowOrder, rfl, guard.1, guard.2.1, guard.2.2.1,
        guard.2.2.2, taken.1.symm, taken.2.symm⟩))
    · simp at taken
  | resource s =>
    simp only [step, Option.some.injEq, Prod.mk.injEq] at taken
    exact .inr (.inr (.inr ⟨s, rfl, taken.1.symm, taken.2.symm⟩))

theorem clock_monotone {m m' : Machine} {i : Input} {out : List Emission}
    (taken : step m i = some (m', out)) : m.clock ≤ m'.clock := by
  rcases step_cases taken with ⟨_, _, _, _, _, time, rfl, _⟩ | ⟨_, _, _, _, _, time, _, rfl, _⟩ |
    ⟨_, _, _, _, _, time, _, _, rfl, _⟩ | ⟨_, _, rfl, _⟩
  · exact time
  · exact time
  · exact time
  · exact le_refl _

end CollectorStats
