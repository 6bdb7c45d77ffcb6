import MicroTrace.Collector.SpikeBaseline

/- Out-of-memory evidence between its arrival and the tick that should report it. The agent
   reports how often the kernel killed a process since its previous report; ForwardResource
   keeps the last report of each service and publishSnapshots reads only that one. -/
namespace CollectorStats
open CollectorModel RangeLoops Runs

def Input.report : Input → Option ResourceSnapshot
  | .resource s => some s
  | _ => none

def reportsFor (service : String) (ls : List Input) : List ResourceSnapshot :=
  (ls.filterMap Input.report).filter fun s => s.serviceName = service

def latestReport (service : String) (ls : List Input) : Option ResourceSnapshot :=
  (reportsFor service ls).getLast?

def sinceTick (ls : List Input) : List ResourceSnapshot :=
  ls.foldl (fun reports i => match i with
    | .tick _ _ => []
    | .closed _ _ => []
    | .resource s => reports ++ [s]
    | .event _ _ _ => reports
    | .sweep _ _ _ => reports) []

def killed (s : ResourceSnapshot) : Prop := 0 < s.oomKillCount.toNat

instance (s : ResourceSnapshot) : Decidable (killed s) :=
  inferInstanceAs (Decidable (0 < s.oomKillCount.toNat))

def Evidence (service : String) (ls : List Input) : Prop :=
  ∃ s ∈ sinceTick ls, s.serviceName = service ∧ killed s

def Spiking (service : String) (p : Processor) : Prop :=
  ∃ k cs, p.conns.lookup k = some cs ∧ k.dst = service ∧ cs.dstType = .internal ∧
    (cs.isSpike cs.latestRTT).1 = true

/-- Every spike reported by these calls on a destination with evidence is blamed on it. -/
def EvidenceReported (ls : List Input) (calls : List Emission) : Prop :=
  ∀ snap, Emission.stats snap ∈ calls → snap.isSpike = true → snap.dstType = .internal →
    Evidence snap.dstService ls → snap.causeKind = .memory ∧ snap.causeSignal = .oomKill

def Input.overwrite (i : Input) (service : String) (held : Option ResourceSnapshot) :
    Option ResourceSnapshot :=
  match i with
  | .resource s => if s.serviceName = service then some s else held
  | _ => held

theorem latestReport_of_silent (service : String) (ls : List Input) {i : Input}
    (silent : i.report = none) : latestReport service (ls ++ [i]) = latestReport service ls := by
  rw [latestReport, reportsFor, List.filterMap_append, List.filterMap_cons_none silent,
    List.filterMap_nil, List.append_nil]
  rfl

theorem latestReport_snoc (service : String) (ls : List Input) (i : Input) :
    latestReport service (ls ++ [i]) = i.overwrite service (latestReport service ls) := by
  cases i with
  | resource s =>
    unfold latestReport reportsFor Input.overwrite
    rw [List.filterMap_append]
    by_cases own : s.serviceName = service
    · simp [Input.report, own]
    · simp [Input.report, own]
  | event a now e => exact latestReport_of_silent service ls rfl
  | tick now order => exact latestReport_of_silent service ls rfl
  | closed now order => exact latestReport_of_silent service ls rfl
  | sweep now order flowOrder => exact latestReport_of_silent service ls rfl

theorem resources_step {m m' : Machine} {i : Input} {out : List Emission}
    (taken : step m i = some (m', out)) (service : String) :
    m'.proc.resources.lookup service = i.overwrite service (m.proc.resources.lookup service) := by
  rcases step_cases taken with ⟨a, now, e, rfl, _, _, rfl, _⟩ |
    ⟨now, order, running, label, _, _, _, rfl, _⟩ |
    ⟨now, order, flowOrder, rfl, _, _, _, _, rfl, _⟩ | ⟨s, rfl, rfl, _⟩
  · simp only [Input.overwrite]
    rw [applyEvent_resources]
  · rcases label with ⟨rfl, _⟩ | ⟨rfl, _⟩ <;> rfl
  · rfl
  · simp only [Input.overwrite, forwardResource]
    by_cases own : s.serviceName = service
    · rw [if_pos own, ← own, Finmap.lookup_insert]
    · rw [if_neg own, Finmap.lookup_insert_of_ne _ (Ne.symm own)]

theorem resources_run {storing : Bool} {clock : Time} {ls : List Input} {m : Machine}
    {out : List Emission} (run : exec step (Machine.start storing clock) ls = some (m, out))
    (service : String) : m.proc.resources.lookup service = latestReport service ls := by
  apply exec_history (I := fun ls m _ => m.proc.resources.lookup service = latestReport service ls)
    _ _ run
  · rfl
  · intro ls m m' i out o _ held taken
    rw [resources_step taken, latestReport_snoc, held]

theorem detectCause_oom_iff (res : Option ResourceSnapshot) :
    detectCause .internal res = (.memory, .oomKill) ↔ ∃ s, res = some s ∧ killed s := by
  unfold detectCause
  cases res with
  | none => simp
  | some s =>
    by_cases kill : 0 < s.oomKillCount.toNat
    · simp [kill, killed]
    · have spared : ¬ ∃ t, some s = some t ∧ killed t := by
        rintro ⟨t, same, killed⟩
        cases same
        exact kill killed
      simp only [kill, spared, reduceCtorEq, ↓reduceIte, iff_false]
      split
      · simp
      · split
        · simp
        · split <;> simp

theorem stats_of_tick {storing : Bool} {order : List ConnKey} {now : Time} {p : Processor}
    (visit : Enumerates order p.conns) (snap : StatSnapshot) :
    Emission.stats snap ∈ publishCalls storing (publishSnapshots order now p).2 ↔
      ∃ k cs, p.conns.lookup k = some cs ∧ snapshot k cs (p.resources.lookup k.dst) = snap := by
  have collected := mem_rangeCollect
    (fun key cs => some (snapshot key cs (p.resources.lookup key.dst))) visit snap
  simp only [Option.some.injEq] at collected
  rw [← collected, publishCalls, List.mem_flatMap]
  constructor
  · rintro ⟨made, member, call⟩
    cases storing <;> simp at call <;> exact call ▸ member
  · intro member
    exact ⟨snap, member, List.mem_cons_self⟩

theorem snapshot_cause (k : ConnKey) {cs : ConnStats} (res : Option ResourceSnapshot)
    (spike : (cs.isSpike cs.latestRTT).1 = true) :
    ((snapshot k cs res).causeKind, (snapshot k cs res).causeSignal) =
      detectCause cs.dstType res := by
  simp only [snapshot, spike, if_true]

/-- At every tick of every run: evidence received since the previous tick is reported for
    each spiking connection exactly when the last report of each such destination is itself
    evidence. -/
theorem oom_evidence_reported_iff {storing : Bool} {clock now : Time} {ls : List Input}
    {order : List ConnKey} {m m' : Machine} {i : Input} {out calls : List Emission}
    (run : exec step (Machine.start storing clock) ls = some (m, out))
    (publishing : i = .tick now order ∨ i = .closed now order)
    (taken : step m i = some (m', calls)) :
    EvidenceReported ls calls ↔
      ∀ service, Evidence service ls → Spiking service m.proc →
        ∃ s, latestReport service ls = some s ∧ killed s := by
  obtain ⟨visit, rfl⟩ : Enumerates order m.proc.conns ∧
      calls = publishCalls m.proc.storing (publishSnapshots order now m.proc).2 := by
    rcases step_cases taken with ⟨_, _, _, rfl, _⟩ |
      ⟨now', order', _, label, _, _, visit, _, rfl⟩ | ⟨_, _, _, rfl, _⟩ | ⟨_, rfl, _⟩
    · rcases publishing with h | h <;> cases h
    · rcases publishing with rfl | rfl <;> rcases label with ⟨h, _⟩ | ⟨h, _⟩ <;> cases h <;>
        exact ⟨visit, rfl⟩
    · rcases publishing with h | h <;> cases h
    · rcases publishing with h | h <;> cases h
  simp only [EvidenceReported, stats_of_tick visit]
  constructor
  · rintro reported service evidence ⟨k, cs, tracked, rfl, internal, spike⟩
    obtain ⟨kind, signal⟩ := reported _ ⟨k, cs, tracked, rfl⟩ spike internal evidence
    have cause := snapshot_cause k (m.proc.resources.lookup k.dst) spike
    rw [kind, signal, internal, resources_run run] at cause
    exact (detectCause_oom_iff _).mp cause.symm
  · rintro latest snap ⟨k, cs, tracked, rfl⟩ spike internal evidence
    have killed := latest k.dst evidence ⟨k, cs, tracked, rfl, internal, spike⟩
    have cause := snapshot_cause k (m.proc.resources.lookup k.dst) spike
    have internal' : cs.dstType = .internal := internal
    rw [internal', resources_run run, (detectCause_oom_iff _).mpr killed] at cause
    rw [resources_run run]
    exact ⟨congrArg Prod.fst cause, congrArg Prod.snd cause⟩

def killReport (service : String) (oomKillCount : UInt64) : ResourceSnapshot :=
  ⟨service, 0, zeroPct, zeroPct, 0, 0, zeroPct, 0, 0, zeroPct, oomKillCount, zeroPct, zeroPct⟩

def spikingSamples : List Input :=
  calmSamples ++ [.event bridgePair 4 (bridgeSample .rtt 40001 1000)]

theorem last_report_with_kill_reported :
    ∃ m out m' calls, exec step (Machine.start true 0)
        (spikingSamples ++ [.resource (killReport "service-b" 1)]) = some (m, out) ∧
      step m (.tick 5 [bridgePair.connKey]) = some (m', calls) ∧
      Evidence "service-b" (spikingSamples ++ [.resource (killReport "service-b" 1)]) ∧
      Spiking "service-b" m.proc ∧
      EvidenceReported (spikingSamples ++ [.resource (killReport "service-b" 1)]) calls := by
  obtain ⟨m, out, m', calls, run, taken, spiking⟩ : ∃ m out m' calls,
      exec step (Machine.start true 0)
        (spikingSamples ++ [.resource (killReport "service-b" 1)]) = some (m, out) ∧
      step m (.tick 5 [bridgePair.connKey]) = some (m', calls) ∧ Spiking "service-b" m.proc :=
    ⟨_, _, _, _, rfl, rfl, bridgePair.connKey, _, rfl, rfl, rfl, by decide⟩
  refine ⟨m, out, m', calls, run, taken, ⟨_, List.mem_singleton_self _, rfl, by decide⟩,
    spiking, ?_⟩
  apply (oom_evidence_reported_iff run (.inl rfl) taken).mpr
  rintro service ⟨s, member, rfl, killed⟩ _
  cases List.mem_singleton.mp member
  exact ⟨_, rfl, killed⟩

theorem later_report_hides_kill :
    ¬ ∀ (storing : Bool) (clock now : Time) (ls : List Input) (order : List ConnKey)
        (m m' : Machine) (out calls : List Emission),
      exec step (Machine.start storing clock) ls = some (m, out) →
      step m (.tick now order) = some (m', calls) → EvidenceReported ls calls := by
  intro claim
  have reported := claim true 0 5 (spikingSamples ++
    [.resource (killReport "service-b" 1), .resource (killReport "service-b" 0)])
    [bridgePair.connKey] _ _ _ _ rfl rfl _ List.mem_cons_self (by decide) rfl
    ⟨_, List.mem_cons_self, rfl, by decide⟩
  have signal := reported.2
  revert signal
  decide

end CollectorStats
