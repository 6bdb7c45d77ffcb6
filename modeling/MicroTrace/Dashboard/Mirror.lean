import MicroTrace.Dashboard.Reconnect

/- The dashboard as a mirror of the collector. Its numbers are the collector's as long as
   they are exact in JavaScript, and every published snapshot can be marshalled as long as
   the resource percentages are finite. -/
namespace Dashboard
open CollectorModel CollectorStats RangeLoops Runs Lives

def exactNumbers (s : StatSnapshot) : Bool :=
  [s.latestSRTTUs, s.avgUs, s.p50Us, s.p95Us, s.p99Us, s.jitterUs, s.sampleCount,
    s.spikeThresholdUs].all fun n => n < 2 ^ 53

theorem jsNat_exact {n : Nat} (small : n < 2 ^ 53) : jsNat n = n := if_pos small

theorem exact_decoded {s : StatSnapshot} (exact : exactNumbers s = true) : decodeStats s = s := by
  simp only [exactNumbers, List.all_cons, List.all_nil, Bool.and_true, Bool.and_eq_true,
    decide_eq_true_eq] at exact
  obtain ⟨latest, avg, p50, p95, p99, jitter, count, threshold⟩ := exact
  simp only [decodeStats, jsNat_exact latest, jsNat_exact avg, jsNat_exact p50, jsNat_exact p95,
    jsNat_exact p99, jsNat_exact jitter, jsNat_exact count, jsNat_exact threshold]

/-- No broadcast finds the channel full, service names are free of the separator, resource
    percentages are finite and the published integers are below 2^53. -/
def Fair (s : System) : Label → Prop
  | .input (.event a _ _) => arrowFree a.connKey = true
  | .input (.resource r) => encodes (.resource r) = true
  | .input (.tick now order) =>
      ∀ snap ∈ (publishSnapshots order now s.machine.proc).2, exactNumbers snap = true
  | .input (.closed now order) =>
      ∀ snap ∈ (publishSnapshots order now s.machine.proc).2, exactNumbers snap = true
  | l => (broadcasts s l).isSome = true → s.queue.length < broadcastBuffer

instance (s : System) : (l : Label) → Decidable (Fair s l)
  | .input (.event _ _ _) => inferInstanceAs (Decidable (_ = _))
  | .input (.resource _) => inferInstanceAs (Decidable (_ = _))
  | .input (.tick _ _) => inferInstanceAs (Decidable (∀ snap ∈ _, _))
  | .input (.closed _ _) => inferInstanceAs (Decidable (∀ snap ∈ _, _))
  | .input (.sweep _ _ _) => inferInstanceAs (Decidable (_ → _))
  | .runOp => inferInstanceAs (Decidable (_ → _))
  | .resOp => inferInstanceAs (Decidable (_ → _))
  | .receive => inferInstanceAs (Decidable (_ → _))
  | .write _ => inferInstanceAs (Decidable (_ → _))
  | .register _ => inferInstanceAs (Decidable (_ → _))
  | .disconnect => inferInstanceAs (Decidable (_ → _))

def FiniteResources (s : System) : Prop :=
  ∀ name r, s.machine.proc.resources.lookup name = some r → encodes (.resource r) = true

theorem finite_start (storing : Bool) (clock : Time) : FiniteResources (.start storing clock) := by
  intro name r found
  cases found

theorem snapshot_encodes {k : ConnKey} {cs : ConnStats} {res : Option ResourceSnapshot}
    (finite : ∀ r, res = some r → encodes (.resource r) = true) :
    encodes (.stats (snapshot k cs res)) = true := by
  have shown : ∀ spike : Bool, ∀ r, (if spike then res else none) = some r →
      encodes (.resource r) = true := by
    intro spike r here
    cases spike with
    | true => exact finite r here
    | false => cases here
  have finitePct := shown (cs.isSpike cs.latestRTT).1
  simp only [encodes, snapshot]
  cases here : (if (cs.isSpike cs.latestRTT).1 then res else none) with
  | none => rfl
  | some r =>
    have all := finitePct r here
    simp only [encodes, Bool.and_eq_true] at all
    simp [all]

theorem published_encodes {s : System} {now : Time} {order : List ConnKey} {snap : StatSnapshot}
    (finite : FiniteResources s) (member : snap ∈ (publishSnapshots order now s.machine.proc).2) :
    encodes (.stats snap) = true := by
  obtain ⟨k, _, made⟩ := List.mem_filterMap.mp member
  obtain ⟨cs, _, made⟩ := Option.bind_eq_some_iff.mp made
  cases made
  exact snapshot_encodes fun r found => finite k.dst r found

theorem fair_smooth {s : System} {l : Label} (finite : FiniteResources s) (fair : Fair s l) :
    Smooth arrowFree exactNumbers s l := by
  cases l with
  | input i =>
    cases i with
    | event a now e => exact fair
    | tick now order => exact fun snap member => ⟨published_encodes finite member, fair snap member⟩
    | closed now order =>
      exact fun snap member => ⟨published_encodes finite member, fair snap member⟩
    | sweep now order flowOrder => exact fair
    | resource r =>
      intro none
      cases none
  | runOp => exact fair
  | resOp => exact fair
  | receive => exact fair
  | write now => exact fair
  | register order => exact fair
  | disconnect => exact fair

theorem finite_step {s t : System} {l : Label} {o : List Traffic} (finite : FiniteResources s)
    (fair : Fair s l) (taken : step s l = some (t, o)) : FiniteResources t := by
  cases step_move taken with
  | publish i now order running kind idle visit => exact finite
  | sweep now order flowOrder idle visit => exact finite
  | event a now e idle => exact finite
  | resource r idle =>
    intro name r' found
    by_cases mine : name = r.serviceName
    · subst mine
      cases (Finmap.lookup_insert s.machine.proc.resources).symm.trans found
      exact fair
    · exact finite name r' ((Finmap.lookup_insert_of_ne _ mine).symm.trans found)
  | apply a now e rest next =>
    intro name r found
    rw [applyEvent_resources] at found
    exact finite name r found
  | runCall call rest t o next made =>
    rw [FiniteResources, (call_keeps made).1]
    exact finite
  | resCall call rest t o next made =>
    rw [FiniteResources, (call_keeps made).1]
    exact finite
  | receive m rest free next => exact finite
  | write now m held => exact finite
  | register order away visit => exact finite
  | disconnect there => exact finite

theorem fair_step {s t : System} {l : Label} {o : List Traffic} (finite : FiniteResources s)
    (taken : restrict Fair step s l = some (t, o)) :
    restrict (Smooth arrowFree exactNumbers) step s l = some (t, o) ∧ FiniteResources t := by
  obtain ⟨fair, taken⟩ := restrict_iff.mp taken
  exact ⟨restrict_iff.mpr ⟨fair_smooth finite fair, taken⟩, finite_step finite fair taken⟩

theorem opened_run {s t : System} {ls : List Label} {out : List Traffic}
    (opened : s.client = .opened) (new : ∀ l ∈ ls, ∀ order, l ≠ .register order)
    (run : exec step s ls = some (t, out)) : t.client = .opened := by
  induction ls generalizing s out with
  | nil =>
    obtain ⟨rfl, _⟩ := exec_nil_iff.mp run
    exact opened
  | cons l ls ih =>
    obtain ⟨u, now, later, first, rest, _⟩ := exec_cons_iff.mp run
    have away : s.client.connected = false := congrArg Client.connected opened
    have same := away_step away (new l List.mem_cons_self) first
    exact ih (same.trans opened) (fun l' member => new l' (List.mem_cons_of_mem l member)) rest

theorem append_history_nonempty (cs : ConnStats) (now : Time) :
    ¬ (cs.appendHistory now).history.length = 0 := by
  have last : (cs.appendHistory now).history = cs.history.rtake 3599 ++ [cs.historyPoint now] :=
    (append_history_trimmed cs now).trans (List.rtake_concat_succ cs.history 3599 _)
  simp [last]

section Sessions

variable {names : ConnKey → Bool} {good : StatSnapshot → Bool} (distinct : Distinct names)
  (v : Session (restrict (Smooth names good) step))

include distinct in
/- When a connection is not tracked, hearing everything up to that moment leaves an empty
   life, whatever the history message held. -/
theorem Session.metrics_created {k : ConnKey} (mine : names k = true)
    (new : v.joining.client.history = ∅)
    (created : Passes step v.joined v.between fun u => k ∉ u.conns) :
    v.shown.client.metrics k.text = life (Metrics.js ∘ snapshotMetrics) maxHistory []
      (told k.text v.published (v.first ++ v.second)) := by
  obtain ⟨as, bs, u, o, split, run, absent⟩ := created
  obtain ⟨u', o₁, o₂, run', rest, second⟩ := exec_append_iff.mp (split ▸ v.waits)
  have plain := exec_mono (fun taken => (restrict_iff.mp taken).2) run'
  cases run.symm.trans plain
  have joined := v.sound_joined distinct
  have middle := sound_run distinct joined run'
  obtain ⟨early, toldEarly⟩ := told_run distinct joined run' k.text
  obtain ⟨late, toldLate⟩ := told_run distinct middle rest k.text
  rw [List.append_assoc, ← second] at toldLate
  have grown := toldLate.trans (congrArg (· ++ late) toldEarly)
  rw [List.append_assoc] at grown
  have silent := middle.story.untracked k mine (Finmap.lookup_eq_none.mpr absent)
  rw [toldEarly, v.told_joined distinct, List.append_assoc] at silent
  obtain ⟨client, visit, _⟩ := v.joined_client
  have sent := metrics_join distinct (v.sound_joining distinct).story visit mine
    fun _ member => Finmap.notMem_empty (new ▸ member)
  rw [← client, told_inFlight (v.sound_joining distinct).flow] at sent
  have heard := v.heard_eq distinct grown
  rw [(Prod.mk.inj (v.shown_client distinct k.text)).2, v.told_published distinct, heard, sent]
  simpa only [List.append_assoc] using life_overlap silent

include distinct in
theorem Session.keys_of_new (new : v.joining.client.snapshots = ∅) (key : String) :
    key ∈ v.shown.client.snapshots ↔ ∃ k ∈ v.publishing.conns, k.text = key := by
  have nothing : key ∉ v.joining.client.snapshots := by
    rw [new]
    exact Finmap.notMem_empty
  rw [v.shown_iff distinct key]
  exact or_iff_left fun kept => nothing kept.1

include distinct in
theorem Session.snapshot_of_published {snap : StatSnapshot}
    (exact : ∀ snap, good snap = true → decodeStats snap = snap)
    (member : snap ∈ (publishSnapshots v.order v.now v.publishing.machine.proc).2) :
    v.shown.client.snapshots.lookup (snapshotKey snap) = some snap := by
  obtain ⟨smooth, taken⟩ := restrict_iff.mp v.publishes
  obtain ⟨k, cs, found, made⟩ := (mem_rangeCollect _ (publish_taken v.kind taken).1 snap).mp member
  have sound := (smooth_publish v.kind smooth snap member).2
  cases made
  rw [← exact _ sound]
  exact v.shown_tracked distinct found

include distinct in
theorem Session.history_of_created {k : ConnKey} (member : k ∈ v.publishing.conns)
    (exact : ∀ snap, good snap = true → decodeStats snap = snap)
    (new : v.joining.client.history = ∅)
    (created : Passes step v.joined v.between fun u => k ∉ u.conns) :
    ∃ points,
      (∀ order, Enumerates order v.published.conns →
        (getHistory order v.published.machine.proc).filter (fun conn => conn.key = k.text) =
          [⟨k.text, points⟩]) ∧
      v.shown.client.metrics k.text = points.map pointMetrics ∧
      v.shown.client.metrics k.text =
        ((lastLife (words k.text (sent (v.first ++ v.second ++ v.third)))).map
          snapshotMetrics).rtake maxHistory := by
  obtain ⟨cs, here⟩ := Finmap.mem_iff.mp member
  obtain ⟨visit, proc⟩ := publish_taken v.kind (restrict_iff.mp v.publishes).2
  have found : v.published.machine.proc.conns.lookup k = some (cs.appendHistory v.now) := by
    rw [proc, conn_after_tick visit]
    exact congrArg (Option.map _) here
  have story := (v.sound_published distinct).story
  have mine := story.named k (Finmap.mem_of_lookup_eq_some found)
  have heard : v.shown.client.metrics k.text = life snapshotMetrics maxHistory []
      (told k.text v.published (v.first ++ v.second)) := by
    rw [v.metrics_created distinct mine new created]
    apply life_congr
    intro snap said
    exact congrArg snapshotMetrics (exact snap (story.allGood k.text snap said))
  refine ⟨(cs.appendHistory v.now).history, ?_, ?_, ?_⟩
  · intro order visited
    rw [history_entries distinct story.named visited mine, found, Option.bind_some,
      if_neg (append_history_nonempty cs v.now), Option.toList_some]
  · exact heard.trans (story.tracked k _ found)
  · rw [heard, v.told_sent distinct, life_eq_lastLife]

end Sessions

/-- The dashboard mirrors the collector. -/
theorem dashboard_mirrors_collector (v : Session (restrict Fair step))
    (new : ∀ l ∈ v.before, ∀ order, l ≠ .register order) :
    (∀ key, key ∈ v.shown.client.snapshots ↔ ∃ k ∈ v.publishing.conns, k.text = key) ∧
    (∀ snap ∈ (publishSnapshots v.order v.now v.publishing.machine.proc).2,
      v.shown.client.snapshots.lookup (snapshotKey snap) = some snap) ∧
    ∀ k ∈ v.publishing.conns, Passes step v.joined v.between (fun u => k ∉ u.conns) →
      ∃ points,
        (∀ order, Enumerates order v.published.conns →
          (getHistory order v.published.machine.proc).filter (fun conn => conn.key = k.text) =
            [⟨k.text, points⟩]) ∧
        v.shown.client.metrics k.text = points.map pointMetrics ∧
        v.shown.client.metrics k.text =
          ((lastLife (words k.text (sent (v.first ++ v.second ++ v.third)))).map
            snapshotMetrics).rtake maxHistory := by
  have joining := exec_mono (fun taken => (restrict_iff.mp taken).2) v.reaches
  have opened : v.joining.client = .opened := opened_run rfl new joining
  let w : Session (restrict (Smooth arrowFree exactNumbers) step) :=
    v.refine fair_step finite_start
  refine ⟨?_, ?_, ?_⟩
  · exact w.keys_of_new arrow_free_distinct (congrArg Client.snapshots opened)
  · intro snap member
    exact w.snapshot_of_published arrow_free_distinct (fun _ => exact_decoded) member
  · intro k member created
    exact w.history_of_created arrow_free_distinct member (fun _ => exact_decoded)
      (congrArg Client.history opened) created

theorem there_from_the_start :
    ∃ v : Session (restrict Fair step), v.before = [] ∧ checkout ∉ v.joined.conns ∧
      v.publishing.conns.keys = {checkout} :=
  ⟨⟨false, 0, [], _, _, rfl, [], _, rfl, checkoutTracked, _, _, rfl, 2, [checkout],
    .tick 2 [checkout], .inl rfl, _, rfl, [.runOp], _, _, rfl, by decide, rfl,
    [.receive, .write ⟨7, 7, 7⟩], _, _, rfl, rfl, by decide⟩, rfl, by decide, by decide⟩

theorem first_connection_mirrored :
    ∃ v : Session (restrict Fair step), v.publishing.conns.keys = {checkout} ∧
      (∀ key, key ∈ v.shown.client.snapshots ↔ ∃ k ∈ v.publishing.conns, k.text = key) ∧
      ∃ points,
        (∀ order, Enumerates order v.published.conns →
          (getHistory order v.published.machine.proc).filter
            (fun conn => conn.key = checkout.text) = [⟨checkout.text, points⟩]) ∧
        v.shown.client.metrics checkout.text = points.map pointMetrics := by
  obtain ⟨v, start, untracked, only⟩ := there_from_the_start
  have new : ∀ l ∈ v.before, ∀ order, l ≠ .register order := by
    rw [start]
    intro l member
    cases member
  have tracked : checkout ∈ v.publishing.conns := by
    rw [← Finmap.mem_keys, only]
    exact Finset.mem_singleton_self checkout
  obtain ⟨keys, _, created⟩ := dashboard_mirrors_collector v new
  obtain ⟨points, entry, shown, _⟩ := created checkout tracked (passes_first untracked)
  exact ⟨v, only, keys, points, entry, shown⟩

end Dashboard
