import MicroTrace.Dashboard.Story

/- A dashboard that stays connected hears every message from its registration on. What was
   in flight when it registered it hears although the history it was sent accounts for it. -/
namespace Dashboard
open CollectorModel CollectorStats RangeLoops Runs Lives

def inFlight (s : System) : List OutboundMsg := s.hand.toList ++ s.queue ++ pending s.runOps

theorem told_inFlight {s : System} {out : List Traffic} (flow : Flow s out) (key : String) :
    told key s out = words key (written out) ++ words key (inFlight s) := by
  simp only [told, inFlight, flow.fifo, words_append, List.append_assoc]

def listen (key : String) (c : Client) (ms : List OutboundMsg) :
    Option StatSnapshot × List Metrics :=
  (current decodeStats (c.snapshots.lookup key) (words key ms),
    life (Metrics.js ∘ snapshotMetrics) maxHistory (c.metrics key) (words key ms))

section Steps

variable {names : ConnKey → Bool} {good : StatSnapshot → Bool} {s t : System} {l : Label}
  {out o : List Traffic}

theorem listen_step (flow : Flow s out) (there : s.client.connected = true)
    (stays : l ≠ .disconnect) (taken : step s l = some (t, o)) :
    t.client.connected = true ∧ ∀ key, (t.client.snapshots.lookup key, t.client.metrics key) =
      listen key s.client (written o) := by
  have still : ∀ u : System, u.client = s.client → ∀ w : List Traffic, written w = [] →
      u.client.connected = true ∧ ∀ key, (u.client.snapshots.lookup key, u.client.metrics key) =
        listen key s.client (written w) := by
    intro u same w none
    rw [same, none]
    exact ⟨there, fun key => rfl⟩
  cases step_move taken with
  | publish i now order running kind idle visit => exact still _ rfl [] rfl
  | sweep now order flowOrder idle visit => exact still _ rfl [] rfl
  | event a now e idle => exact still _ rfl [] rfl
  | resource r idle => exact still _ rfl [] rfl
  | apply a now e rest next => exact still _ rfl [] rfl
  | runCall call rest t o next made =>
    obtain ⟨_, _, same, none⟩ := call_keeps made
    exact still t same o none
  | resCall call rest t o next made =>
    obtain ⟨_, _, same, none⟩ := call_keeps made
    exact still t same o none
  | receive m rest free next => exact still _ rfl [] rfl
  | write now m held =>
    have streamed : OutboundMsg.streamed m = true := by
      apply flow.streamed
      rw [flow.fifo, held]
      simp
    simp only [there, if_true]
    constructor
    · cases m with
      | event raw => exact there
      | stats snap => exact there
      | resource r => exact there
      | history h => cases streamed
      | remove key =>
        simp only [Client.onmessage, Client.onRemove]
        split <;> exact there
    · intro key
      rw [written_written, listen, ← snapshots_onmessage now s.client key streamed,
        ← metrics_onmessage now s.client key streamed]
  | register order away visit => exact absurd (there.symm.trans away) (by decide)
  | disconnect _ => exact absurd rfl stays

end Steps

theorem listen_append (key : String) (c d : Client) (ms ns : List OutboundMsg)
    (middle : (d.snapshots.lookup key, d.metrics key) = listen key c ms) :
    listen key d ns = listen key c (ms ++ ns) := by
  obtain ⟨snapshots, metrics⟩ := Prod.mk.inj middle
  simp only [listen, words_append, current_append, life_append, snapshots, metrics]

theorem listen_run {names : ConnKey → Bool} {good : StatSnapshot → Bool}
    (distinct : Distinct names) {s t : System} {ls : List Label} {out o : List Traffic}
    (sound : Sound names good s out) (there : s.client.connected = true)
    (stays : ∀ l ∈ ls, l ≠ .disconnect)
    (run : exec (restrict (Smooth names good) step) s ls = some (t, o)) (key : String) :
    (t.client.snapshots.lookup key, t.client.metrics key) = listen key s.client (written o) := by
  induction ls generalizing s out o with
  | nil =>
    obtain ⟨rfl, rfl⟩ := exec_nil_iff.mp run
    rfl
  | cons l ls ih =>
    obtain ⟨u, now, later, first, rest, rfl⟩ := exec_cons_iff.mp run
    have next := sound_run distinct sound (exec_single_iff.mpr first)
    obtain ⟨still, heard⟩ := listen_step sound.flow there (stays l List.mem_cons_self)
      (restrict_iff.mp first).2
    rw [written_append, ih next still (fun l' member => stays l' (List.mem_cons_of_mem _ member))
      rest]
    exact listen_append key s.client u.client (written now) (written later) (heard key)

theorem lookup_history (h : List ConnHistory) (key : String) (start : Record (List HistoryPoint)) :
    (h.foldl (fun next conn => next.insert conn.key (conn.points.map decodePoint)) start).lookup
        key =
      match (h.filter fun conn => conn.key = key).getLast? with
      | some conn => some (conn.points.map decodePoint)
      | none => start.lookup key := by
  induction h using List.reverseRecOn with
  | nil => rfl
  | append_singleton h conn ih =>
    rw [List.foldl_append, List.filter_append]
    by_cases mine : conn.key = key
    · subst mine
      simp
    · rw [List.foldl_cons, List.foldl_nil, Finmap.lookup_insert_of_ne _ (Ne.symm mine), ih]
      simp [mine]

theorem history_entries {names : ConnKey → Bool} {p : Processor} {order : List ConnKey}
    (distinct : Distinct names) (named : ∀ k ∈ p.conns, names k = true)
    (visit : Enumerates order p.conns) {k : ConnKey} (mine : names k = true) :
    (getHistory order p).filter (fun conn => conn.key = k.text) =
      ((p.conns.lookup k).bind fun cs =>
        if cs.history.length = 0 then none else some ⟨k.text, cs.history⟩).toList := by
  apply filter_rangeCollect_of _ _ visit
  intro j cs conn found made
  split at made
  · cases made
  · cases made
    have other := named j (Finmap.mem_of_lookup_eq_some found)
    rw [decide_eq_true_iff]
    exact ⟨distinct j k other mine, fun same => same ▸ rfl⟩

theorem metrics_js_point (points : List HistoryPoint) :
    (points.map decodePoint).map pointMetrics = (points.map pointMetrics).map Metrics.js := by
  simp [Function.comp_def, decodePoint, pointMetrics, Metrics.js]

end Dashboard
