import MicroTrace.Agent.Pipe
import MicroTrace.Collector.Measured
import MicroTrace.Dashboard.Fleet
import MicroTrace.Dashboard.Mirror
import MicroTrace.Hub.Passing

/- From the kernel to the screen. The sockets of a host, the agent, the pipe, the Processor, the
   hub and its dashboards: what a dashboard shows of an edge was measured for a socket whose
   addresses had the names of the edge. Messages may get lost on the way, but none is made up. -/
namespace Dashboard
open CollectorModel CollectorStats RangeLoops Runs Lives
open CollectorHub (Hub Passing)

section Shown

variable {F : FloatText} {E : ConnKey → Nat → Prop} {v : Client}

def Client.Honest (E : ConnKey → Nat → Prop) (v : Client) : Prop :=
  ∀ key s, v.snapshots.lookup key = some s →
    ∃ snap, Measured E snap ∧ snapshotKey snap = key ∧ s = decodeStats snap

def OutboundMsg.Honest (E : ConnKey → Nat → Prop) : OutboundMsg → Prop
  | .stats s => Measured E s
  | _ => True

def Faithful (F : FloatText) (E : ConnKey → Nat → Prop) (data : Frame) : Prop :=
  ∀ m ∈ readFrame F data, OutboundMsg.Honest E m

theorem faithful_marshal {m : OutboundMsg} {data : Frame} (honest : OutboundMsg.Honest E m)
    (made : marshal F m = some data) (carries : F.Carries m) : Faithful F E data := by
  intro n read
  rw [readFrame_marshal made carries] at read
  obtain ⟨_, same⟩ := Option.ite_none_right_eq_some.mp read
  exact Option.some.inj same ▸ honest

theorem honest_onmessage {m : OutboundMsg} (held : v.Honest E) (honest : OutboundMsg.Honest E m)
    (now : Clock) : (v.onmessage now m).Honest E := by
  intro key s found
  by_cases streamed : OutboundMsg.streamed m = true
  · rw [snapshots_onmessage now v key streamed] at found
    cases m with
    | stats snap =>
      by_cases mine : snapshotKey snap = key
      · subst mine
        rw [words_own_stats] at found
        exact ⟨snap, honest, rfl, (Option.some.inj found).symm⟩
      · rw [words_other_stats mine] at found
        exact held key s found
    | remove removed =>
      by_cases mine : removed = key ∧ removed ≠ ""
      · obtain ⟨rfl, some⟩ := mine
        rw [words_removed some] at found
        cases found
      · rw [words_other_removed mine] at found
        exact held key s found
    | _ => exact held key s found
  · cases m with
    | history h => exact held key s found
    | _ => exact absurd rfl streamed

theorem honest_receive {data : Frame} (held : v.Honest E) (faithful : Faithful F E data)
    (now : Clock) : (v.receive F now data).Honest E := by
  unfold Client.receive
  split
  · rename_i m read
    exact honest_onmessage held (faithful m read) now
  · exact held

variable {Conn : Type} [DecidableEq Conn] {clients : Conn → Client}

theorem honest_hear {e : Event Conn} (held : ∀ c, (clients c).Honest E)
    (faithful : ∀ w c data, e = .ended w c data true → Faithful F E data) (now : Clock) :
    ∀ c, (hear F now clients e c).Honest E := by
  intro c
  unfold hear
  split
  · rename_i d history
    by_cases same : c = d
    · subst same
      rw [Function.update_self]
      exact held c
    · rw [Function.update_of_ne same]
      exact held c
  · rename_i w d data
    by_cases same : c = d
    · subst same
      rw [Function.update_self]
      exact honest_receive (held c) (faithful w c data rfl) now
    · rw [Function.update_of_ne same]
      exact held c
  · exact held c

theorem honest_heard {o : List (Event Conn)} (held : ∀ c, (clients c).Honest E)
    (faithful : ∀ w c data, .ended w c data true ∈ o → Faithful F E data) (now : Clock) :
    ∀ c, (o.foldl (hear F now) clients c).Honest E := by
  induction o generalizing clients with
  | nil => exact held
  | cons e o ih =>
    refine ih (honest_hear held ?_ now) ?_
    · rintro w c data rfl
      exact faithful w c data List.mem_cons_self
    · intro w c data member
      exact faithful w c data (List.mem_cons_of_mem e member)

end Shown

section Fleets

variable {Conn : Type} [DecidableEq Conn] {F : FloatText} {E : ConnKey → Nat → Prop}
  {f g : Fleet Conn} {o : List (Event Conn)}

def Act.Admits (E : ConnKey → Nat → Prop) : Act Conn → Prop
  | .input (.event a _ e) => Adds E a e
  | _ => True

/-- What is sampled, what is about to be, what is on its way and what is shown is measured. -/
structure Honest (F : FloatText) (E : ConnKey → Nat → Prop) (f : Fleet Conn) : Prop where
  samples : SamplesAmong E f.machine.proc
  applying : ∀ a now e, .apply a now e ∈ f.runOps → Adds E a e
  runOps : ∀ op ∈ f.runOps, ∀ m ∈ op.message, OutboundMsg.Honest E m
  resOps : ∀ call ∈ f.resOps, ∀ m ∈ call.broadcast, OutboundMsg.Honest E m
  passing : Passing (Faithful F E) f.hub
  shown : ∀ c, (f.clients c).Honest E

theorem honest_start (storing : Bool) (clock : Time) : Honest F E (.start Conn storing clock) where
  samples := among_new storing
  applying _ _ _ member := by cases member
  runOps _ member := by cases member
  resOps _ member := by cases member
  passing := CollectorHub.passing_new
  shown _ _ _ found := by cases found

omit [DecidableEq Conn] in
theorem honest_input {i : Input} {s : System} (honest : Honest F E f)
    (admits : (Act.input i : Act Conn).Admits E) (accepted : f.collector.accept i = some s) :
    Honest F E { f with machine := s.machine, runOps := s.runOps, resOps := s.resOps } := by
  obtain ⟨samples, applying, runOps, resOps, passing, shown⟩ := honest
  cases accept_move accepted with
  | publish i now order running kind idle visit =>
    refine ⟨among_tick samples visit, ?_, ?_, resOps, passing, shown⟩
    · intro a now e member
      simp at member
    · intro op member m said
      obtain ⟨call, there, rfl⟩ := List.mem_map.mp member
      obtain ⟨snap, published, either⟩ := List.mem_flatMap.mp there
      rcases List.mem_cons.mp either with rfl | stored
      · cases said
        exact measured_published now visit samples snap published
      · obtain ⟨_, stored⟩ := List.mem_ite_nil_right.mp stored
        cases List.mem_singleton.mp stored
        cases said
  | sweep now order flowOrder idle visit =>
    refine ⟨among_sweep samples visit, ?_, ?_, resOps, passing, shown⟩
    · intro a now e member
      simp at member
    · intro op member m said
      simp only [List.map_map, List.mem_map] at member
      obtain ⟨k, _, rfl⟩ := member
      cases said
      trivial
  | event a now e idle =>
    refine ⟨samples, ?_, ?_, resOps, passing, shown⟩
    · intro b later e' member
      simp only [List.mem_cons, reduceCtorEq, RunOp.apply.injEq, List.not_mem_nil, or_false,
        false_or] at member
      obtain ⟨rfl, rfl, rfl⟩ := member
      exact admits
    · intro op member m said
      rcases List.mem_cons.mp member with rfl | applied
      · cases said
        trivial
      · cases List.mem_singleton.mp applied
        cases said
  | resource r idle =>
    refine ⟨samples, applying, runOps, ?_, passing, shown⟩
    intro call member m said
    rcases List.mem_cons.mp member with rfl | stored
    · cases said
      trivial
    · obtain ⟨_, stored⟩ := List.mem_ite_nil_right.mp stored
      cases List.mem_singleton.mp stored
      cases said

omit [DecidableEq Conn] in
theorem brought_accept {h : Hub Conn Frame} {m : OutboundMsg} (honest : OutboundMsg.Honest E m)
    (carries : F.Carries m) : ∀ e ∈ (h.accept (marshal F) m).2, ∀ data ∈ e.brought,
      Faithful F E data := by
  unfold Hub.accept
  cases made : marshal F m with
  | none => simp
  | some data =>
    have faithful := faithful_marshal honest made carries
    dsimp only
    split
    · simpa [CollectorHub.Traffic.brought] using faithful
    · simp

theorem honest_call {call : Emission} (honest : Honest F E f)
    (word : ∀ m ∈ call.broadcast, OutboundMsg.Honest E m)
    (carries : ∀ m ∈ call.broadcast, F.Carries m) (made : f.call F call = (g, o)) :
    Honest F E g := by
  unfold Fleet.call at made
  split at made
  · rename_i m said
    cases made
    have taken : CollectorHub.step (marshal F) f.hub (.broadcast m) =
        some (f.hub.accept (marshal F) m) := rfl
    have move := CollectorHub.step_move taken
    have brought := brought_accept (h := f.hub) (word m said) (carries m said)
    exact ⟨honest.samples, honest.applying, honest.runOps, honest.resOps,
      CollectorHub.passing_step honest.passing brought move, honest.shown⟩
  · cases made
    exact honest

theorem faithful_history {history : Option (List ConnHistory)} {data : Frame}
    (made : CollectorHub.historyMsg (marshal F) history = some data) : Faithful F E data := by
  unfold CollectorHub.historyMsg at made
  split at made
  · cases made
  · obtain ⟨_, made⟩ := Option.ite_none_right_eq_some.mp made
    exact faithful_marshal (m := .history _) trivial made nofun

theorem honest_hubStep {l : CollectorHub.Label Conn} {now : Clock} (honest : Honest F E f)
    (brought : ∀ e ∈ o, ∀ data ∈ e.brought, Faithful F E data)
    (taken : f.hubStep F l now = some (g, o)) : Honest F E g := by
  obtain ⟨⟨h, told⟩, moved, made⟩ := Option.map_eq_some_iff.mp taken
  cases made
  have move := CollectorHub.step_move moved
  obtain ⟨samples, applying, runOps, resOps, passing, shown⟩ := honest
  refine ⟨samples, applying, runOps, resOps, CollectorHub.passing_step passing brought move,
    honest_heard shown ?_ now⟩
  intro w c data member
  exact CollectorHub.written_passed passing move member

omit [DecidableEq Conn] in
theorem brought_nothing (accepted : ∀ data, .accepted data ∉ o)
    (registered : ∀ c history, .registered c history ∉ o) :
    ∀ e ∈ o, ∀ data ∈ e.brought, Faithful F E data := by
  intro e member data brought
  cases e with
  | accepted data => exact absurd member (accepted data)
  | registered c history => exact absurd member (registered c history)
  | _ => cases brought

omit [DecidableEq Conn] in
theorem honest_runOp {op : RunOp} {rest : List RunOp} (honest : Honest F E f)
    (next : f.runOps = op :: rest) : Honest F E { f with runOps := rest } where
  samples := honest.samples
  applying a now e member := honest.applying a now e (next ▸ List.mem_cons_of_mem op member)
  runOps op' member := honest.runOps op' (next ▸ List.mem_cons_of_mem op member)
  resOps := honest.resOps
  passing := honest.passing
  shown := honest.shown

omit [DecidableEq Conn] in
theorem honest_resOp {call : Emission} {rest : List Emission} (honest : Honest F E f)
    (next : f.resOps = call :: rest) : Honest F E { f with resOps := rest } where
  samples := honest.samples
  applying := honest.applying
  runOps := honest.runOps
  resOps call' member := honest.resOps call' (next ▸ List.mem_cons_of_mem call member)
  passing := honest.passing
  shown := honest.shown

/-- The numbers of what is broadcast are read back as they are written. -/
def Readable (F : FloatText) (f : Fleet Conn) (l : Act Conn) : Prop :=
  ∀ m ∈ f.speaks l, F.Carries m

instance (f : Fleet Conn) (l : Act Conn) : Decidable (Readable F f l) :=
  inferInstanceAs (Decidable (∀ m ∈ f.speaks l, _))

theorem honest_step {l : Act Conn} (honest : Honest F E f) (admits : l.Admits E)
    (readable : Readable F f l) (taken : f.step F l = some (g, o)) : Honest F E g := by
  cases l with
  | input i =>
    obtain ⟨s, accepted, made⟩ := Option.map_eq_some_iff.mp taken
    cases made
    exact honest_input honest admits accepted
  | runOp =>
    cases next : f.runOps with
    | nil => simp [Fleet.step, next] at taken
    | cons op rest =>
      have first : op ∈ f.runOps := next ▸ List.mem_cons_self
      simp only [Fleet.step, next] at taken
      cases op with
      | send call =>
        have carries : ∀ m ∈ (RunOp.send call).message, F.Carries m := by
          simpa [Readable, Fleet.speaks, broadcasts, Fleet.collector, next] using readable
        exact honest_call (honest_runOp honest next) (honest.runOps _ first) carries
          (Option.some.inj taken)
      | apply a now e =>
        cases taken
        have adds : Adds E a e := honest.applying a now e first
        obtain ⟨samples, applying, runOps, resOps, passing, shown⟩ := honest_runOp honest next
        exact ⟨among_event samples adds, applying, runOps, resOps, passing, shown⟩
  | resOp =>
    cases next : f.resOps with
    | nil => simp [Fleet.step, next] at taken
    | cons call rest =>
      have first : call ∈ f.resOps := next ▸ List.mem_cons_self
      simp only [Fleet.step, next] at taken
      have carries : ∀ m ∈ call.broadcast, F.Carries m := by
        simpa [Readable, Fleet.speaks, broadcasts, Fleet.collector, next] using readable
      exact honest_call (honest_resOp honest next) (honest.resOps call first) carries
        (Option.some.inj taken)
  | run a now =>
    refine honest_hubStep honest ?_ taken
    obtain ⟨_, moved, made⟩ := Option.map_eq_some_iff.mp taken
    cases made
    obtain ⟨accepted, registered, _⟩ := run_tells moved
    exact brought_nothing accepted registered
  | register d order =>
    obtain ⟨_, taken⟩ := Option.ite_none_right_eq_some.mp taken
    refine honest_hubStep honest ?_ taken
    obtain ⟨⟨h, told⟩, moved, made⟩ := Option.map_eq_some_iff.mp taken
    cases made
    simp only [CollectorHub.step, Hub.serve] at moved
    split at moved
    · cases moved
      exact List.forall_mem_singleton.mpr fun data there =>
        faithful_history (Option.mem_toList.mp there)
    · cases moved
  | serve d a now =>
    have other : ∀ history, a ≠ .register history := by
      rintro history rfl
      cases taken
    rw [step_serve other] at taken
    refine honest_hubStep honest ?_ taken
    obtain ⟨_, moved, made⟩ := Option.map_eq_some_iff.mp taken
    cases made
    obtain ⟨accepted, registered⟩ := serve_tells other moved
    exact brought_nothing accepted registered

theorem honest_run {storing : Bool} {clock : Time} {ls : List (Act Conn)}
    (admits : ∀ l ∈ ls, l.Admits E)
    (run : exec (restrict (Readable F) (Fleet.step F)) (.start Conn storing clock) ls =
      some (f, o)) : Honest F E f := by
  refine exec_history (I := fun ls f _ => (∀ l ∈ ls, l.Admits E) → Honest F E f)
    (fun _ => honest_start storing clock) ?_ run admits
  intro ls f g l _ o _ held taken admits
  obtain ⟨earlier, last⟩ := List.forall_mem_append.mp admits
  obtain ⟨readable, taken⟩ := restrict_iff.mp taken
  exact honest_step (held earlier) (last l List.mem_cons_self) readable taken

end Fleets

section Kernel

open AgentSockOps
open AgentOutput (host handleEvent readStream pbEvent blank Codec)

variable {Sock Conn : Type} [DecidableEq Sock] [DecidableEq Conn]

theorem latency_reported {st : Stimulus} {e : RingEvent} (reported : e ∈ st.report)
    (sampled : Event.sampled (AgentOutput.delivered e)) :
    (AgentOutput.delivered e).latencyUs = srttReal st.view := by
  have some : 0 < (AgentOutput.delivered e).latencyUs.toNat := sampled.2
  unfold Stimulus.report at reported
  split at reported
  · cases List.mem_singleton.mp reported
    rfl
  · cases List.mem_singleton.mp reported
    rfl
  · cases List.mem_singleton.mp reported
    exact absurd some (Nat.lt_irrefl 0)
  · cases reported

def Act.event? : Act Conn → Option CollectorModel.Event
  | .input (.event _ _ e) => some e
  | _ => none

/-- The kernel had this smoothed round trip time for a socket when the event was submitted that
    the collector has counted for the connection. -/
def Traced (labels : List (Sock × Stimulus)) (events : List RingEvent) (ls : List (Act Conn))
    (k : ConnKey) (us : Nat) : Prop :=
  ∃ l ∈ labels, us = (srttReal l.2.view).toNat ∧ ∃ e ∈ l.2.report, e ∈ events ∧
    ∃ a now, .input (.event a now (AgentOutput.delivered e)) ∈ ls ∧ a.connKey = k

variable {labels : List (Sock × Stimulus)} {events : List RingEvent} {ls : List (Act Conn)}

omit [DecidableEq Conn] in
theorem traced_admits {socks socks' : Sock → Socket}
    (submitted : exec host socks labels = some (socks', events))
    (fed : ∀ ev ∈ ls.filterMap Act.event?, ∃ e ∈ events, AgentOutput.delivered e = ev) :
    ∀ l ∈ ls, l.Admits (Traced labels events ls) := by
  intro l member
  cases l with
  | input i =>
    cases i with
    | event a now ev =>
      intro sampled
      obtain ⟨e, there, rfl⟩ := fed ev (List.mem_filterMap.mpr ⟨_, member, rfl⟩)
      obtain ⟨l, stimulus, reported⟩ := AgentOutput.host_reported submitted e there
      have latency := latency_reported reported sampled
      exact ⟨l, stimulus, congrArg UInt64.toNat latency, e, reported, there, a, now, member, rfl⟩
    | _ => trivial
  | _ => trivial

omit [DecidableEq Sock] [DecidableEq Conn] in
theorem traced_small {k : ConnKey} {us : Nat} (traced : Traced labels events ls k us) :
    us < 2 ^ 53 := by
  obtain ⟨l, _, rfl, _⟩ := traced
  exact Nat.lt_trans (AgentOutput.srtt_small l.2.view) (by decide)

omit [DecidableEq Sock] [DecidableEq Conn] in
theorem measured_decoded {snap : StatSnapshot}
    (measured : Measured (Traced labels events ls) snap) :
    StatSnapshot.latencies (decodeStats snap) = StatSnapshot.latencies snap ∧
      (decodeStats snap).sampleCount = snap.sampleCount := by
  have small : ∀ us ∈ StatSnapshot.latencies snap, us < 2 ^ 53 := by
    intro us member
    by_cases count : snap.sampleCount = 0
    · rw [measured.unsampled count us member]
      decide
    · exact traced_small (measured.sampled count us member)
  simp only [StatSnapshot.latencies, List.forall_mem_cons] at small
  obtain ⟨latest, p50, p95, p99, _⟩ := small
  have count : snap.sampleCount < 2 ^ 53 := Nat.lt_of_le_of_lt measured.count_le (by decide)
  refine ⟨?_, jsNat_exact count⟩
  simp only [StatSnapshot.latencies, decodeStats, jsNat_exact latest, jsNat_exact p50,
    jsNat_exact p95, jsNat_exact p99]

/-- Sockets of a host in any order, an agent whose output ends anywhere, a collector that has
    counted some of the events, a full channel, dashboards that come and go and writes that fail:
    every latency that a dashboard shows for an edge is one that the kernel had for a socket
    between services of these names, as it was. -/
theorem shown_measured {F : FloatText} {families : Sock → UInt32} {socks : Sock → Socket}
    (submitted : exec host (fun c => .opened (families c)) labels = some (socks, events))
    {pbEncode : AgentOutput.Encoder} {unmarshal : List UInt8 → Option CollectorModel.PbEvent}
    (codec : ∀ e ∈ events, Codec pbEncode unmarshal (pbEvent e)) {wire : AgentOutput.Wire}
    {cut : Nat}
    (fed : ls.filterMap Act.event? <+:
      (readStream wire unmarshal none ((events.flatMap (handleEvent pbEncode wire)).take cut)).sent)
    {storing : Bool} {clock : Time} {f : Fleet Conn} {out : List (Event Conn)}
    (run : exec (restrict (Readable F) (Fleet.step F)) (.start Conn storing clock) ls =
      some (f, out))
    {c : Conn} {key : String} {shown : StatSnapshot}
    (found : (f.clients c).snapshots.lookup key = some shown) :
    (shown.sampleCount = 0 ∧ ∀ us ∈ StatSnapshot.latencies shown, us = 0) ∨
    (shown.sampleCount ≠ 0 ∧ ∀ us ∈ StatSnapshot.latencies shown,
      ∃ k, k.text = key ∧ Traced labels events ls k us) := by
  have unnamed := fun e member =>
    AgentOutput.filled_blank (AgentOutput.host_filled submitted e member)
  obtain ⟨exit, read⟩ := AgentOutput.read_arrived unnamed codec wire cut none
  have counted : ∀ ev ∈ ls.filterMap Act.event?, ∃ e ∈ events, AgentOutput.delivered e = ev := by
    intro ev member
    have sent := fed.subset member
    rw [read, CollectorAgent.upTo_none] at sent
    obtain ⟨e, there, same⟩ := List.mem_map.mp sent
    exact ⟨e, List.mem_of_mem_take there, same⟩
  have honest := honest_run (traced_admits submitted counted) run
  obtain ⟨snap, measured, mine, rfl⟩ := honest.shown c key shown found
  obtain ⟨latencies, count⟩ := measured_decoded measured
  rw [latencies, count]
  by_cases unsampled : snap.sampleCount = 0
  · exact .inl ⟨unsampled, measured.unsampled unsampled⟩
  · refine .inr ⟨unsampled, ?_⟩
    intro us member
    exact ⟨StatSnapshot.connKey snap, mine, measured.sampled unsampled us member⟩

def checkoutView : SockView := ⟨40001, 0x0100000A, 0x0200000A, 0x50000000, 2000, 250⟩

def checkoutEvent : RingEvent := fillEvent checkoutView eventTypeConnect 250

def checkoutEstablished : List (ℕ × Stimulus) := [(1, ⟨.established, checkoutView, true⟩)]

theorem checkout_shown : ∃ f out,
    exec (restrict (Readable wholeText) (Fleet.step wholeText))
      (.start ℕ false 0) twoDashboards = some (f, out) ∧
      ∃ shown, (f.clients 1).snapshots.lookup checkout.text = some shown := by
  have made : ((exec (restrict (Readable wholeText) (Fleet.step wholeText))
      (.start ℕ false 0) twoDashboards).any fun r =>
        ((r.1.clients 1).snapshots.lookup checkout.text).isSome) = true := by decide +kernel
  obtain ⟨⟨f, out⟩, run, there⟩ := (Option.any_eq_true _ _).mp made
  exact ⟨f, out, run, Option.isSome_iff_exists.mp there⟩

theorem checkout_latency_traced : ∃ f out shown,
    exec (restrict (Readable wholeText) (Fleet.step wholeText))
      (.start ℕ false 0) twoDashboards = some (f, out) ∧
    (f.clients 1).snapshots.lookup checkout.text = some shown ∧
    ((shown.sampleCount = 0 ∧ ∀ us ∈ StatSnapshot.latencies shown, us = 0) ∨
    (shown.sampleCount ≠ 0 ∧ ∀ us ∈ StatSnapshot.latencies shown,
      ∃ k, k.text = checkout.text ∧
        Traced checkoutEstablished [checkoutEvent] twoDashboards k us)) := by
  obtain ⟨f, out, run, shown, found⟩ := checkout_shown
  obtain ⟨socks, submitted⟩ : ∃ socks, exec host (fun _ : ℕ => .opened afInet)
      checkoutEstablished = some (socks, [checkoutEvent]) := ⟨_, rfl⟩
  have unnamed : ∀ e ∈ [checkoutEvent], e.comm = blank := by
    simp [checkoutEvent, fillEvent, blank]
  have codec : ∀ e ∈ [checkoutEvent],
      Codec AgentOutput.wireEncode (AgentOutput.decodeOf [checkoutEvent]) (pbEvent e) := by
    simp only [List.forall_mem_cons]
    exact ⟨AgentOutput.wire_codec (by decide) rfl, by simp⟩
  obtain ⟨exit, read⟩ := AgentOutput.read_arrived unnamed codec none
    ([checkoutEvent].flatMap (handleEvent AgentOutput.wireEncode none)).length none
  have brought : twoDashboards.filterMap Act.event? = [AgentOutput.delivered checkoutEvent] := by
    decide +kernel
  have fed : twoDashboards.filterMap Act.event? <+:
      (readStream none (AgentOutput.decodeOf [checkoutEvent]) none
        (([checkoutEvent].flatMap (handleEvent AgentOutput.wireEncode none)).take
          ([checkoutEvent].flatMap (handleEvent AgentOutput.wireEncode none)).length)).sent := by
    rw [read, CollectorAgent.upTo_none, AgentOutput.arrived_all unnamed codec (Nat.le_refl _),
      brought]
    exact List.prefix_rfl
  exact ⟨f, out, shown, run, found, shown_measured submitted codec fed run found⟩

end Kernel

end Dashboard
