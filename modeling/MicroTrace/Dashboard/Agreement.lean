import MicroTrace.Dashboard.Fleet

/- Dashboards side by side. When nothing is on its way any more, what each of them shows is
   tracked by the collector, and of any two one shows all that the other shows. -/
namespace Dashboard
open CollectorModel CollectorStats RangeLoops Runs Lives

section Following

variable {names : ConnKey → Bool} {good : StatSnapshot → Bool} {s t : System} {l : Label}
  {out o : List Traffic}

/-- The dashboard shows what has been written since it registered, or nothing before. -/
def Following (s : System) (out : List Traffic) : Prop :=
  (s.client.connected = false ∧ s.client.snapshots = ∅) ∨
  (s.client.connected = true ∧ ∃ early late, written out = early ++ late ∧
    ∀ key, s.client.snapshots.lookup key = current decodeStats none (words key late))

theorem following_start (storing : Bool) (clock : Time) : Following (.start storing clock) [] :=
  .inl ⟨rfl, rfl⟩

theorem following_still (held : Following s out) (client : t.client = s.client)
    (quiet : written o = []) : Following t (out ++ o) := by
  unfold Following at held ⊢
  rw [client, written_append, quiet, List.append_nil]
  exact held

theorem following_write {m : OutboundMsg} (held : Following s out) (now : Clock)
    (streamed : OutboundMsg.streamed m = true) :
    Following { s with
      hand := none
      client := if s.client.connected then s.client.onmessage now m else s.client }
      (out ++ [.written m]) := by
  rcases held with ⟨off, empty⟩ | ⟨on, early, late, split, shown⟩
  · refine .inl ?_
    simp only [off, Bool.false_eq_true, if_false]
    exact ⟨trivial, empty⟩
  · refine .inr ?_
    simp only [on, if_true]
    refine ⟨onmessage_connected on, early, late ++ [m], ?_, ?_⟩
    · rw [written_append, written_written, split, List.append_assoc]
    · intro key
      rw [snapshots_onmessage now s.client key streamed, shown, words_append, current_append]

theorem following_step (flow : Flow s out) (held : Following s out) (stays : l ≠ .disconnect)
    (taken : step s l = some (t, o)) : Following t (out ++ o) := by
  cases step_move taken with
  | runCall call rest t o next made =>
    obtain ⟨_, _, client, quiet⟩ := call_keeps made
    exact following_still held client quiet
  | resCall call rest t o next made =>
    obtain ⟨_, _, client, quiet⟩ := call_keeps made
    exact following_still held client quiet
  | write now m there =>
    refine following_write held now (flow.streamed m ?_)
    rw [flow.fifo, there]
    simp
  | register order away visit =>
    obtain ⟨_, empty⟩ := held.resolve_right fun there => by simp [away] at there
    obtain ⟨same, on⟩ := join_keeps s.client (getHistory order s.machine.proc)
    refine .inr ⟨on, written out, [], by simp, ?_⟩
    intro key
    rw [same, empty]
    rfl
  | disconnect there => exact absurd rfl stays
  | _ => exact following_still held rfl rfl

theorem following_run {ls : List Label} {storing : Bool} {clock : Time} (distinct : Distinct names)
    (run : exec (restrict (Staying names good) step) (.start storing clock) ls = some (s, out)) :
    Sound names good s out ∧ Following s out := by
  refine exec_history (I := fun _ s out => Sound names good s out ∧ Following s out)
    ⟨sound_start, following_start storing clock⟩ ?_ run
  rintro ls t u l out o _ ⟨sound, held⟩ taken
  obtain ⟨⟨smooth, stays⟩, taken⟩ := restrict_iff.mp taken
  exact ⟨sound_step distinct sound smooth taken, following_step sound.flow held stays taken⟩

end Following

section Tracked

variable {names : ConnKey → Bool} {good : StatSnapshot → Bool} {s : System} {out : List Traffic}

theorem tracked_of_current (sound : Sound names good s out) (idle : s.runOps = []) (key : String)
    {early late : List OutboundMsg} (split : sent out = early ++ late)
    (shown : current decodeStats none (words key late) ≠ none) :
    ∃ k ∈ s.conns, k.text = key := by
  by_contra untracked
  have said : words key late ≠ [] := by
    intro quiet
    rw [quiet] at shown
    exact shown rfl
  have all : told key s out = words key early ++ words key late := by
    rw [told, idle, split, words_append]
    simp [pending, words]
  by_cases named : ∃ k, names k = true ∧ k.text = key
  · obtain ⟨k, mine, rfl⟩ := named
    have missing : s.conns.lookup k = none :=
      Finmap.lookup_eq_none.mpr fun member => untracked ⟨k, member, rfl⟩
    have silent := sound.story.untracked k mine missing
    rw [all] at silent
    exact shown (current_of_silent silent said none)
  · have nothing := sound.story.unnamed key fun k mine same => named ⟨k, mine, same⟩
    rw [all] at nothing
    exact said (List.append_eq_nil_iff.mp nothing).2

end Tracked

section Fleets

variable {Conn : Type} [DecidableEq Conn] {F : FloatText} {names : ConnKey → Bool}
  {good : StatSnapshot → Bool} {f : Fleet Conn} {c d : Conn}

/-- Nothing is about to be broadcast, in the channel or in the hand of Hub.Run. -/
structure Fleet.Quiet (f : Fleet Conn) : Prop where
  runOps : f.runOps = []
  broadcast : f.hub.broadcast = []
  running : ∃ left, f.hub.running = .closing left

theorem carried_word {m : OutboundMsg} {data : Frame} (carried : Carried F m data)
    (key : String) : word key m = (readFrame F data).bind (word key) := by
  rw [readFrame_marshal carried.made carried.carries]
  split
  · rfl
  · rename_i silent
    cases m with
    | remove removed =>
      have empty : removed = "" := by simpa [OutboundMsg.acted] using silent
      simp [word, empty]
    | stats s => exact absurd rfl silent
    | _ => rfl

theorem carried_words {ms : List OutboundMsg} {frames : List Frame}
    (carried : List.Forall₂ (Carried F) ms frames) (key : String) :
    words key ms = frames.filterMap fun data => (readFrame F data).bind (word key) := by
  induction carried with
  | nil => rfl
  | cons first rest ih =>
    simp only [words, List.filterMap_cons, carried_word first key] at ih ⊢
    rw [ih]

def shownBy (F : FloatText) (key : String) (frames : List Frame) : Option StatSnapshot :=
  current decodeStats none (frames.filterMap fun data => (readFrame F data).bind (word key))

/-- In a quiet fleet a steady dashboard shows what the last frames that the hub has accepted
    say, and nothing but what is tracked. -/
theorem quiet_shows {storing : Bool} {clock : Time} {ls : List (Act Conn)}
    {out : List (Event Conn)} (distinct : Distinct names)
    (run : exec (restrict (Clear F names good) (Fleet.step F)) (.start Conn storing clock) ls =
      some (f, out))
    (quiet : f.Quiet) (steady : Steady c ls out) (reads : f.hub.serving c = .reading) :
    (∃ n, ∀ key, (f.clients c).snapshots.lookup key =
      shownBy F key ((CollectorHub.accepted out).drop n)) ∧
    ∀ key ∈ (f.clients c).snapshots, ∃ k ∈ f.machine.proc.conns, k.text = key := by
  obtain ⟨ls', s, out', ran, shows, told⟩ := alongside_run run steady
  obtain ⟨sound, held⟩ := following_run distinct ran
  obtain ⟨_, same, on⟩ := seen_unlocked shows.client (by rw [reads]; nofun) (by rw [reads]; rfl)
  rw [← same] at on ⊢
  obtain ⟨_, early, late, split, shown⟩ := held.resolve_left fun away => by simp [on] at away
  obtain ⟨left, closing⟩ := quiet.running
  have queue := shows.queue
  have hand := shows.hand
  rw [quiet.broadcast, List.forall₂_nil_right_iff] at queue
  rw [closing] at hand
  have all : sent out' = early ++ late := by
    rw [sound.flow.fifo, queue, coming_nothing hand, split]
    simp
  constructor
  · refine ⟨early.length, ?_⟩
    intro key
    rw [all] at told
    have rest := List.forall₂_drop early.length told
    rw [List.drop_left] at rest
    rw [shown, carried_words rest, shownBy]
  · intro key member
    have tracked := tracked_of_current sound (shows.runOps.trans quiet.runOps) key all ?_
    · rw [System.conns, shows.machine] at tracked
      exact tracked
    · rw [← shown, Ne, Finmap.lookup_eq_none]
      exact not_not.mpr member

/-- Of two steady dashboards of a quiet fleet one shows all that the other shows, and everything
    shown is tracked. -/
theorem dashboards_agree {storing : Bool} {clock : Time} {ls : List (Act Conn)}
    {out : List (Event Conn)}
    (run : exec (restrict (Clear F arrowFree good) (Fleet.step F)) (.start Conn storing clock) ls =
      some (f, out))
    (quiet : f.Quiet) (steady : Steady c ls out ∧ Steady d ls out)
    (reads : f.hub.serving c = .reading ∧ f.hub.serving d = .reading) :
    (∀ key ∈ (f.clients c).snapshots, ∃ k ∈ f.machine.proc.conns, k.text = key) ∧
    ((∀ key s, (f.clients c).snapshots.lookup key = some s →
        (f.clients d).snapshots.lookup key = some s) ∨
      ∀ key s, (f.clients d).snapshots.lookup key = some s →
        (f.clients c).snapshots.lookup key = some s) := by
  obtain ⟨⟨n, one⟩, tracked⟩ := quiet_shows arrow_free_distinct run quiet steady.1 reads.1
  obtain ⟨⟨m, other⟩, _⟩ := quiet_shows arrow_free_distinct run quiet steady.2 reads.2
  have later {n m : Nat} (order : m ≤ n) {key : String} {s : StatSnapshot}
      (late : shownBy F key ((CollectorHub.accepted out).drop n) = some s) :
      shownBy F key ((CollectorHub.accepted out).drop m) = some s := by
    obtain ⟨k, rfl⟩ := Nat.exists_eq_add_of_le order
    have split := List.take_append_drop k ((CollectorHub.accepted out).drop m)
    rw [List.drop_drop] at split
    rw [← split, shownBy, List.filterMap_append]
    exact current_of_suffix late
  refine ⟨tracked, ?_⟩
  rcases Nat.le_total m n with order | order
  · left
    intro key s shown
    rw [one] at shown
    rw [other]
    exact later order shown
  · right
    intro key s shown
    rw [other] at shown
    rw [one]
    exact later order shown

end Fleets

theorem two_dashboards_agree :
    ∃ f out, exec (restrict (Clear wholeText arrowFree fun _ => true) (Fleet.step wholeText))
        (.start Nat false 0) twoDashboards = some (f, out) ∧
      (∀ key ∈ (f.clients 1).snapshots, ∃ k ∈ f.machine.proc.conns, k.text = key) ∧
      ((∀ key s, (f.clients 1).snapshots.lookup key = some s →
          (f.clients 2).snapshots.lookup key = some s) ∨
        ∀ key s, (f.clients 2).snapshots.lookup key = some s →
          (f.clients 1).snapshots.lookup key = some s) := by
  obtain ⟨f, out, run, quiet, steady, reads⟩ : ∃ f out,
      exec (restrict (Clear wholeText arrowFree fun _ => true) (Fleet.step wholeText))
        (.start Nat false 0) twoDashboards = some (f, out) ∧ f.Quiet ∧
        (Steady 1 twoDashboards out ∧ Steady 2 twoDashboards out) ∧
        f.hub.serving 1 = .reading ∧ f.hub.serving 2 = .reading :=
    ⟨_, _, rfl, ⟨rfl, rfl, _, rfl⟩, by decide, rfl, rfl⟩
  exact ⟨f, out, run, dashboards_agree run quiet steady reads⟩

end Dashboard
