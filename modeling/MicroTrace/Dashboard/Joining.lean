import MicroTrace.Dashboard.Listening

/- A dashboard joins while messages are in flight. The history it is sent ends with every
   point appended so far, and a point whose message has not been delivered yet arrives once
   more. What keeps the two apart is the life the dashboard will know when everything in
   flight has reached it. -/
namespace Dashboard
open CollectorModel CollectorStats RangeLoops Runs Lives

section Words

variable {names : ConnKey → Bool} {good : StatSnapshot → Bool} {s t : System} {l : Label}
  {out o : List Traffic}

theorem flight_step (flow : Flow s out) (smooth : Smooth names good s l)
    (taken : step s l = some (t, o)) (key : String) :
    words key (written o) ++ words key (inFlight t) =
      words key (inFlight s) ++ spoken key s l := by
  have told := told_step flow smooth taken key
  rw [told_inFlight (flow_step flow smooth taken), told_inFlight flow, written_append,
    words_append, List.append_assoc, List.append_assoc] at told
  exact List.append_cancel_left told

theorem life_told (story : Story names good s out) {k : ConnKey} (mine : names k = true) :
    life (Metrics.js ∘ snapshotMetrics) maxHistory [] (told k.text s out) =
      (((s.conns.lookup k).elim [] ConnStats.history).map pointMetrics).map Metrics.js := by
  cases found : s.conns.lookup k with
  | none => exact life_of_silent (story.untracked k mine found)
  | some cs =>
    rw [Option.elim_some, ← story.tracked k cs found, life_map, List.map_nil]

theorem lookup_join {c : Client} {h : List ConnHistory} {key : String}
    (replaced : h = [] → key ∉ c.history) :
    (c.join h).history.lookup key =
      ((h.filter fun conn => conn.key = key).getLast?).map fun conn =>
        conn.points.map decodePoint := by
  unfold Client.join
  split
  · refine (lookup_history h key ∅).trans ?_
    cases (h.filter fun conn => conn.key = key).getLast? <;> rfl
  · rename_i short
    have none : h = [] := by simpa using short
    rw [none]
    exact Finmap.lookup_eq_none.mpr (replaced none)

theorem metrics_join {order : List ConnKey} (distinct : Distinct names)
    (story : Story names good s out) (visit : Enumerates order s.conns) {k : ConnKey}
    (mine : names k = true)
    (replaced : getHistory order s.machine.proc = [] → k.text ∉ s.client.history) :
    (s.client.join (getHistory order s.machine.proc)).metrics k.text =
      life (Metrics.js ∘ snapshotMetrics) maxHistory [] (told k.text s out) := by
  have entries := history_entries distinct story.named visit mine
  rw [life_told story mine, Client.metrics, lookup_join replaced, entries]
  simp only [System.conns]
  cases s.machine.proc.conns.lookup k with
  | none => rfl
  | some cs =>
    by_cases empty : cs.history = []
    · simp [empty]
    · have kept : ¬ cs.history.length = 0 := fun zero => empty (List.length_eq_zero_iff.mp zero)
      simp only [Option.bind_some, if_neg kept, Option.toList_some, List.getLast?_singleton,
        Option.map_some, Option.getD_some, Option.elim_some, metrics_js_point]

end Words

/-- A stats message in flight is followed or preceded by the removal of its connection. -/
def settled (ms : List OutboundMsg) : OutboundMsg → Bool
  | .stats snap => decide (.remove (snapshotKey snap) ∈ ms)
  | _ => true

/-- A dashboard registers when no point of its history is still in flight, and with a
    history message that replaces what it kept from an earlier socket. -/
def Settled (s : System) : Label → Prop
  | .register order => (∀ m ∈ inFlight s, settled (inFlight s) m = true) ∧
      (getHistory order s.machine.proc ≠ [] ∨
        ∀ key ∈ s.client.history.keys, .remove key ∈ inFlight s)
  | _ => True

instance (s : System) : (l : Label) → Decidable (Settled s l)
  | .register _ => inferInstanceAs (Decidable (_ ∧ _))
  | .input _ => inferInstanceAs (Decidable True)
  | .runOp => inferInstanceAs (Decidable True)
  | .resOp => inferInstanceAs (Decidable True)
  | .receive => inferInstanceAs (Decidable True)
  | .write _ => inferInstanceAs (Decidable True)
  | .disconnect => inferInstanceAs (Decidable True)

theorem cut_of_removal {key : String} {ms : List OutboundMsg} (some : key ≠ "")
    (removal : .remove key ∈ ms) : .cut ∈ words key ms :=
  List.mem_filterMap.mpr ⟨_, removal, by simp [word, some]⟩

theorem settled_words {s : System} {k : ConnKey}
    (settle : ∀ m ∈ inFlight s, settled (inFlight s) m = true)
    (uncut : .cut ∉ words k.text (inFlight s)) : words k.text (inFlight s) = [] := by
  refine List.eq_nil_iff_forall_not_mem.mpr ?_
  intro w said
  cases w with
  | cut => exact uncut said
  | put snap =>
    obtain ⟨m, flying, made⟩ := List.mem_filterMap.mp said
    cases m with
    | stats snap' =>
      simp only [word, Option.ite_none_right_eq_some] at made
      have removal : .remove (snapshotKey snap') ∈ inFlight s := by
        simpa [settled] using settle _ flying
      exact uncut (cut_of_removal (text_ne_empty k) (made.1 ▸ removal))
    | remove key => simp [word] at made
    | event raw => cases made
    | resource r => cases made
    | history h => cases made

/-- What a connected dashboard will know of a connection, once everything in flight has
    reached it, is the life the collector has told. -/
def Heard (names : ConnKey → Bool) (s : System) (out : List Traffic) : Prop :=
  s.client.connected = true → ∀ k, names k = true →
    life (Metrics.js ∘ snapshotMetrics) maxHistory (s.client.metrics k.text)
        (words k.text (inFlight s)) =
      life (Metrics.js ∘ snapshotMetrics) maxHistory [] (told k.text s out)

section Steps

variable {names : ConnKey → Bool} {good : StatSnapshot → Bool} {s t : System} {l : Label}
  {out o : List Traffic}

theorem heard_start (storing : Bool) (clock : Time) : Heard names (.start storing clock) [] := by
  intro there
  cases there

theorem heard_listening (flow : Flow s out) (before : Heard names s out)
    (there : s.client.connected = true) (stays : l ≠ .disconnect)
    (smooth : Smooth names good s l) (taken : step s l = some (t, o)) :
    Heard names t (out ++ o) := by
  intro _ k mine
  have moved := (listen_step flow there stays taken).2 k.text
  have metrics := (Prod.mk.inj moved).2
  rw [metrics, ← life_append, flight_step flow smooth taken, life_append, before there k mine,
    ← life_append, ← told_step flow smooth taken]

/- A removal in flight makes the dashboard forget what it was sent; with none in flight
   there is nothing it could hear twice. -/
theorem heard_register {order : List ConnKey} (distinct : Distinct names) (flow : Flow s out)
    (story : Story names good s out) (visit : Enumerates order s.conns)
    (settle : Settled s (.register order)) :
    Heard names { s with client := s.client.join (getHistory order s.machine.proc) } out := by
  intro _ k mine
  change life _ _ ((s.client.join _).metrics k.text) (words k.text (inFlight s)) =
    life _ _ [] (told k.text s out)
  by_cases cut : .cut ∈ words k.text (inFlight s)
  · rw [told_inFlight flow, life_append [], life_reset cut]
  · have quiet := settled_words settle.1 cut
    have replaced : getHistory order s.machine.proc = [] → k.text ∉ s.client.history := by
      intro none member
      have removal := settle.2.resolve_left (fun some => some none) k.text
        (Finmap.mem_keys.mpr member)
      exact cut (cut_of_removal (text_ne_empty k) removal)
    rw [metrics_join distinct story visit mine replaced, quiet]
    rfl

theorem away_step (away : s.client.connected = false) (stays : ∀ order, l ≠ .register order)
    (taken : step s l = some (t, o)) : t.client = s.client := by
  cases step_move taken with
  | publish i now order running kind idle visit => rfl
  | sweep now order flowOrder idle visit => rfl
  | event a now e idle => rfl
  | resource r idle => rfl
  | apply a now e rest next => rfl
  | runCall call rest t o next made => exact (call_keeps made).2.2.1
  | resCall call rest t o next made => exact (call_keeps made).2.2.1
  | receive m rest free next => rfl
  | write now m held => simp [away]
  | register order _ visit => exact absurd rfl (stays order)
  | disconnect there => exact absurd (there.symm.trans away) (by decide)

theorem heard_step (distinct : Distinct names) (sound : Sound names good s out)
    (before : Heard names s out) (smooth : Smooth names good s l) (settle : Settled s l)
    (taken : step s l = some (t, o)) : Heard names t (out ++ o) := by
  by_cases there : s.client.connected = true
  · by_cases leaves : l = .disconnect
    · subst leaves
      cases step_move taken
      intro still
      cases still
    · exact heard_listening sound.flow before there leaves smooth taken
  · have away : s.client.connected = false := by simpa using there
    by_cases joins : ∃ order, l = .register order
    · obtain ⟨order, rfl⟩ := joins
      cases step_move taken with
      | register order _ visit =>
        rw [List.append_nil]
        exact heard_register distinct sound.flow sound.story visit settle
    · intro still
      rw [away_step away (fun order same => joins ⟨order, same⟩) taken] at still
      exact absurd still there

end Steps

/-- No message is lost, and every registration is settled. -/
def Joinable (names : ConnKey → Bool) (s : System) (l : Label) : Prop :=
  Smooth names (fun _ => true) s l ∧ Settled s l

instance (names : ConnKey → Bool) (s : System) (l : Label) : Decidable (Joinable names s l) :=
  inferInstanceAs (Decidable (_ ∧ _))

theorem heard_run {names : ConnKey → Bool} (distinct : Distinct names) {storing : Bool}
    {clock : Time} {ls : List Label} {t : System} {out : List Traffic}
    (run : exec (restrict (Joinable names) step) (.start storing clock) ls = some (t, out)) :
    Sound names (fun _ => true) t out ∧ Heard names t out := by
  apply exec_history (I := fun _ t out => Sound names (fun _ => true) t out ∧ Heard names t out)
    ⟨sound_start, heard_start storing clock⟩ _ run
  intro ls s t l out o _ before taken
  obtain ⟨⟨smooth, settle⟩, taken⟩ := restrict_iff.mp taken
  exact ⟨sound_step distinct before.1 smooth taken,
    heard_step distinct before.1 before.2 smooth settle taken⟩

/-- Once nothing is in flight, a connected dashboard shows for every tracked connection the
    values of its history, each exactly once. -/
theorem history_heard_exactly_once {names : ConnKey → Bool} (distinct : Distinct names)
    {storing : Bool} {clock : Time} {ls : List Label} {t : System} {out : List Traffic}
    (run : exec (restrict (Joinable names) step) (.start storing clock) ls = some (t, out))
    (there : t.client.connected = true) (drained : inFlight t = []) :
    ∀ k cs, t.conns.lookup k = some cs →
      t.client.metrics k.text = (cs.history.map pointMetrics).map Metrics.js := by
  intro k cs found
  obtain ⟨sound, heard⟩ := heard_run distinct run
  have mine := sound.story.named k (Finmap.mem_of_lookup_eq_some found)
  have known := heard there k mine
  rw [life_told sound.story mine, drained, found] at known
  exact known

def checkout : ConnKey := ⟨"shop", "pay"⟩

def onlyCheckout (k : ConnKey) : Bool := decide (k = checkout)

theorem only_checkout_distinct : Distinct onlyCheckout := by
  intro j k left right _
  exact (of_decide_eq_true left).trans (of_decide_eq_true right).symm

def checkoutSeen (now : Time) : Label :=
  .input (.event ⟨"pay", "shop", true, true⟩ now
    ⟨.connect, 40001, "", "10.0.0.1", "10.0.0.2", 80, 250, 0⟩)

def deliverOne : List Label := [.runOp, .receive, .write ⟨7, 7, 7⟩]

def checkoutTracked : List Label := checkoutSeen 1 :: deliverOne ++ [.runOp]

def joinBeforeTick : List Label :=
  checkoutTracked ++ .register [checkout] :: .input (.tick 2 [checkout]) :: deliverOne

theorem join_before_tick_heard_once :
    ∃ t out, exec (restrict (Joinable onlyCheckout) step) (.start false 0) joinBeforeTick =
        some (t, out) ∧
      t.client.connected = true ∧ inFlight t = [] ∧ checkout ∈ t.conns ∧
      ∀ k cs, t.conns.lookup k = some cs →
        t.client.metrics k.text = (cs.history.map pointMetrics).map Metrics.js :=
  ⟨_, _, rfl, rfl, rfl, by decide, @history_heard_exactly_once onlyCheckout only_checkout_distinct
    false 0 joinBeforeTick _ _ rfl rfl rfl⟩

/- The dashboard registers after the tick has appended the point and before its message is
   broadcast. -/
def joinInTick : List Label :=
  checkoutTracked ++ .input (.tick 2 [checkout]) :: .register [checkout] :: deliverOne

theorem join_in_tick_heard_twice :
    ∃ t out cs, exec (restrict (Smooth onlyCheckout fun _ => true) step) (.start false 0)
        joinInTick = some (t, out) ∧
      t.client.connected = true ∧ inFlight t = [] ∧ t.conns.lookup checkout = some cs ∧
      cs.history.length = 1 ∧ (t.client.metrics checkout.text).length = 2 ∧
      t.client.metrics checkout.text ≠ (cs.history.map pointMetrics).map Metrics.js := by
  refine ⟨_, _, _, rfl, rfl, rfl, rfl, rfl, rfl, ?_⟩
  intro same
  exact absurd (congrArg List.length same) (by decide)

end Dashboard
