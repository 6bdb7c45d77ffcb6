import MicroTrace.Dashboard.Flow

/- What the collector has told about a connection fits what it knows: of a connection it does
   not track it has said nothing since the last removal, and the life it has told of a
   tracked one is the history it keeps. A dashboard tells connections apart by the text of
   their key only, so the names in use have to give different texts. -/
namespace Dashboard
open CollectorModel CollectorStats RangeLoops Runs Lives

theorem text_ne_empty (k : ConnKey) : k.text ≠ "" := by
  intro empty
  have length := congrArg String.length empty
  simp [ConnKey.text, String.length_append] at length

theorem words_stats (key : String) (snaps : List StatSnapshot) :
    words key (snaps.map OutboundMsg.stats) =
      (snaps.filter fun s => snapshotKey s = key).map Word.put := by
  induction snaps with
  | nil => rfl
  | cons s snaps ih =>
    by_cases mine : snapshotKey s = key <;>
      simpa [words, List.filterMap_cons, word, mine] using ih

theorem words_removals (key : String) (keys : List ConnKey) :
    words key (keys.map fun k => OutboundMsg.remove k.text) =
      (keys.filter fun k => k.text = key).map fun _ => Word.cut := by
  induction keys with
  | nil => rfl
  | cons k keys ih =>
    by_cases mine : k.text = key
    · subst mine
      simpa [words, List.filterMap_cons, word, text_ne_empty] using ih
    · simpa [words, List.filterMap_cons, word, mine] using ih

theorem event_conn_history {a : Answers} {now : Time} {e : Event} {p : Processor} :
    (eventConn a now e p).history = (getOrCreateConn p a.connKey now).history := by
  unfold eventConn
  split
  · exact (update_stable_fields _ _).2.2.2
  · split <;> rfl

/-- Different connections with these names have different texts. -/
def Distinct (names : ConnKey → Bool) : Prop :=
  ∀ j k, names j = true → names k = true → j.text = k.text → j = k

section Words

variable {names : ConnKey → Bool} {p : Processor} {order : List ConnKey} {now : Time}

theorem words_published (distinct : Distinct names) (named : ∀ k ∈ p.conns, names k = true)
    (visit : Enumerates order p.conns) {k : ConnKey} (mine : names k = true) :
    words k.text ((publishSnapshots order now p).2.map OutboundMsg.stats) =
      ((p.conns.lookup k).map fun cs =>
        Word.put (snapshot k cs (p.resources.lookup k.dst))).toList := by
  have own := filter_rangeCollect_of
    (fun key cs => some (snapshot key cs (p.resources.lookup key.dst)))
    (fun s => decide (snapshotKey s = k.text)) visit (k := k) (by
      intro j cs s found made
      cases made
      have other := named j (Finmap.mem_of_lookup_eq_some found)
      rw [decide_eq_true_iff]
      exact ⟨distinct j k other mine, fun same => same ▸ rfl⟩)
  rw [words_stats, publishSnapshots, own]
  cases p.conns.lookup k <;> rfl

theorem words_swept (distinct : Distinct names) (named : ∀ k ∈ p.conns, names k = true)
    (visit : Enumerates order p.conns) {flowOrder : List FlowKey} {k : ConnKey}
    (mine : names k = true) :
    words k.text ((sweepExpired order flowOrder now p).2.map fun k => OutboundMsg.remove k.text) =
      ((p.conns.lookup k).bind fun cs =>
        if expired now cs.lastSeen then some Word.cut else none).toList := by
  have own := filter_rangeCollect_of
    (fun key cs => if expired now cs.lastSeen then some key else none)
    (fun j => decide (ConnKey.text j = k.text)) visit (k := k) (by
      intro j cs j' found made
      split at made
      · cases made
        have other := named j (Finmap.mem_of_lookup_eq_some found)
        rw [decide_eq_true_iff]
        exact ⟨distinct j k other mine, fun same => same ▸ rfl⟩
      · cases made)
  rw [words_removals, sweepExpired, own]
  cases p.conns.lookup k with
  | none => rfl
  | some cs => cases old : expired now cs.lastSeen <;> simp [old]

theorem published_of_tracked {snap : StatSnapshot} (visit : Enumerates order p.conns)
    (member : snap ∈ (publishSnapshots order now p).2) :
    ∃ k ∈ p.conns, snapshotKey snap = k.text := by
  obtain ⟨k, cs, found, made⟩ := (mem_rangeCollect _ visit snap).mp member
  cases made
  exact ⟨k, Finmap.mem_of_lookup_eq_some found, rfl⟩

theorem swept_of_tracked {flowOrder : List FlowKey} {k : ConnKey}
    (visit : Enumerates order p.conns)
    (member : k ∈ (sweepExpired order flowOrder now p).2) : k ∈ p.conns := by
  obtain ⟨j, cs, found, made⟩ := (mem_rangeCollect _ visit k).mp member
  split at made
  · cases made
    exact Finmap.mem_of_lookup_eq_some found
  · cases made

end Words

structure Story (names : ConnKey → Bool) (good : StatSnapshot → Bool) (s : System)
    (out : List Traffic) : Prop where
  named : ∀ k ∈ s.conns, names k = true
  applying : ∀ a now e, .apply a now e ∈ s.runOps → names a.connKey = true
  untracked : ∀ k, names k = true → s.conns.lookup k = none → Silent (told k.text s out)
  tracked : ∀ k cs, s.conns.lookup k = some cs →
    life snapshotMetrics maxHistory [] (told k.text s out) = cs.history.map pointMetrics
  unnamed : ∀ key, (∀ k, names k = true → k.text ≠ key) → told key s out = []
  allGood : ∀ key snap, .put snap ∈ told key s out → good snap = true

theorem story_start (names : ConnKey → Bool) (good : StatSnapshot → Bool) (storing : Bool)
    (clock : Time) : Story names good (.start storing clock) [] := by
  constructor
  · intro k member
    exact absurd member (Finmap.notMem_empty)
  · intro a now e member
    cases member
  · intro k _ _
    exact .inl rfl
  · intro k cs found
    cases found
  · intro key _
    rfl
  · intro key snap member
    cases member

section Steps

variable {names : ConnKey → Bool} {good : StatSnapshot → Bool} {s t : System} {l : Label}
  {out o : List Traffic}

theorem story_frame (before : Story names good s out) (conns : t.conns = s.conns)
    (applying : ∀ a now e, .apply a now e ∈ t.runOps → names a.connKey = true)
    (same : ∀ key, told key t (out ++ o) = told key s out) : Story names good t (out ++ o) := by
  constructor
  · rw [conns]
    exact before.named
  · exact applying
  · intro k mine missing
    rw [same]
    exact before.untracked k mine (conns ▸ missing)
  · intro k cs found
    rw [same]
    exact before.tracked k cs (conns ▸ found)
  · intro key none
    rw [same]
    exact before.unnamed key none
  · intro key snap
    rw [same]
    exact before.allGood key snap

theorem metrics_of_tick (k : ConnKey) (cs : ConnStats) (res : Option ResourceSnapshot)
    (now : Time) :
    pointMetrics (cs.historyPoint now) = snapshotMetrics (snapshot k cs res) := rfl

theorem story_publish {now : Time} {order : List ConnKey} {running : Bool} {ops : List RunOp}
    (distinct : Distinct names) (before : Story names good s out)
    (visit : Enumerates order s.conns)
    (sound : ∀ snap ∈ (publishSnapshots order now s.machine.proc).2, good snap = true)
    (applying : ∀ a now e, .apply a now e ∈ ops → names a.connKey = true)
    (more : ∀ key, told key
        { s with machine := ⟨(publishSnapshots order now s.machine.proc).1, now, running⟩,
                 runOps := ops } out = told key s out ++
      words key ((publishSnapshots order now s.machine.proc).2.map OutboundMsg.stats)) :
    Story names good
      { s with machine := ⟨(publishSnapshots order now s.machine.proc).1, now, running⟩,
               runOps := ops } out := by
  constructor
  · intro k member
    exact before.named k ((mem_rangeUpdate _ visit k).mp member)
  · exact applying
  · intro k mine missing
    have absent : s.machine.proc.conns.lookup k = none := by
      have moved := (conn_after_tick visit k).symm.trans missing
      simpa using moved
    rw [more, words_published distinct before.named visit mine, absent, Option.map_none,
      Option.toList_none, List.append_nil]
    exact before.untracked k mine absent
  · intro k cs' found
    have moved := (conn_after_tick visit k).symm.trans found
    obtain ⟨cs, here, rfl⟩ := Option.map_eq_some_iff.mp moved
    have mine := before.named k (Finmap.mem_of_lookup_eq_some here)
    rw [more, words_published distinct before.named visit mine, here, Option.map_some,
      Option.toList_some, life_put, before.tracked k cs here, append_history_trimmed,
      ← metrics_of_tick k cs _ now]
    simp [List.rtake, List.map_drop, maxHistory, CollectorStats.maxHistory]
  · intro key none
    rw [more, before.unnamed key none, List.nil_append, words_stats]
    rw [List.filter_eq_nil_iff.mpr, List.map_nil]
    intro snap member
    obtain ⟨k, here, same⟩ := published_of_tracked visit member
    simpa [same] using none k (before.named k here)
  · intro key snap member
    rw [more] at member
    rcases List.mem_append.mp member with earlier | now
    · exact before.allGood key snap earlier
    · rw [words_stats] at now
      obtain ⟨snap', here, made⟩ := List.mem_map.mp now
      cases made
      exact sound snap (List.mem_filter.mp here).1

theorem story_sweep {now : Time} {order : List ConnKey} {flowOrder : List FlowKey}
    {ops : List RunOp} (distinct : Distinct names) (before : Story names good s out)
    (visit : Enumerates order s.conns)
    (applying : ∀ a now e, .apply a now e ∈ ops → names a.connKey = true)
    (more : ∀ key, told key
        { s with machine := { s.machine with
                   proc := (sweepExpired order flowOrder now s.machine.proc).1, clock := now },
                 runOps := ops } out = told key s out ++
      words key ((sweepExpired order flowOrder now s.machine.proc).2.map
        fun k => OutboundMsg.remove k.text)) :
    Story names good
      { s with machine := { s.machine with
                 proc := (sweepExpired order flowOrder now s.machine.proc).1, clock := now },
               runOps := ops } out := by
  have kept : ∀ k cs, (sweepExpired order flowOrder now s.machine.proc).1.conns.lookup k =
      some cs → s.machine.proc.conns.lookup k = some cs ∧ expired now cs.lastSeen = false := by
    intro k cs found
    have moved := (conn_after_sweep visit k).symm.trans found
    simpa [Option.filter_eq_some_iff] using moved
  constructor
  · intro k member
    obtain ⟨cs, found⟩ := Finmap.mem_iff.mp member
    exact before.named k (Finmap.mem_of_lookup_eq_some (kept k cs found).1)
  · exact applying
  · intro k mine missing
    have moved := (conn_after_sweep visit k).symm.trans missing
    rw [more, words_swept distinct before.named visit mine]
    cases here : s.machine.proc.conns.lookup k with
    | none =>
      simp only [Option.bind_none, Option.toList_none, List.append_nil]
      exact before.untracked k mine here
    | some cs =>
      have old : expired now cs.lastSeen = true := by
        simpa [here, Option.filter] using moved
      exact .inr ⟨told k.text s out, by simp [old]⟩
  · intro k cs found
    obtain ⟨here, young⟩ := kept k cs found
    have mine := before.named k (Finmap.mem_of_lookup_eq_some here)
    rw [more, words_swept distinct before.named visit mine, here]
    simpa [young] using before.tracked k cs here
  · intro key none
    rw [more, before.unnamed key none, List.nil_append, words_removals]
    rw [List.filter_eq_nil_iff.mpr, List.map_nil]
    intro k member
    simpa using none k (before.named k (swept_of_tracked visit member))
  · intro key snap member
    rw [more, words_removals] at member
    rcases List.mem_append.mp member with earlier | now
    · exact before.allGood key snap earlier
    · simp at now

theorem story_apply {a : Answers} {now : Time} {e : Event} {rest : List RunOp}
    (before : Story names good s out) (next : s.runOps = .apply a now e :: rest)
    (same : ∀ key, told key
        { s with runOps := rest,
                 machine := { s.machine with proc := applyEvent a now e s.machine.proc } } out =
      told key s out) :
    Story names good
      { s with runOps := rest,
               machine := { s.machine with proc := applyEvent a now e s.machine.proc } } out := by
  have own : names a.connKey = true := before.applying a now e (by simp [next])
  constructor
  · intro k member
    by_cases mine : k = a.connKey
    · exact mine ▸ own
    · obtain ⟨cs, found⟩ := Finmap.mem_iff.mp member
      have earlier := (conn_after_other_event mine).symm.trans found
      exact before.named k (Finmap.mem_of_lookup_eq_some earlier)
  · intro a' now' e' member
    exact before.applying a' now' e' (by simp [next, member])
  · intro k name missing
    rw [same]
    by_cases mine : k = a.connKey
    · subst mine
      exact absurd (conn_after_own_event.symm.trans missing) (by simp)
    · exact before.untracked k name ((conn_after_other_event mine).symm.trans missing)
  · intro k cs found
    rw [same]
    by_cases mine : k = a.connKey
    · subst mine
      cases conn_after_own_event.symm.trans found
      rw [event_conn_history, getOrCreateConn]
      cases here : s.machine.proc.conns.lookup a.connKey with
      | none => exact life_of_silent (before.untracked a.connKey own here)
      | some cs => exact before.tracked a.connKey cs here
    · exact before.tracked k cs ((conn_after_other_event mine).symm.trans found)
  · intro key none
    rw [same]
    exact before.unnamed key none
  · intro key snap
    rw [same]
    exact before.allGood key snap

theorem story_step (distinct : Distinct names) (flow : Flow s out)
    (before : Story names good s out) (smooth : Smooth names good s l)
    (taken : step s l = some (t, o)) : Story names good t (out ++ o) := by
  have more := told_step flow smooth taken
  cases step_move taken with
  | publish i now order running kind idle visit =>
    have sound : ∀ snap ∈ (publishSnapshots order now s.machine.proc).2, good snap = true :=
      fun snap member => (smooth_publish kind smooth snap member).2
    simp only [spoken_publish _ s kind, List.append_nil] at more ⊢
    refine story_publish distinct before visit sound ?_ more
    intro a now e member
    simp at member
  | sweep now order flowOrder idle visit =>
    simp only [spoken, List.append_nil] at more ⊢
    refine story_sweep distinct before visit ?_ more
    intro a now e member
    simp at member
  | event a now e idle =>
    refine story_frame before rfl ?_ (by simpa [spoken] using more)
    intro a' now' e' member
    have same : a' = a := by
      simp at member
      exact member.1
    exact same ▸ smooth
  | resource r idle =>
    exact story_frame before rfl before.applying (by simpa [spoken] using more)
  | apply a now e rest next =>
    simp only [spoken, List.append_nil] at more ⊢
    exact story_apply before next more
  | runCall call rest t o next made =>
    obtain ⟨machine, ops, _⟩ := call_keeps made
    refine story_frame before (congrArg (·.proc.conns) machine) ?_ (by simpa [spoken] using more)
    intro a now e member
    rw [ops] at member
    exact before.applying a now e (by simp [next, member])
  | resCall call rest t o next made =>
    obtain ⟨machine, ops, _⟩ := call_keeps made
    refine story_frame before (congrArg (·.proc.conns) machine) ?_ (by simpa [spoken] using more)
    rw [ops]
    exact before.applying
  | receive m rest free next =>
    exact story_frame before rfl before.applying (by simpa [spoken] using more)
  | write now m held =>
    exact story_frame before rfl before.applying (by simpa [spoken] using more)
  | register order away visit =>
    exact story_frame before rfl before.applying (by simpa [spoken] using more)
  | disconnect there =>
    exact story_frame before rfl before.applying (by simpa [spoken] using more)

end Steps

structure Sound (names : ConnKey → Bool) (good : StatSnapshot → Bool) (s : System)
    (out : List Traffic) : Prop where
  flow : Flow s out
  story : Story names good s out

theorem sound_start {names : ConnKey → Bool} {good : StatSnapshot → Bool} {storing : Bool}
    {clock : Time} : Sound names good (.start storing clock) [] :=
  ⟨flow_start storing clock, story_start names good storing clock⟩

theorem sound_step {names : ConnKey → Bool} {good : StatSnapshot → Bool} (distinct : Distinct names)
    {s t : System} {l : Label} {out o : List Traffic} (before : Sound names good s out)
    (smooth : Smooth names good s l) (taken : step s l = some (t, o)) :
    Sound names good t (out ++ o) :=
  ⟨flow_step before.flow smooth taken, story_step distinct before.flow before.story smooth taken⟩

theorem sound_run {names : ConnKey → Bool} {good : StatSnapshot → Bool} (distinct : Distinct names)
    {s t : System} {ls : List Label} {out o : List Traffic} (start : Sound names good s out)
    (run : exec (restrict (Smooth names good) step) s ls = some (t, o)) :
    Sound names good t (out ++ o) := by
  induction ls generalizing s out o with
  | nil =>
    obtain ⟨rfl, rfl⟩ := exec_nil_iff.mp run
    rw [List.append_nil]
    exact start
  | cons l ls ih =>
    obtain ⟨u, now, later, first, rest, rfl⟩ := exec_cons_iff.mp run
    obtain ⟨smooth, taken⟩ := restrict_iff.mp first
    rw [← List.append_assoc]
    exact ih (sound_step distinct start smooth taken) rest

theorem told_run {names : ConnKey → Bool} {good : StatSnapshot → Bool} (distinct : Distinct names)
    {s t : System} {ls : List Label} {out o : List Traffic} (start : Sound names good s out)
    (run : exec (restrict (Smooth names good) step) s ls = some (t, o)) (key : String) :
    ∃ more, told key t (out ++ o) = told key s out ++ more := by
  induction ls generalizing s out o with
  | nil =>
    obtain ⟨rfl, rfl⟩ := exec_nil_iff.mp run
    exact ⟨[], by simp⟩
  | cons l ls ih =>
    obtain ⟨u, now, later, first, rest, rfl⟩ := exec_cons_iff.mp run
    have next := sound_run distinct start (exec_single_iff.mpr first)
    obtain ⟨smooth, taken⟩ := restrict_iff.mp first
    obtain ⟨more, told⟩ := ih next rest
    refine ⟨spoken key s l ++ more, ?_⟩
    rw [← List.append_assoc, told, told_step start.flow smooth taken, List.append_assoc]

end Dashboard
