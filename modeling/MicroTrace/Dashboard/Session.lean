import MicroTrace.Dashboard.Listening

/- One stay of a dashboard: it registers, stays connected while the collector goes on, and
   has applied every message up to those of a complete publish. The hook keeps its maps
   from one socket to the next, so what it shows also depends on what it showed before. -/
namespace Dashboard
open CollectorModel CollectorStats RangeLoops Runs Lives

def Label.speaks : Label → Bool
  | .input (.tick _ _) => true
  | .input (.closed _ _) => true
  | .input (.sweep _ _ _) => true
  | _ => false

structure Session (system : Stepper System Label Traffic) where
  storing : Bool
  clock : Time
  /- up to the registration -/
  before : List Label
  joining : System
  first : List Traffic
  reaches : exec system (.start storing clock) before = some (joining, first)
  joinOrder : List ConnKey
  joined : System
  registers : system joining (.register joinOrder) = some (joined, [])
  /- up to the publish -/
  between : List Label
  publishing : System
  second : List Traffic
  waits : exec system joined between = some (publishing, second)
  now : Time
  order : List ConnKey
  input : Input
  kind : input = .tick now order ∨ input = .closed now order
  published : System
  publishes : system publishing (.input input) = some (published, [])
  /- until all its messages have been enqueued -/
  during : List Label
  complete : System
  third : List Traffic
  completes : exec system published during = some (complete, third)
  alone : ∀ l ∈ during, l.speaks = false
  idle : complete.runOps = []
  /- until they have all been applied, and nothing after them -/
  after : List Label
  shown : System
  fourth : List Traffic
  applies : exec system complete after = some (shown, fourth)
  caughtUp : written (first ++ second ++ third ++ fourth) = sent (first ++ second ++ third)
  stays : .disconnect ∉ between ++ .input input :: (during ++ after)

def Session.refine {system other : Stepper System Label Traffic} {I : System → Prop}
    (allowed : ∀ {s t : System} {l : Label} {o : List Traffic}, I s → system s l = some (t, o) →
      other s l = some (t, o) ∧ I t)
    (start : ∀ storing clock, I (.start storing clock)) (v : Session system) : Session other :=
  have reaches := exec_refine allowed (start v.storing v.clock) v.reaches
  have registers := allowed reaches.2 v.registers
  have waits := exec_refine allowed registers.2 v.waits
  have publishes := allowed waits.2 v.publishes
  have completes := exec_refine allowed publishes.2 v.completes
  have applies := exec_refine allowed completes.2 v.applies
  { v with
    reaches := reaches.1
    registers := registers.1
    waits := waits.1
    publishes := publishes.1
    completes := completes.1
    applies := applies.1 }

section Speaking

variable {names : ConnKey → Bool} {good : StatSnapshot → Bool} {s t : System} {l : Label}
  {out o : List Traffic}

theorem publish_taken {i : Input} {now : Time} {order : List ConnKey}
    (kind : i = .tick now order ∨ i = .closed now order) (taken : step s (.input i) = some (t, o)) :
    Enumerates order s.conns ∧
      t.machine.proc = (publishSnapshots order now s.machine.proc).1 := by
  cases step_move taken with
  | publish i now' order' running kind' idle visit =>
    have same : now' = now ∧ order' = order := by
      rcases kind with rfl | rfl <;> simpa [eq_comm] using kind'
    obtain ⟨rfl, rfl⟩ := same
    exact ⟨visit, rfl⟩
  | sweep now order flowOrder idle visit => rcases kind with kind | kind <;> cases kind
  | event a now e idle => rcases kind with kind | kind <;> cases kind
  | resource r idle => rcases kind with kind | kind <;> cases kind

theorem spoken_of_silent (key : String) (s : System) (silent : l.speaks = false) :
    spoken key s l = [] := by
  cases l with
  | input i =>
    cases i with
    | event a now e => rfl
    | resource r => rfl
    | tick now order => cases silent
    | closed now order => cases silent
    | sweep now order flowOrder => cases silent
  | runOp => rfl
  | resOp => rfl
  | receive => rfl
  | write now => rfl
  | register order => rfl
  | disconnect => rfl

theorem told_silent_run {ls : List Label} (distinct : Distinct names)
    (start : Sound names good s out) (silent : ∀ l ∈ ls, l.speaks = false)
    (run : exec (restrict (Smooth names good) step) s ls = some (t, o)) (key : String) :
    told key t (out ++ o) = told key s out := by
  induction ls generalizing s out o with
  | nil =>
    obtain ⟨rfl, rfl⟩ := exec_nil_iff.mp run
    rw [List.append_nil]
  | cons l ls ih =>
    obtain ⟨u, now, later, first, rest, rfl⟩ := exec_cons_iff.mp run
    obtain ⟨smooth, taken⟩ := restrict_iff.mp first
    have next := sound_step distinct start smooth taken
    rw [← List.append_assoc, ih next (fun l' member => silent l' (List.mem_cons_of_mem _ member))
      rest, told_step start.flow smooth taken, spoken_of_silent key s (silent l List.mem_cons_self),
      List.append_nil]

theorem tracked_of_spoken {key : String} (taken : step s l = some (t, o))
    (said : spoken key s l ≠ []) : ∃ k ∈ s.conns, k.text = key := by
  obtain ⟨w, here⟩ := List.exists_mem_of_ne_nil _ said
  cases step_move taken with
  | publish i now order running kind idle visit =>
    rw [spoken_publish key s kind, words_stats] at here
    obtain ⟨snap, mine, _⟩ := List.mem_map.mp here
    obtain ⟨member, own⟩ := List.mem_filter.mp mine
    obtain ⟨k, tracked, same⟩ := published_of_tracked visit member
    exact ⟨k, tracked, same.symm.trans (of_decide_eq_true own)⟩
  | sweep now order flowOrder idle visit =>
    rw [spoken, words_removals] at here
    obtain ⟨k, mine, _⟩ := List.mem_map.mp here
    obtain ⟨member, own⟩ := List.mem_filter.mp mine
    exact ⟨k, swept_of_tracked visit member, of_decide_eq_true own⟩
  | event a now e idle => cases here
  | resource r idle => cases here
  | apply a now e rest next => cases here
  | runCall call rest t o next made => cases here
  | resCall call rest t o next made => cases here
  | receive m rest free next => cases here
  | write now m held => cases here
  | register order away visit => cases here
  | disconnect there => cases here

theorem spoken_of_dropped {k : ConnKey} {cs : ConnStats} (distinct : Distinct names)
    (story : Story names good s out) (taken : step s l = some (t, o))
    (here : s.conns.lookup k = some cs) (gone : t.conns.lookup k = none) :
    spoken k.text s l ≠ [] := by
  have kept : ∀ u : System, u.conns.lookup k = s.conns.lookup k →
      ¬ u.conns.lookup k = none := by
    intro u same
    simp [same, here]
  cases step_move taken with
  | publish i now order running kind idle visit =>
    have moved := (conn_after_tick visit k).symm.trans gone
    rw [show s.machine.proc.conns.lookup k = some cs from here] at moved
    cases moved
  | sweep now order flowOrder idle visit =>
    have mine := story.named k (Finmap.mem_of_lookup_eq_some here)
    have moved := (conn_after_sweep visit k).symm.trans gone
    rw [show s.machine.proc.conns.lookup k = some cs from here] at moved
    have old : expired now cs.lastSeen = true := by
      simpa [Option.filter] using moved
    rw [spoken, words_swept distinct story.named visit mine,
      show s.machine.proc.conns.lookup k = some cs from here]
    simp [old]
  | event a now e idle => exact absurd gone (kept _ rfl)
  | resource r idle => exact absurd gone (kept _ rfl)
  | apply a now e rest next =>
    by_cases mine : k = a.connKey
    · subst mine
      exact absurd (conn_after_own_event.symm.trans gone) (by simp)
    · exact absurd gone (kept _ (conn_after_other_event mine))
  | runCall call rest t o next made =>
    exact absurd gone (kept t (congrArg (·.proc.conns.lookup k) (call_keeps made).1))
  | resCall call rest t o next made =>
    exact absurd gone (kept t (congrArg (·.proc.conns.lookup k) (call_keeps made).1))
  | receive m rest free next => exact absurd gone (kept _ rfl)
  | write now m held => exact absurd gone (kept _ rfl)
  | register order away visit => exact absurd gone (kept _ rfl)
  | disconnect there => exact absurd gone (kept _ rfl)

theorem told_of_dropped {ls : List Label} {k : ConnKey} {cs : ConnStats}
    (distinct : Distinct names) (start : Sound names good s out)
    (run : exec (restrict (Smooth names good) step) s ls = some (t, o))
    (here : s.conns.lookup k = some cs) (gone : t.conns.lookup k = none) :
    ∃ more, more ≠ [] ∧ told k.text t (out ++ o) = told k.text s out ++ more := by
  induction ls generalizing s out o cs with
  | nil =>
    obtain ⟨rfl, rfl⟩ := exec_nil_iff.mp run
    exact absurd (here.symm.trans gone) (by simp)
  | cons l ls ih =>
    obtain ⟨u, now, later, first, rest, rfl⟩ := exec_cons_iff.mp run
    obtain ⟨smooth, taken⟩ := restrict_iff.mp first
    have next := sound_step distinct start smooth taken
    have grown := told_step start.flow smooth taken k.text
    rw [← List.append_assoc]
    cases there : u.conns.lookup k with
    | none =>
      obtain ⟨more, told⟩ := told_run distinct next rest k.text
      refine ⟨spoken k.text s l ++ more, ?_, ?_⟩
      · have said := spoken_of_dropped distinct start.story taken here there
        simp [said]
      · rw [told, grown, List.append_assoc]
    | some cs' =>
      obtain ⟨more, some, told⟩ := ih next rest there
      refine ⟨spoken k.text s l ++ more, by simp [some], ?_⟩
      rw [told, grown, List.append_assoc]

theorem tracked_of_told {ls : List Label} {key : String} {more : List (Word StatSnapshot)}
    (distinct : Distinct names) (start : Sound names good s out)
    (run : exec (restrict (Smooth names good) step) s ls = some (t, o))
    (grown : told key t (out ++ o) = told key s out ++ more) (some : more ≠ []) :
    Passes (restrict (Smooth names good) step) s ls fun u => ∃ k ∈ u.conns, k.text = key := by
  induction ls generalizing s out o more with
  | nil =>
    obtain ⟨rfl, rfl⟩ := exec_nil_iff.mp run
    rw [List.append_nil] at grown
    exact absurd (List.self_eq_append_right.mp grown) some
  | cons l ls ih =>
    obtain ⟨u, now, later, first, rest, rfl⟩ := exec_cons_iff.mp run
    obtain ⟨smooth, taken⟩ := restrict_iff.mp first
    by_cases said : spoken key s l = []
    · have next := sound_step distinct start smooth taken
      have same := told_step start.flow smooth taken key
      rw [said, List.append_nil] at same
      rw [← List.append_assoc, ← same] at grown
      exact passes_cons first (ih next rest grown some)
    · exact passes_first (tracked_of_spoken taken said)

end Speaking

section Sessions

variable {names : ConnKey → Bool} {good : StatSnapshot → Bool} (distinct : Distinct names)
  (v : Session (restrict (Smooth names good) step))

theorem Session.joined_client :
    v.joined.client = v.joining.client.join (getHistory v.joinOrder v.joining.machine.proc) ∧
      Enumerates v.joinOrder v.joining.conns ∧ inFlight v.joined = inFlight v.joining := by
  have joins := step_move (restrict_iff.mp v.registers).2
  generalize v.joined = r at joins
  cases joins with
  | register order away visit => exact ⟨rfl, visit, rfl⟩

theorem join_keeps (c : Client) (h : List ConnHistory) :
    (c.join h).snapshots = c.snapshots ∧ (c.join h).connected = true := by
  unfold Client.join
  split <;> exact ⟨rfl, rfl⟩

include distinct in
theorem Session.sound_joining : Sound names good v.joining v.first := by
  simpa using sound_run distinct sound_start v.reaches

include distinct in
theorem Session.sound_joined : Sound names good v.joined v.first := by
  simpa using sound_run distinct (v.sound_joining distinct) (exec_single_iff.mpr v.registers)

include distinct in
theorem Session.sound_publishing : Sound names good v.publishing (v.first ++ v.second) :=
  sound_run distinct (v.sound_joined distinct) v.waits

include distinct in
theorem Session.sound_published : Sound names good v.published (v.first ++ v.second) := by
  simpa using sound_run distinct (v.sound_publishing distinct) (exec_single_iff.mpr v.publishes)

include distinct in
theorem Session.told_joined (key : String) :
    told key v.joined v.first = words key (written v.first) ++ words key (inFlight v.joining) := by
  rw [told_inFlight (v.sound_joined distinct).flow, v.joined_client.2.2]

def Session.heard (key : String) : List (Word StatSnapshot) :=
  words key (written (v.second ++ (v.third ++ v.fourth)))

include distinct in
theorem Session.told_sent (key : String) :
    told key v.published (v.first ++ v.second) =
      words key (sent (v.first ++ v.second ++ v.third)) := by
  have same := told_silent_run distinct (v.sound_published distinct) v.alone v.completes key
  have nothing : words key (pending v.complete.runOps) = [] := by
    rw [v.idle]
    rfl
  rw [← same, told, nothing, List.append_nil]

include distinct in
theorem Session.told_published (key : String) :
    told key v.published (v.first ++ v.second) = words key (written v.first) ++ v.heard key := by
  rw [v.told_sent distinct, ← v.caughtUp, Session.heard]
  simp only [written_append, words_append, List.append_assoc]

include distinct in
theorem Session.told_publishing (key : String) :
    told key v.published (v.first ++ v.second) =
      told key v.publishing (v.first ++ v.second) ++ spoken key v.publishing (.input v.input) := by
  obtain ⟨smooth, taken⟩ := restrict_iff.mp v.publishes
  simpa using told_step (v.sound_publishing distinct).flow smooth taken key

include distinct in
theorem Session.heard_eq {key : String} {more : List (Word StatSnapshot)}
    (grown : told key v.publishing (v.first ++ v.second) = told key v.joined v.first ++ more) :
    v.heard key =
      words key (inFlight v.joining) ++ (more ++ spoken key v.publishing (.input v.input)) := by
  have all := v.told_publishing distinct key
  rw [v.told_published distinct, grown, v.told_joined distinct, List.append_assoc,
    List.append_assoc] at all
  exact List.append_cancel_left all

include distinct in
theorem Session.shown_client (key : String) :
    (v.shown.client.snapshots.lookup key, v.shown.client.metrics key) =
      (current decodeStats (v.joining.client.snapshots.lookup key) (v.heard key),
        life (Metrics.js ∘ snapshotMetrics) maxHistory (v.joined.client.metrics key)
          (v.heard key)) := by
  have onward : exec (restrict (Smooth names good) step) v.joined
      (v.between ++ .input v.input :: (v.during ++ v.after)) =
        some (v.shown, v.second ++ (v.third ++ v.fourth)) :=
    exec_append_iff.mpr ⟨_, _, _, v.waits, exec_cons_iff.mpr ⟨_, _, _, v.publishes,
      exec_append_iff.mpr ⟨_, _, _, v.completes, v.applies, rfl⟩, rfl⟩, rfl⟩
  obtain ⟨snapshots, there⟩ := join_keeps v.joining.client
    (getHistory v.joinOrder v.joining.machine.proc)
  rw [← v.joined_client.1] at snapshots there
  have stays : ∀ l ∈ v.between ++ .input v.input :: (v.during ++ v.after), l ≠ .disconnect := by
    intro l member leaves
    exact v.stays (leaves ▸ member)
  rw [listen_run distinct (v.sound_joined distinct) there stays onward key, listen, snapshots]
  rfl

include distinct in
theorem Session.spoken_published {k : ConnKey} (mine : names k = true) :
    spoken k.text v.publishing (.input v.input) =
      ((v.publishing.conns.lookup k).map fun cs =>
        Word.put (snapshot k cs (v.publishing.machine.proc.resources.lookup k.dst))).toList := by
  have visit := (publish_taken v.kind (restrict_iff.mp v.publishes).2).1
  rw [spoken_publish _ _ v.kind]
  exact words_published distinct (v.sound_publishing distinct).story.named visit mine

include distinct in
theorem Session.shown_tracked {k : ConnKey} {cs : ConnStats}
    (found : v.publishing.conns.lookup k = some cs) :
    v.shown.client.snapshots.lookup k.text = some (decodeStats
      (snapshot k cs (v.publishing.machine.proc.resources.lookup k.dst))) := by
  have mine := (v.sound_publishing distinct).story.named k (Finmap.mem_of_lookup_eq_some found)
  obtain ⟨more, grown⟩ := told_run distinct (v.sound_joined distinct) v.waits k.text
  have heard := v.heard_eq distinct grown
  rw [v.spoken_published distinct mine, found, ← List.append_assoc] at heard
  rw [(Prod.mk.inj (v.shown_client distinct k.text)).1, heard]
  exact current_put _ _ _

include distinct in
theorem Session.shown_untracked {key : String}
    (gone : ∀ k ∈ v.publishing.conns, k.text ≠ key) :
    v.shown.client.snapshots.lookup key =
      if v.heard key = [] then v.joining.client.snapshots.lookup key else none := by
  rw [(Prod.mk.inj (v.shown_client distinct key)).1]
  split
  · rename_i quiet
    rw [quiet]
    rfl
  · rename_i said
    have all := v.told_publishing distinct key
    rw [v.told_published distinct] at all
    have story := (v.sound_publishing distinct).story
    by_cases named : ∃ k, names k = true ∧ k.text = key
    · obtain ⟨k, mine, rfl⟩ := named
      have missing : v.publishing.conns.lookup k = none :=
        Finmap.lookup_eq_none.mpr fun member => gone k member rfl
      rw [v.spoken_published distinct mine, missing, Option.map_none, Option.toList_none,
        List.append_nil] at all
      have silent := story.untracked k mine missing
      rw [← all] at silent
      exact current_of_silent silent said _
    · have unspoken : spoken key v.publishing (.input v.input) = [] := by
        by_contra spoke
        obtain ⟨k, member, same⟩ := tracked_of_spoken (restrict_iff.mp v.publishes).2 spoke
        exact gone k member same
      rw [unspoken, story.unnamed key fun k mine same => named ⟨k, mine, same⟩] at all
      exact absurd (List.append_eq_nil_iff.mp all).2 said

include distinct in
/-- On screen are the connections tracked at the publish, and the edges kept from before that
    nothing was heard of. -/
theorem Session.shown_iff (key : String) :
    key ∈ v.shown.client.snapshots ↔ (∃ k ∈ v.publishing.conns, k.text = key) ∨
      key ∈ v.joining.client.snapshots ∧ v.heard key = [] := by
  by_cases tracked : ∃ k ∈ v.publishing.conns, k.text = key
  · have shown : key ∈ v.shown.client.snapshots := by
      obtain ⟨k, member, rfl⟩ := tracked
      obtain ⟨cs, found⟩ := Finmap.mem_iff.mp member
      exact Finmap.mem_of_lookup_eq_some (v.shown_tracked distinct found)
    simp [shown, tracked]
  · have shown := v.shown_untracked distinct fun k member same => tracked ⟨k, member, same⟩
    rw [← Finmap.lookup_isSome, ← Finmap.lookup_isSome, shown]
    by_cases quiet : v.heard key = []
    · simp [quiet, tracked]
    · simp [quiet, tracked]

include distinct in
theorem Session.heard_iff (key : String) :
    v.heard key ≠ [] ∨ (∃ k ∈ v.publishing.conns, k.text = key) ↔
      words key (inFlight v.joining) ≠ [] ∨
        Passes (restrict (Smooth names good) step) v.joined v.between
          fun u => ∃ k ∈ u.conns, k.text = key := by
  obtain ⟨more, grown⟩ := told_run distinct (v.sound_joined distinct) v.waits key
  have heard := v.heard_eq distinct grown
  constructor
  · rintro (said | tracked)
    · by_cases flying : words key (inFlight v.joining) = []
      · right
        by_cases quiet : more = []
        · rw [heard, flying, quiet, List.nil_append, List.nil_append] at said
          exact passes_last v.waits (tracked_of_spoken (restrict_iff.mp v.publishes).2 said)
        · exact tracked_of_told distinct (v.sound_joined distinct) v.waits grown quiet
      · exact .inl flying
    · exact .inr (passes_last v.waits tracked)
  · rintro (flying | ⟨as, bs, u, o, split, run, k, member, rfl⟩)
    · left
      simp [heard, flying]
    · by_cases tracked : k ∈ v.publishing.conns
      · exact .inr ⟨k, tracked, rfl⟩
      · left
        obtain ⟨u', o₁, o₂, run', rest, second⟩ := exec_append_iff.mp (split ▸ v.waits)
        cases run.symm.trans run'
        obtain ⟨cs, here⟩ := Finmap.mem_iff.mp member
        have sound := sound_run distinct (v.sound_joined distinct) run
        obtain ⟨early, told⟩ := told_run distinct (v.sound_joined distinct) run k.text
        obtain ⟨late, some, dropped⟩ := told_of_dropped distinct sound rest here
          (Finmap.lookup_eq_none.mpr tracked)
        rw [List.append_assoc, ← second, grown, told, List.append_assoc] at dropped
        rw [heard, List.append_cancel_left dropped]
        simp [some]

end Sessions

end Dashboard
