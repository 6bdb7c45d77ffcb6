import MicroTrace.Library.RangeLoops
import MicroTrace.Resource.Baselines

/- The ticks of resource_agent/main.go. A tick lists the running containers and visits one
   after the other: its path is found through its pid, its files are read, and its state is
   kept under its name. The time of a visit is the real time at which the files are read. -/
namespace ResourceAgent
open CollectorModel Text Runs RangeLoops

/- The interval in nanoseconds; time.NewTicker accepts no other than a positive one. -/
structure Config where
  interval : ℤ
  positive : 0 < interval
  serviceOverride : String
  floats : Floats

def seconds (ns : ℤ) : ℚ := ns / 1000000000

def Config.intervalSec (cfg : Config) : ℚ := seconds cfg.interval

/- A container of the list: what Docker answers when it is inspected (none is an error), and
   what the files hold at that time. -/
structure Item where
  id : String
  names : List String
  inspect : Option ℕ
  files : Files
  readAt : Time

inductive Tick where
  | failed
  | listed (nowMs : ℤ) (items : List Item)

def containerName : List String → String
  | [] => ""
  | name :: _ => String.ofList (trimPrefix ['/'] name.toList)

inductive PathError where
  | notInspected
  | notRunning
  | notOpened
  | noEntry
  deriving DecidableEq

def resolveCgroupPath (item : Item) : Except PathError String :=
  match item.inspect with
  | none => .error .notInspected
  | some pid =>
      if pid = 0 then .error .notRunning
      else match item.files s!"/proc/{pid}/cgroup" with
        | .missing => .error .notOpened
        | .opened content failed =>
            match (scan content failed).lines.find? ("0::".toList.isPrefixOf) with
            | none => .error .noEntry
            | some line =>
                .ok ("/sys/fs/cgroup" ++ String.ofList (trimPrefix "0::".toList line))

/- json.Marshal refuses floats that are not finite. -/
def encodes (s : ResourceSnapshot) : Bool :=
  s.cpuPct.isFinite && s.cpuThrottlePct.isFinite && s.memPressurePct.isFinite &&
    s.ioWaitPct.isFinite && s.psiMemSomePct.isFinite && s.psiMemFullPct.isFinite

def printed : Except Failure (Option ResourceSnapshot) → List ResourceSnapshot
  | .error _ => []
  | .ok none => []
  | .ok (some snap) => if encodes snap then [snap] else []

abbrev StateMap := GoMap String ContainerState

structure Agent where
  stateMap : StateMap
  clock : Time

def Agent.start (clock : Time) : Agent := ⟨∅, clock⟩

abbrev Visit := ℤ × Item

def Visit.call (cfg : Config) (v : Visit) : Option Call :=
  let name := containerName v.2.names
  if name = "" then none
  else match resolveCgroupPath v.2 with
    | .error _ => none
    | .ok cgroupPath =>
        let serviceName := if cfg.serviceOverride ≠ "" then cfg.serviceOverride else name
        some ⟨v.2.files, serviceName, cgroupPath, v.1, cfg.intervalSec⟩

def Agent.state (m : Agent) (name : String) : ContainerState :=
  (m.stateMap.lookup name).getD .zero

/- One turn of the loop. Time passes between two visits; none is a panic. -/
def visit (cfg : Config) : Stepper Agent Visit ResourceSnapshot := fun m v =>
  if m.clock < v.2.readAt then
    match v.call cfg with
    | none => some (⟨m.stateMap, v.2.readAt⟩, [])
    | some c =>
        let name := containerName v.2.names
        (readSnapshot cfg.floats c (m.state name)).map fun result =>
          (⟨m.stateMap.insert name result.2, v.2.readAt⟩, printed result.1)
  else none

def Tick.visits : Tick → List Visit
  | .failed => []
  | .listed nowMs items => items.map fun item => (nowMs, item)

def collect (cfg : Config) : Stepper Agent Tick ResourceSnapshot := fun m tick =>
  match tick with
  | .failed => some (m, [])
  | .listed nowMs items => exec (visit cfg) m (items.map fun item => (nowMs, item))

def visitsOf (ticks : List Tick) : List Visit := ticks.flatMap Tick.visits

theorem collect_run {cfg : Config} {m m' : Agent} {ticks : List Tick} {out : List ResourceSnapshot}
    (run : exec (collect cfg) m ticks = some (m', out)) :
    exec (visit cfg) m (visitsOf ticks) = some (m', out) := by
  induction ticks generalizing m out with
  | nil => exact run
  | cons tick ticks ih =>
    obtain ⟨t, now, later, first, rest, rfl⟩ := exec_cons_iff.mp run
    rw [visitsOf, List.flatMap_cons]
    refine exec_append_iff.mpr ⟨t, now, later, ?_, ih rest, rfl⟩
    cases tick with
    | failed => exact first
    | listed nowMs items => exact first

structure Read where
  id : String
  name : String
  readAt : Time
  counters : Counters
  deriving DecidableEq

def Visit.read (cfg : Config) (v : Visit) : Option Read :=
  (v.call cfg).bind fun c => c.counters.map fun cur =>
    ⟨v.2.id, containerName v.2.names, v.2.readAt, cur⟩

def history (cfg : Config) (visits : List Visit) : List Read := visits.filterMap (Visit.read cfg)

def lastUnder (name : String) (rs : List Read) : Option Read :=
  (rs.filter fun r => r.name = name).getLast?

def lastOf (id : String) (rs : List Read) : Option Read :=
  (rs.filter fun r => r.id = id).getLast?

def stateAfter (last : Option Read) : ContainerState :=
  (last.map fun r => .stored r.counters).getD .zero

theorem history_snoc (cfg : Config) (visits : List Visit) (v : Visit) :
    history cfg (visits ++ [v]) = history cfg visits ++ (v.read cfg).toList := by
  rw [history, List.filterMap_append]
  cases read : v.read cfg <;> simp [history, read]

theorem lastUnder_mem {name : String} {rs : List Read} {r : Read}
    (last : lastUnder name rs = some r) : r ∈ rs :=
  (List.mem_filter.mp (List.mem_of_getLast? last)).1

theorem lastUnder_snoc (name : String) (rs : List Read) (r : Read) :
    lastUnder name (rs ++ [r]) = if r.name = name then some r else lastUnder name rs := by
  unfold lastUnder
  rw [List.filter_append]
  split
  · rename_i same
    simp [same]
  · rename_i other
    simp [other]

section Step

variable {cfg : Config} {m m' : Agent} {v : Visit} {out : List ResourceSnapshot}

theorem state_insert (m : Agent) (name other : String) (st : ContainerState) (clock : Time) :
    (Agent.mk (m.stateMap.insert name st) clock).state other =
      if name = other then st else m.state other := by
  unfold Agent.state
  split
  · rename_i same
    subst same
    rw [Finmap.lookup_insert]
    rfl
  · rename_i different
    rw [Finmap.lookup_insert_of_ne _ (Ne.symm different)]

theorem visit_call {c : Call} (called : v.call cfg = some c) (later : m.clock < v.2.readAt)
    (taken : visit cfg m v = some (m', out)) :
    ∃ result st, readStep cfg.floats (m.state (containerName v.2.names)) c = some (st, [result]) ∧
      m' = ⟨m.stateMap.insert (containerName v.2.names) st, v.2.readAt⟩ ∧ out = printed result := by
  rw [visit, if_pos later] at taken
  simp only [called, Option.map_eq_some_iff, Prod.mk.injEq] at taken
  obtain ⟨⟨result, st⟩, read, rfl, rfl⟩ := taken
  refine ⟨result, st, ?_, rfl, rfl⟩
  rw [readStep, read]
  rfl

theorem read_of_call {c : Call} (called : v.call cfg = some c) :
    v.read cfg = c.counters.map fun cur =>
      ⟨v.2.id, containerName v.2.names, v.2.readAt, cur⟩ := by
  rw [Visit.read, called, Option.bind_some]

theorem visit_later (taken : visit cfg m v = some (m', out)) :
    m.clock < v.2.readAt ∧ m'.clock = v.2.readAt := by
  unfold visit at taken
  split at taken
  · rename_i later
    refine ⟨later, ?_⟩
    cases called : v.call cfg with
    | none =>
      simp only [called, Option.some.injEq, Prod.mk.injEq] at taken
      rw [← taken.1]
    | some c =>
      simp only [called, Option.map_eq_some_iff, Prod.mk.injEq] at taken
      obtain ⟨_, _, rfl, _⟩ := taken
      rfl
  · cases taken

theorem visit_cases (taken : visit cfg m v = some (m', out)) :
    v.read cfg = none ∧ (∀ name, m'.state name = m.state name) ∧ out = [] ∨
      ∃ c r, v.call cfg = some c ∧ v.read cfg = some r ∧ r.readAt = v.2.readAt ∧
        (∀ name, m'.state name = if r.name = name then .stored r.counters else m.state name) ∧
        out = if (m.state r.name).hasPrev = false then []
          else printed (.ok (some (snapshotOf cfg.floats c
            (.between (m.state r.name).counters r.counters)))) := by
  obtain ⟨later, _⟩ := visit_later taken
  cases called : v.call cfg with
  | none =>
    left
    rw [visit, if_pos later, called] at taken
    obtain ⟨rfl, rfl⟩ := Prod.mk.inj (Option.some.inj taken)
    exact ⟨by rw [Visit.read, called]; rfl, fun _ => rfl, rfl⟩
  | some c =>
    obtain ⟨result, st, stepped, rfl, rfl⟩ := visit_call called later taken
    rcases read_step_cases stepped with ⟨failure, failed, rfl, told⟩ | ⟨cur, found, rfl, outcome⟩
    · left
      obtain rfl : result = .error failure := List.singleton_inj.mp told
      refine ⟨by rw [read_of_call called, failed]; rfl, ?_, rfl⟩
      intro name
      rw [state_insert]
      split
      · rename_i same
        rw [same]
      · rfl
    · right
      refine ⟨c, ⟨v.2.id, containerName v.2.names, v.2.readAt, cur⟩, rfl, ?_, rfl, ?_, ?_⟩
      · rw [read_of_call called, found]
        rfl
      · exact fun name => state_insert m _ name _ _
      · rcases outcome with ⟨first, told⟩ | ⟨again, told⟩
        · rw [if_pos first, List.singleton_inj.mp told]
          rfl
        · rw [if_neg (by rw [again]; decide), List.singleton_inj.mp told]

end Step

/- The state under a name is that of the last read under it, and no read lies in the future. -/
structure Kept (cfg : Config) (visits : List Visit) (m : Agent) : Prop where
  states : ∀ name, m.state name = stateAfter (lastUnder name (history cfg visits))
  past : ∀ r ∈ history cfg visits, r.readAt ≤ m.clock

section Run

variable {cfg : Config} {m m' : Agent} {v : Visit} {out : List ResourceSnapshot}
  {visits : List Visit} {clock : Time}

theorem kept_step (kept : Kept cfg visits m) (taken : visit cfg m v = some (m', out)) :
    Kept cfg (visits ++ [v]) m' := by
  obtain ⟨later, clock⟩ := visit_later taken
  have earlier : ∀ r ∈ history cfg visits, r.readAt ≤ m'.clock := by
    intro r member
    rw [clock]
    exact (kept.past r member).trans later.le
  rcases visit_cases taken with ⟨none, same, _⟩ | ⟨c, r, _, read, time, states, _⟩
  · constructor
    · intro name
      rw [history_snoc, none, Option.toList_none, List.append_nil, same, kept.states]
    · intro r member
      rw [history_snoc, none, Option.toList_none, List.append_nil] at member
      exact earlier r member
  · constructor
    · intro name
      rw [history_snoc, read, Option.toList_some, lastUnder_snoc, states]
      split
      · rfl
      · exact kept.states name
    · intro q member
      rw [history_snoc, read, Option.toList_some, List.mem_append, List.mem_singleton] at member
      rcases member with old | rfl
      · exact earlier q old
      · exact (time.trans clock.symm).le

theorem kept_run (run : exec (visit cfg) (Agent.start clock) visits = some (m, out)) :
    Kept cfg visits m := by
  refine exec_history (I := fun visits m _ => Kept cfg visits m) ?_ ?_ run
  · exact ⟨fun _ => rfl, by simp [history]⟩
  · intro visits t u v out o _ held taken
    exact kept_step held taken

theorem printed_of_history (kept : Kept cfg visits m) (taken : visit cfg m v = some (m', out)) :
    v.read cfg = none ∧ out = [] ∨
      ∃ c r, v.call cfg = some c ∧ v.read cfg = some r ∧
        (∀ q ∈ history cfg visits, q.readAt < r.readAt) ∧
        out = (lastUnder r.name (history cfg visits)).elim [] fun p =>
          printed (.ok (some (snapshotOf cfg.floats c (.between p.counters r.counters)))) := by
  obtain ⟨later, _⟩ := visit_later taken
  rcases visit_cases taken with ⟨none, _, nothing⟩ | ⟨c, r, called, read, time, _, told⟩
  · exact .inl ⟨none, nothing⟩
  · right
    refine ⟨c, r, called, read, ?_, ?_⟩
    · intro q member
      rw [time]
      exact (kept.past q member).trans_lt later
    · rw [told, kept.states]
      cases lastUnder r.name (history cfg visits) with
      | none => rfl
      | some p => rfl

end Run

/-- Every visit of a run of ticks, with the visits before it and what it prints. -/
def Along (cfg : Config) (clock : Time) (ticks : List Tick)
    (P : List Visit → Visit → List ResourceSnapshot → Prop) : Prop :=
  ∀ before v after, visitsOf ticks = before ++ v :: after →
    ∃ m out m' now, exec (visit cfg) (Agent.start clock) before = some (m, out) ∧
      visit cfg m v = some (m', now) ∧ P before v now

theorem along_of_kept {cfg : Config} {clock : Time} {ticks : List Tick} {m : Agent}
    {out : List ResourceSnapshot} {P : List Visit → Visit → List ResourceSnapshot → Prop}
    (run : exec (collect cfg) (Agent.start clock) ticks = some (m, out))
    (holds : ∀ {before v after s s' now}, visitsOf ticks = before ++ v :: after →
      Kept cfg before s → visit cfg s v = some (s', now) → P before v now) :
    Along cfg clock ticks P := by
  intro before v after split
  have whole := collect_run run
  rw [split] at whole
  obtain ⟨s, o, _, earlier, rest, _⟩ := exec_append_iff.mp whole
  obtain ⟨s', now, _, taken, _⟩ := exec_cons_iff.mp rest
  exact ⟨s, o, s', now, earlier, taken, holds split (kept_run earlier) taken⟩

end ResourceAgent
