import MicroTrace.Resource.Collect

/- Containers that come and go. The state of a container that was removed stays under its
   name, and the next container of that name is compared with it. -/
namespace ResourceAgent
open CollectorModel Text Runs

/- If anything was read under the name of the container before, it was this container that
   was read last. -/
def SameInstance (cfg : Config) (before : List Visit) (v : Visit) : Prop :=
  ∀ r p, v.read cfg = some r → lastUnder r.name (history cfg before) = some p → p.id = r.id

def NewInstance (cfg : Config) (before : List Visit) (v : Visit) : Prop :=
  ∀ q ∈ history cfg before, q.id ≠ v.2.id

/-- A snapshot is made of the differences of two reads of one container, and a container that
    has not been read before has none. -/
def DeltasOwn (cfg : Config) (before : List Visit) (v : Visit) (out : List ResourceSnapshot) :
    Prop :=
  (∀ snap ∈ out, ∃ c r q, v.call cfg = some c ∧ v.read cfg = some r ∧ q ∈ history cfg before ∧
      q.id = r.id ∧ snap = snapshotOf cfg.floats c (.between q.counters r.counters)) ∧
    (NewInstance cfg before v → out = [])

def Unprinted (cfg : Config) (before : List Visit) (v : Visit) : Prop :=
  ∀ c r p, v.call cfg = some c → v.read cfg = some r →
    lastUnder r.name (history cfg before) = some p →
      encodes (snapshotOf cfg.floats c (.between p.counters r.counters)) = false

section Visit

variable {cfg : Config} {m m' : Agent} {v : Visit} {out : List ResourceSnapshot}
  {before : List Visit}

theorem read_id {r : Read} (read : v.read cfg = some r) : r.id = v.2.id := by
  obtain ⟨c, _, found⟩ := Option.bind_eq_some_iff.mp read
  obtain ⟨cur, _, rfl⟩ := Option.map_eq_some_iff.mp found
  rfl

theorem printed_snapshot {snap shown : ResourceSnapshot}
    (member : snap ∈ printed (.ok (some shown))) : snap = shown := by
  simp only [printed] at member
  split at member
  · exact List.mem_singleton.mp member
  · cases member

theorem printed_nil_iff (snap : ResourceSnapshot) :
    printed (.ok (some snap)) = [] ↔ encodes snap = false := by
  simp only [printed]
  cases encodes snap <;> simp

theorem own_of_same_instance (kept : Kept cfg before m) (taken : visit cfg m v = some (m', out))
    (same : SameInstance cfg before v) : DeltasOwn cfg before v out := by
  rcases printed_of_history kept taken with ⟨_, rfl⟩ | ⟨c, r, called, read, _, rfl⟩
  · exact ⟨by simp, fun _ => rfl⟩
  · cases last : lastUnder r.name (history cfg before) with
    | none => exact ⟨by simp, fun _ => rfl⟩
    | some p =>
      have own := same r p read last
      have member := lastUnder_mem last
      constructor
      · intro snap shown
        exact ⟨c, r, p, called, read, member, own, printed_snapshot shown⟩
      · intro fresh
        exact absurd (own.trans (read_id read)) (fresh p member)

theorem silent_iff (kept : Kept cfg before m) (taken : visit cfg m v = some (m', out)) :
    out = [] ↔ Unprinted cfg before v := by
  rcases printed_of_history kept taken with ⟨none, rfl⟩ | ⟨c, r, called, read, _, rfl⟩
  · simp [Unprinted, none]
  · unfold Unprinted
    cases last : lastUnder r.name (history cfg before) with
    | none =>
      refine iff_of_true rfl ?_
      intro c' r' p _ read' last'
      rw [read, Option.some.injEq] at read'
      rw [← read', last] at last'
      cases last'
    | some p =>
      rw [Option.elim_some, printed_nil_iff]
      constructor
      · intro unencoded c' r' p' called' read' last'
        rw [called, Option.some.injEq] at called'
        rw [read, Option.some.injEq] at read'
        rw [← read', last, Option.some.injEq] at last'
        rw [← called', ← read', ← last']
        exact unencoded
      · intro all
        exact all c r p called read last

end Visit

/-- In every run of ticks a visit reports its own container if it was the last one read under
    its name. The first read of a container is silent exactly when no read has been made under
    its name, of whichever container, or its snapshot can not be encoded. -/
theorem deltas_of_one_instance {cfg : Config} {clock : Time} {ticks : List Tick} {m : Agent}
    {out : List ResourceSnapshot}
    (run : exec (collect cfg) (Agent.start clock) ticks = some (m, out)) :
    Along cfg clock ticks (fun before v now =>
        SameInstance cfg before v → DeltasOwn cfg before v now) ∧
      Along cfg clock ticks (fun before v now =>
        NewInstance cfg before v → (now = [] ↔ Unprinted cfg before v)) := by
  constructor
  · exact along_of_kept run fun _ kept taken same => own_of_same_instance kept taken same
  · exact along_of_kept run fun _ kept taken _ => silent_iff kept taken

def dbFiles (usage : String) : Files := fun path =>
  if path = "/proc/7/cgroup" then text "0::/db\n"
  else if path = "/sys/fs/cgroup/db/cpu.stat" then text usage
  else if path = "/sys/fs/cgroup/db/memory.current" then text "4096\n"
  else if path = "/sys/fs/cgroup/db/memory.events" then text "high 0\noom_kill 0\n"
  else .missing

def dbItem (id usage : String) (readAt : Time) : Item :=
  ⟨id, ["/db"], some 7, dbFiles usage, readAt⟩

def everySecond : Config := ⟨1000000000, by decide, "", noFloats⟩

def twoTicks : List Tick :=
  [.listed 1000 [dbItem "a" "usage_usec 100\n" 1000000000],
   .listed 2000 [dbItem "a" "usage_usec 500\n" 2000000000]]

theorem one_container_reported : ∃ m out,
    exec (collect everySecond) (Agent.start 0) twoTicks = some (m, out) ∧ out.length = 1 ∧
      Along everySecond 0 twoTicks (fun before v now =>
        SameInstance everySecond before v → DeltasOwn everySecond before v now) ∧
      SameInstance everySecond [(1000, dbItem "a" "usage_usec 100\n" 1000000000)]
        (2000, dbItem "a" "usage_usec 500\n" 2000000000) := by
  refine ⟨_, _, rfl, by decide +kernel, (deltas_of_one_instance rfl).1, ?_⟩
  intro r p read last
  have own := lastUnder_mem last
  rw [read_id read]
  have only : history everySecond [(1000, dbItem "a" "usage_usec 100\n" 1000000000)] =
      [⟨"a", "db", 1000000000, ⟨⟨100, 0, 0⟩, ⟨0, 0⟩, ⟨0, 0⟩⟩⟩] := by decide +kernel
  rw [only, List.mem_singleton] at own
  rw [own]
  rfl

/- The container a is removed and another one is made under its name, which has already used
   more of the CPU when it is first read. -/
def recreated : List Tick :=
  [.listed 1000 [dbItem "a" "usage_usec 100\n" 1000000000],
   .listed 2000 [dbItem "b" "usage_usec 500\n" 2000000000]]

theorem recreated_container_mixed :
    (∃ m out, exec (collect everySecond) (Agent.start 0) recreated = some (m, out) ∧
      out.map (·.cpuPct) = [.finite (1 / 25)]) ∧
      ¬ ∀ (cfg : Config) (clock : Time) (ticks : List Tick) (m : Agent)
          (out : List ResourceSnapshot),
        exec (collect cfg) (Agent.start clock) ticks = some (m, out) →
          Along cfg clock ticks (DeltasOwn cfg) := by
  constructor
  · exact ⟨_, _, rfl, by decide +kernel⟩
  · intro claim
    obtain ⟨m, out, m', now, earlier, taken, _, first⟩ := claim everySecond 0 recreated _ _ rfl
      [(1000, dbItem "a" "usage_usec 100\n" 1000000000)]
      (2000, dbItem "b" "usage_usec 500\n" 2000000000) [] rfl
    have fresh : NewInstance everySecond [(1000, dbItem "a" "usage_usec 100\n" 1000000000)]
        (2000, dbItem "b" "usage_usec 500\n" 2000000000) := by
      unfold NewInstance
      decide +kernel
    have silent := (silent_iff (kept_run earlier) taken).mp (first fresh)
    have shown := silent _ _ ⟨"a", "db", 1000000000, ⟨⟨100, 0, 0⟩, ⟨0, 0⟩, ⟨0, 0⟩⟩⟩ rfl rfl
      (by decide +kernel)
    exact absurd shown (by decide +kernel)

end ResourceAgent
