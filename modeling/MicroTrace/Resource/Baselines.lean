import MicroTrace.Library.Growth
import MicroTrace.Library.Runs
import MicroTrace.Resource.Snapshot

/- Sequences of readSnapshot calls on one containerState, with failures and counter resets in
   between. What was not counted in a failed call is counted in the next one that succeeds. -/
namespace ResourceAgent
open CollectorModel Text Runs Growth

def Call.counters (c : Call) : Option Counters :=
  match c.found with
  | none => none
  | some (.error _) => none
  | some (.ok cur) => some cur

def readStep (F : Floats) :
    Stepper ContainerState Call (Except Failure (Option ResourceSnapshot)) :=
  fun st c => (readSnapshot F c st).map fun r => (r.2, [r.1])

def snapshotIn : Except Failure (Option ResourceSnapshot) → Option ResourceSnapshot
  | .error _ => none
  | .ok snap => snap

def successes (calls : List Call) : List (Call × Counters) :=
  calls.filterMap fun c => c.counters.map fun cur => (c, cur)

def reads (calls : List Call) : List Counters := calls.filterMap Call.counters

def turned (calls : List Call) : List Deltas := neighbours Deltas.between (reads calls)

def baseline (rs : List Counters) : ContainerState := (rs.getLast?.map .stored).getD .zero

inductive Counter where
  | usage
  | throttled
  | rbytes
  | wbytes
  | high
  | oomKill

def Counter.value : Counter → Counters → ℕ
  | .usage, cur => cur.cpu.usageUsec
  | .throttled, cur => cur.cpu.throttledUs
  | .rbytes, cur => cur.io.rbytes
  | .wbytes, cur => cur.io.wbytes
  | .high, cur => cur.mem.high
  | .oomKill, cur => cur.mem.oomKill

def Counter.delta : Counter → Deltas → ℕ
  | .usage, d => d.usage
  | .throttled, d => d.throttled
  | .rbytes, d => d.rbytes
  | .wbytes, d => d.wbytes
  | .high, d => d.high
  | .oomKill, d => d.oomKill

theorem delta_between (k : Counter) (prev cur : Counters) :
    k.delta (.between prev cur) = k.value cur - k.value prev := by
  cases k with
  | usage => rfl
  | throttled => rfl
  | rbytes => rfl
  | wbytes => rfl
  | high => rfl
  | oomKill => rfl

theorem turned_growth (k : Counter) (calls : List Call) :
    ((turned calls).map k.delta).sum = growth ((reads calls).map k.value) := by
  rw [turned, neighbours_map (g := fun prev cur => cur - prev) (delta_between k)]
  rfl

section Step

variable {F : Floats} {c : Call} {st st' : ContainerState}
  {out : List (Except Failure (Option ResourceSnapshot))}

theorem found_of_counters {cur : Counters} (counters : c.counters = some cur) :
    c.found = some (.ok cur) := by
  unfold Call.counters at counters
  cases found : c.found with
  | none => simp [found] at counters
  | some outcome =>
    cases outcome with
    | error failure => simp [found] at counters
    | ok other => simpa [found] using counters

theorem read_first {cur : Counters} (found : c.counters = some cur) (first : st.hasPrev = false) :
    readSnapshot F c st = some (.ok none, .stored cur) := by
  rw [read_snapshot_eq, found_of_counters found]
  exact if_pos first

theorem read_step_cases (taken : readStep F st c = some (st', out)) :
    (∃ failure, c.counters = none ∧ st' = st ∧ out = [.error failure]) ∨
      ∃ cur, c.counters = some cur ∧ st' = .stored cur ∧
        (st.hasPrev = false ∧ out = [.ok none] ∨
          st.hasPrev = true ∧ out = [.ok (some (snapshotOf F c (.between st.counters cur)))]) := by
  simp only [readStep, read_snapshot_eq, Option.map_eq_some_iff] at taken
  obtain ⟨⟨result, after⟩, taken, same⟩ := taken
  obtain ⟨rfl, rfl⟩ := Prod.mk.inj same
  unfold Call.counters
  cases found : c.found with
  | none => simp [found] at taken
  | some outcome =>
    cases outcome with
    | error failure =>
      simp only [found, Option.some.injEq, Prod.mk.injEq] at taken
      obtain ⟨rfl, rfl⟩ := taken
      exact .inl ⟨failure, rfl, rfl, rfl⟩
    | ok cur =>
      simp only [found] at taken
      right
      split at taken
      · rename_i first
        obtain ⟨rfl, rfl⟩ := Prod.mk.inj (Option.some.inj taken)
        exact ⟨cur, rfl, rfl, .inl ⟨first, rfl⟩⟩
      · rename_i later
        obtain ⟨rfl, rfl⟩ := Prod.mk.inj (Option.some.inj taken)
        exact ⟨cur, rfl, rfl, .inr ⟨by simpa using later, rfl⟩⟩

theorem error_keeps_state {failure : Failure}
    (failed : readSnapshot F c st = some (.error failure, st')) : st' = st := by
  have taken : readStep F st c = some (st', [.error failure]) := by
    rw [readStep, failed]
    rfl
  rcases read_step_cases taken with ⟨_, _, same, _⟩ | ⟨_, _, _, ⟨_, out⟩ | ⟨_, out⟩⟩
  · exact same
  · cases out
  · cases out

end Step

section Run

variable {F : Floats} {calls : List Call} {st : ContainerState}
  {out : List (Except Failure (Option ResourceSnapshot))}

theorem reads_eq (calls : List Call) : (successes calls).map Prod.snd = reads calls := by
  rw [successes, List.map_filterMap, reads]
  congr
  funext c
  cases c.counters <;> rfl

theorem successes_snoc (calls : List Call) (c : Call) :
    successes (calls ++ [c]) = successes calls ++ (c.counters.map fun cur => (c, cur)).toList := by
  rw [successes, List.filterMap_append]
  cases counters : c.counters <;> simp [successes, counters]

theorem reads_snoc (calls : List Call) (c : Call) :
    reads (calls ++ [c]) = reads calls ++ c.counters.toList := by
  rw [reads, List.filterMap_append]
  cases counters : c.counters <;> simp [reads, counters]

def emitted (out : List (Except Failure (Option ResourceSnapshot))) : List ResourceSnapshot :=
  out.filterMap snapshotIn

theorem emitted_snoc (out : List (Except Failure (Option ResourceSnapshot)))
    (result : Except Failure (Option ResourceSnapshot)) :
    emitted (out ++ [result]) = emitted out ++ (snapshotIn result).toList := by
  rw [emitted, List.filterMap_append]
  cases result with
  | error failure => rfl
  | ok snap => cases snap <;> rfl

theorem baseline_last {rs : List Counters} {r : Counters} (last : rs.getLast? = some r) :
    baseline rs = .stored r := by
  rw [baseline, last]
  rfl

theorem successes_first (first : (baseline (reads calls)).hasPrev = false) :
    successes calls = [] := by
  have none : reads calls = [] := by
    cases last : (reads calls).getLast? with
    | none => exact List.getLast?_eq_none_iff.mp last
    | some r =>
      rw [baseline_last last] at first
      cases first
  rw [← reads_eq, List.map_eq_nil_iff] at none
  exact none

theorem successes_later (later : (baseline (reads calls)).hasPrev = true) :
    ∃ c r, (successes calls).getLast? = some (c, r) ∧ (baseline (reads calls)).counters = r := by
  rw [← reads_eq] at later ⊢
  cases last : (successes calls).getLast? with
  | none => simp [baseline, last, ContainerState.zero] at later
  | some pair =>
    refine ⟨pair.1, pair.2, rfl, ?_⟩
    simp [baseline, last, ContainerState.stored, ContainerState.counters]

theorem telescopes (run : exec (readStep F) .zero calls = some (st, out)) :
    st = baseline (reads calls) ∧ emitted out =
      neighbours (fun a b => snapshotOf F b.1 (.between a.2 b.2)) (successes calls) := by
  refine exec_history (I := fun calls st out => st = baseline (reads calls) ∧
    emitted out = neighbours (fun a b => snapshotOf F b.1 (.between a.2 b.2)) (successes calls))
    ⟨rfl, rfl⟩ ?_ run
  intro calls st st' c out o _ held taken
  obtain ⟨rfl, told⟩ := held
  rw [reads_snoc, successes_snoc]
  rcases read_step_cases taken with ⟨failure, failed, kept, rfl⟩ |
    ⟨cur, found, stored, ⟨first, rfl⟩ | ⟨later, rfl⟩⟩
  · rw [failed, emitted_snoc]
    simpa [kept, snapshotIn] using told
  · have none := successes_first first
    rw [none] at told
    rw [found, none, emitted_snoc, told, stored]
    exact ⟨by simp [baseline], rfl⟩
  · obtain ⟨c', r, last, counters⟩ := successes_later later
    rw [counters, emitted_snoc, told, found, stored, Option.map_some, Option.toList_some,
      Option.toList_some, neighbours_snoc last]
    exact ⟨by simp [baseline], rfl⟩

end Run

/-- Errors leave the state alone and the first success emits nothing. The later snapshots are
    made of the differences between successive reads, whatever failed in between: they add up,
    counter by counter, to the rises, and to last minus first where a counter never falls. -/
theorem deltas_telescope (F : Floats) {calls : List Call} {st : ContainerState}
    {out : List (Except Failure (Option ResourceSnapshot))}
    (run : exec (readStep F) .zero calls = some (st, out)) :
    (∀ (c : Call) (s s' : ContainerState) (failure : Failure),
        readSnapshot F c s = some (.error failure, s') → s' = s) ∧
      (∀ (c : Call) (cur : Counters), c.counters = some cur →
        readSnapshot F c .zero = some (.ok none, .stored cur)) ∧
      st = baseline (reads calls) ∧
      emitted out =
        List.zipWith (snapshotOf F) ((successes calls).map Prod.fst).tail (turned calls) ∧
      ∀ k : Counter, ((turned calls).map k.delta).sum = growth ((reads calls).map k.value) ∧
        ∀ first rest, reads calls = first :: rest →
          ((reads calls).map k.value).IsChain (· ≤ ·) →
            ((turned calls).map k.delta).sum =
              k.value (rest.getLastD first) - k.value first := by
  obtain ⟨stored, told⟩ := telescopes run
  refine ⟨fun _ _ _ _ failed => error_keeps_state failed,
    fun _ _ found => read_first found rfl, stored, ?_, ?_⟩
  · rw [told, neighbours_zip, reads_eq, turned]
  · intro k
    refine ⟨turned_growth k calls, ?_⟩
    intro first rest all sorted
    rw [turned_growth]
    rw [all, List.map_cons] at sorted ⊢
    rw [growth_sorted sorted, List.getLastD_map]

def text (content : String) : File := .opened (Utf8.ascii content.toList) false

def filesOf (cpu events stat : File) : Files := fun path =>
  if path = "db/cpu.stat" then cpu
  else if path = "db/memory.current" then text "4096\n"
  else if path = "db/memory.events" then events
  else if path = "db/io.stat" then stat
  else .missing

def callAt (nowMs : ℤ) (cpu events stat : File) : Call :=
  ⟨filesOf cpu events stat, "db", "db", nowMs, 1⟩

def noFloats : Floats := ⟨fun _ => none, fun _ => 0⟩

/- cpu.stat is missing in the second call, and throttled_usec was reset before the third. -/
def failingCalls : List Call :=
  [callAt 1000 (text "usage_usec 100\nthrottled_usec 7\n") (text "high 1\noom_kill 0\n") .missing,
   callAt 2000 .missing (text "high 3\noom_kill 1\n") .missing,
   callAt 3000 (text "usage_usec 400\nthrottled_usec 2\n") (text "high 3\noom_kill 1\n") .missing]

theorem failing_calls_telescope :
    ∃ st out, exec (readStep noFloats) .zero failingCalls = some (st, out) ∧
      st = baseline (reads failingCalls) ∧ (emitted out).length = 1 ∧
      ((turned failingCalls).map Counter.usage.delta).sum =
        growth ((reads failingCalls).map Counter.usage.value) ∧
      (reads failingCalls).map Counter.usage.value = [100, 400] ∧
      (reads failingCalls).map Counter.throttled.value = [7, 2] := by
  refine ⟨_, _, rfl, ?_⟩
  obtain ⟨_, _, stored, _, sums⟩ := @deltas_telescope noFloats failingCalls _ _ rfl
  exact ⟨stored, rfl, (sums .usage).1, by decide, by decide⟩

end ResourceAgent
