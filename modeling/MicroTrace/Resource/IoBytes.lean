import MicroTrace.Resource.Baselines

/- The bytes a container reads and writes. An io.stat that can not be opened counts as zero,
   and the zero becomes the next baseline: the call after it counts everything again. -/
namespace ResourceAgent
open CollectorModel Text Runs Growth

inductive Direction where
  | read
  | write

def Direction.counter : Direction → Counter
  | .read => .rbytes
  | .write => .wbytes

def Direction.bytes : Direction → IoPrev → ℕ
  | .read, io => io.rbytes
  | .write, io => io.wbytes

theorem counter_value (d : Direction) (cur : Counters) : d.counter.value cur = d.bytes cur.io := by
  cases d <;> rfl

theorem bytes_zero (d : Direction) : d.bytes ⟨0, 0⟩ = 0 := by
  cases d <;> rfl

def Call.ioFile (c : Call) : File := c.files (c.cgroupPath ++ "/io.stat")

/- A call and the counters of the container at its time. An io.stat that is opened and read
   to its end tells them. -/
def Shown (p : Call × IoPrev) : Prop :=
  ∀ io, p.1.ioFile ≠ .missing → p.1.ioStat = some (io, none) → io = p.2

def callsOf (watched : List (Call × IoPrev)) : List Call := watched.map Prod.fst

def truths (d : Direction) (watched : List (Call × IoPrev)) : List ℕ :=
  watched.map fun p => d.bytes p.2

def values (d : Direction) (watched : List (Call × IoPrev)) : List ℕ :=
  (reads (callsOf watched)).map d.counter.value

/-- The differences that were turned into snapshots are at most what the counter has grown by
    between the first and the last call. -/
def CountedOnce (d : Direction) (watched : List (Call × IoPrev)) : Prop :=
  ((turned (callsOf watched)).map d.counter.delta).sum ≤
    (truths d watched).getLastD 0 - (truths d watched).headD 0

/- A success without io.stat finds a stored counter that is zero or, when it is the first one,
   a counter that is zero. -/
def Harmless (d : Direction) (st : ContainerState) (p : Call × IoPrev) : Prop :=
  p.1.counters ≠ none → p.1.ioFile = .missing →
    if st.hasPrev then d.bytes st.ioPrev = 0 else d.bytes p.2 = 0

def HarmlessRun (F : Floats) (d : Direction) (watched : List (Call × IoPrev)) : Prop :=
  ∀ before p after st out, watched = before ++ p :: after →
    exec (readStep F) .zero (callsOf before) = some (st, out) → Harmless d st p

theorem io_of_counters {p : Call × IoPrev} {cur : Counters} (shown : Shown p)
    (found : p.1.counters = some cur) :
    p.1.ioFile = .missing ∧ cur.io = ⟨0, 0⟩ ∨ p.1.ioFile ≠ .missing ∧ cur.io = p.2 := by
  have stat : p.1.ioStat = some (cur.io, none) := by
    have told := found_of_counters found
    unfold Call.found at told
    split at told
    · simp at told
    · simp at told
    · simp at told
    · simp at told
    · simp at told
    · rename_i stat
      rw [stat]
      simp only [Option.some.injEq, Except.ok.injEq] at told
      rw [← told]
  by_cases gone : p.1.ioFile = .missing
  · left
    have zero : p.1.ioStat = readIOStat .missing := congrArg readIOStat gone
    rw [zero, readIOStat, Option.some.injEq, Prod.mk.injEq] at stat
    exact ⟨gone, stat.1.symm⟩
  · exact .inr ⟨gone, shown _ gone stat⟩

theorem last_le {xs : List ℕ} {t : ℕ} (bound : ∀ x ∈ xs.getLast?, x ≤ t) : xs.getLastD 0 ≤ t := by
  rw [List.getLastD_eq_getLast?]
  cases last : xs.getLast? with
  | none => exact Nat.zero_le t
  | some x => exact bound x last

section Run

variable {d : Direction} {watched : List (Call × IoPrev)} {p : Call × IoPrev}

theorem values_append (d : Direction) (before after : List (Call × IoPrev)) :
    values d (before ++ after) = values d before ++ values d after := by
  simp only [values, callsOf, reads, List.map_append, List.filterMap_append]

theorem values_cons {cur : Counters} (found : p.1.counters = some cur)
    (after : List (Call × IoPrev)) :
    values d (p :: after) = d.counter.value cur :: values d after := by
  rw [values, callsOf, List.map_cons, reads, List.filterMap_cons_some found]
  rfl

theorem values_snoc (d : Direction) (watched : List (Call × IoPrev)) (p : Call × IoPrev) :
    values d (watched ++ [p]) =
      values d watched ++ (p.1.counters.map d.counter.value).toList := by
  rw [values, callsOf, List.map_append, List.map_singleton, reads_snoc, List.map_append]
  cases p.1.counters <;> rfl

theorem last_value {v : ℕ} (last : v ∈ (values d watched).getLast?) :
    ∃ r, (reads (callsOf watched)).getLast? = some r ∧ v = d.counter.value r := by
  rw [values, List.getLast?_map] at last
  obtain ⟨r, read, same⟩ := Option.map_eq_some_iff.mp last
  exact ⟨r, read, same.symm⟩

theorem value_le (shown : Shown p) {cur : Counters} (found : p.1.counters = some cur) :
    d.counter.value cur ≤ d.bytes p.2 := by
  rw [counter_value]
  rcases io_of_counters shown found with ⟨_, io⟩ | ⟨_, io⟩
  · rw [io, bytes_zero]
    exact Nat.zero_le _
  · rw [io]

theorem values_bounded (shown : ∀ p ∈ watched, Shown p)
    (rising : (truths d watched).IsChain (· ≤ ·)) :
    ∀ v ∈ values d watched, v ≤ (truths d watched).getLastD 0 := by
  intro v member
  obtain ⟨cur, read, rfl⟩ := List.mem_map.mp member
  obtain ⟨c, called, found⟩ := List.mem_filterMap.mp read
  obtain ⟨p, there, rfl⟩ := List.mem_map.mp called
  have truth : d.bytes p.2 ∈ truths d watched := List.mem_map.mpr ⟨p, there, rfl⟩
  exact (value_le (shown p there) found).trans (sorted_bounds rising _ truth).2

theorem run_before {F : Floats} {st : ContainerState}
    {out : List (Except Failure (Option ResourceSnapshot))} {before after : List (Call × IoPrev)}
    (run : exec (readStep F) .zero (callsOf watched) = some (st, out))
    (split : watched = before ++ after) : ∃ o,
      exec (readStep F) .zero (callsOf before) = some (baseline (reads (callsOf before)), o) := by
  rw [split, callsOf, List.map_append] at run
  obtain ⟨t, o, _, earlier, _⟩ := exec_append_iff.mp run
  have stored := (telescopes earlier).1
  exact ⟨o, stored ▸ earlier⟩

theorem last_le_value {cur : Counters} {v : ℕ} (shown : ∀ q ∈ watched, Shown q) (own : Shown p)
    (rising : (truths d watched).IsChain (· ≤ ·))
    (next : (truths d watched).getLastD 0 ≤ d.bytes p.2)
    (harmless : Harmless d (baseline (reads (callsOf watched))) p)
    (found : p.1.counters = some cur) (last : v ∈ (values d watched).getLast?) :
    v ≤ d.counter.value cur := by
  rw [counter_value]
  rcases io_of_counters own found with ⟨gone, _⟩ | ⟨_, io⟩
  · obtain ⟨r, read, rfl⟩ := last_value last
    have met := harmless (by simp [found]) gone
    rw [baseline_last read] at met
    rw [counter_value]
    exact met.le.trans (Nat.zero_le _)
  · rw [io]
    exact (values_bounded shown rising v (List.mem_of_getLast? last)).trans next

section Harmless

variable {F : Floats} {st : ContainerState} {out : List (Except Failure (Option ResourceSnapshot))}
  (run : exec (readStep F) .zero (callsOf watched) = some (st, out))
  (shown : ∀ p ∈ watched, Shown p) (rising : (truths d watched).IsChain (· ≤ ·))
  (harmless : HarmlessRun F d watched)

include run shown rising harmless

theorem values_sorted : (values d watched).IsChain (· ≤ ·) := by
  induction watched using List.reverseRecOn generalizing st out with
  | nil => exact List.isChain_nil
  | append_singleton watched p ih =>
    have shown' : ∀ q ∈ watched, Shown q := fun q member => shown q (List.mem_append_left _ member)
    obtain ⟨o, earlier⟩ := run_before run rfl
    rw [truths, List.map_append, List.map_singleton] at rising
    obtain ⟨before, _, next⟩ := List.isChain_append.mp rising
    have sorted : (values d watched).IsChain (· ≤ ·) := by
      apply ih earlier shown' before
      intro pre q post s o same
      exact harmless pre q (post ++ [p]) s o (by rw [same]; simp)
    rw [values_snoc]
    cases found : p.1.counters with
    | none => simpa using sorted
    | some cur =>
      rw [Option.map_some, Option.toList_some, List.isChain_append]
      refine ⟨sorted, List.isChain_singleton _, ?_⟩
      intro v last w new
      obtain rfl : w = d.counter.value cur := by simpa using new.symm
      have met := harmless watched p [] _ o rfl earlier
      have above := last_le fun x latest => next x latest _ rfl
      exact last_le_value shown' (shown p (by simp)) before above met found last

theorem first_value {v : ℕ} {vs : List ℕ} (all : values d watched = v :: vs) :
    (truths d watched).headD 0 ≤ v := by
  rw [values, reads, callsOf, List.filterMap_map, List.map_eq_cons_iff] at all
  obtain ⟨cur, rest, found, rfl, _⟩ := all
  obtain ⟨before, p, after, split, failed, found, _⟩ := List.filterMap_eq_cons_iff.mp found
  have there : p ∈ watched := by rw [split]; simp
  have truth : d.bytes p.2 ∈ truths d watched := List.mem_map.mpr ⟨p, there, rfl⟩
  refine (sorted_bounds rising _ truth).1.trans ?_
  rw [counter_value]
  rcases io_of_counters (shown p there) found with ⟨gone, _⟩ | ⟨_, io⟩
  · obtain ⟨o, earlier⟩ := run_before run split
    have empty : reads (callsOf before) = [] := by
      rw [reads, callsOf, List.filterMap_map, List.filterMap_eq_nil_iff]
      exact failed
    rw [empty] at earlier
    have read : p.1.counters ≠ none := Option.ne_none_iff_exists'.mpr ⟨cur, found⟩
    have met : d.bytes p.2 = 0 := harmless before p after _ o split earlier read gone
    exact met.le.trans (Nat.zero_le _)
  · rw [io]

theorem counted_once : CountedOnce d watched := by
  unfold CountedOnce
  rw [turned_growth, ← values]
  cases all : values d watched with
  | nil => exact Nat.zero_le _
  | cons v vs =>
    have sorted := values_sorted run shown rising harmless
    have first := first_value run shown rising harmless all
    have last := values_bounded shown rising (vs.getLastD v)
      (by rw [all]; exact List.getLastD_mem_cons)
    rw [all] at sorted
    rw [growth_sorted sorted]
    omega

end Harmless

end Run

def Opened (p : Call × IoPrev) : Prop := p.1.counters ≠ none ∧ p.1.ioFile ≠ .missing

section Converse

variable {d : Direction} {watched : List (Call × IoPrev)} {first last : Call × IoPrev}
  (shown : ∀ p ∈ watched, Shown p) (rising : (truths d watched).IsChain (· ≤ ·))
  (begins : watched.head? = some first) (ends : watched.getLast? = some last)
  (opened : Opened first) (opened' : Opened last) (once : CountedOnce d watched)

theorem opened_value {p : Call × IoPrev} (shown : Shown p) (opened : Opened p) :
    ∃ cur, p.1.counters = some cur ∧ d.counter.value cur = d.bytes p.2 := by
  obtain ⟨read, there⟩ := opened
  obtain ⟨cur, found⟩ := Option.ne_none_iff_exists'.mp read
  refine ⟨cur, found, ?_⟩
  rw [counter_value]
  rcases io_of_counters shown found with ⟨gone, _⟩ | ⟨_, io⟩
  · exact absurd gone there
  · rw [io]

include shown rising begins ends opened opened' once

theorem sorted_of_counted_once : (values d watched).IsChain (· ≤ ·) := by
  obtain ⟨cur, found, start⟩ :=
    opened_value (d := d) (shown first (List.mem_of_head? begins)) opened
  obtain ⟨cur', found', finish⟩ :=
    opened_value (d := d) (shown last (List.mem_of_getLast? ends)) opened'
  have head : (truths d watched).headD 0 = d.counter.value cur := by
    rw [List.headD_eq_head?_getD, truths, List.head?_map, begins, start]
    rfl
  have tail : (truths d watched).getLastD 0 = d.counter.value cur' := by
    rw [List.getLastD_eq_getLast?, truths, List.getLast?_map, ends, finish]
    rfl
  have truth : d.counter.value cur ≤ (truths d watched).getLastD 0 := by
    rw [start]
    exact (sorted_bounds rising _ (List.mem_map.mpr ⟨first, List.mem_of_head? begins, rfl⟩)).2
  have final : (values d watched).getLastD 0 = (truths d watched).getLastD 0 := by
    obtain ⟨before, split⟩ := List.getLast?_eq_some_iff.mp ends
    rw [tail, split, values_append, values_cons found', List.getLastD_eq_getLast?,
      List.getLast?_append]
    rfl
  obtain ⟨rest, split⟩ := List.head?_eq_some_iff.mp begins
  have all : values d watched = d.counter.value cur :: values d rest := by
    rw [split, values_cons found]
  unfold CountedOnce at once
  rw [turned_growth, ← values, head, ← final, all, List.getLastD_cons] at once
  rw [← final, all, List.getLastD_cons] at truth
  rw [all]
  exact (growth_le_iff truth).mp once

theorem harmless_of_counted_once (F : Floats) : HarmlessRun F d watched := by
  have sorted := sorted_of_counted_once shown rising begins ends opened opened' once
  intro before p after t o split earlier read gone
  obtain ⟨cur, found⟩ := Option.ne_none_iff_exists'.mp read
  have stored := (telescopes earlier).1
  have zero : d.counter.value cur = 0 := by
    rw [counter_value]
    rcases io_of_counters (shown p (by rw [split]; simp)) found with ⟨_, io⟩ | ⟨there, _⟩
    · rw [io, bytes_zero]
    · exact absurd gone there
  cases before with
  | nil =>
    rw [split, List.nil_append, List.head?_cons, Option.some.injEq] at begins
    rw [begins] at gone
    exact absurd gone opened.2
  | cons q before =>
    rw [split, List.cons_append, List.head?_cons, Option.some.injEq] at begins
    rw [split, values_append, values_cons found, List.isChain_append] at sorted
    obtain ⟨_, _, next⟩ := sorted
    obtain ⟨start, known⟩ := Option.ne_none_iff_exists'.mp opened.1
    rw [← begins] at known
    have some : reads (callsOf (q :: before)) ≠ [] := by
      rw [callsOf, List.map_cons, reads, List.filterMap_cons_some known]
      exact List.cons_ne_nil _ _
    have latest := List.getLast?_eq_some_getLast some
    rw [stored, baseline_last latest]
    have low := next (d.counter.value ((reads (callsOf (q :: before))).getLast some))
      (by rw [values, List.getLast?_map, latest]; rfl) _ rfl
    rw [zero, counter_value] at low
    exact Nat.le_zero.mp low

end Converse

/-- Every byte is counted at most once in a run in which a success without io.stat only ever
    replaces a zero; and between two calls that read io.stat in no other run. -/
theorem io_counted_once (F : Floats) {watched : List (Call × IoPrev)} {st : ContainerState}
    {out : List (Except Failure (Option ResourceSnapshot))}
    (run : exec (readStep F) .zero (callsOf watched) = some (st, out))
    (shown : ∀ p ∈ watched, Shown p) (d : Direction)
    (rising : (truths d watched).IsChain (· ≤ ·)) :
    emitted out = List.zipWith (snapshotOf F)
        ((successes (callsOf watched)).map Prod.fst).tail (turned (callsOf watched)) ∧
      (HarmlessRun F d watched → CountedOnce d watched) ∧
      ∀ first last, watched.head? = some first → watched.getLast? = some last →
        Opened first → Opened last → CountedOnce d watched → HarmlessRun F d watched := by
  refine ⟨?_, counted_once run shown rising, ?_⟩
  · rw [(telescopes run).2, neighbours_zip, reads_eq, turned]
  · intro first last begins ends opened opened' once
    exact harmless_of_counted_once shown rising begins ends opened opened' once F

def ioCall (nowMs : ℤ) (stat : File) : Call :=
  callAt nowMs (text "usage_usec 1\n") (text "high 0\n") stat

/- io.stat can not be read to its end in the second call, which fails. -/
def steadyCalls : List (Call × IoPrev) :=
  [(ioCall 1000 (text "8:0 rbytes=1000 wbytes=0\n"), ⟨1000, 0⟩),
   (ioCall 2000 (.opened [] true), ⟨1500, 0⟩),
   (ioCall 3000 (text "8:0 rbytes=1700 wbytes=0\n"), ⟨1700, 0⟩)]

theorem shown_of_stat {p : Call × IoPrev} (io : IoPrev) (err : Option FileError)
    (stat : p.1.ioStat = some (io, err)) (same : err = none → io = p.2) : Shown p := by
  intro other _ told
  rw [stat, Option.some.injEq, Prod.mk.injEq] at told
  exact told.1 ▸ same told.2

theorem steady_calls_shown : ∀ p ∈ steadyCalls, Shown p := by
  simp only [steadyCalls, List.forall_mem_cons]
  refine ⟨?_, ?_, ?_, by simp⟩
  · exact shown_of_stat _ none (by decide) (fun _ => rfl)
  · exact shown_of_stat ⟨0, 0⟩ (some .notRead) (by decide) (fun none => by cases none)
  · exact shown_of_stat _ none (by decide) (fun _ => rfl)

theorem steady_calls_counted_once : ∃ st out,
    exec (readStep noFloats) .zero (callsOf steadyCalls) = some (st, out) ∧
      (emitted out).length = 1 ∧ CountedOnce .read steadyCalls ∧
      HarmlessRun noFloats .read steadyCalls := by
  refine ⟨_, _, rfl, rfl, ?_⟩
  have counted := @io_counted_once noFloats steadyCalls _ _ rfl steady_calls_shown .read (by decide)
  have once : CountedOnce .read steadyCalls := by
    unfold CountedOnce
    decide
  exact ⟨once, counted.2.2 _ _ rfl rfl ⟨by decide, by decide⟩ ⟨by decide, by decide⟩ once⟩

/- io.stat can not be opened in the second call, which succeeds. -/
def interruptedCalls : List (Call × IoPrev) :=
  [(ioCall 1000 (text "8:0 rbytes=1000 wbytes=0\n"), ⟨1000, 0⟩),
   (ioCall 2000 .missing, ⟨1000, 0⟩),
   (ioCall 3000 (text "8:0 rbytes=1000 wbytes=0\n"), ⟨1000, 0⟩)]

theorem interrupted_calls_shown : ∀ p ∈ interruptedCalls, Shown p := by
  simp only [interruptedCalls, List.forall_mem_cons]
  refine ⟨?_, ?_, ?_, by simp⟩
  · exact shown_of_stat _ none (by decide) (fun _ => rfl)
  · exact fun _ there => absurd rfl there
  · exact shown_of_stat _ none (by decide) (fun _ => rfl)

theorem interrupted_calls_count_twice :
    ((turned (callsOf interruptedCalls)).map Deltas.rbytes).sum = 1000 ∧
      ¬ ∀ (F : Floats) (watched : List (Call × IoPrev)) (st : ContainerState)
          (out : List (Except Failure (Option ResourceSnapshot))) (d : Direction),
        exec (readStep F) .zero (callsOf watched) = some (st, out) →
        (∀ p ∈ watched, Shown p) → (truths d watched).IsChain (· ≤ ·) →
          CountedOnce d watched := by
  constructor
  · decide
  · intro claim
    have once := claim noFloats interruptedCalls _ _ .read rfl interrupted_calls_shown (by decide)
    exact absurd once (by unfold CountedOnce; decide)

end ResourceAgent
