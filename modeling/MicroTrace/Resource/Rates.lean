import Mathlib.Algebra.Order.Field.Basic
import Mathlib.Tactic.Linarith
import MicroTrace.Resource.Instances

/- Shares and rates. The growth since the last successful read is divided by the configured
   interval, however long ago that read was. -/
namespace ResourceAgent
open CollectorModel Text Runs

/- A share of the growth d over the interval I is that over the time T. -/
def SteadyShare (d I T : ℚ) : Prop := d = 0 ∨ T = I ∨ I ≤ d ∧ T ≤ d

/- So is a rate, of less than 2^64 bytes per second. -/
def SteadyRate (d I T : ℚ) : Prop := (T = I ∨ d < I ∧ d < T) ∧ d < 2 ^ 64 * I

section Exact

variable {d I T : ℚ}

theorem min_whole_iff {x y : ℚ} :
    min 100 (x * 100) = min 100 (100 * y) ↔ x = y ∨ 1 ≤ x ∧ 1 ≤ y := by
  rcases le_total 1 x with more | less
  · rw [min_eq_left (by linarith)]
    constructor
    · intro same
      have full := min_eq_left_iff.mp same.symm
      exact .inr ⟨more, by linarith⟩
    · rintro (same | ⟨_, full⟩)
      · exact (min_eq_left (by linarith)).symm
      · exact (min_eq_left (by linarith)).symm
  · rw [min_eq_right (by linarith)]
    rcases le_total 1 y with more | below
    · rw [min_eq_left (by linarith)]
      constructor
      · intro same
        exact .inr ⟨by linarith, more⟩
      · rintro (same | ⟨full, _⟩)
        · linarith
        · linarith
    · rw [min_eq_right (by linarith)]
      constructor
      · intro same
        exact .inl (by linarith)
      · rintro (same | ⟨full, full'⟩)
        · linarith
        · linarith

theorem steady_share_iff (interval : 0 < I) (time : 0 < T) :
    min 100 (d / I * 100) = min 100 (100 * d / T) ↔ SteadyShare d I T := by
  have whole : I ≤ d ↔ 1 ≤ d / I := (one_le_div interval).symm
  have whole' : T ≤ d ↔ 1 ≤ d / T := (one_le_div time).symm
  have equal : d / I = d / T ↔ d = 0 ∨ T = I := by
    rw [div_eq_div_iff interval.ne' time.ne', mul_eq_mul_left_iff, or_comm]
  rw [SteadyShare, whole, whole', mul_div_assoc, min_whole_iff, equal, or_assoc]

theorem clamp_share (growth : 0 ≤ d) (interval : 0 < I) :
    clamp100 (.finite (d / I * 100)) = .finite (min 100 (d / I * 100)) := by
  have low : 0 ≤ d / I * 100 := mul_nonneg (div_nonneg growth interval.le) (by norm_num)
  rw [clamp100, if_neg (not_lt.mpr low)]
  split
  · rename_i high
    rw [min_eq_left high.le]
  · rename_i inside
    rw [min_eq_right (not_lt.mp inside)]

theorem share_iff (growth : 0 ≤ d) (interval : 0 < I) (time : 0 < T) :
    clamp100 (.finite (d / I * 100)) = .finite (min 100 (100 * d / T)) ↔ SteadyShare d I T := by
  rw [clamp_share growth interval, Float64.finite.injEq]
  exact steady_share_iff interval time

theorem rate_of_steady (F : Floats) (interval : 0 < I) (time : 0 < T) (steady : SteadyRate d I T) :
    (F.toUint64 (d / I)).toNat = ⌊d / T⌋₊ := by
  obtain ⟨even, fits⟩ := steady
  have below : d / I < 2 ^ 64 := (div_lt_iff₀ interval).mpr fits
  have small : ⌊d / I⌋₊ < 2 ^ 64 :=
    (Nat.floor_lt' (by norm_num)).mpr (by exact_mod_cast below)
  rw [Floats.toUint64, if_pos below, UInt64.toNat_ofNat_of_lt' small]
  rcases even with rfl | ⟨less, less'⟩
  · rfl
  · rw [Nat.floor_eq_zero.mpr ((div_lt_one interval).mpr less),
      Nat.floor_eq_zero.mpr ((div_lt_one time).mpr less')]

end Exact

/- The shares and rates of the growth from q to r, over the time between them. -/
def Rated (q r : Read) (snap : ResourceSnapshot) : Prop :=
  let d := Deltas.between q.counters r.counters
  let T := seconds (r.readAt - q.readAt)
  snap.cpuPct = .finite (min 100 (100 * d.usage / (T * 1000000))) ∧
    snap.cpuThrottlePct = .finite (min 100 (100 * d.throttled / (T * 1000000))) ∧
    snap.ioReadBytesPerS.toNat = ⌊d.rbytes / T⌋₊ ∧
    snap.ioWriteBytesPerS.toNat = ⌊d.wbytes / T⌋₊

/-- The snapshot tells the growth since the previous successful read of the container. -/
def PerElapsed (cfg : Config) (before : List Visit) (v : Visit) (snap : ResourceSnapshot) : Prop :=
  ∃ r q, v.read cfg = some r ∧ lastOf r.id (history cfg before) = some q ∧ Rated q r snap

/-- Between two reads of a container the interval has passed, or of what has grown there is so
    little or so much that the time does not matter. -/
structure Timely (cfg : Config) (q r : Read) : Prop where
  usage : SteadyShare (Deltas.between q.counters r.counters).usage (cfg.intervalSec * 1000000)
    (seconds (r.readAt - q.readAt) * 1000000)
  throttled : SteadyShare (Deltas.between q.counters r.counters).throttled
    (cfg.intervalSec * 1000000) (seconds (r.readAt - q.readAt) * 1000000)
  rbytes : SteadyRate (Deltas.between q.counters r.counters).rbytes cfg.intervalSec
    (seconds (r.readAt - q.readAt))
  wbytes : SteadyRate (Deltas.between q.counters r.counters).wbytes cfg.intervalSec
    (seconds (r.readAt - q.readAt))

def OwnLast (cfg : Config) (before : List Visit) (p r : Read) : Prop :=
  lastUnder r.name (history cfg before) = some p ∧ lastOf r.id (history cfg before) = some p

def OnTime (cfg : Config) (before : List Visit) (v : Visit) : Prop :=
  ∀ r p, v.read cfg = some r → lastUnder r.name (history cfg before) = some p →
    OwnLast cfg before p r ∧ Timely cfg p r

section Visit

variable {cfg : Config} {m m' : Agent} {v : Visit} {out : List ResourceSnapshot}
  {before : List Visit}

theorem seconds_pos {ns : ℤ} (positive : 0 < ns) : 0 < seconds ns :=
  div_pos (by exact_mod_cast positive) (by norm_num)

theorem call_interval {c : Call} (called : v.call cfg = some c) :
    c.intervalSec = cfg.intervalSec := by
  unfold Visit.call at called
  dsimp only at called
  split at called
  · cases called
  · split at called
    · cases called
    · cases called
      rfl

theorem snapshot_shares {c : Call} {p r : Read} (called : v.call cfg = some c)
    (later : p.readAt < r.readAt) :
    let snap := snapshotOf cfg.floats c (.between p.counters r.counters)
    let d := Deltas.between p.counters r.counters
    let I := cfg.intervalSec * 1000000
    let T := seconds (r.readAt - p.readAt) * 1000000
    (snap.cpuPct = .finite (min 100 (100 * d.usage / T)) ↔ SteadyShare d.usage I T) ∧
      (snap.cpuThrottlePct = .finite (min 100 (100 * d.throttled / T)) ↔
        SteadyShare d.throttled I T) := by
  have interval : 0 < cfg.intervalSec * 1000000 :=
    mul_pos (seconds_pos cfg.positive) (by norm_num)
  have time : 0 < seconds (r.readAt - p.readAt) * 1000000 :=
    mul_pos (seconds_pos (Int.sub_pos.mpr later)) (by norm_num)
  dsimp only [snapshotOf]
  rw [call_interval called]
  exact ⟨share_iff (Nat.cast_nonneg _) interval time, share_iff (Nat.cast_nonneg _) interval time⟩

theorem rated_of_timely {c : Call} {p r : Read} (called : v.call cfg = some c)
    (later : p.readAt < r.readAt) (timely : Timely cfg p r) :
    Rated p r (snapshotOf cfg.floats c (.between p.counters r.counters)) := by
  have interval : 0 < cfg.intervalSec := seconds_pos cfg.positive
  have time : 0 < seconds (r.readAt - p.readAt) := seconds_pos (Int.sub_pos.mpr later)
  obtain ⟨cpu, throttle⟩ := snapshot_shares called later
  refine ⟨cpu.mpr timely.usage, throttle.mpr timely.throttled, ?_, ?_⟩
  · dsimp only [snapshotOf]
    rw [call_interval called]
    exact rate_of_steady cfg.floats interval time timely.rbytes
  · dsimp only [snapshotOf]
    rw [call_interval called]
    exact rate_of_steady cfg.floats interval time timely.wbytes

theorem printed_compared (kept : Kept cfg before m) (taken : visit cfg m v = some (m', out))
    {snap : ResourceSnapshot} (shown : snap ∈ out) :
    ∃ c r p, v.call cfg = some c ∧ v.read cfg = some r ∧
      lastUnder r.name (history cfg before) = some p ∧ p.readAt < r.readAt ∧
        snap = snapshotOf cfg.floats c (.between p.counters r.counters) := by
  rcases printed_of_history kept taken with ⟨_, rfl⟩ | ⟨c, r, called, read, past, rfl⟩
  · cases shown
  · cases last : lastUnder r.name (history cfg before) with
    | none =>
      rw [last] at shown
      cases shown
    | some p =>
      rw [last] at shown
      exact ⟨c, r, p, called, read, last, past p (lastUnder_mem last), printed_snapshot shown⟩

theorem told_on_time (kept : Kept cfg before m) (taken : visit cfg m v = some (m', out))
    (onTime : OnTime cfg before v) {snap : ResourceSnapshot} (shown : snap ∈ out) :
    PerElapsed cfg before v snap := by
  obtain ⟨c, r, p, called, read, last, later, rfl⟩ := printed_compared kept taken shown
  obtain ⟨⟨_, own⟩, timely⟩ := onTime r p read last
  exact ⟨r, p, read, own, rated_of_timely called later timely⟩

/- With its own last read to compare with, a share is right only if it is timely. -/
theorem share_of_own (kept : Kept cfg before m) (taken : visit cfg m v = some (m', out))
    {p r : Read} (read : v.read cfg = some r) (own : OwnLast cfg before p r)
    {snap : ResourceSnapshot} (shown : snap ∈ out) :
    let d := Deltas.between p.counters r.counters
    let I := cfg.intervalSec * 1000000
    let T := seconds (r.readAt - p.readAt) * 1000000
    (snap.cpuPct = .finite (min 100 (100 * d.usage / T)) ↔ SteadyShare d.usage I T) ∧
      (snap.cpuThrottlePct = .finite (min 100 (100 * d.throttled / T)) ↔
        SteadyShare d.throttled I T) := by
  obtain ⟨c, r', p', called, read', last, later, rfl⟩ := printed_compared kept taken shown
  obtain rfl : r = r' := Option.some.inj (read.symm.trans read')
  obtain rfl : p = p' := Option.some.inj (own.1.symm.trans last)
  exact snapshot_shares called later

end Visit

/-- In every run of ticks the snapshot of a container that was read on time tells shares and
    rates of the elapsed time: the last read under its name was its own, and the interval has
    passed since, or nothing has grown, or a share is more than the whole either way, or less
    than a byte has moved per second. A share compared with the own last read is right in no
    other case. -/
theorem rates_on_time {cfg : Config} {clock : Time} {ticks : List Tick} {m : Agent}
    {out : List ResourceSnapshot}
    (run : exec (collect cfg) (Agent.start clock) ticks = some (m, out)) :
    Along cfg clock ticks fun before v now =>
      (OnTime cfg before v → ∀ snap ∈ now, PerElapsed cfg before v snap) ∧
        ∀ r p, v.read cfg = some r → OwnLast cfg before p r → ∀ snap ∈ now,
          let d := Deltas.between p.counters r.counters
          let I := cfg.intervalSec * 1000000
          let T := seconds (r.readAt - p.readAt) * 1000000
          (snap.cpuPct = .finite (min 100 (100 * d.usage / T)) ↔ SteadyShare d.usage I T) ∧
            (snap.cpuThrottlePct = .finite (min 100 (100 * d.throttled / T)) ↔
              SteadyShare d.throttled I T) := by
  apply along_of_kept run
  intro before v after s s' now _ kept taken
  constructor
  · intro onTime snap shown
    exact told_on_time kept taken onTime shown
  · intro r p read own snap shown
    exact share_of_own kept taken read own shown

def Punctual (cfg : Config) (before : List Visit) (v : Visit) : Prop :=
  ∀ r p, v.read cfg = some r → lastUnder r.name (history cfg before) = some p →
    OwnLast cfg before p r ∧ r.readAt - p.readAt = cfg.interval ∧
      (Deltas.between p.counters r.counters).rbytes < 2 ^ 64 * cfg.intervalSec ∧
      (Deltas.between p.counters r.counters).wbytes < 2 ^ 64 * cfg.intervalSec

theorem on_time_of_punctual {cfg : Config} {before : List Visit} {v : Visit}
    (punctual : Punctual cfg before v) : OnTime cfg before v := by
  intro r p read last
  obtain ⟨own, met, reads, writes⟩ := punctual r p read last
  have time : seconds (r.readAt - p.readAt) = cfg.intervalSec := congrArg seconds met
  refine ⟨own, ⟨?_, ?_, ⟨.inl time, reads⟩, ⟨.inl time, writes⟩⟩⟩
  · exact .inr (.inl (by rw [time]))
  · exact .inr (.inl (by rw [time]))

/-- A run that reads each container at every tick, one interval apart. -/
theorem punctual_run_told {cfg : Config} {clock : Time} {ticks : List Tick} {m : Agent}
    {out : List ResourceSnapshot}
    (run : exec (collect cfg) (Agent.start clock) ticks = some (m, out))
    (punctual : ∀ before v after, visitsOf ticks = before ++ v :: after → Punctual cfg before v) :
    Along cfg clock ticks fun before v now => ∀ snap ∈ now, PerElapsed cfg before v snap := by
  apply along_of_kept run
  intro before v after s s' now split kept taken snap shown
  exact told_on_time kept taken (on_time_of_punctual (punctual before v after split)) shown

def dbRead (usage : ℕ) (readAt : Time) : Read :=
  ⟨"a", "db", readAt, ⟨⟨usage, 0, 0⟩, ⟨0, 0⟩, ⟨0, 0⟩⟩⟩

theorem ticks_on_time_told : ∃ m m' now,
    visit everySecond m (2000, dbItem "a" "usage_usec 500\n" 2000000000) = some (m', now) ∧
      now ≠ [] ∧ ∀ snap ∈ now, PerElapsed everySecond
        [(1000, dbItem "a" "usage_usec 100\n" 1000000000)]
        (2000, dbItem "a" "usage_usec 500\n" 2000000000) snap := by
  obtain ⟨m, _, m', now, earlier, taken, told, _⟩ :=
    @rates_on_time everySecond 0 twoTicks _ _ rfl
      [(1000, dbItem "a" "usage_usec 100\n" 1000000000)]
      (2000, dbItem "a" "usage_usec 500\n" 2000000000) [] rfl
  refine ⟨m, m', now, taken, ?_, told ?_⟩
  · intro nothing
    have silent := (silent_iff (kept_run earlier) taken).mp nothing
    have unencoded := silent _ _ (dbRead 100 1000000000) rfl rfl (by decide +kernel)
    exact absurd unencoded (by decide +kernel)
  · intro r p read last
    obtain rfl : dbRead 500 2000000000 = r :=
      Option.some.inj (Eq.trans (by decide +kernel) read)
    obtain rfl : dbRead 100 1000000000 = p :=
      Option.some.inj (Eq.trans (by decide +kernel) last)
    refine ⟨⟨by decide +kernel, by decide +kernel⟩, ⟨?_, ?_, ?_, ?_⟩⟩
    · exact .inr (.inl (by decide +kernel))
    · exact .inr (.inl (by decide +kernel))
    · exact ⟨.inl (by decide +kernel), by decide +kernel⟩
    · exact ⟨.inl (by decide +kernel), by decide +kernel⟩

/- The list fails at the second tick. Half of the CPU was used in two seconds. -/
def skippedTick : List Tick :=
  [.listed 1000 [dbItem "a" "usage_usec 0\n" 1000000000],
   .failed,
   .listed 3000 [dbItem "a" "usage_usec 1000000\n" 3000000000]]

theorem skipped_tick_doubles_share :
    (∃ m out, exec (collect everySecond) (Agent.start 0) skippedTick = some (m, out) ∧
      out.map (·.cpuPct) = [.finite 100]) ∧
      ¬ ∀ (cfg : Config) (clock : Time) (ticks : List Tick) (m : Agent)
          (out : List ResourceSnapshot),
        exec (collect cfg) (Agent.start clock) ticks = some (m, out) →
          Along cfg clock ticks fun before v now => ∀ snap ∈ now, PerElapsed cfg before v snap := by
  constructor
  · exact ⟨_, _, rfl, by decide +kernel⟩
  · intro claim
    obtain ⟨m, out, m', now, earlier, taken, told⟩ := claim everySecond 0 skippedTick _ _ rfl
      [(1000, dbItem "a" "usage_usec 0\n" 1000000000)]
      (3000, dbItem "a" "usage_usec 1000000\n" 3000000000) [] rfl
    cases now with
    | nil =>
      have silent := (silent_iff (kept_run earlier) taken).mp rfl
      have unencoded := silent _ _ (dbRead 0 1000000000) rfl rfl (by decide +kernel)
      exact absurd unencoded (by decide +kernel)
    | cons snap rest =>
      obtain ⟨r, q, read, own, cpu, _⟩ := told snap List.mem_cons_self
      obtain rfl : dbRead 1000000 3000000000 = r :=
        Option.some.inj (Eq.trans (by decide +kernel) read)
      obtain rfl : dbRead 0 1000000000 = q := Option.some.inj (Eq.trans (by decide +kernel) own)
      have steady := (share_of_own (kept_run earlier) taken read
        ⟨by decide +kernel, own⟩ List.mem_cons_self).1.mp cpu
      exact absurd steady (by unfold SteadyShare; decide +kernel)

end ResourceAgent
