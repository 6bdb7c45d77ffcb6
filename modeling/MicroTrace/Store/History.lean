import Mathlib.Data.List.Sort
import MicroTrace.Store.Batching

/- What QueryHistory returns after any sequence of whole calls: WriteConn, WriteResource,
   flush and deleteExpired, each finished before the next one begins and each database call
   doing what its statement says. The specification reads the sequence itself: a snapshot is
   to be returned once it has been flushed, unless a later deletion found it too old. -/
namespace CollectorStore
open CollectorModel Runs Slices

inductive Call where
  | writeConn (snap : StatSnapshot) (now : Int)
  | writeResource (snap : ResourceSnapshot)
  | flush (now : Int)
  | deleteExpired (now : Time)
  deriving DecidableEq

/- The driver refuses an unsigned argument with the highest bit set, and the insert of that
   row fails. -/
def BufferedConn.storable (c : BufferedConn) : Bool :=
  decide (c.snap.p50Us < 2 ^ 63 ∧ c.snap.p95Us < 2 ^ 63 ∧ c.snap.p99Us < 2 ^ 63 ∧
    c.snap.avgUs < 2 ^ 63 ∧ c.snap.jitterUs < 2 ^ 63)

def resourceStorable (r : ResourceSnapshot) : Bool :=
  decide (r.memCurrentBytes.toNat < 2 ^ 63 ∧ r.oomKillCount.toNat < 2 ^ 63)

def transaction (s : Store) (now : Int) : List Action :=
  [.begin true now, .prepareConn true] ++
    (s.connBuf.contents.map fun c => .insertConn c.storable) ++ [.prepareRes true] ++
    (s.resBuf.contents.map fun r => .insertRes (resourceStorable r)) ++ [.commit true]

def flushActions (s : Store) (now : Int) : List Action :=
  .take :: if s.connBuf.live.len = 0 ∧ s.resBuf.live.len = 0 then [] else transaction s now

def perform (rt : Runtime) : Stepper Store Call Committed
  | s, .writeConn snap now => step rt s (.writeConn snap now)
  | s, .writeResource snap => step rt s (.writeResource snap)
  | s, .flush now => exec (step rt) s (flushActions s now)
  | s, .deleteExpired now => step rt s (.deleteExpired now true true)

section Drains
variable {α β : Type}

def Drain.inserts (row : α → β) (h : Heap α) (flags : List Bool) (d : Drain β) : Drain β :=
  flags.foldl (fun d ok => d.insert row h ok) d

theorem inserts_batch (row : α → β) (h : Heap α) (flags : List Bool) (d : Drain β) :
    (d.inserts row h flags).batch = d.batch := by
  induction flags generalizing d with
  | nil => rfl
  | cons ok flags ih => exact ih (d.insert row h ok)

theorem inserts_next (row : α → β) (h : Heap α) (flags : List Bool) (d : Drain β) :
    (d.inserts row h flags).next = d.next + flags.length := by
  induction flags generalizing d with
  | nil => rfl
  | cons ok flags ih =>
    have rest : (d.inserts row h (ok :: flags)).next = d.next + 1 + flags.length :=
      ih (d.insert row h ok)
    rw [rest, List.length_cons]
    omega

theorem inserts_rows (row : α → β) (h : Heap α) (accepted : α → Bool) (d : Drain β) :
    (d.inserts row h ((h.suffix d.batch d.next).map accepted)).rows =
      d.rows ++ ((h.suffix d.batch d.next).filter accepted).map row := by
  obtain ⟨n, size⟩ : ∃ n, d.batch.len - d.next = n := ⟨_, rfl⟩
  induction n generalizing d with
  | zero =>
    rw [suffix_end h (by omega)]
    simp [Drain.inserts]
  | succ n ih =>
    have inside : d.next < d.batch.len := by omega
    have rest := ih (d.insert row h (accepted (h.cells d.batch.array d.next)))
      (by simp only [Drain.insert]; omega)
    have moved (ok : Bool) : (d.insert row h ok).next = d.next + 1 := rfl
    have same (ok : Bool) : (d.insert row h ok).batch = d.batch := rfl
    rw [same, moved] at rest
    rw [suffix_next h inside, List.map_cons, Drain.inserts, List.foldl_cons]
    rw [Drain.inserts] at rest
    rw [rest]
    cases flag : accepted (h.cells d.batch.array d.next) with
    | true => simp [Drain.insert, flag]
    | false => simp [Drain.insert, flag]

end Drains

theorem exec_insertConns (rt : Runtime) (s : Store) (f : Flush) (flags : List Bool)
    (stage : f.stage = .insertConns) (fits : f.conns.next + flags.length ≤ f.conns.batch.len) :
    exec (step rt) (s.proceed f) (flags.map Action.insertConn) =
      some (s.proceed { f with
        conns := f.conns.inserts (connRow f.fallback) s.connBuf.heap flags }, []) := by
  induction flags generalizing f with
  | nil => rfl
  | cons ok flags ih =>
    rw [List.length_cons] at fits
    have ready : f.atCall (.insertConn ok) := ⟨stage, by omega⟩
    have first : step rt (s.proceed f) (.insertConn ok) = some (s.proceed { f with
        conns := f.conns.insert (connRow f.fallback) s.connBuf.heap ok }, []) := by
      simp only [step, Store.proceed, if_pos ready]
      rfl
    have rest := ih { f with conns := f.conns.insert (connRow f.fallback) s.connBuf.heap ok } stage
      (by simp only [Drain.insert]; omega)
    exact exec_cons_iff.mpr ⟨_, _, _, first, rest, rfl⟩

theorem exec_insertRess (rt : Runtime) (s : Store) (f : Flush) (flags : List Bool)
    (stage : f.stage = .insertRess) (fits : f.ress.next + flags.length ≤ f.ress.batch.len) :
    exec (step rt) (s.proceed f) (flags.map Action.insertRes) =
      some (s.proceed { f with
        ress := f.ress.inserts (resRow f.fallback) s.resBuf.heap flags }, []) := by
  induction flags generalizing f with
  | nil => rfl
  | cons ok flags ih =>
    rw [List.length_cons] at fits
    have ready : f.atCall (.insertRes ok) := ⟨stage, by omega⟩
    have first : step rt (s.proceed f) (.insertRes ok) = some (s.proceed { f with
        ress := f.ress.insert (resRow f.fallback) s.resBuf.heap ok }, []) := by
      simp only [step, Store.proceed, if_pos ready]
      rfl
    have rest := ih { f with ress := f.ress.insert (resRow f.fallback) s.resBuf.heap ok } stage
      (by simp only [Drain.insert]; omega)
    exact exec_cons_iff.mpr ⟨_, _, _, first, rest, rfl⟩

def Store.cleared (s : Store) : Store :=
  { s with connBuf := s.connBuf.reset, resBuf := s.resBuf.reset, flush := none }

def Store.flushed (s : Store) (now : Int) : Store :=
  { s.cleared with
    connTable := s.connTable ++
      (s.connBuf.contents.filter BufferedConn.storable).map (connRow now)
    resTable := s.resTable ++ (s.resBuf.contents.filter resourceStorable).map (resRow now) }

theorem exec_transaction (rt : Runtime) (s : Store) (now : Int) :
    ∃ out, exec (step rt)
      (s.cleared.proceed ⟨.begin, 0, .over s.connBuf.live, .over s.resBuf.live⟩)
      (transaction s now) = some (s.flushed now, out) := by
  have connLength : s.connBuf.contents.length = s.connBuf.live.len := by
    rw [Buffer.contents, length_suffix, Nat.sub_zero]
  have resLength : s.resBuf.contents.length = s.resBuf.live.len := by
    rw [Buffer.contents, length_suffix, Nat.sub_zero]
  obtain ⟨conns, madeConns⟩ : ∃ d, d = (Drain.over s.connBuf.live).inserts (connRow now)
    s.connBuf.heap (s.connBuf.contents.map BufferedConn.storable) := ⟨_, rfl⟩
  obtain ⟨ress, madeRess⟩ : ∃ d, d = (Drain.over s.resBuf.live).inserts (resRow now)
    s.resBuf.heap (s.resBuf.contents.map resourceStorable) := ⟨_, rfl⟩
  have begun : exec (step rt)
      (s.cleared.proceed ⟨.begin, 0, .over s.connBuf.live, .over s.resBuf.live⟩)
      [.begin true now, .prepareConn true] = some (s.cleared.proceed
        ⟨.insertConns, now, .over s.connBuf.live, .over s.resBuf.live⟩, []) := rfl
  have connLoop := exec_insertConns rt s.cleared
    ⟨.insertConns, now, .over s.connBuf.live, .over s.resBuf.live⟩
    (s.connBuf.contents.map BufferedConn.storable) rfl (by simp [Drain.over, connLength])
  have connsDone : ¬ conns.next < conns.batch.len := by
    rw [madeConns, inserts_next, inserts_batch, List.length_map, connLength]
    simp [Drain.over]
  have prepared : exec (step rt)
      (s.cleared.proceed ⟨.insertConns, now, conns, .over s.resBuf.live⟩) [.prepareRes true] =
        some (s.cleared.proceed ⟨.insertRess, now, conns, .over s.resBuf.live⟩, []) := by
    rw [exec_single_iff]
    exact if_pos ⟨rfl, connsDone⟩
  have resLoop := exec_insertRess rt s.cleared ⟨.insertRess, now, conns, .over s.resBuf.live⟩
    (s.resBuf.contents.map resourceStorable) rfl (by simp [Drain.over, resLength])
  have ressDone : ¬ ress.next < ress.batch.len := by
    rw [madeRess, inserts_next, inserts_batch, List.length_map, resLength]
    simp [Drain.over]
  have committed : exec (step rt) (s.cleared.proceed ⟨.insertRess, now, conns, ress⟩)
      [.commit true] = some (s.cleared.commit ⟨.insertRess, now, conns, ress⟩,
        Flush.committed ⟨.insertRess, now, conns, ress⟩) := by
    rw [exec_single_iff]
    exact if_pos ⟨rfl, ressDone⟩
  have rows : s.cleared.commit ⟨.insertRess, now, conns, ress⟩ = s.flushed now := by
    have connRows := inserts_rows (connRow now) s.connBuf.heap BufferedConn.storable
      (Drain.over s.connBuf.live)
    have resRows := inserts_rows (resRow now) s.resBuf.heap resourceStorable
      (Drain.over s.resBuf.live)
    simp only [Store.commit, Store.flushed, madeConns, madeRess]
    rw [Buffer.contents, Buffer.contents]
    simp only [Drain.over] at connRows resRows ⊢
    rw [connRows, resRows]
    rfl
  rw [← rows]
  subst madeConns madeRess
  rw [List.map_map] at connLoop resLoop
  have first := exec_append_iff.mpr ⟨_, _, _, begun, connLoop, rfl⟩
  have second := exec_append_iff.mpr ⟨_, _, _, first, prepared, rfl⟩
  have third := exec_append_iff.mpr ⟨_, _, _, second, resLoop, rfl⟩
  exact ⟨_, exec_append_iff.mpr ⟨_, _, _, third, committed, rfl⟩⟩

theorem perform_flush (rt : Runtime) {s : Store} (idle : s.flush = none) (now : Int) :
    ∃ out, perform rt s (.flush now) = some (s.flushed now, out) := by
  simp only [perform, flushActions]
  by_cases empty : s.connBuf.live.len = 0 ∧ s.resBuf.live.len = 0
  · have noConns : s.connBuf.contents = [] := suffix_end _ (by omega)
    have noRess : s.resBuf.contents = [] := suffix_end _ (by omega)
    refine ⟨[], ?_⟩
    rw [if_pos empty, exec_single_iff]
    simp only [step, idle, Store.take, if_pos empty, Store.flushed, Store.cleared, noConns, noRess,
      List.filter_nil, List.map_nil, List.append_nil]
  · obtain ⟨out, run⟩ := exec_transaction rt s now
    have taken : step rt s .take = some (s.cleared.proceed
        ⟨.begin, 0, .over s.connBuf.live, .over s.resBuf.live⟩, []) := by
      simp only [step, idle, Store.take, if_neg empty]
      rfl
    rw [if_neg empty]
    exact ⟨_, exec_cons_iff.mpr ⟨_, _, _, taken, run, rfl⟩⟩

def cutoff (now : Time) : Int := unixMilli (now - retentionDays * 24 * 3600 * 1000000000)

def retained (ts : Int) (calls : List Call) : Bool :=
  calls.all fun call => match call with
    | .deleteExpired now => decide (cutoff now ≤ ts)
    | _ => true

/- A snapshot written before these calls: the first flush stores it, and every deletion
   behind that flush keeps it. -/
def survives (ts : Int) : List Call → Bool
  | [] => false
  | .flush _ :: calls => retained ts calls
  | .writeConn _ _ :: calls => survives ts calls
  | .writeResource _ :: calls => survives ts calls
  | .deleteExpired _ :: calls => survives ts calls

/-- The snapshots that are to be found in the database, in the order they were written. -/
def expected : List Call → List BufferedConn
  | [] => []
  | .writeConn snap now :: calls =>
      if survives now calls then ⟨snap, now⟩ :: expected calls else expected calls
  | .writeResource _ :: calls => expected calls
  | .flush _ :: calls => expected calls
  | .deleteExpired _ :: calls => expected calls

def Call.isFlush : Call → Bool
  | .flush _ => true
  | _ => false

def unflushed : List Call → List BufferedConn
  | [] => []
  | .writeConn snap now :: calls =>
      if calls.any Call.isFlush then unflushed calls else ⟨snap, now⟩ :: unflushed calls
  | .writeResource _ :: calls => unflushed calls
  | .flush _ :: calls => unflushed calls
  | .deleteExpired _ :: calls => unflushed calls

theorem retained_append (ts : Int) (calls later : List Call) :
    retained ts (calls ++ later) = (retained ts calls && retained ts later) := List.all_append

theorem survives_snoc (ts : Int) (calls : List Call) {c : Call} (silent : c.isFlush = false) :
    survives ts (calls ++ [c]) = (survives ts calls && retained ts [c]) := by
  induction calls with
  | nil => cases c <;> simp_all [survives, Call.isFlush]
  | cons first calls ih =>
    cases first with
    | flush now => exact retained_append ts calls [c]
    | writeConn snap now => exact ih
    | writeResource snap => exact ih
    | deleteExpired now => exact ih

theorem survives_snoc_flush (ts : Int) (calls : List Call) (now : Int) :
    survives ts (calls ++ [.flush now]) =
      if calls.any Call.isFlush then survives ts calls else true := by
  induction calls with
  | nil => rfl
  | cons first calls ih =>
    cases first with
    | flush now =>
      simp only [List.cons_append, survives, List.any_cons, Call.isFlush, Bool.true_or, if_true]
      rw [retained_append]
      exact Bool.and_true _
    | writeConn snap now => exact ih
    | writeResource snap => exact ih
    | deleteExpired now => exact ih

theorem expected_snoc (calls : List Call) {c : Call} (silent : c.isFlush = false) :
    expected (calls ++ [c]) = (expected calls).filter fun w => retained w.tsMs [c] := by
  induction calls with
  | nil => cases c <;> simp_all [expected, survives, Call.isFlush]
  | cons first calls ih =>
    cases first with
    | writeConn snap now =>
      simp only [List.cons_append, expected, survives_snoc now calls silent, ih]
      by_cases kept : survives now calls = true
      · simp [kept, List.filter_cons]
      · simp [kept]
    | flush now => exact ih
    | writeResource snap => exact ih
    | deleteExpired now => exact ih

theorem survives_unflushed (ts : Int) {calls : List Call}
    (none : calls.any Call.isFlush = false) : survives ts calls = false := by
  induction calls with
  | nil => rfl
  | cons first calls ih => cases first <;> simp_all [survives, Call.isFlush]

theorem expected_unflushed {calls : List Call} (none : calls.any Call.isFlush = false) :
    expected calls = [] := by
  induction calls with
  | nil => rfl
  | cons first calls ih =>
    cases first <;> simp_all [expected, survives_unflushed, Call.isFlush]

theorem expected_snoc_flush (calls : List Call) (now : Int) :
    expected (calls ++ [.flush now]) = expected calls ++ unflushed calls := by
  induction calls with
  | nil => rfl
  | cons first calls ih =>
    cases first with
    | writeConn snap ts =>
      simp only [List.cons_append, expected, unflushed, survives_snoc_flush, ih]
      by_cases some : calls.any Call.isFlush = true
      · simp only [some, if_true]
        split <;> rfl
      · have none : calls.any Call.isFlush = false := by simpa using some
        simp [none, survives_unflushed ts none, expected_unflushed none]
    | flush now => exact ih
    | writeResource snap => exact ih
    | deleteExpired now => exact ih

theorem unflushed_snoc (calls : List Call) {c : Call} (silent : c.isFlush = false) :
    unflushed (calls ++ [c]) = unflushed calls ++ unflushed [c] := by
  induction calls with
  | nil => rfl
  | cons first calls ih =>
    cases first with
    | writeConn snap now =>
      have same : (calls ++ [c]).any Call.isFlush = calls.any Call.isFlush := by
        simp [List.any_append, silent]
      simp only [List.cons_append, unflushed, same, ih]
      split <;> rfl
    | flush now => exact ih
    | writeResource snap => exact ih
    | deleteExpired now => exact ih

theorem unflushed_snoc_flush (calls : List Call) (now : Int) :
    unflushed (calls ++ [.flush now]) = [] := by
  induction calls with
  | nil => rfl
  | cons first calls ih => cases first <;> simp_all [unflushed, Call.isFlush]

/- A clock past the epoch and metrics the driver takes. -/
def Call.Proper : Call → Prop
  | .writeConn snap now => 0 < now ∧ BufferedConn.storable ⟨snap, now⟩ = true
  | _ => True

instance : (c : Call) → Decidable c.Proper
  | .writeConn _ _ => inferInstanceAs (Decidable (_ ∧ _))
  | .writeResource _ => inferInstanceAs (Decidable True)
  | .flush _ => inferInstanceAs (Decidable True)
  | .deleteExpired _ => inferInstanceAs (Decidable True)

structure Stored (calls : List Call) (s : Store) : Prop where
  idle : s.flush = none
  pending : s.connBuf.contents = unflushed calls
  table : s.connTable = (expected calls).map ownConnRow

theorem unflushed_proper {calls : List Call} (proper : ∀ c ∈ calls, c.Proper) :
    ∀ c ∈ unflushed calls, 0 < c.tsMs ∧ c.storable = true := by
  induction calls with
  | nil =>
    intro c member
    cases member
  | cons first calls ih =>
    have later := ih fun c member => proper c (List.mem_cons_of_mem _ member)
    cases first with
    | writeConn snap now =>
      intro c member
      simp only [unflushed] at member
      split at member
      · exact later c member
      · rcases List.mem_cons.mp member with rfl | rest
        · exact proper (.writeConn snap now) List.mem_cons_self
        · exact later c rest
    | flush now => exact later
    | writeResource snap => exact later
    | deleteExpired now => exact later

theorem rows_of_proper {cs : List BufferedConn} (now : Int)
    (proper : ∀ c ∈ cs, 0 < c.tsMs ∧ c.storable = true) :
    (cs.filter BufferedConn.storable).map (connRow now) = cs.map ownConnRow := by
  rw [List.filter_eq_self.mpr fun c member => (proper c member).2]
  apply List.map_congr_left
  intro c member
  have set : c.tsMs ≠ 0 := by
    have := (proper c member).1
    omega
  simp [ownConnRow, connRow, stamped, set]

theorem own_ts (c : BufferedConn) : (ownConnRow c).ts = c.tsMs := by
  simp [ownConnRow, connRow, stamped]

theorem table_deleted (now : Time) (cs : List BufferedConn) :
    (cs.map ownConnRow).filter (fun r => !decide (r.ts < cutoff now)) =
      (cs.filter fun c => retained c.tsMs [.deleteExpired now]).map ownConnRow := by
  rw [List.filter_map]
  congr 1
  apply List.filter_congr
  intro c member
  rw [Bool.eq_iff_iff]
  simp [own_ts, retained]

theorem stored_new : Stored [] (.new [] []) := ⟨rfl, rfl, rfl⟩

theorem expected_snoc_kept (calls : List Call) {c : Call} (silent : c.isFlush = false)
    (kept : ∀ ts, retained ts [c] = true) : expected (calls ++ [c]) = expected calls := by
  rw [expected_snoc calls silent]
  exact List.filter_eq_self.mpr fun w _ => kept w.tsMs

theorem stored_step (rt : Runtime) {calls : List Call} {s : Store} (stored : Stored calls s)
    (proper : ∀ c ∈ calls, c.Proper) (c : Call) :
    ∃ s' out, perform rt s c = some (s', out) ∧ Stored (calls ++ [c]) s' := by
  cases c with
  | writeConn snap now =>
    refine ⟨_, _, rfl, stored.idle, ?_, ?_⟩
    · rw [unflushed_snoc calls rfl, ← stored.pending]
      exact contents_append rt.connGrowth s.connBuf ⟨snap, now⟩
    · rw [expected_snoc_kept calls rfl fun _ => rfl]
      exact stored.table
  | writeResource snap =>
    refine ⟨_, _, rfl, stored.idle, ?_, ?_⟩
    · rw [unflushed_snoc calls rfl, ← stored.pending]
      exact (List.append_nil _).symm
    · rw [expected_snoc_kept calls rfl fun _ => rfl]
      exact stored.table
  | flush now =>
    obtain ⟨out, performed⟩ := perform_flush rt stored.idle now
    refine ⟨_, out, performed, rfl, ?_, ?_⟩
    · rw [unflushed_snoc_flush]
      exact contents_reset s.connBuf
    · have rows := rows_of_proper now (unflushed_proper proper)
      rw [expected_snoc_flush, List.map_append, ← stored.table, ← rows, ← stored.pending]
      rfl
  | deleteExpired now =>
    have performed : perform rt s (.deleteExpired now) =
        some (s.deleteExpired now true true, []) := by
      simp only [perform, step, stored.idle]
    refine ⟨_, _, performed, stored.idle, ?_, ?_⟩
    · rw [unflushed_snoc calls rfl, ← stored.pending]
      exact (List.append_nil _).symm
    · rw [expected_snoc calls rfl, ← table_deleted, ← stored.table]
      rfl

theorem stored_run (rt : Runtime) (calls : List Call) (proper : ∀ c ∈ calls, c.Proper) :
    ∃ s out, exec (perform rt) (.new [] []) calls = some (s, out) ∧ Stored calls s := by
  induction calls using List.reverseRecOn with
  | nil => exact ⟨_, _, rfl, stored_new⟩
  | append_singleton calls c ih =>
    have before : ∀ c ∈ calls, c.Proper := fun c member => proper c (List.mem_append_left _ member)
    obtain ⟨s, out, run, stored⟩ := ih before
    obtain ⟨s', out', taken, next⟩ := stored_step rt stored before c
    exact ⟨s', out ++ out', exec_snoc_iff.mpr ⟨s, out, out', run, taken, rfl⟩, next⟩

structure HistoryRow where
  ts : Int
  p50Us : Int
  p95Us : Int
  p99Us : Int
  avgUs : Int
  jitterUs : Int
  isSpike : Bool
  causeKind : CauseKind
  causeSignal : CauseSignal
  deriving DecidableEq

/- The nine columns in the order of the SELECT, with the spike read back as an integer. -/
def scan (r : ConnRow) : HistoryRow where
  ts := r.ts
  p50Us := r.p50Us
  p95Us := r.p95Us
  p99Us := r.p99Us
  avgUs := r.avgUs
  jitterUs := r.jitterUs
  isSpike := decide (r.isSpike = 1)
  causeKind := r.causeKind
  causeSignal := r.causeSignal

/-- The SELECT: the rows of the pair from a time on, by time; the order of rows of one time
    is left to the database. -/
structure Selects (table : List ConnRow) (src dst : String) (since : Time) (rows : List ConnRow) :
    Prop where
  matching : rows.Perm
    (table.filter fun r => decide (r.src = src ∧ r.dst = dst ∧ unixMilli since ≤ r.ts))
  ordered : rows.Pairwise fun r r' => r.ts ≤ r'.ts

def queryHistory (rows : List ConnRow) : List HistoryRow := rows.map scan

def ConnRow.before (r r' : ConnRow) : Prop := r.ts ≤ r'.ts

instance : DecidableRel ConnRow.before := fun r r' => inferInstanceAs (Decidable (r.ts ≤ r'.ts))
instance : IsTrans ConnRow ConnRow.before := ⟨fun _ _ _ => le_trans⟩
instance : Std.Total ConnRow.before := ⟨fun r r' => le_total r.ts r'.ts⟩

theorem selects_exists (table : List ConnRow) (src dst : String) (since : Time) :
    ∃ rows, Selects table src dst since rows :=
  ⟨_, List.perm_insertionSort ConnRow.before _, List.pairwise_insertionSort ConnRow.before _⟩

def historyOf (c : BufferedConn) : HistoryRow where
  ts := c.tsMs
  p50Us := c.snap.p50Us
  p95Us := c.snap.p95Us
  p99Us := c.snap.p99Us
  avgUs := c.snap.avgUs
  jitterUs := c.snap.jitterUs
  isSpike := c.snap.isSpike
  causeKind := c.snap.causeKind
  causeSignal := c.snap.causeSignal

theorem scan_own (c : BufferedConn) : scan (ownConnRow c) = historyOf c := by
  simp [scan, historyOf, ownConnRow, connRow, stamped]

def BufferedConn.ofPair (src dst : String) (c : BufferedConn) : Bool :=
  decide (c.snap.srcService = src ∧ c.snap.dstService = dst)

/- The zero value of time.Time, which range=all asks from. -/
def zeroTime : Time := -62135596800 * 1000000000

theorem expected_positive {calls : List Call} (proper : ∀ c ∈ calls, c.Proper) :
    ∀ c ∈ expected calls, 0 < c.tsMs := by
  induction calls with
  | nil =>
    intro c member
    cases member
  | cons first calls ih =>
    have later := ih fun c member => proper c (List.mem_cons_of_mem _ member)
    cases first with
    | writeConn snap now =>
      intro c member
      simp only [expected] at member
      split at member
      · rcases List.mem_cons.mp member with rfl | rest
        · exact (proper (.writeConn snap now) List.mem_cons_self).1
        · exact later c rest
      · exact later c member
    | flush now => exact later
    | writeResource snap => exact later
    | deleteExpired now => exact later

theorem query_of_stored {calls : List Call} {s : Store} (stored : Stored calls s)
    {src dst : String} {since : Time} {rows : List ConnRow}
    (selected : Selects s.connTable src dst since rows) :
    (queryHistory rows).Perm (((expected calls).filter fun c =>
      c.ofPair src dst && decide (unixMilli since ≤ c.tsMs)).map historyOf) := by
  have matching := selected.matching
  rw [stored.table, List.filter_map] at matching
  have same :
      ((fun r => decide (r.src = src ∧ r.dst = dst ∧ unixMilli since ≤ r.ts)) ∘ ownConnRow) =
        fun c => c.ofPair src dst && decide (unixMilli since ≤ c.tsMs) := by
    funext c
    rw [Bool.eq_iff_iff]
    simp [BufferedConn.ofPair, ownConnRow, connRow, and_assoc, stamped]
  have read := matching.map scan
  rw [same, List.map_map] at read
  have scanned : scan ∘ ownConnRow = historyOf := funext scan_own
  rwa [scanned] at read

/-- For every sequence of calls: the rows of a query are the snapshots of the pair that have
    been flushed, are recent enough and have outlived every deletion since, each with its own
    time and values and each once, in order of time. From the zero time none is left out. -/
theorem query_history_round_trip (rt : Runtime) (calls : List Call)
    (proper : ∀ c ∈ calls, c.Proper) (src dst : String) :
    ∃ s out, exec (perform rt) (.new [] []) calls = some (s, out) ∧
      (∀ since, (∃ rows, Selects s.connTable src dst since rows) ∧
        ∀ rows, Selects s.connTable src dst since rows →
          (queryHistory rows).Perm (((expected calls).filter fun c =>
            c.ofPair src dst && decide (unixMilli since ≤ c.tsMs)).map historyOf) ∧
          (queryHistory rows).Pairwise fun r r' => r.ts ≤ r'.ts) ∧
      ∀ rows, Selects s.connTable src dst zeroTime rows → (queryHistory rows).Perm
        (((expected calls).filter fun c => c.ofPair src dst).map historyOf) := by
  obtain ⟨s, out, run, stored⟩ := stored_run rt calls proper
  refine ⟨s, out, run, ?_, ?_⟩
  · intro since
    refine ⟨selects_exists s.connTable src dst since, ?_⟩
    intro rows selected
    exact ⟨query_of_stored stored selected, List.pairwise_map.mpr selected.ordered⟩
  · intro rows selected
    have all : (expected calls).filter (fun c => c.ofPair src dst) = (expected calls).filter
        fun c => c.ofPair src dst && decide (unixMilli zeroTime ≤ c.tsMs) := by
      apply List.filter_congr
      intro c member
      have positive := expected_positive proper c member
      have early : unixMilli zeroTime ≤ c.tsMs := by
        have : unixMilli zeroTime = -62135596800000 := by decide
        omega
      simp [early]
    rw [all]
    exact query_of_stored stored selected

def pairSnapshot (p50Us : Nat) : StatSnapshot :=
  { latencySnapshot p50Us with srcService := "service-a", dstService := "service-b" }

def eightDays : List Call :=
  [.writeConn (pairSnapshot 100) 1000, .flush 2000, .writeConn (pairSnapshot 200) 691200000,
    .flush 691260000, .deleteExpired 691260000000000, .writeConn (pairSnapshot 300) 691261000]

theorem old_snapshot_not_returned :
    ∃ s out, exec (perform doubling) (.new [] []) eightDays = some (s, out) ∧
      ∀ rows, Selects s.connTable "service-a" "service-b" zeroTime rows →
        (queryHistory rows).Perm [historyOf ⟨pairSnapshot 200, 691200000⟩] := by
  obtain ⟨s, out, run, _, all⟩ := query_history_round_trip doubling eightDays (by decide)
    "service-a" "service-b"
  exact ⟨s, out, run, all⟩

end CollectorStore
