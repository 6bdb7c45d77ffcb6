import Mathlib.Algebra.GroupWithZero.Nat
import MicroTrace.Store.Batching

/- Flushes that fail. A flush whose Begin, Prepare or Commit fails rolls back after it has
   reset the buffers, so its batch is gone. The size of what the store holds, set against
   the number of writes and of failures, says that every failure costs at least one row. -/
namespace CollectorStore
open CollectorModel Runs Slices

def Action.writes : Action → Bool
  | .writeConn _ _ => true
  | .writeResource _ => true
  | _ => false

/-- Calls run one after another: nothing is written while a flush is under way. -/
def Sequential (s : Store) (a : Action) : Prop := a.writes = true → s.flush.isNone = true

instance (s : Store) (a : Action) : Decidable (Sequential s a) :=
  inferInstanceAs (Decidable (_ → _))

theorem harmless_of_sequential {s : Store} {a : Action} (alone : Sequential s a) :
    Harmless s a := by
  cases a with
  | writeConn snap now =>
    have idle : s.flush = none := Option.isNone_iff_eq_none.mp (alone rfl)
    intro d member
    simp [Store.connDrain, idle] at member
  | writeResource snap =>
    have idle : s.flush = none := Option.isNone_iff_eq_none.mp (alone rfl)
    intro d member
    simp [Store.resDrain, idle] at member
  | take => trivial
  | begin ok now => trivial
  | prepareConn ok => trivial
  | insertConn ok => trivial
  | prepareRes ok => trivial
  | insertRes ok => trivial
  | commit ok => trivial
  | deleteExpired now connOk resOk => trivial

theorem harmless_run {rt : Runtime} {s t : Store} {as : List Action} {out : List Committed}
    (run : exec (restrict Sequential (step rt)) s as = some (t, out)) :
    exec (restrict Harmless (step rt)) s as = some (t, out) := by
  apply exec_mono _ run
  intro s t a o taken
  obtain ⟨alone, taken⟩ := restrict_iff.mp taken
  exact restrict_iff.mpr ⟨harmless_of_sequential alone, taken⟩

/-- Every snapshot is either still pending or has become exactly one row. -/
def NothingLost (as : List Action) (s : Store) (out : List Committed) : Prop :=
  (∃ done, writtenConns as = done ++ s.connBuf.contents ∧
    List.Forall₂ CarriesConn done (committedConns out)) ∧
  (∃ done, writtenRess as = done ++ s.resBuf.contents ∧
    List.Forall₂ CarriesRes done (committedRess out))

theorem nothingLost_of_accounts {as : List Action} {s : Store} {out : List Committed}
    (accounts : Accounts as s out) (idle : s.flush = none) : NothingLost as s out := by
  obtain ⟨conns, ress, _⟩ := accounts
  simp only [Store.connDrain, Store.resDrain, idle, Option.map_none] at conns ress
  constructor
  · obtain ⟨done, all, carried⟩ := conns.rows
    refine ⟨done, ?_, by simpa [executed] using carried⟩
    rw [← connLedger_written, all, conns.pending, unread, List.append_nil]
  · obtain ⟨done, all, carried⟩ := ress.rows
    refine ⟨done, ?_, by simpa [executed] using carried⟩
    rw [← resLedger_written, all, ress.pending, unread, List.append_nil]

section Sizes

variable {β : Type}

def Drain.size (d : Drain β) : Nat := d.rows.length + (d.batch.len - d.next)

def Flush.size (f : Flush) : Nat := f.conns.size + f.ress.size

def Store.batched (s : Store) : Nat := (s.flush.map Flush.size).getD 0

def Store.pending (s : Store) : Nat := s.connBuf.live.len + s.resBuf.live.len

theorem size_over (batch : Slice) : (Drain.over (β := β) batch).size = batch.len := by
  simp [Drain.size, Drain.over]

theorem size_insert {α : Type} (row : α → β) (h : Heap α) {d : Drain β}
    (inside : d.next < d.batch.len) : (d.insert row h true).size = d.size := by
  simp only [Drain.size, Drain.insert, if_true, List.length_append, List.length_singleton]
  omega

theorem len_append {α : Type} (g : Growth) (b : Buffer α) (x : α) :
    (b.append g x).live.len = b.live.len + 1 := by
  unfold Buffer.append
  split <;> rfl

end Sizes

theorem batched_idle {s : Store} (idle : s.flush = none) : s.batched = 0 := by
  rw [Store.batched, idle]
  rfl

theorem batched_under {s : Store} {f : Flush} (under : s.flush = some f) :
    s.batched = f.size := by
  rw [Store.batched, under]
  rfl

def Action.written (a : Action) : Nat := if a.writes then 1 else 0

def Action.lost (a : Action) : Nat := if a.transacts then 0 else 1

def Loaded (s : Store) : Prop := ∀ f ∈ s.flush, 0 < f.size

structure Costs (s : Store) (a : Action) (t : Store) (o : List Committed) : Prop where
  loaded : Loaded t
  bounded : t.batched + t.pending + o.length + a.lost ≤ s.batched + s.pending + a.written

theorem costs_take {s : Store} (idle : s.flush = none) : Costs s .take s.take [] := by
  have before := batched_idle idle
  have reset : s.take.pending = 0 := rfl
  have total : s.pending = s.connBuf.live.len + s.resBuf.live.len := rfl
  have kept : Action.take.lost = 0 := rfl
  by_cases empty : s.connBuf.live.len = 0 ∧ s.resBuf.live.len = 0
  · have resting : s.take.flush = none := if_pos empty
    have after := batched_idle resting
    constructor
    · simp [Loaded, resting]
    · simp only [List.length_nil]
      omega
  · have begun : s.take.flush = some ⟨.begin, 0, .over s.connBuf.live, .over s.resBuf.live⟩ :=
      if_neg empty
    have after := batched_under begun
    simp only [Flush.size, size_over] at after
    constructor
    · intro f member
      rw [begun] at member
      cases member
      simp only [Flush.size, size_over]
      omega
    · simp only [List.length_nil]
      omega

theorem costs_proceed {s : Store} {f f' : Flush} {a : Action} (loaded : Loaded s)
    (under : s.flush = some f) (same : f'.size = f.size) (kept : a.lost = 0) :
    Costs s a (s.proceed f') [] := by
  have before := batched_under under
  have after : (s.proceed f').batched = f'.size := rfl
  have pending : (s.proceed f').pending = s.pending := rfl
  constructor
  · intro g member
    cases member
    rw [same]
    exact loaded f under
  · simp only [List.length_nil]
    omega

theorem costs_rollback {s : Store} {f : Flush} {a : Action} (loaded : Loaded s)
    (under : s.flush = some f) (one : a.lost ≤ 1) : Costs s a s.rollback [] := by
  have before := batched_under under
  have after : s.rollback.batched = 0 := rfl
  have pending : s.rollback.pending = s.pending := rfl
  have positive := loaded f under
  constructor
  · simp [Loaded, Store.rollback]
  · simp only [List.length_nil]
    omega

theorem costs_commit {s : Store} {f : Flush} (under : s.flush = some f) :
    Costs s (.commit true) (s.commit f) f.committed := by
  have before := batched_under under
  have after : (s.commit f).batched = 0 := rfl
  have pending : (s.commit f).pending = s.pending := rfl
  have lost : (Action.commit true).lost = 0 := rfl
  constructor
  · simp [Loaded, Store.commit]
  · simp only [Flush.size, Drain.size] at before
    simp only [Flush.committed, List.length_append, List.length_map]
    omega

theorem costs_call {s t : Store} {f : Flush} {a : Action} {o : List Committed}
    (loaded : Loaded s) (under : s.flush = some f) (due : f.atCall a)
    (inserts : a.inserts = true) (called : s.call f a = (t, o)) : Costs s a t o := by
  cases a with
  | writeConn snap now => exact absurd due id
  | writeResource snap => exact absurd due id
  | take => exact absurd due id
  | deleteExpired now connOk resOk => exact absurd due id
  | begin ok now =>
    cases ok <;> cases called
    · exact costs_rollback loaded under (Nat.le_refl 1)
    · exact costs_proceed loaded under rfl rfl
  | prepareConn ok =>
    cases ok <;> cases called
    · exact costs_rollback loaded under (Nat.le_refl 1)
    · exact costs_proceed loaded under rfl rfl
  | prepareRes ok =>
    cases ok <;> cases called
    · exact costs_rollback loaded under (Nat.le_refl 1)
    · exact costs_proceed loaded under rfl rfl
  | insertConn ok =>
    cases inserts
    cases called
    have same := size_insert (connRow f.fallback) s.connBuf.heap due.2
    exact costs_proceed loaded under (by rw [Flush.size, same, Flush.size]) rfl
  | insertRes ok =>
    cases inserts
    cases called
    have same := size_insert (resRow f.fallback) s.resBuf.heap due.2
    exact costs_proceed loaded under (by rw [Flush.size, same, Flush.size]) rfl
  | commit ok =>
    cases ok <;> cases called
    · exact costs_rollback loaded under (Nat.le_refl 1)
    · exact costs_commit under

theorem costs_step {rt : Runtime} {s t : Store} {a : Action} {o : List Committed}
    (loaded : Loaded s) (inserts : a.inserts = true) (taken : step rt s a = some (t, o)) :
    Costs s a t o := by
  rcases step_cases taken with ⟨snap, now, rfl, rfl, rfl⟩ | ⟨snap, rfl, rfl, rfl⟩ |
    ⟨rfl, idle, rfl, rfl⟩ | ⟨now, connOk, resOk, rfl, idle, rfl, rfl⟩ | ⟨f, under, due, called⟩
  · refine ⟨loaded, ?_⟩
    simp only [Store.writeConn, Store.batched, Store.pending, len_append, Action.lost,
      Action.transacts, Action.written, Action.writes, if_true, List.length_nil]
    omega
  · refine ⟨loaded, ?_⟩
    simp only [Store.writeResource, Store.batched, Store.pending, len_append, Action.lost,
      Action.transacts, Action.written, Action.writes, if_true, List.length_nil]
    omega
  · exact costs_take idle
  · exact ⟨loaded, Nat.le_refl _⟩
  · exact costs_call loaded under due inserts called

def failures (as : List Action) : Nat := (as.map Action.lost).sum

def writes (as : List Action) : Nat := (as.map Action.written).sum

theorem costs_run {rt : Runtime} {connTable : List ConnRow} {resTable : List ResRow}
    {as : List Action} {s : Store} {out : List Committed}
    (run : exec (step rt) (.new connTable resTable) as = some (s, out))
    (inserts : ∀ a ∈ as, a.inserts = true) :
    s.batched + s.pending + out.length + failures as ≤ writes as := by
  have general := @exec_history Store Action Committed (step rt)
    (fun as s out => (∀ a ∈ as, a.inserts = true) → Loaded s ∧
      s.batched + s.pending + out.length + failures as ≤ writes as)
    (.new connTable resTable) ?_ ?_ as s out run
  · exact (general inserts).2
  · intro _
    exact ⟨by simp [Loaded, Store.new], Nat.le_refl 0⟩
  · intro as s t a out o _ before taken inserts
    obtain ⟨loaded, bound⟩ := before fun b member => inserts b (by simp [member])
    have costs := costs_step loaded (inserts a (by simp)) taken
    refine ⟨costs.loaded, ?_⟩
    have step := costs.bounded
    simp only [failures, writes, List.map_append, List.sum_append, List.map_cons, List.map_nil,
      List.sum_cons, List.sum_nil, List.length_append] at bound ⊢
    omega

theorem committed_length (out : List Committed) :
    out.length = (committedConns out).length + (committedRess out).length := by
  induction out with
  | nil => rfl
  | cons c out ih =>
    cases c <;> simp [committedConns, committedRess, List.filterMap_cons, Committed.connRow?,
      Committed.resRow?] at ih ⊢ <;> omega

theorem written_length (as : List Action) :
    writes as = (writtenConns as).length + (writtenRess as).length := by
  induction as with
  | nil => rfl
  | cons a as ih =>
    cases a <;> simp [writes, Action.written, Action.writes, writtenConns, writtenRess,
      List.filterMap_cons, Action.conn?, Action.res?] at ih ⊢ <;> omega

theorem transacts_of_no_failures {as : List Action} (none : failures as = 0) :
    ∀ a ∈ as, a.transacts = true := by
  induction as with
  | nil =>
    intro a member
    cases member
  | cons b as ih =>
    simp only [failures, List.map_cons, List.sum_cons] at none
    intro a member
    cases member with
    | head =>
      cases ok : b.transacts with
      | false =>
        have one : b.lost = 1 := by simp [Action.lost, ok]
        omega
      | true => rfl
    | tail _ later =>
      have rest : failures as = 0 := by
        rw [failures]
        omega
      exact ih rest a later

/-- Over sequential calls, nothing has been lost once the store is idle again exactly when
    no Begin, Prepare or Commit has failed. -/
theorem flush_loses_nothing_iff {rt : Runtime} {connTable : List ConnRow}
    {resTable : List ResRow} {as : List Action} {s : Store} {out : List Committed}
    (run : exec (restrict Sequential (step rt)) (.new connTable resTable) as = some (s, out))
    (inserts : ∀ a ∈ as, a.inserts = true) (idle : s.flush.isNone = true) :
    NothingLost as s out ↔ ∀ a ∈ as, a.transacts = true := by
  have resting : s.flush = none := Option.isNone_iff_eq_none.mp idle
  constructor
  · rintro ⟨⟨conns, connSplit, connRows⟩, ⟨ress, resSplit, resRows⟩⟩
    apply transacts_of_no_failures
    have plain := exec_mono (fun taken => (restrict_iff.mp taken).2) run
    have bound := costs_run plain inserts
    have batched := batched_idle resting
    have connLength := congrArg List.length connSplit
    have resLength := congrArg List.length resSplit
    simp only [List.length_append, Buffer.contents, length_suffix] at connLength resLength
    have committed := committed_length out
    have written := written_length as
    have pending : s.pending = s.connBuf.live.len + s.resBuf.live.len := rfl
    have connCount := connRows.length_eq
    have resCount := resRows.length_eq
    omega
  · intro transacts
    exact nothingLost_of_accounts (accounts_run (harmless_run run) transacts inserts) resting

def twoFlushes : List Action :=
  [.writeConn (latencySnapshot 100) 1000, .take] ++ wholeFlush 5000 ++
    [.writeConn (latencySnapshot 200) 2000, .take] ++ wholeFlush 65000

theorem two_flushes_lose_nothing :
    ∃ s out, exec (restrict Sequential (step doubling)) (.new [] []) twoFlushes =
        some (s, out) ∧
      (NothingLost twoFlushes s out ↔ ∀ a ∈ twoFlushes, a.transacts = true) ∧
      ∀ a ∈ twoFlushes, a.transacts = true :=
  ⟨_, _, rfl, @flush_loses_nothing_iff doubling [] [] twoFlushes _ _ rfl (by decide) rfl,
    by decide⟩

def beginFails : List Action :=
  [.writeConn (latencySnapshot 100) 1000, .take, .begin false 5000,
    .writeConn (latencySnapshot 200) 2000, .take] ++ wholeFlush 65000

theorem failed_begin_loses_batch :
    (∀ a ∈ beginFails, a.inserts = true) ∧
    (∃ s out, exec (restrict Sequential (step doubling)) (.new [] []) (beginFails.take 3) =
        some (s, out) ∧
      s.flush.isNone = true ∧ s.connBuf.contents = [] ∧ out = []) ∧
    ∃ s out, exec (restrict Sequential (step doubling)) (.new [] []) beginFails =
        some (s, out) ∧
      s.flush.isNone = true ∧
      committedConns out = [ownConnRow ⟨latencySnapshot 200, 2000⟩] ∧
      ¬ NothingLost beginFails s out := by
  refine ⟨by decide, ⟨_, _, rfl, rfl, rfl, rfl⟩, _, _, rfl, rfl, rfl, ?_⟩
  rintro ⟨⟨done, split, carried⟩, _⟩
  have size := congrArg List.length split
  have count := carried.length_eq
  rw [List.length_append, count] at size
  exact absurd size (by decide)

end CollectorStore
