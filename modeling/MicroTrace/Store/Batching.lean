import Mathlib.Data.List.Forall2
import MicroTrace.Store.Store

/- What the batching is for: a ledger that knows which snapshots have been taken by a flush
   and which are still pending. Each buffer together with its insert loop is compared with
   such a ledger; the two halves of the store differ only in their types. -/
namespace CollectorStore
open CollectorModel Runs Slices

theorem step_cases {rt : Runtime} {s t : Store} {a : Action} {o : List Committed}
    (taken : step rt s a = some (t, o)) :
    (∃ snap now, a = .writeConn snap now ∧ t = s.writeConn rt snap now ∧ o = []) ∨
    (∃ snap, a = .writeResource snap ∧ t = s.writeResource rt snap ∧ o = []) ∨
    (a = .take ∧ s.flush = none ∧ t = s.take ∧ o = []) ∨
    (∃ now connOk resOk, a = .deleteExpired now connOk resOk ∧ s.flush = none ∧
      t = s.deleteExpired now connOk resOk ∧ o = []) ∨
    (∃ f, s.flush = some f ∧ f.atCall a ∧ s.call f a = (t, o)) := by
  cases a with
  | writeConn snap now =>
    simp only [step, Option.some.injEq, Prod.mk.injEq] at taken
    exact .inl ⟨snap, now, rfl, taken.1.symm, taken.2.symm⟩
  | writeResource snap =>
    simp only [step, Option.some.injEq, Prod.mk.injEq] at taken
    exact .inr (.inl ⟨snap, rfl, taken.1.symm, taken.2.symm⟩)
  | take =>
    cases state : s.flush with
    | none =>
      simp only [step, state, Option.some.injEq, Prod.mk.injEq] at taken
      exact .inr (.inr (.inl ⟨rfl, rfl, taken.1.symm, taken.2.symm⟩))
    | some f => simp [step, state] at taken
  | deleteExpired now connOk resOk =>
    cases state : s.flush with
    | none =>
      simp only [step, state, Option.some.injEq, Prod.mk.injEq] at taken
      exact .inr (.inr (.inr (.inl ⟨now, connOk, resOk, rfl, rfl, taken.1.symm, taken.2.symm⟩)))
    | some f => simp [step, state] at taken
  | begin _ _ | prepareConn _ | insertConn _ | prepareRes _ | insertRes _ | commit _ =>
    cases state : s.flush with
    | none => simp [step, state] at taken
    | some f =>
      simp only [step, state, Option.ite_none_right_eq_some, Option.some.injEq] at taken
      exact .inr (.inr (.inr (.inr ⟨f, rfl, taken.1, taken.2⟩)))

structure Ledger (α : Type) where
  taken : List α
  pending : List α

section Lane

variable {α β : Type}

def Ledger.write (l : Ledger α) (x : α) : Ledger α := { l with pending := l.pending ++ [x] }

def Ledger.take (l : Ledger α) : Ledger α := ⟨l.taken ++ l.pending, []⟩

def executed : Option (Drain β) → List β
  | none => []
  | some d => d.rows

def unread (h : Heap α) : Option (Drain β) → List α
  | none => []
  | some d => h.suffix d.batch d.next

/-- A buffer and its insert loop agree with the ledger: the buffer holds what is pending,
    and the rows committed or executed are, in order, those of everything taken before the
    part of the batch that the loop has not read. -/
structure Accounted (carries : α → β → Prop) (buf : Buffer α) (drain : Option (Drain β))
    (committed : List β) (l : Ledger α) : Prop where
  pending : buf.contents = l.pending
  placed : ∀ d ∈ drain, d.batch.array < buf.heap.fresh
  rows : ∃ done, l.taken = done ++ unread buf.heap drain ∧
    List.Forall₂ carries done (committed ++ executed drain)

variable {carries : α → β → Prop} {buf : Buffer α} {committed : List β} {l : Ledger α}

theorem accounted_write (g : Growth) (x : α) {drain : Option (Drain β)}
    (before : Accounted carries buf drain committed l)
    (apart : ∀ d ∈ drain, ¬ Overwrites buf.live d.batch d.next) :
    Accounted carries (buf.append g x) drain committed (l.write x) := by
  constructor
  · rw [contents_append, before.pending]
    rfl
  · intro d member
    exact lt_of_lt_of_le (before.placed d member) (fresh_append g buf x)
  · obtain ⟨done, split, carried⟩ := before.rows
    have same : unread (buf.append g x).heap drain = unread buf.heap drain := by
      cases drain with
      | none => rfl
      | some d => exact suffix_append g buf x (before.placed d rfl) (apart d rfl)
    exact ⟨done, by rw [same]; exact split, carried⟩

theorem accounted_take (before : Accounted carries buf none committed l) :
    Accounted carries buf.reset (some (.over buf.live)) committed l.take := by
  obtain ⟨done, split, carried⟩ := before.rows
  constructor
  · exact contents_reset buf
  · intro d member
    cases member
    exact buf.allocated
  · refine ⟨done, ?_, carried⟩
    have all : l.taken = done := by simpa [unread] using split
    have batch : unread buf.reset.heap (some (Drain.over (β := β) buf.live)) = l.pending :=
      before.pending
    rw [batch, ← all]
    rfl

theorem accounted_take_nothing (before : Accounted carries buf none committed l)
    (empty : buf.live.len = 0) : Accounted carries buf.reset none committed l.take := by
  have nothing : l.pending = [] := by
    rw [← before.pending]
    exact suffix_end buf.heap (Nat.le_of_eq empty)
  constructor
  · exact contents_reset buf
  · intro d member
    cases member
  · obtain ⟨done, split, carried⟩ := before.rows
    exact ⟨done, by simpa [Ledger.take, nothing, unread] using split, carried⟩

theorem accounted_insert {d : Drain β} (row : α → β) (own : ∀ x, carries x (row x))
    (before : Accounted carries buf (some d) committed l) (inside : d.next < d.batch.len) :
    Accounted carries buf (some (d.insert row buf.heap true)) committed l := by
  obtain ⟨done, split, carried⟩ := before.rows
  constructor
  · exact before.pending
  · intro e member
    cases member
    exact before.placed d rfl
  · refine ⟨done ++ [buf.heap.cells d.batch.array d.next], ?_, ?_⟩
    · have next : unread buf.heap (some d) = _ := suffix_next buf.heap inside
      rw [split, next, List.append_assoc]
      rfl
    · have last := List.rel_append carried
        (List.Forall₂.cons (own (buf.heap.cells d.batch.array d.next)) .nil)
      simpa [executed, Drain.insert] using last

theorem accounted_commit {d : Drain β} (before : Accounted carries buf (some d) committed l)
    (drained : ¬ d.next < d.batch.len) :
    Accounted carries buf none (committed ++ d.rows) l := by
  obtain ⟨done, split, carried⟩ := before.rows
  constructor
  · exact before.pending
  · intro e member
    cases member
  · refine ⟨done, ?_, by simpa [executed] using carried⟩
    rw [split]
    exact congrArg (done ++ ·) (suffix_end buf.heap (Nat.not_lt.mp drained))

end Lane

def connEntry : Ledger BufferedConn → Action → Ledger BufferedConn
  | l, .writeConn snap now => l.write ⟨snap, now⟩
  | l, .take => l.take
  | l, _ => l

def resEntry : Ledger ResourceSnapshot → Action → Ledger ResourceSnapshot
  | l, .writeResource snap => l.write snap
  | l, .take => l.take
  | l, _ => l

def connLedger (as : List Action) : Ledger BufferedConn := as.foldl connEntry ⟨[], []⟩

def resLedger (as : List Action) : Ledger ResourceSnapshot := as.foldl resEntry ⟨[], []⟩

def Committed.connRow? : Committed → Option ConnRow
  | .conn row => some row
  | .res _ => none

def Committed.resRow? : Committed → Option ResRow
  | .conn _ => none
  | .res row => some row

def committedConns (out : List Committed) : List ConnRow := out.filterMap Committed.connRow?

def committedRess (out : List Committed) : List ResRow := out.filterMap Committed.resRow?

def CarriesConn (c : BufferedConn) (row : ConnRow) : Prop := ∃ fallback, row = connRow fallback c

def CarriesRes (r : ResourceSnapshot) (row : ResRow) : Prop := ∃ fallback, row = resRow fallback r

def Store.connDrain (s : Store) : Option (Drain ConnRow) := s.flush.map (·.conns)

def Store.resDrain (s : Store) : Option (Drain ResRow) := s.flush.map (·.ress)

/-- The write does not land on a cell that the insert loop has yet to read. -/
def Harmless (s : Store) : Action → Prop
  | .writeConn _ _ => ∀ d ∈ s.connDrain, ¬ Overwrites s.connBuf.live d.batch d.next
  | .writeResource _ => ∀ d ∈ s.resDrain, ¬ Overwrites s.resBuf.live d.batch d.next
  | _ => True

instance (s : Store) : (a : Action) → Decidable (Harmless s a)
  | .writeConn _ _ => inferInstanceAs (Decidable (∀ d ∈ s.connDrain, _))
  | .writeResource _ => inferInstanceAs (Decidable (∀ d ∈ s.resDrain, _))
  | .take => inferInstanceAs (Decidable True)
  | .begin _ _ => inferInstanceAs (Decidable True)
  | .prepareConn _ => inferInstanceAs (Decidable True)
  | .insertConn _ => inferInstanceAs (Decidable True)
  | .prepareRes _ => inferInstanceAs (Decidable True)
  | .insertRes _ => inferInstanceAs (Decidable True)
  | .commit _ => inferInstanceAs (Decidable True)
  | .deleteExpired _ _ _ => inferInstanceAs (Decidable True)

def Action.transacts : Action → Bool
  | .begin ok _ => ok
  | .prepareConn ok => ok
  | .prepareRes ok => ok
  | .commit ok => ok
  | _ => true

def Action.inserts : Action → Bool
  | .insertConn ok => ok
  | .insertRes ok => ok
  | _ => true

structure Accounts (as : List Action) (s : Store) (out : List Committed) : Prop where
  conns : Accounted CarriesConn s.connBuf s.connDrain (committedConns out) (connLedger as)
  ress : Accounted CarriesRes s.resBuf s.resDrain (committedRess out) (resLedger as)
  drained : ∀ f ∈ s.flush, f.stage = .insertRess → ¬ f.conns.next < f.conns.batch.len

theorem accounts_new (connTable : List ConnRow) (resTable : List ResRow) :
    Accounts [] (.new connTable resTable) [] := by
  constructor
  · exact ⟨rfl, by simp [Store.new, Store.connDrain], [], rfl, .nil⟩
  · exact ⟨rfl, by simp [Store.new, Store.resDrain], [], rfl, .nil⟩
  · simp [Store.new]

theorem connLedger_snoc (as : List Action) (a : Action) :
    connLedger (as ++ [a]) = connEntry (connLedger as) a := by
  simp [connLedger]

theorem resLedger_snoc (as : List Action) (a : Action) :
    resLedger (as ++ [a]) = resEntry (resLedger as) a := by
  simp [resLedger]

theorem committedConns_append (out o : List Committed) :
    committedConns (out ++ o) = committedConns out ++ committedConns o := by
  simp [committedConns]

theorem committedRess_append (out o : List Committed) :
    committedRess (out ++ o) = committedRess out ++ committedRess o := by
  simp [committedRess]

theorem committedConns_of_flush (f : Flush) : committedConns f.committed = f.conns.rows := by
  simp [committedConns, Flush.committed, Committed.connRow?, Function.comp_def]

theorem committedRess_of_flush (f : Flush) : committedRess f.committed = f.ress.rows := by
  simp [committedRess, Flush.committed, Committed.resRow?, Function.comp_def]

section Steps

variable {rt : Runtime} {as : List Action} {s t : Store} {a : Action} {out o : List Committed}

theorem accounts_silent
    (conns : Accounted CarriesConn t.connBuf t.connDrain (committedConns out)
      (connEntry (connLedger as) a))
    (ress : Accounted CarriesRes t.resBuf t.resDrain (committedRess out)
      (resEntry (resLedger as) a))
    (drained : ∀ f ∈ t.flush, f.stage = .insertRess → ¬ f.conns.next < f.conns.batch.len) :
    Accounts (as ++ [a]) t (out ++ []) := by
  rw [List.append_nil]
  constructor
  · rw [connLedger_snoc]
    exact conns
  · rw [resLedger_snoc]
    exact ress
  · exact drained

theorem accounts_take (before : Accounts as s out) (idle : s.flush = none) :
    Accounts (as ++ [.take]) s.take (out ++ []) := by
  have conns := before.conns
  have ress := before.ress
  simp only [Store.connDrain, Store.resDrain, idle, Option.map_none] at conns ress
  by_cases empty : s.connBuf.live.len = 0 ∧ s.resBuf.live.len = 0
  · have resting : s.take.flush = none := if_pos empty
    apply accounts_silent
    · rw [Store.connDrain, resting]
      exact accounted_take_nothing conns empty.1
    · rw [Store.resDrain, resting]
      exact accounted_take_nothing ress empty.2
    · simp [resting]
  · have begun : s.take.flush = some ⟨.begin, 0, .over s.connBuf.live, .over s.resBuf.live⟩ :=
      if_neg empty
    apply accounts_silent
    · rw [Store.connDrain, begun]
      exact accounted_take conns
    · rw [Store.resDrain, begun]
      exact accounted_take ress
    · simp [begun]

/- Every database call of a flush succeeds, so it either moves the flush on or commits. -/
theorem accounts_call {f : Flush} (before : Accounts as s out) (under : s.flush = some f)
    (due : f.atCall a) (transacts : a.transacts = true) (inserts : a.inserts = true)
    (called : s.call f a = (t, o)) : Accounts (as ++ [a]) t (out ++ o) := by
  obtain ⟨conns, ress, drained⟩ := before
  simp only [Store.connDrain, Store.resDrain, under, Option.map_some] at conns ress
  have sofar := drained f under
  cases a with
  | writeConn snap now => exact absurd due id
  | writeResource snap => exact absurd due id
  | take => exact absurd due id
  | deleteExpired now connOk resOk => exact absurd due id
  | begin ok now =>
    cases transacts
    cases called
    exact accounts_silent conns ress (by simp [Store.proceed])
  | prepareConn ok =>
    cases transacts
    cases called
    exact accounts_silent conns ress (by simp [Store.proceed])
  | prepareRes ok =>
    cases transacts
    cases called
    exact accounts_silent conns ress (by simpa [Store.proceed] using due.2)
  | insertConn ok =>
    cases inserts
    cases called
    have inserted := accounted_insert (connRow f.fallback) (fun c => ⟨_, rfl⟩) conns due.2
    exact accounts_silent inserted ress (by simp [Store.proceed, due.1])
  | insertRes ok =>
    cases inserts
    cases called
    have inserted := accounted_insert (resRow f.fallback) (fun r => ⟨_, rfl⟩) ress due.2
    exact accounts_silent conns inserted (by simpa [Store.proceed] using sofar)
  | commit ok =>
    cases transacts
    cases called
    constructor
    · rw [connLedger_snoc, committedConns_append, committedConns_of_flush]
      exact accounted_commit conns (sofar due.1)
    · rw [resLedger_snoc, committedRess_append, committedRess_of_flush]
      exact accounted_commit ress due.2
    · simp [Store.commit]

theorem accounts_step (before : Accounts as s out) (apart : Harmless s a)
    (transacts : a.transacts = true) (inserts : a.inserts = true)
    (taken : step rt s a = some (t, o)) : Accounts (as ++ [a]) t (out ++ o) := by
  rcases step_cases taken with ⟨snap, now, rfl, rfl, rfl⟩ | ⟨snap, rfl, rfl, rfl⟩ |
    ⟨rfl, idle, rfl, rfl⟩ | ⟨now, connOk, resOk, rfl, idle, rfl, rfl⟩ | ⟨f, under, due, called⟩
  · have written := accounted_write rt.connGrowth (BufferedConn.mk snap now) before.conns apart
    exact accounts_silent written before.ress before.drained
  · have written := accounted_write rt.resGrowth snap before.ress apart
    exact accounts_silent before.conns written before.drained
  · exact accounts_take before idle
  · exact accounts_silent before.conns before.ress before.drained
  · exact accounts_call before under due transacts inserts called

end Steps

theorem accounts_run {rt : Runtime} {connTable : List ConnRow} {resTable : List ResRow}
    {as : List Action} {s : Store} {out : List Committed}
    (run : exec (restrict Harmless (step rt)) (.new connTable resTable) as = some (s, out))
    (transacts : ∀ a ∈ as, a.transacts = true) (inserts : ∀ a ∈ as, a.inserts = true) :
    Accounts as s out := by
  have general := @exec_history Store Action Committed (restrict Harmless (step rt))
    (fun as s out => (∀ a ∈ as, a.transacts = true ∧ a.inserts = true) → Accounts as s out)
    (.new connTable resTable) (fun _ => accounts_new connTable resTable) ?_ as s out run
  · exact general fun a member => ⟨transacts a member, inserts a member⟩
  · intro as s t a out o _ before taken succeed
    obtain ⟨apart, taken⟩ := restrict_iff.mp taken
    have last := succeed a (by simp)
    exact accounts_step (before fun b member => succeed b (by simp [member])) apart last.1 last.2
      taken

/- A clock that reads zero stands for an unset timestamp, which flush replaces. -/
def Action.stamped : Action → Bool
  | .writeConn _ now => now ≠ 0
  | .writeResource snap => snap.timestampMs ≠ 0
  | _ => true

def ownConnRow (c : BufferedConn) : ConnRow := connRow c.tsMs c

def ownResRow (r : ResourceSnapshot) : ResRow := resRow r.timestampMs r

/-- Every snapshot taken so far is one row, in the order of the writes: committed, executed
    in the open transaction or still to be read by the insert loop. Every later snapshot is
    pending. -/
def ExactlyOnce {α β : Type} (own : α → β) (buf : Buffer α) (drain : Option (Drain β))
    (committed : List β) (l : Ledger α) : Prop :=
  committed ++ executed drain ++ (unread buf.heap drain).map own = l.taken.map own ∧
    buf.contents = l.pending

theorem rows_of_carried {α β : Type} {carries : α → β → Prop} {own : α → β} {done : List α}
    {rows : List β} (carried : List.Forall₂ carries done rows)
    (known : ∀ x ∈ done, ∀ row, carries x row → row = own x) : rows = done.map own := by
  induction carried with
  | nil => rfl
  | cons head tail ih =>
    rw [List.map_cons, ← ih fun x member => known x (List.mem_cons_of_mem _ member),
      known _ List.mem_cons_self _ head]

theorem exactlyOnce_of_accounted {α β : Type} {carries : α → β → Prop} {own : α → β}
    {buf : Buffer α} {drain : Option (Drain β)} {committed : List β} {l : Ledger α}
    (accounted : Accounted carries buf drain committed l)
    (known : ∀ x ∈ l.taken, ∀ row, carries x row → row = own x) :
    ExactlyOnce own buf drain committed l := by
  obtain ⟨done, split, carried⟩ := accounted.rows
  constructor
  · have rows := rows_of_carried carried fun x member =>
      known x (split ▸ List.mem_append_left _ member)
    rw [rows, split, List.map_append]
  · exact accounted.pending

def Action.conn? : Action → Option BufferedConn
  | .writeConn snap now => some ⟨snap, now⟩
  | _ => none

def Action.res? : Action → Option ResourceSnapshot
  | .writeResource snap => some snap
  | _ => none

def writtenConns (as : List Action) : List BufferedConn := as.filterMap Action.conn?

def writtenRess (as : List Action) : List ResourceSnapshot := as.filterMap Action.res?

theorem connLedger_written (as : List Action) :
    (connLedger as).taken ++ (connLedger as).pending = writtenConns as := by
  induction as using List.reverseRecOn with
  | nil => rfl
  | append_singleton as a ih =>
    rw [connLedger_snoc, writtenConns, List.filterMap_append, ← writtenConns, ← ih]
    cases a <;> simp [connEntry, Ledger.write, Ledger.take, Action.conn?]

theorem resLedger_written (as : List Action) :
    (resLedger as).taken ++ (resLedger as).pending = writtenRess as := by
  induction as using List.reverseRecOn with
  | nil => rfl
  | append_singleton as a ih =>
    rw [resLedger_snoc, writtenRess, List.filterMap_append, ← writtenRess, ← ih]
    cases a <;> simp [resEntry, Ledger.write, Ledger.take, Action.res?]

theorem own_of_carriesConn {c : BufferedConn} {row : ConnRow} (set : c.tsMs ≠ 0)
    (carried : CarriesConn c row) : row = ownConnRow c := by
  obtain ⟨fallback, rfl⟩ := carried
  simp [ownConnRow, connRow, stamped, set]

theorem own_of_carriesRes {r : ResourceSnapshot} {row : ResRow} (set : r.timestampMs ≠ 0)
    (carried : CarriesRes r row) : row = ownResRow r := by
  obtain ⟨fallback, rfl⟩ := carried
  simp [ownResRow, resRow, stamped, set]

theorem taken_conn_stamped {as : List Action} (stamped : ∀ a ∈ as, a.stamped = true)
    {c : BufferedConn}
    (member : c ∈ (connLedger as).taken) : c.tsMs ≠ 0 := by
  have written : c ∈ writtenConns as := by
    rw [← connLedger_written]
    exact List.mem_append_left _ member
  obtain ⟨a, here, made⟩ := List.mem_filterMap.mp written
  have set := stamped a here
  cases a <;> cases made
  simpa [Action.stamped] using set

theorem taken_res_stamped {as : List Action} (stamped : ∀ a ∈ as, a.stamped = true)
    {r : ResourceSnapshot} (member : r ∈ (resLedger as).taken) : r.timestampMs ≠ 0 := by
  have written : r ∈ writtenRess as := by
    rw [← resLedger_written]
    exact List.mem_append_left _ member
  obtain ⟨a, here, made⟩ := List.mem_filterMap.mp written
  have set := stamped a here
  cases a <;> cases made
  simpa [Action.stamped] using set

/-- In every state of every run whose writes are harmless and whose calls succeed, both
    halves of the store hold each snapshot exactly once, as its own row. -/
theorem snapshots_inserted_exactly_once {rt : Runtime} {connTable : List ConnRow}
    {resTable : List ResRow} {as : List Action} {s : Store} {out : List Committed}
    (run : exec (restrict Harmless (step rt)) (.new connTable resTable) as = some (s, out))
    (stamped : ∀ a ∈ as, a.stamped = true)
    (transacts : ∀ a ∈ as, a.transacts = true) (inserts : ∀ a ∈ as, a.inserts = true) :
    ExactlyOnce ownConnRow s.connBuf s.connDrain (committedConns out) (connLedger as) ∧
      ExactlyOnce ownResRow s.resBuf s.resDrain (committedRess out) (resLedger as) := by
  have accounts := accounts_run run transacts inserts
  constructor
  · apply exactlyOnce_of_accounted accounts.conns
    intro c member row carried
    exact own_of_carriesConn (taken_conn_stamped stamped member) carried
  · apply exactlyOnce_of_accounted accounts.ress
    intro r member row carried
    exact own_of_carriesRes (taken_res_stamped stamped member) carried

def doubling : Runtime where
  connGrowth := ⟨fun cap => 2 * cap + 1, by intro cap; omega⟩
  resGrowth := ⟨fun cap => 2 * cap + 1, by intro cap; omega⟩

def latencySnapshot (p50Us : Nat) : StatSnapshot := { zeroSnapshot with p50Us := p50Us }

def wholeFlush (now : Int) : List Action :=
  [.begin true now, .prepareConn true, .insertConn true, .prepareRes true, .commit true]

/- The second write comes after the loop has read the only row of the batch. -/
def writeAfterRead : List Action :=
  [.writeConn (latencySnapshot 100) 1000, .take, .begin true 5000, .prepareConn true,
    .insertConn true, .writeConn (latencySnapshot 200) 2000, .prepareRes true, .commit true]

theorem write_after_read_inserted_once :
    ∃ s out, exec (restrict Harmless (step doubling)) (.new [] []) writeAfterRead =
        some (s, out) ∧
      ExactlyOnce ownConnRow s.connBuf s.connDrain (committedConns out)
        (connLedger writeAfterRead) ∧
      ExactlyOnce ownResRow s.resBuf s.resDrain (committedRess out)
        (resLedger writeAfterRead) :=
  ⟨_, _, rfl, @snapshots_inserted_exactly_once doubling [] [] writeAfterRead _ _ rfl
    (by decide) (by decide) (by decide)⟩

/- The second write comes between the take and the read, and lands on the first row. -/
def writeBeforeRead : List Action :=
  [.writeConn (latencySnapshot 100) 1000, .take, .begin true 5000, .prepareConn true,
    .writeConn (latencySnapshot 200) 2000, .insertConn true, .prepareRes true, .commit true,
    .take] ++ wholeFlush 65000

theorem write_before_read_replaces_row :
    (∀ a ∈ writeBeforeRead, a.stamped = true ∧ a.transacts = true ∧ a.inserts = true) ∧
    writtenConns writeBeforeRead = [⟨latencySnapshot 100, 1000⟩, ⟨latencySnapshot 200, 2000⟩] ∧
    ∃ s out, exec (step doubling) (.new [] []) writeBeforeRead = some (s, out) ∧
      s.flush.isNone = true ∧
      committedConns out =
        [ownConnRow ⟨latencySnapshot 200, 2000⟩, ownConnRow ⟨latencySnapshot 200, 2000⟩] ∧
      ¬ ExactlyOnce ownConnRow s.connBuf s.connDrain (committedConns out)
        (connLedger writeBeforeRead) := by
  refine ⟨by decide, by decide, _, _, rfl, rfl, rfl, ?_⟩
  intro once
  exact absurd once.1 (by decide)

end CollectorStore
