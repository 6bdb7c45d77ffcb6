import MicroTrace.Collector.Processor
import MicroTrace.Store.Durability

/- The collector from start to exit (main.go, startCollector): the Run loop of the Processor
   and the ForwardResource goroutine, each with the calls it still has to make, the Run loop
   of the store, and main. Only the store is awaited when the process stops. -/
namespace CollectorMain
open CollectorModel Runs
open CollectorStats (Machine Input Emission)
open CollectorStore (Store Action Committed Runtime)

inductive MainPhase where
  | serving
  | cancelled
  | doneClosed
  | dbClosed
  deriving DecidableEq

/- The store loop selects while no flush is under way. Once it has seen `done` it is
   stopping, and it returns when the flush it then makes is over. -/
structure System where
  proc : Machine
  runCalls : List Emission
  resCalls : List Emission
  resOpen : Bool
  store : Store
  stopping : Bool
  main : MainPhase

def System.start (clock : Time) (store : Store) : System :=
  ⟨.start true clock, [], [], true, store, false, .serving⟩

inductive Label where
  | input (i : Input)
  | runCall (now : Int)
  | resCall (now : Int)
  | resClosed
  | flushTick
  | ttlTick (now : Time) (connOk resOk : Bool)
  | database (a : Action)
  | doneSeen
  | cancel
  | closeDone
  | closeDb
  deriving DecidableEq

structure StoreCall where
  action : Action
  rows : List Committed

def Emission.storeAction (now : Int) : Emission → Option Action
  | .storeConn snap => some (.writeConn snap now)
  | .storeResource res => some (.writeResource res)
  | _ => none

def Action.calls : Action → Bool
  | .begin _ _ => true
  | .prepareConn _ => true
  | .insertConn _ => true
  | .prepareRes _ => true
  | .insertRes _ => true
  | .commit _ => true
  | _ => false

def System.perform (rt : Runtime) (s : System) (a : Action) : Option (System × List StoreCall) :=
  (CollectorStore.step rt s.store a).map fun r => ({ s with store := r.1 }, [⟨a, r.2⟩])

def System.makeCall (rt : Runtime) (s : System) (now : Int) (call : Emission) :
    Option (System × List StoreCall) :=
  match Emission.storeAction now call with
  | none => some (s, [])
  | some a => s.perform rt a

/- The broadcast that handleEvent makes before it takes the lock does not reach the store, so
   here an event is one step. -/
def System.accept (s : System) : Input → Option System
  | .resource res =>
      if s.resOpen ∧ s.resCalls.isEmpty then
        (CollectorStats.step s.proc (.resource res)).map fun r =>
          { s with proc := r.1, resCalls := r.2 }
      else none
  | i =>
      if s.runCalls.isEmpty then
        (CollectorStats.step s.proc i).map fun r => { s with proc := r.1, runCalls := r.2 }
      else none

def step (rt : Runtime) : Stepper System Label StoreCall
  | s, .input i => (s.accept i).map fun t => (t, [])
  | s, .runCall now => match s.runCalls with
      | [] => none
      | call :: rest => { s with runCalls := rest }.makeCall rt now call
  | s, .resCall now => match s.resCalls with
      | [] => none
      | call :: rest => { s with resCalls := rest }.makeCall rt now call
  | s, .resClosed => some ({ s with resOpen := false }, [])
  | s, .flushTick => if s.stopping then none else s.perform rt .take
  | s, .ttlTick now connOk resOk =>
      if s.stopping then none else s.perform rt (.deleteExpired now connOk resOk)
  | s, .database a => if Action.calls a then s.perform rt a else none
  | s, .doneSeen =>
      if s.main = .doneClosed ∧ s.stopping = false then
        { s with stopping := true }.perform rt .take
      else none
  | s, .cancel => if s.main = .serving then some ({ s with main := .cancelled }, []) else none
  | s, .closeDone =>
      if s.main = .cancelled then some ({ s with main := .doneClosed }, []) else none
  | s, .closeDb =>
      if s.main = .doneClosed ∧ s.stopping ∧ s.store.flush.isNone then
        some ({ s with main := .dbClosed }, [])
      else none

def storeOp (s : System) : Label → Option Action
  | .runCall now => s.runCalls.head?.bind (Emission.storeAction now)
  | .resCall now => s.resCalls.head?.bind (Emission.storeAction now)
  | .flushTick => some .take
  | .ttlTick now connOk resOk => some (.deleteExpired now connOk resOk)
  | .database a => some a
  | .doneSeen => some .take
  | _ => none

/-- A write comes before the final flush has taken the buffers, and it does not land on a
    cell that a flush has yet to read. -/
def Orderly (s : System) (l : Label) : Prop :=
  ∀ a ∈ storeOp s l, CollectorStore.Harmless s.store a ∧ (a.writes = true → s.stopping = false)

instance (s : System) (l : Label) : Decidable (Orderly s l) :=
  inferInstanceAs (Decidable (∀ a ∈ storeOp s l, _))

def Label.succeeds : Label → Bool
  | .database a => a.transacts && a.inserts
  | _ => true

section Steps

variable {rt : Runtime} {s t : System} {l : Label} {a : Action} {o : List StoreCall}

theorem perform_some (performed : s.perform rt a = some (t, o)) :
    ∃ st rows, CollectorStore.step rt s.store a = some (st, rows) ∧
      t = { s with store := st } ∧ o = [⟨a, rows⟩] := by
  simp only [System.perform, Option.map_eq_some_iff, Prod.mk.injEq] at performed
  obtain ⟨⟨st, rows⟩, taken, state, calls⟩ := performed
  exact ⟨st, rows, taken, state.symm, calls.symm⟩

theorem makeCall_some {now : Int} {call : Emission} (made : s.makeCall rt now call = some (t, o)) :
    (Emission.storeAction now call = none ∧ t = s ∧ o = []) ∨
    (∃ a, Emission.storeAction now call = some a ∧ s.perform rt a = some (t, o)) := by
  unfold System.makeCall at made
  cases performed : Emission.storeAction now call with
  | none =>
    simp only [performed, Option.some.injEq, Prod.mk.injEq] at made
    exact .inl ⟨rfl, made.1.symm, made.2.symm⟩
  | some a =>
    simp only [performed] at made
    exact .inr ⟨a, rfl, made⟩

theorem accept_keeps {i : Input} (accepted : s.accept i = some t) :
    t.store = s.store ∧ t.stopping = s.stopping := by
  cases i <;> simp only [System.accept, Option.ite_none_right_eq_some, Option.map_eq_some_iff]
    at accepted <;> obtain ⟨_, r, _, rfl⟩ := accepted <;> exact ⟨rfl, rfl⟩

theorem storeAction_writes {now : Int} {call : Emission}
    (made : Emission.storeAction now call = some a) : a.writes = true := by
  cases call <;> cases made <;> rfl

/-- A step leaves the store alone or performs one operation on it. A store loop that is
    stopping takes no more batches, and it starts to stop by taking one. -/
inductive Effect (rt : Runtime) (s t : System) (op : Option Action) (o : List StoreCall) : Prop
  | quiet (store : t.store = s.store) (stop : t.stopping = s.stopping) (silent : o = [])
  | acts (a : Action) (rows : List Committed) (performs : op = some a)
      (taken : CollectorStore.step rt s.store a = some (t.store, rows)) (logged : o = [⟨a, rows⟩])
      (stays : s.stopping = true → t.stopping = true ∧ (a.writes = true ∨ Action.calls a = true))
      (stops : s.stopping = false → t.stopping = true → a = .take)

theorem makeCall_effect {r : System} {now : Int} {call : Emission}
    (made : r.makeCall rt now call = some (t, o)) (store : r.store = s.store)
    (stop : r.stopping = s.stopping) :
    Effect rt s t (Emission.storeAction now call) o := by
  rcases makeCall_some made with ⟨_, rfl, rfl⟩ | ⟨a, performs, performed⟩
  · exact .quiet store stop rfl
  · obtain ⟨st, rows, done, rfl, rfl⟩ := perform_some performed
    rw [store] at done
    refine .acts a rows performs done rfl ?_ ?_
    · intro stopping
      exact ⟨stop.trans stopping, .inl (storeAction_writes performs)⟩
    · intro going stopping
      exact absurd (going.symm.trans (stop.symm.trans stopping)) Bool.false_ne_true

theorem step_effect (taken : step rt s l = some (t, o)) : Effect rt s t (storeOp s l) o := by
  cases l with
  | input i =>
    simp only [step, Option.map_eq_some_iff, Prod.mk.injEq] at taken
    obtain ⟨r, accepted, rfl, rfl⟩ := taken
    obtain ⟨sameStore, sameStop⟩ := accept_keeps accepted
    exact .quiet sameStore sameStop rfl
  | runCall now =>
    cases calls : s.runCalls with
    | nil => simp [step, calls] at taken
    | cons call rest =>
      have op : storeOp s (.runCall now) = Emission.storeAction now call := by
        simp [storeOp, calls]
      simp only [step, calls] at taken
      rw [op]
      exact makeCall_effect taken rfl rfl
  | resCall now =>
    cases calls : s.resCalls with
    | nil => simp [step, calls] at taken
    | cons call rest =>
      have op : storeOp s (.resCall now) = Emission.storeAction now call := by
        simp [storeOp, calls]
      simp only [step, calls] at taken
      rw [op]
      exact makeCall_effect taken rfl rfl
  | resClosed =>
    cases taken
    exact .quiet rfl rfl rfl
  | flushTick =>
    simp only [step, Option.ite_none_left_eq_some] at taken
    obtain ⟨going, performed⟩ := taken
    obtain ⟨st, rows, done, rfl, rfl⟩ := perform_some performed
    exact .acts .take rows rfl done rfl (fun stop => absurd stop going) (fun _ _ => rfl)
  | ttlTick now connOk resOk =>
    simp only [step, Option.ite_none_left_eq_some] at taken
    obtain ⟨going, performed⟩ := taken
    obtain ⟨st, rows, done, rfl, rfl⟩ := perform_some performed
    exact .acts _ rows rfl done rfl (fun stop => absurd stop going)
      (fun _ stop => absurd stop going)
  | database a =>
    simp only [step, Option.ite_none_right_eq_some] at taken
    obtain ⟨isCall, performed⟩ := taken
    obtain ⟨st, rows, done, rfl, rfl⟩ := perform_some performed
    refine .acts a rows rfl done rfl (fun stop => ⟨stop, .inr isCall⟩) ?_
    intro before after
    exact absurd (before.symm.trans after) Bool.false_ne_true
  | doneSeen =>
    simp only [step, Option.ite_none_right_eq_some] at taken
    obtain ⟨⟨_, going⟩, performed⟩ := taken
    obtain ⟨st, rows, done, rfl, rfl⟩ := perform_some performed
    refine .acts .take rows rfl done rfl ?_ (fun _ _ => rfl)
    intro stop
    exact absurd (going.symm.trans stop) Bool.false_ne_true
  | cancel =>
    simp only [step, Option.ite_none_right_eq_some] at taken
    cases taken.2
    exact .quiet rfl rfl rfl
  | closeDone =>
    simp only [step, Option.ite_none_right_eq_some] at taken
    cases taken.2
    exact .quiet rfl rfl rfl
  | closeDb =>
    simp only [step, Option.ite_none_right_eq_some] at taken
    cases taken.2
    exact .quiet rfl rfl rfl

theorem storeOp_succeeds (op : storeOp s l = some a) (ok : l.succeeds = true) :
    a.transacts = true ∧ a.inserts = true := by
  have written : a.writes = true → a.transacts = true ∧ a.inserts = true := by
    intro writes
    cases a <;> first | exact ⟨rfl, rfl⟩ | cases writes
  cases l with
  | input i => cases op
  | runCall now =>
    obtain ⟨call, _, made⟩ := Option.bind_eq_some_iff.mp op
    exact written (storeAction_writes made)
  | resCall now =>
    obtain ⟨call, _, made⟩ := Option.bind_eq_some_iff.mp op
    exact written (storeAction_writes made)
  | database b =>
    cases op
    simpa [Label.succeeds] using ok
  | flushTick =>
    cases op
    exact ⟨rfl, rfl⟩
  | ttlTick now connOk resOk =>
    cases op
    exact ⟨rfl, rfl⟩
  | doneSeen =>
    cases op
    exact ⟨rfl, rfl⟩
  | resClosed => cases op
  | cancel => cases op
  | closeDone => cases op
  | closeDb => cases op

end Steps

def actions (out : List StoreCall) : List Action := out.map (·.action)

def durable (out : List StoreCall) : List Committed := out.flatMap (·.rows)

theorem actions_snoc (out : List StoreCall) (a : Action) (rows : List Committed) :
    actions (out ++ [⟨a, rows⟩]) = actions out ++ [a] := by
  simp [actions]

theorem durable_snoc (out : List StoreCall) (a : Action) (rows : List Committed) :
    durable (out ++ [⟨a, rows⟩]) = durable out ++ rows := by
  simp [durable]

structure Sound (s : System) (out : List StoreCall) : Prop where
  accounts : CollectorStore.Accounts (actions out) s.store (durable out)
  finished : s.stopping = true → (CollectorStore.connLedger (actions out)).pending = [] ∧
    (CollectorStore.resLedger (actions out)).pending = []

theorem sound_step {rt : Runtime} {s t : System} {l : Label} {out o : List StoreCall}
    (before : Sound s out) (orderly : Orderly s l) (ok : l.succeeds = true)
    (taken : step rt s l = some (t, o)) : Sound t (out ++ o) := by
  cases step_effect taken with
  | quiet store stop silent =>
    subst silent
    rw [List.append_nil]
    exact ⟨store ▸ before.accounts, fun stopping => before.finished (stop ▸ stopping)⟩
  | acts a rows performs done logged stays stops =>
    subst logged
    obtain ⟨apart, early⟩ := orderly a performs
    obtain ⟨transacts, inserts⟩ := storeOp_succeeds performs ok
    constructor
    · rw [actions_snoc, durable_snoc]
      exact CollectorStore.accounts_step before.accounts apart transacts inserts done
    · intro stopping
      rw [actions_snoc, CollectorStore.connLedger_snoc, CollectorStore.resLedger_snoc]
      cases was : s.stopping with
      | false =>
        rw [stops was stopping]
        exact ⟨rfl, rfl⟩
      | true =>
        obtain ⟨conns, ress⟩ := before.finished was
        rcases (stays was).2 with writes | calls
        · exact absurd ((early writes).symm.trans was) Bool.false_ne_true
        · cases a <;> first | exact ⟨conns, ress⟩ | cases calls

def Returned (s : System) : Prop := s.stopping = true ∧ s.store.flush.isNone = true

theorem returned_step {rt : Runtime} {s t : System} {l : Label} {o : List StoreCall}
    (ended : Returned s) (taken : restrict Orderly (step rt) s l = some (t, o)) :
    Returned t ∧ o = [] := by
  obtain ⟨orderly, taken⟩ := restrict_iff.mp taken
  cases step_effect taken with
  | quiet store stop silent => exact ⟨⟨stop.trans ended.1, store ▸ ended.2⟩, silent⟩
  | acts a rows performs done logged stays stops =>
    have idle : s.store.flush = none := Option.isNone_iff_eq_none.mp ended.2
    rcases (stays ended.1).2 with writes | calls
    · have early := (orderly a performs).2 writes
      rw [ended.1] at early
      cases early
    · rcases CollectorStore.step_cases done with ⟨_, _, rfl, _⟩ | ⟨_, rfl, _⟩ | ⟨rfl, _⟩ |
        ⟨_, _, _, rfl, _⟩ | ⟨f, under, _⟩
      · cases calls
      · cases calls
      · cases calls
      · cases calls
      · rw [idle] at under
        cases under

theorem returned_run {rt : Runtime} {s t : System} {ls : List Label} {out : List StoreCall}
    (ended : Returned s) (run : exec (restrict Orderly (step rt)) s ls = some (t, out)) :
    out = [] := by
  induction ls generalizing s out with
  | nil => exact (exec_nil_iff.mp run).2
  | cons l ls ih =>
    obtain ⟨u, o, o', first, rest, rfl⟩ := exec_cons_iff.mp run
    obtain ⟨still, rfl⟩ := returned_step ended first
    exact ih still rest

theorem sound_run {rt : Runtime} {clock : Time} {connTable : List CollectorStore.ConnRow}
    {resTable : List CollectorStore.ResRow} {ls : List Label} {s : System} {out : List StoreCall}
    (run : exec (restrict Orderly (step rt)) (.start clock (.new connTable resTable)) ls =
      some (s, out))
    (ok : ∀ l ∈ ls, l.succeeds = true) : Sound s out := by
  have general := @exec_history System Label StoreCall (restrict Orderly (step rt))
    (fun ls s out => (∀ l ∈ ls, l.succeeds = true) → Sound s out)
    (.start clock (.new connTable resTable)) ?_ ?_ ls s out run
  · exact general ok
  · intro _
    refine ⟨CollectorStore.accounts_new connTable resTable, ?_⟩
    intro stopping
    cases stopping
  · intro ls s t l out o _ before taken ok
    obtain ⟨orderly, taken⟩ := restrict_iff.mp taken
    exact sound_step (before fun k member => ok k (by simp [member])) orderly
      (ok l (by simp)) taken

/-- Every snapshot handed to the store before the process ends is a row that was committed
    before the database is closed. -/
theorem shutdown_commits_every_snapshot {rt : Runtime} {clock : Time}
    {connTable : List CollectorStore.ConnRow} {resTable : List CollectorStore.ResRow}
    {before after : List Label} {s : System} {out : List StoreCall}
    (run : exec (restrict Orderly (step rt)) (.start clock (.new connTable resTable))
      (before ++ .closeDb :: after) = some (s, out))
    (ok : ∀ l ∈ before, l.succeeds = true) :
    ∃ u first, exec (restrict Orderly (step rt)) (.start clock (.new connTable resTable)) before =
        some (u, first) ∧
      List.Forall₂ CollectorStore.CarriesConn (CollectorStore.writtenConns (actions out))
        (CollectorStore.committedConns (durable first)) ∧
      List.Forall₂ CollectorStore.CarriesRes (CollectorStore.writtenRess (actions out))
        (CollectorStore.committedRess (durable first)) := by
  obtain ⟨u, first, later, lead, rest, rfl⟩ := exec_append_iff.mp run
  obtain ⟨v, o, o', close, trail, rfl⟩ := exec_cons_iff.mp rest
  have closing := (restrict_iff.mp close).2
  simp only [step, Option.ite_none_right_eq_some, Option.some.injEq, Prod.mk.injEq] at closing
  obtain ⟨⟨_, stopping, idle⟩, rfl, rfl⟩ := closing
  have ended : Returned { u with main := .dbClosed } := ⟨stopping, idle⟩
  have silent : o' = [] := returned_run ended trail
  subst silent
  have sound := sound_run lead ok
  have flushed : u.store.flush = none := Option.isNone_iff_eq_none.mp idle
  obtain ⟨⟨conns, connSplit, connRows⟩, ress, resSplit, resRows⟩ :=
    CollectorStore.nothingLost_of_accounts sound.accounts flushed
  obtain ⟨noConn, noRes⟩ := sound.finished stopping
  rw [sound.accounts.conns.pending, noConn, List.append_nil] at connSplit
  rw [sound.accounts.ress.pending, noRes, List.append_nil] at resSplit
  refine ⟨u, first, lead, ?_, ?_⟩
  · simpa [connSplit] using connRows
  · simpa [resSplit] using resRows

def firstEvent : Label :=
  .input (.event ⟨"b", "a", true, true⟩ 1 ⟨.connect, 40001, "", "10.0.0.1", "10.0.0.2", 80, 250, 0⟩)

def finalPublish : List Label := [.input (.closed 2 [⟨"a", "b"⟩]), .runCall 1700, .runCall 1700]

def finalFlush : List Label := .doneSeen :: (CollectorStore.wholeFlush 1800).map Label.database

def publishThenFlush : List Label :=
  firstEvent :: .runCall 1600 :: .cancel :: finalPublish ++ .closeDone :: finalFlush

theorem publish_before_final_flush_is_committed :
    ∃ s out, exec (restrict Orderly (step CollectorStore.doubling)) (.start 0 (.new [] []))
        (publishThenFlush ++ [.closeDb]) = some (s, out) ∧
      (CollectorStore.writtenConns (actions out)).length = 1 ∧
      ∃ u first, exec (restrict Orderly (step CollectorStore.doubling)) (.start 0 (.new [] []))
          publishThenFlush = some (u, first) ∧
        List.Forall₂ CollectorStore.CarriesConn (CollectorStore.writtenConns (actions out))
          (CollectorStore.committedConns (durable first)) ∧
        List.Forall₂ CollectorStore.CarriesRes (CollectorStore.writtenRess (actions out))
          (CollectorStore.committedRess (durable first)) :=
  ⟨_, _, rfl, rfl, @shutdown_commits_every_snapshot CollectorStore.doubling 0 [] []
    publishThenFlush [] _ _ rfl (by decide)⟩

def flushThenPublish : List Label :=
  firstEvent :: .runCall 1600 :: .cancel :: .closeDone :: .doneSeen :: finalPublish ++ [.closeDb]

theorem publish_after_final_flush_is_lost :
    (∀ l ∈ flushThenPublish, l.succeeds = true) ∧
    ∃ s out, exec (step CollectorStore.doubling) (.start 0 (.new [] [])) flushThenPublish =
        some (s, out) ∧
      s.main = .dbClosed ∧ s.proc.running = false ∧
      (CollectorStore.writtenConns (actions out)).length = 1 ∧ durable out = [] ∧
      ¬ List.Forall₂ CollectorStore.CarriesConn (CollectorStore.writtenConns (actions out))
        (CollectorStore.committedConns (durable out)) := by
  refine ⟨by decide, _, _, rfl, rfl, rfl, rfl, rfl, ?_⟩
  intro carried
  exact absurd carried.length_eq (by decide)

end CollectorMain
