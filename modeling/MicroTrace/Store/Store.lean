import MicroTrace.Library.Runs
import MicroTrace.Library.Slices
import MicroTrace.Collector.Model

/- The SQLite store (store/store.go) as a machine. The writers append to the two buffers
   under the mutex; flush takes both headers under the mutex and then works on its own, one
   database call at a time, so that a write may fall between any two of its steps. A row is
   the argument list of one INSERT. The database answers every call with success or with an
   error, and a transaction that is not committed leaves the tables as they were. -/
namespace CollectorStore
open CollectorModel Runs Slices

def retentionDays : Int := 7

structure BufferedConn where
  snap : StatSnapshot
  tsMs : Int
  deriving DecidableEq

structure ConnRow where
  ts : Int
  src : String
  dst : String
  p50Us : Nat
  p95Us : Nat
  p99Us : Nat
  avgUs : Nat
  jitterUs : Nat
  retransmit : UInt32
  isSpike : Nat
  causeKind : CauseKind
  causeSignal : CauseSignal
  deriving DecidableEq

structure ResRow where
  ts : Int
  service : String
  cpuPct : Float64
  cpuThrottlePct : Float64
  memBytes : UInt64
  memPressurePct : Float64
  ioWaitPct : Float64
  oomKillCount : UInt64
  deriving DecidableEq

/- A zero timestamp stands for one that was never set. -/
def stamped (fallback tsMs : Int) : Int := if tsMs = 0 then fallback else tsMs

def connRow (fallback : Int) (c : BufferedConn) : ConnRow where
  ts := stamped fallback c.tsMs
  src := c.snap.srcService
  dst := c.snap.dstService
  p50Us := c.snap.p50Us
  p95Us := c.snap.p95Us
  p99Us := c.snap.p99Us
  avgUs := c.snap.avgUs
  jitterUs := c.snap.jitterUs
  retransmit := c.snap.retransmitCount
  isSpike := if c.snap.isSpike then 1 else 0
  causeKind := c.snap.causeKind
  causeSignal := c.snap.causeSignal

def resRow (fallback : Int) (r : ResourceSnapshot) : ResRow where
  ts := stamped fallback r.timestampMs
  service := r.serviceName
  cpuPct := r.cpuPct
  cpuThrottlePct := r.cpuThrottlePct
  memBytes := r.memCurrentBytes
  memPressurePct := r.memPressurePct
  ioWaitPct := r.ioWaitPct
  oomKillCount := r.oomKillCount

/-- One insert loop of a flush: the header it ranges over, the position the range has
    reached and the rows its transaction has executed. -/
structure Drain (β : Type) where
  batch : Slice
  next : Nat
  rows : List β

def Drain.over {β : Type} (batch : Slice) : Drain β := ⟨batch, 0, []⟩

/- The range reads its element when it gets there; a failed INSERT is logged and skipped. -/
def Drain.insert {α β : Type} (row : α → β) (h : Heap α) (ok : Bool) (d : Drain β) : Drain β where
  batch := d.batch
  next := d.next + 1
  rows := if ok then d.rows ++ [row (h.cells d.batch.array d.next)] else d.rows

inductive Stage where
  | begin
  | prepareConn
  | insertConns
  | insertRess
  deriving DecidableEq

/- The fallback clock is read once the transaction has begun. -/
structure Flush where
  stage : Stage
  fallback : Int
  conns : Drain ConnRow
  ress : Drain ResRow

structure Store where
  connBuf : Buffer BufferedConn
  resBuf : Buffer ResourceSnapshot
  flush : Option Flush
  connTable : List ConnRow
  resTable : List ResRow

def zeroSnapshot : StatSnapshot where
  srcService := ""
  dstService := ""
  srcType := .unset
  dstType := .unset
  latestSRTTUs := 0
  avgUs := 0
  p50Us := 0
  p95Us := 0
  p99Us := 0
  jitterUs := 0
  retransmitCount := 0
  sampleCount := 0
  isSpike := false
  spikeThresholdUs := 0
  causeKind := .empty
  causeSignal := .empty
  dstCPUPct := .finite 0
  dstCPUThrottlePct := .finite 0
  dstMemPressurePct := .finite 0
  dstIOWaitPct := .finite 0

def zeroResource : ResourceSnapshot where
  serviceName := ""
  timestampMs := 0
  cpuPct := .finite 0
  cpuThrottlePct := .finite 0
  memCurrentBytes := 0
  memLimitBytes := 0
  memPressurePct := .finite 0
  ioReadBytesPerS := 0
  ioWriteBytesPerS := 0
  ioWaitPct := .finite 0
  oomKillCount := 0
  psiMemSomePct := .finite 0
  psiMemFullPct := .finite 0

/- The tables may already hold rows of an earlier process. -/
def Store.new (connTable : List ConnRow) (resTable : List ResRow) : Store where
  connBuf := .make ⟨zeroSnapshot, 0⟩ 120
  resBuf := .make zeroResource 120
  flush := none
  connTable := connTable
  resTable := resTable

/-- How the runtime grows the backing array of either buffer. -/
structure Runtime where
  connGrowth : Growth
  resGrowth : Growth

inductive Action where
  | writeConn (snap : StatSnapshot) (now : Int)
  | writeResource (snap : ResourceSnapshot)
  | take
  | begin (ok : Bool) (now : Int)
  | prepareConn (ok : Bool)
  | insertConn (ok : Bool)
  | prepareRes (ok : Bool)
  | insertRes (ok : Bool)
  | commit (ok : Bool)
  | deleteExpired (now : Time) (connOk resOk : Bool)
  deriving DecidableEq

inductive Committed where
  | conn (row : ConnRow)
  | res (row : ResRow)
  deriving DecidableEq

def Store.writeConn (rt : Runtime) (snap : StatSnapshot) (now : Int) (s : Store) : Store :=
  { s with connBuf := s.connBuf.append rt.connGrowth ⟨snap, now⟩ }

def Store.writeResource (rt : Runtime) (snap : ResourceSnapshot) (s : Store) : Store :=
  { s with resBuf := s.resBuf.append rt.resGrowth snap }

/-- The locked section of flush and the test for an empty batch. -/
def Store.take (s : Store) : Store :=
  { s with
    connBuf := s.connBuf.reset
    resBuf := s.resBuf.reset
    flush := if s.connBuf.live.len = 0 ∧ s.resBuf.live.len = 0 then none
      else some ⟨.begin, 0, .over s.connBuf.live, .over s.resBuf.live⟩ }

def Store.proceed (s : Store) (f : Flush) : Store := { s with flush := some f }

def Store.rollback (s : Store) : Store := { s with flush := none }

def Store.commit (s : Store) (f : Flush) : Store :=
  { s with
    flush := none
    connTable := s.connTable ++ f.conns.rows
    resTable := s.resTable ++ f.ress.rows }

def Store.deleteExpired (now : Time) (connOk resOk : Bool) (s : Store) : Store :=
  let cutoff := unixMilli (now - retentionDays * 24 * 3600 * 1000000000)
  { s with
    connTable := if connOk then s.connTable.filter (fun r => !decide (r.ts < cutoff))
      else s.connTable
    resTable := if resOk then s.resTable.filter (fun r => !decide (r.ts < cutoff))
      else s.resTable }

def Flush.committed (f : Flush) : List Committed :=
  f.conns.rows.map Committed.conn ++ f.ress.rows.map Committed.res

def Flush.atCall (f : Flush) : Action → Prop
  | .begin _ _ => f.stage = .begin
  | .prepareConn _ => f.stage = .prepareConn
  | .insertConn _ => f.stage = .insertConns ∧ f.conns.next < f.conns.batch.len
  | .prepareRes _ => f.stage = .insertConns ∧ ¬ f.conns.next < f.conns.batch.len
  | .insertRes _ => f.stage = .insertRess ∧ f.ress.next < f.ress.batch.len
  | .commit _ => f.stage = .insertRess ∧ ¬ f.ress.next < f.ress.batch.len
  | _ => False

instance (f : Flush) : (a : Action) → Decidable (f.atCall a)
  | .begin _ _ => inferInstanceAs (Decidable (_ = _))
  | .prepareConn _ => inferInstanceAs (Decidable (_ = _))
  | .insertConn _ => inferInstanceAs (Decidable (_ ∧ _))
  | .prepareRes _ => inferInstanceAs (Decidable (_ ∧ _))
  | .insertRes _ => inferInstanceAs (Decidable (_ ∧ _))
  | .commit _ => inferInstanceAs (Decidable (_ ∧ _))
  | .writeConn _ _ => inferInstanceAs (Decidable False)
  | .writeResource _ => inferInstanceAs (Decidable False)
  | .take => inferInstanceAs (Decidable False)
  | .deleteExpired _ _ _ => inferInstanceAs (Decidable False)

def Store.call (s : Store) (f : Flush) : Action → Store × List Committed
  | .begin true now => (s.proceed { f with stage := .prepareConn, fallback := now }, [])
  | .prepareConn true => (s.proceed { f with stage := .insertConns }, [])
  | .insertConn ok =>
      (s.proceed { f with conns := f.conns.insert (connRow f.fallback) s.connBuf.heap ok }, [])
  | .prepareRes true => (s.proceed { f with stage := .insertRess }, [])
  | .insertRes ok =>
      (s.proceed { f with ress := f.ress.insert (resRow f.fallback) s.resBuf.heap ok }, [])
  | .commit true => (s.commit f, f.committed)
  | _ => (s.rollback, [])

def step (rt : Runtime) : Stepper Store Action Committed
  | s, .writeConn snap now => some (s.writeConn rt snap now, [])
  | s, .writeResource snap => some (s.writeResource rt snap, [])
  | s, .take => match s.flush with
      | none => some (s.take, [])
      | some _ => none
  | s, .deleteExpired now connOk resOk => match s.flush with
      | none => some (s.deleteExpired now connOk resOk, [])
      | some _ => none
  | s, a => match s.flush with
      | none => none
      | some f => if f.atCall a then some (s.call f a) else none

end CollectorStore
