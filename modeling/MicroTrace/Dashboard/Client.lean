import MicroTrace.Library.Lives
import MicroTrace.Collector.Processor

/- The dashboard's hook (useWebSocket.ts) as a reducer. A message arrives as JSON, so an
   integer becomes a JavaScript number; a field that the collector omits because it is zero
   is read back as zero. -/
namespace Dashboard
open CollectorModel CollectorStats RangeLoops Lives

def maxHistory : Nat := 3600
def maxEvents : Nat := 100
def maxServiceHistory : Nat := 300

abbrev Record (V : Type) := GoMap String V

/- The double nearest to an integer, ties to even. -/
def jsNat (n : Nat) : Nat :=
  if n < 2 ^ 53 then n
  else
    let ulp := 2 ^ (n.log2 - 52)
    let rest := n % ulp
    let up := ulp < 2 * rest ∨ ulp = 2 * rest ∧ n / ulp % 2 = 1
    (n / ulp + if up then 1 else 0) * ulp

def jsInt (n : Int) : Int := if n < 0 then -(jsNat n.natAbs : Int) else jsNat n.natAbs

def decodeStats (s : StatSnapshot) : StatSnapshot :=
  { s with
    latestSRTTUs := jsNat s.latestSRTTUs
    avgUs := jsNat s.avgUs
    p50Us := jsNat s.p50Us
    p95Us := jsNat s.p95Us
    p99Us := jsNat s.p99Us
    jitterUs := jsNat s.jitterUs
    sampleCount := jsNat s.sampleCount
    spikeThresholdUs := jsNat s.spikeThresholdUs }

def decodePoint (p : HistoryPoint) : HistoryPoint where
  time := jsInt p.time
  latestSRTTUs := jsNat p.latestSRTTUs
  avgUs := jsNat p.avgUs
  p50Us := jsNat p.p50Us
  p95Us := jsNat p.p95Us
  p99Us := jsNat p.p99Us
  jitterUs := jsNat p.jitterUs

structure ResourcePoint where
  time : Int
  cpuPct : Float64
  ioWaitPct : Float64
  memPressurePct : Float64
  cpuThrottlePct : Float64
  deriving DecidableEq

inductive StressKind where
  | cpu
  | io
  | memory
  deriving DecidableEq

structure ServiceSnapshot where
  name : String
  cpuPct : Float64
  ioWaitPct : Float64
  memPressurePct : Float64
  cpuThrottlePct : Float64
  stressKind : Option StressKind
  history : List ResourcePoint
  deriving DecidableEq

inductive Severity where
  | warning
  | critical
  deriving DecidableEq

/- The collector sends no baseline of its own, so the hook divides the threshold. -/
structure SpikeEvent where
  id : String
  timestamp : Int
  key : String
  src : String
  dst : String
  p99Us : Nat
  baselineUs : Rat
  severity : Severity
  causeKind : CauseKind
  dstCpuPct : Float64
  dstIoWaitPct : Float64
  dstMemPressurePct : Float64
  deriving DecidableEq

structure Client where
  snapshots : Record StatSnapshot
  services : Record ServiceSnapshot
  history : Record (List HistoryPoint)
  events : List SpikeEvent
  connected : Bool

def Client.opened : Client := ⟨∅, ∅, ∅, [], false⟩

/-- The readings of Date.now() while one message is handled. -/
structure Clock where
  id : Int
  timestamp : Int
  point : Int
  deriving DecidableEq

def snapshotKey (s : StatSnapshot) : String := s.srcService ++ "→" ++ s.dstService

def spikeEvent (now : Clock) (s : StatSnapshot) : SpikeEvent where
  id := snapshotKey s ++ "-" ++ toString now.id
  timestamp := now.timestamp
  key := snapshotKey s
  src := s.srcService
  dst := s.dstService
  p99Us := s.p99Us
  baselineUs := (s.spikeThresholdUs : Rat) / 3
  severity := if s.p99Us > 80000 then .critical else .warning
  causeKind := if s.causeKind = .empty then .network else s.causeKind
  dstCpuPct := s.dstCPUPct
  dstIoWaitPct := s.dstIOWaitPct
  dstMemPressurePct := s.dstMemPressurePct

def historyEntry (now : Clock) (s : StatSnapshot) : HistoryPoint where
  time := now.point
  latestSRTTUs := s.latestSRTTUs
  avgUs := s.avgUs
  p50Us := s.p50Us
  p95Us := s.p95Us
  p99Us := s.p99Us
  jitterUs := s.jitterUs

def Client.onStats (now : Clock) (s : StatSnapshot) (c : Client) : Client :=
  let key := snapshotKey s
  let turned := match c.snapshots.lookup key with
    | some prev => s.isSpike && !prev.isSpike
    | none => false
  { c with
    snapshots := c.snapshots.insert key s
    history := c.history.insert key
      (((c.history.lookup key).getD [] ++ [historyEntry now s]).rtake maxHistory)
    events := if turned then (spikeEvent now s :: c.events).take maxEvents else c.events }

def Client.onHistory (h : List ConnHistory) (c : Client) : Client :=
  { c with history := h.foldl (fun next conn =>
      next.insert conn.key (conn.points.map decodePoint)) ∅ }

def Client.onResource (r : ResourceSnapshot) (c : Client) : Client :=
  let existing := c.services.lookup r.serviceName
  let point : ResourcePoint :=
    ⟨jsInt r.timestampMs, r.cpuPct, r.ioWaitPct, r.memPressurePct, r.cpuThrottlePct⟩
  let history := ((existing.map (·.history)).getD [] ++ [point]).rtake maxServiceHistory
  let service : ServiceSnapshot :=
    ⟨r.serviceName, r.cpuPct, r.ioWaitPct, r.memPressurePct, r.cpuThrottlePct,
      existing.bind (·.stressKind), history⟩
  { c with services := c.services.insert r.serviceName service }

/- An empty remove_key is falsy and is ignored. -/
def Client.onRemove (key : String) (c : Client) : Client :=
  if key = "" then c
  else { c with snapshots := c.snapshots.erase key, history := c.history.erase key }

def Client.onmessage (now : Clock) (c : Client) : OutboundMsg → Client
  | .stats s => c.onStats now (decodeStats s)
  | .history h => c.onHistory h
  | .resource r => c.onResource r
  | .remove key => c.onRemove key
  | .event _ => c

def word (key : String) : OutboundMsg → Option (Word StatSnapshot)
  | .stats s => if snapshotKey s = key then some (.put s) else none
  | .remove removed => if removed = key ∧ removed ≠ "" then some .cut else none
  | _ => none

def words (key : String) (msgs : List OutboundMsg) : List (Word StatSnapshot) :=
  msgs.filterMap (word key)

structure Metrics where
  latestSRTTUs : Nat
  avgUs : Nat
  p50Us : Nat
  p95Us : Nat
  p99Us : Nat
  jitterUs : Nat
  deriving DecidableEq

def snapshotMetrics (s : StatSnapshot) : Metrics :=
  ⟨s.latestSRTTUs, s.avgUs, s.p50Us, s.p95Us, s.p99Us, s.jitterUs⟩

def pointMetrics (p : HistoryPoint) : Metrics :=
  ⟨p.latestSRTTUs, p.avgUs, p.p50Us, p.p95Us, p.p99Us, p.jitterUs⟩

def Metrics.js (m : Metrics) : Metrics :=
  ⟨jsNat m.latestSRTTUs, jsNat m.avgUs, jsNat m.p50Us, jsNat m.p95Us, jsNat m.p99Us,
    jsNat m.jitterUs⟩

def Client.metrics (c : Client) (key : String) : List Metrics :=
  ((c.history.lookup key).getD []).map pointMetrics

def OutboundMsg.streamed : OutboundMsg → Bool
  | .history _ => false
  | _ => true

theorem words_append (key : String) (ms ns : List OutboundMsg) :
    words key (ms ++ ns) = words key ms ++ words key ns :=
  List.filterMap_append

theorem words_own_stats (s : StatSnapshot) : words (snapshotKey s) [.stats s] = [.put s] := by
  simp [words, word]

theorem words_other_stats {s : StatSnapshot} {key : String} (other : ¬ snapshotKey s = key) :
    words key [.stats s] = [] := by
  simp [words, word, other]

theorem words_removed {key : String} (some : key ≠ "") : words key [.remove key] = [.cut] := by
  simp [words, word, some]

theorem words_other_removed {key removed : String} (other : ¬ (removed = key ∧ removed ≠ "")) :
    words key [.remove removed] = [] := by
  simp only [words, List.filterMap_cons, word, if_neg other, List.filterMap_nil]

/-- A streamed message moves the snapshot of each key by the word it says about it. -/
theorem snapshots_onmessage (now : Clock) (c : Client) (key : String) {m : OutboundMsg}
    (streamed : OutboundMsg.streamed m = true) :
    (c.onmessage now m).snapshots.lookup key =
      current decodeStats (c.snapshots.lookup key) (words key [m]) := by
  cases m with
  | event raw => rfl
  | resource res => rfl
  | history h => cases streamed
  | stats s =>
    by_cases mine : snapshotKey s = key
    · subst mine
      rw [words_own_stats]
      exact Finmap.lookup_insert c.snapshots
    · rw [words_other_stats mine]
      exact Finmap.lookup_insert_of_ne c.snapshots (Ne.symm mine)
  | remove removed =>
    by_cases mine : removed = key ∧ removed ≠ ""
    · obtain ⟨rfl, some⟩ := mine
      rw [words_removed some]
      simp [Client.onmessage, Client.onRemove, some, current, hear]
    · rw [words_other_removed mine]
      simp only [Client.onmessage, Client.onRemove]
      split
      · rfl
      · rename_i some
        have other : key ≠ removed := fun same => mine ⟨same.symm, some⟩
        exact Finmap.lookup_erase_ne other

theorem metrics_onmessage (now : Clock) (c : Client) (key : String) {m : OutboundMsg}
    (streamed : OutboundMsg.streamed m = true) :
    (c.onmessage now m).metrics key =
      life (Metrics.js ∘ snapshotMetrics) maxHistory (c.metrics key) (words key [m]) := by
  cases m with
  | event raw => rfl
  | resource res => rfl
  | history h => cases streamed
  | stats s =>
    by_cases mine : snapshotKey s = key
    · subst mine
      have stored : (c.onmessage now (.stats s)).history.lookup (snapshotKey s) =
          some (((c.history.lookup (snapshotKey s)).getD [] ++
            [historyEntry now (decodeStats s)]).rtake maxHistory) :=
        Finmap.lookup_insert c.history
      rw [words_own_stats, Client.metrics, stored]
      simp only [Option.getD_some, List.rtake, List.map_drop, List.map_append, List.map_cons,
        List.map_nil, life, List.foldl_cons, List.foldl_nil, grow, Client.metrics,
        List.length_append, List.length_map, List.length_singleton, Function.comp_apply]
      rfl
    · have same : (c.onmessage now (.stats s)).history.lookup key = c.history.lookup key :=
        Finmap.lookup_insert_of_ne c.history (Ne.symm mine)
      rw [words_other_stats mine, Client.metrics, same]
      rfl
  | remove removed =>
    by_cases mine : removed = key ∧ removed ≠ ""
    · obtain ⟨rfl, some⟩ := mine
      rw [words_removed some]
      simp [Client.metrics, Client.onmessage, Client.onRemove, some, life, grow]
    · rw [words_other_removed mine, Client.metrics]
      simp only [Client.onmessage, Client.onRemove]
      split
      · rfl
      · rename_i some
        have other : key ≠ removed := fun same => mine ⟨same.symm, some⟩
        rw [Finmap.lookup_erase_ne other]
        rfl

end Dashboard
