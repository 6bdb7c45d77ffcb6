import Mathlib.Algebra.Order.Ring.Rat

/- The shared types of the collector (model/event.go). Counters and latencies that the
   code adds, compares or divides are Nat with the wrap written out where it happens;
   identifiers and wire fields keep their machine width. -/
namespace CollectorModel

abbrev Time := Int

def unixMilli (t : Time) : Int := t / 1000000

/- A finite float64 is a rational number. The code only compares and copies these values,
   so no rounding takes place. -/
inductive Float64 where
  | finite (value : Rat)
  | posInf
  | negInf
  | nan
  deriving DecidableEq

def Float64.exceeds (x : Float64) (bound : Rat) : Bool :=
  match x with
  | .finite v => decide (bound < v)
  | .posInf => true
  | .negInf => false
  | .nan => false

def Float64.isFinite : Float64 → Bool
  | .finite _ => true
  | _ => false

inductive EventType where
  | connect
  | rtt
  | retransmit
  | other (text : String)
  deriving DecidableEq

structure Event where
  type : EventType
  pid : UInt32
  comm : String
  sAddr : String
  dAddr : String
  dPort : UInt16
  latencyUs : UInt64
  jitterUs : UInt64
  deriving DecidableEq

def EventType.ofText (text : String) : EventType :=
  if text = "connect" then .connect
  else if text = "rtt" then .rtt
  else if text = "retransmit" then .retransmit
  else .other text

/- The message of event.proto as the generated code holds it: dport is wider on the wire. -/
structure PbEvent where
  type : EventType
  pid : UInt32
  comm : String
  saddr : String
  daddr : String
  dport : UInt32
  latencyUs : UInt64
  jitterUs : UInt64
  deriving DecidableEq

structure RawEvent where
  type : EventType
  srcService : String
  dstService : String
  dPort : UInt16
  latencyUs : UInt64
  timestampNs : Int
  deriving DecidableEq

structure HistoryPoint where
  time : Int
  latestSRTTUs : Nat
  avgUs : Nat
  p50Us : Nat
  p95Us : Nat
  p99Us : Nat
  jitterUs : Nat
  deriving DecidableEq

structure ConnHistory where
  key : String
  points : List HistoryPoint
  deriving DecidableEq

structure ResourceSnapshot where
  serviceName : String
  timestampMs : Int
  cpuPct : Float64
  cpuThrottlePct : Float64
  memCurrentBytes : UInt64
  memLimitBytes : UInt64
  memPressurePct : Float64
  ioReadBytesPerS : UInt64
  ioWriteBytesPerS : UInt64
  ioWaitPct : Float64
  oomKillCount : UInt64
  psiMemSomePct : Float64
  psiMemFullPct : Float64
  deriving DecidableEq

/- The zero string of a connStats that has not been typed yet is `unset`. -/
inductive NodeType where
  | unset
  | internal
  | external
  deriving DecidableEq

inductive CauseKind where
  | empty
  | cpu
  | memory
  | network
  | external
  deriving DecidableEq

inductive CauseSignal where
  | empty
  | cpuThrottleHigh
  | cpuThrottleBurst
  | oomKill
  | memPressure
  | externalDst
  | none
  deriving DecidableEq

structure StatSnapshot where
  srcService : String
  dstService : String
  srcType : NodeType
  dstType : NodeType
  latestSRTTUs : Nat
  avgUs : Nat
  p50Us : Nat
  p95Us : Nat
  p99Us : Nat
  jitterUs : Nat
  retransmitCount : UInt32
  sampleCount : Nat
  isSpike : Bool
  spikeThresholdUs : Nat
  causeKind : CauseKind
  causeSignal : CauseSignal
  dstCPUPct : Float64
  dstCPUThrottlePct : Float64
  dstMemPressurePct : Float64
  dstIOWaitPct : Float64
  deriving DecidableEq

/- The MsgType string selects which field of the envelope is set. -/
inductive OutboundMsg where
  | event (event : RawEvent)
  | stats (stats : StatSnapshot)
  | resource (resource : ResourceSnapshot)
  | remove (removeKey : String)
  | history (history : List ConnHistory)
  deriving DecidableEq

def wrap64 (n : Nat) : Nat := n % 2 ^ 64

theorem wrap64_of_lt {n : Nat} (small : n < 2 ^ 64) : wrap64 n = n := Nat.mod_eq_of_lt small

end CollectorModel
