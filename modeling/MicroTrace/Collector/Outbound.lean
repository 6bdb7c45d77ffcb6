import MicroTrace.Library.JsonRecord
import MicroTrace.Library.Utf8
import MicroTrace.Collector.Model

/- json.Marshal of the outbound messages, under the names of the tags of model/event.go. How a
   float64 is written is left to the writer and its reader: they are told apart from
   the rest by what they do to each number. -/
namespace CollectorModel
open Json

def EventType.text : EventType → String
  | .connect => "connect"
  | .rtt => "rtt"
  | .retransmit => "retransmit"
  | .other text => text

def NodeType.text : NodeType → String
  | .unset => ""
  | .internal => "internal"
  | .external => "external"

def CauseKind.text : CauseKind → String
  | .empty => ""
  | .cpu => "cpu"
  | .memory => "memory"
  | .network => "network"
  | .external => "external"

def CauseSignal.text : CauseSignal → String
  | .empty => ""
  | .cpuThrottleHigh => "cpu_throttle_high"
  | .cpuThrottleBurst => "cpu_throttle_burst"
  | .oomKill => "oom_kill"
  | .memPressure => "mem_pressure"
  | .externalDst => "external_dst"
  | .none => "none"

/- strconv.AppendFloat with the shortest precision, and the reading of a number. -/
structure FloatText where
  format : Rat → List Char
  parse : List Char → Float64

structure FloatText.Exact (F : FloatText) (q : Rat) : Prop where
  number : IsNumber (F.format q)
  back : F.parse (F.format q) = .finite q

section Marshal

variable (F : FloatText)

def floatEntry : Float64 → Entry
  | .finite q => .value (.number (F.format q))
  | _ => .unsupported

def floatOrOmitted (x : Float64) : Entry := if x = .finite 0 then .omitted else floatEntry F x

def RawEvent.fields (e : RawEvent) : List (String × Entry) :=
  [("type", textEntry e.type.text), ("src_service", textEntry e.srcService),
    ("dst_service", textEntry e.dstService), ("dport", natEntry e.dPort.toNat),
    ("latency_us", natEntry e.latencyUs.toNat), ("timestamp_ns", intEntry e.timestampNs)]

def StatSnapshot.fields (s : StatSnapshot) : List (String × Entry) :=
  [("src_service", textEntry s.srcService), ("dst_service", textEntry s.dstService),
    ("src_type", textEntry s.srcType.text), ("dst_type", textEntry s.dstType.text),
    ("latest_srtt_us", natEntry s.latestSRTTUs), ("avg_us", natEntry s.avgUs),
    ("p50_us", natEntry s.p50Us), ("p95_us", natEntry s.p95Us), ("p99_us", natEntry s.p99Us),
    ("jitter_us", natEntry s.jitterUs),
    ("retransmit_count", natEntry s.retransmitCount.toNat),
    ("sample_count", natEntry s.sampleCount), ("is_spike", boolEntry s.isSpike),
    ("spike_threshold_us", natEntry s.spikeThresholdUs),
    ("cause_kind", textOrOmitted s.causeKind.text),
    ("cause_signal", textOrOmitted s.causeSignal.text),
    ("dst_cpu_pct", floatOrOmitted F s.dstCPUPct),
    ("dst_cpu_throttle_pct", floatOrOmitted F s.dstCPUThrottlePct),
    ("dst_mem_pressure_pct", floatOrOmitted F s.dstMemPressurePct),
    ("dst_io_wait_pct", floatOrOmitted F s.dstIOWaitPct)]

def ResourceSnapshot.fields (r : ResourceSnapshot) : List (String × Entry) :=
  [("service_name", textEntry r.serviceName), ("timestamp_ms", intEntry r.timestampMs),
    ("cpu_pct", floatEntry F r.cpuPct), ("cpu_throttle_pct", floatEntry F r.cpuThrottlePct),
    ("mem_current_bytes", natEntry r.memCurrentBytes.toNat),
    ("mem_limit_bytes", natEntry r.memLimitBytes.toNat),
    ("mem_pressure_pct", floatEntry F r.memPressurePct),
    ("io_read_bytes_per_s", natEntry r.ioReadBytesPerS.toNat),
    ("io_write_bytes_per_s", natEntry r.ioWriteBytesPerS.toNat),
    ("io_wait_pct", floatEntry F r.ioWaitPct), ("oom_kill_count", natEntry r.oomKillCount.toNat),
    ("psi_mem_some_pct", floatEntry F r.psiMemSomePct),
    ("psi_mem_full_pct", floatEntry F r.psiMemFullPct)]

def HistoryPoint.fields (p : HistoryPoint) : List (String × Entry) :=
  [("time", intEntry p.time), ("latest_srtt_us", natEntry p.latestSRTTUs),
    ("avg_us", natEntry p.avgUs), ("p50_us", natEntry p.p50Us), ("p95_us", natEntry p.p95Us),
    ("p99_us", natEntry p.p99Us), ("jitter_us", natEntry p.jitterUs)]

/- GetHistory makes its slices, so the points are never null. -/
def ConnHistory.fields (h : ConnHistory) : List (String × Entry) :=
  [("key", textEntry h.key),
    ("points", .value (.array (h.points.map fun p => object p.fields)))]

def OutboundMsg.fields : OutboundMsg → List (String × Entry)
  | .event e => [("msg_type", textEntry "event"), ("event", .ofOption (record e.fields))]
  | .stats s => [("msg_type", textEntry "stats"), ("stats", .ofOption (record (s.fields F)))]
  | .resource r =>
      [("msg_type", textEntry "resource"), ("resource", .ofOption (record (r.fields F)))]
  | .remove key => [("msg_type", textEntry "remove"), ("remove_key", textOrOmitted key)]
  | .history h =>
      [("msg_type", textEntry "history"),
        ("history", if h = [] then .omitted
          else .value (.array (h.map fun c => object c.fields)))]

/-- json.Marshal of the envelope. A number that is not finite is an error. -/
def marshal (m : OutboundMsg) : Option (List UInt8) :=
  (record (m.fields F)).map fun v => Utf8.encode v.print

end Marshal

def OutboundMsg.floats : OutboundMsg → List Float64
  | .stats s => [s.dstCPUPct, s.dstCPUThrottlePct, s.dstMemPressurePct, s.dstIOWaitPct]
  | .resource r => [r.cpuPct, r.cpuThrottlePct, r.memPressurePct, r.ioWaitPct, r.psiMemSomePct,
      r.psiMemFullPct]
  | _ => []

def FloatText.Writes (F : FloatText) : Float64 → Prop
  | .finite q => IsNumber (F.format q)
  | _ => True

def FloatText.Reads (F : FloatText) : Float64 → Prop
  | .finite q => F.Exact q
  | _ => True

def FloatText.Carries (F : FloatText) (m : OutboundMsg) : Prop := ∀ x ∈ m.floats, F.Reads x

instance (F : FloatText) (q : Rat) : Decidable (F.Exact q) :=
  decidable_of_iff (IsNumber (F.format q) ∧ F.parse (F.format q) = .finite q)
    ⟨fun both => ⟨both.1, both.2⟩, fun exact => ⟨exact.number, exact.back⟩⟩

instance (F : FloatText) : (x : Float64) → Decidable (F.Reads x)
  | .finite q => inferInstanceAs (Decidable (F.Exact q))
  | .posInf => inferInstanceAs (Decidable True)
  | .negInf => inferInstanceAs (Decidable True)
  | .nan => inferInstanceAs (Decidable True)

instance (F : FloatText) (m : OutboundMsg) : Decidable (F.Carries m) :=
  inferInstanceAs (Decidable (∀ x ∈ m.floats, F.Reads x))

/- Whole numbers, as Go writes them below 10^21. -/
def wholeText : FloatText where
  format q := intText q.num
  parse t := (Value.number t).int?.elim .nan fun n => .finite n

section Numbers

variable {F : FloatText}

theorem encodes_float (x : Float64) : (floatEntry F x).encodes = x.isFinite := by
  cases x <;> rfl

theorem encodes_floatOrOmitted (x : Float64) : (floatOrOmitted F x).encodes = x.isFinite := by
  unfold floatOrOmitted
  split
  · rename_i zero
    rw [zero]
    rfl
  · exact encodes_float x

theorem writes_of_reads {x : Float64} (reads : F.Reads x) : F.Writes x := by
  cases x with
  | finite q => exact FloatText.Exact.number reads
  | _ => trivial

theorem fits_float {x : Float64} (writes : F.Writes x) (depth : Nat) :
    (floatEntry F x).Fits depth := by
  cases x with
  | finite q =>
    have number : IsNumber (F.format q) := writes
    simpa only [floatEntry, Entry.Fits, Value.Fits] using number
  | _ => trivial

theorem fits_floatOrOmitted {x : Float64} (reads : F.Reads x) (depth : Nat) :
    (floatOrOmitted F x).Fits depth := by
  unfold floatOrOmitted
  split
  · trivial
  · exact fits_float (writes_of_reads reads) depth

theorem fits_resource {r : ResourceSnapshot} {v : Value} (made : record (r.fields F) = some v)
    (writes : ∀ x ∈ OutboundMsg.floats (.resource r), F.Writes x) (depth : Nat) :
    v.Fits (depth + 1) := by
  have floats : ∀ x ∈ OutboundMsg.floats (.resource r), (floatEntry F x).Fits depth := by
    exact fun x there => fits_float (writes x there) depth
  obtain rfl := record_eq made
  refine fits_object ?_
  simpa [ResourceSnapshot.fields, OutboundMsg.floats, and_assoc] using floats

end Numbers

end CollectorModel
