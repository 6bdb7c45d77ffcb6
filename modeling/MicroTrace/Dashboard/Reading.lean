import MicroTrace.Collector.Outbound
import MicroTrace.Dashboard.System

/- What a dashboard does with the bytes of a text frame: they are decoded, parsed and read as an
   OutboundMsg. A text that is no JSON throws, and one that is not of the declared types is none
   that the collector sends; both leave the state as it is. -/
namespace Dashboard
open CollectorModel Json

/- The texts of an enumeration; the empty one is a field that was left out. -/
def readNodeType (t : String) : Option NodeType :=
  [NodeType.unset, .internal, .external].find? fun n => n.text = t

def readCauseKind (t : String) : Option CauseKind :=
  [CauseKind.empty, .cpu, .memory, .network, .external].find? fun k => k.text = t

def readCauseSignal (t : String) : Option CauseSignal :=
  [CauseSignal.empty, .cpuThrottleHigh, .cpuThrottleBurst, .oomKill, .memPressure, .externalDst,
    .none].find? fun s => s.text = t

section Fields

variable (v : Value) (name : String)

def textField : Option String := (v.field name).bind Value.text?

def natField : Option Nat := (v.field name).bind Value.nat?

def intField : Option Int := (v.field name).bind Value.int?

def boolField : Option Bool := (v.field name).bind Value.bool?

/- A field that is not there is undefined, and ?? takes the default. -/
def textOr (default : String) : Option String := ((v.field name).map Value.text?).getD default

variable (F : FloatText)

def readFloat : Value → Option Float64
  | .number t => some (F.parse t)
  | _ => none

def floatField : Option Float64 := (v.field name).bind (readFloat F)

def floatOr (default : Float64) : Option Float64 := ((v.field name).map (readFloat F)).getD default

end Fields

section Messages

variable (F : FloatText)

def readStats (v : Value) : Option StatSnapshot := do
  let srcService ← textField v "src_service"
  let dstService ← textField v "dst_service"
  let srcType ← readNodeType (← textField v "src_type")
  let dstType ← readNodeType (← textField v "dst_type")
  let latestSRTTUs ← natField v "latest_srtt_us"
  let avgUs ← natField v "avg_us"
  let p50Us ← natField v "p50_us"
  let p95Us ← natField v "p95_us"
  let p99Us ← natField v "p99_us"
  let jitterUs ← natField v "jitter_us"
  let retransmitCount ← natField v "retransmit_count"
  let sampleCount ← natField v "sample_count"
  let isSpike ← boolField v "is_spike"
  let spikeThresholdUs ← natField v "spike_threshold_us"
  let causeKind ← readCauseKind (← textOr v "cause_kind" "")
  let causeSignal ← readCauseSignal (← textOr v "cause_signal" "")
  let dstCPUPct ← floatOr v "dst_cpu_pct" F (.finite 0)
  let dstCPUThrottlePct ← floatOr v "dst_cpu_throttle_pct" F (.finite 0)
  let dstMemPressurePct ← floatOr v "dst_mem_pressure_pct" F (.finite 0)
  let dstIOWaitPct ← floatOr v "dst_io_wait_pct" F (.finite 0)
  some ⟨srcService, dstService, srcType, dstType, latestSRTTUs, avgUs, p50Us, p95Us, p99Us,
    jitterUs, .ofNat retransmitCount, sampleCount, isSpike, spikeThresholdUs, causeKind,
    causeSignal, dstCPUPct, dstCPUThrottlePct, dstMemPressurePct, dstIOWaitPct⟩

def readResource (v : Value) : Option ResourceSnapshot := do
  let serviceName ← textField v "service_name"
  let timestampMs ← intField v "timestamp_ms"
  let cpuPct ← floatField v "cpu_pct" F
  let cpuThrottlePct ← floatField v "cpu_throttle_pct" F
  let memCurrentBytes ← natField v "mem_current_bytes"
  let memLimitBytes ← natField v "mem_limit_bytes"
  let memPressurePct ← floatField v "mem_pressure_pct" F
  let ioReadBytesPerS ← natField v "io_read_bytes_per_s"
  let ioWriteBytesPerS ← natField v "io_write_bytes_per_s"
  let ioWaitPct ← floatField v "io_wait_pct" F
  let oomKillCount ← natField v "oom_kill_count"
  let psiMemSomePct ← floatField v "psi_mem_some_pct" F
  let psiMemFullPct ← floatField v "psi_mem_full_pct" F
  some ⟨serviceName, timestampMs, cpuPct, cpuThrottlePct, .ofNat memCurrentBytes,
    .ofNat memLimitBytes, memPressurePct, .ofNat ioReadBytesPerS, .ofNat ioWriteBytesPerS,
    ioWaitPct, .ofNat oomKillCount, psiMemSomePct, psiMemFullPct⟩

def readPoint (v : Value) : Option HistoryPoint := do
  let time ← intField v "time"
  let latestSRTTUs ← natField v "latest_srtt_us"
  let avgUs ← natField v "avg_us"
  let p50Us ← natField v "p50_us"
  let p95Us ← natField v "p95_us"
  let p99Us ← natField v "p99_us"
  let jitterUs ← natField v "jitter_us"
  some ⟨time, latestSRTTUs, avgUs, p50Us, p95Us, p99Us, jitterUs⟩

def readItems {A : Type} (read : Value → Option A) : Value → Option (List A)
  | .array items => items.mapM read
  | _ => none

def readConn (v : Value) : Option ConnHistory := do
  let key ← textField v "key"
  let points ← (v.field "points").bind (readItems readPoint)
  some ⟨key, points⟩

/- The handler looks at msg_type and then at the field of that name. -/
def readMessage (v : Value) : Option OutboundMsg := do
  match ← textField v "msg_type" with
  | "stats" => ((v.field "stats").bind (readStats F)).map .stats
  | "history" => ((v.field "history").bind (readItems readConn)).map .history
  | "resource" => ((v.field "resource").bind (readResource F)).map .resource
  | "remove" => (textField v "remove_key").map .remove
  | _ => none

def readFrame (data : List UInt8) : Option OutboundMsg :=
  (parse (Utf8.decode data)).bind (readMessage F)

def Client.receive (now : Clock) (c : Client) (data : List UInt8) : Client :=
  match readFrame F data with
  | some m => c.onmessage now m
  | none => c

end Messages

variable {F : FloatText}

section Reads

theorem read_nodeType (n : NodeType) : readNodeType n.text = some n := by
  cases n <;> decide

theorem read_causeKind (k : CauseKind) : readCauseKind k.text = some k := by
  cases k <;> decide

theorem read_causeSignal (s : CauseSignal) : readCauseSignal s.text = some s := by
  cases s <;> decide

theorem readFloat_exact {q : Rat} (exact : F.Exact q) :
    readFloat F (.number (F.format q)) = some (.finite q) := by
  rw [readFloat, exact.back]

theorem floatEntry_read {x : Float64} (finite : (floatEntry F x).encodes = true)
    (reads : F.Reads x) :
    (floatEntry F x).value?.bind (readFloat F) = some x := by
  cases x with
  | finite q => exact readFloat_exact reads
  | _ => cases finite

theorem floatOrOmitted_read {x : Float64} (finite : (floatOrOmitted F x).encodes = true)
    (reads : F.Reads x) :
    ((floatOrOmitted F x).value?.map (readFloat F)).getD (some (.finite 0)) = some x := by
  unfold floatOrOmitted at finite ⊢
  split
  · rename_i zero
    rw [zero]
    rfl
  · rename_i other
    rw [if_neg other] at finite
    cases x with
    | finite q => exact readFloat_exact reads
    | _ => cases finite

theorem read_point (p : HistoryPoint) : readPoint (object p.fields) = some p := by
  have apart : (p.fields.map Prod.fst).Nodup := by simp [HistoryPoint.fields]
  simp only [readPoint, intField, natField, field_object apart]
  simp [HistoryPoint.fields, List.lookup_cons]

theorem read_stats {s : StatSnapshot} {v : Value} (made : record (s.fields F) = some v)
    (carries : F.Carries (.stats s)) : readStats F v = some s := by
  have apart : ((s.fields F).map Prod.fst).Nodup := by simp [StatSnapshot.fields]
  have finite : ∀ x ∈ OutboundMsg.floats (.stats s), (floatOrOmitted F x).encodes = true := by
    simpa [StatSnapshot.fields, OutboundMsg.floats] using record_encodes made
  have read : ∀ x ∈ OutboundMsg.floats (.stats s),
      ((floatOrOmitted F x).value?.map (readFloat F)).getD (some (.finite 0)) = some x := by
    intro x there
    exact floatOrOmitted_read (finite x there) (carries x there)
  obtain ⟨cpu, throttle, memory, io⟩ : _ ∧ _ ∧ _ ∧ _ := by
    simpa [OutboundMsg.floats] using read
  obtain rfl := record_eq made
  simp only [readStats, textField, natField, boolField, textOr, floatOr, field_object apart]
  simp [StatSnapshot.fields, List.lookup_cons, read_nodeType, read_causeKind, read_causeSignal,
    cpu, throttle, memory, io]

theorem read_resource {r : ResourceSnapshot} {v : Value} (made : record (r.fields F) = some v)
    (carries : F.Carries (.resource r)) : readResource F v = some r := by
  have apart : ((r.fields F).map Prod.fst).Nodup := by simp [ResourceSnapshot.fields]
  have finite : ∀ x ∈ OutboundMsg.floats (.resource r), (floatEntry F x).encodes = true := by
    simpa [ResourceSnapshot.fields, OutboundMsg.floats, and_assoc] using record_encodes made
  have read : ∀ x ∈ OutboundMsg.floats (.resource r),
      (floatEntry F x).value?.bind (readFloat F) = some x := by
    intro x there
    exact floatEntry_read (finite x there) (carries x there)
  obtain ⟨cpu, throttle, memory, io, some, full⟩ : _ ∧ _ ∧ _ ∧ _ ∧ _ ∧ _ := by
    simpa [OutboundMsg.floats] using read
  obtain rfl := record_eq made
  simp only [readResource, textField, natField, intField, floatField, field_object apart]
  simp [ResourceSnapshot.fields, List.lookup_cons, cpu, throttle, memory, io, some, full]

theorem read_items {A : Type} {read : Value → Option A} {write : A → Value}
    (inverse : ∀ a, read (write a) = some a) (items : List A) :
    readItems read (.array (items.map write)) = some items := by
  induction items with
  | nil => rfl
  | cons a items ih =>
    rw [readItems] at ih ⊢
    rw [List.map_cons, List.mapM_cons, inverse, Option.bind_eq_bind, Option.bind_some, ih]
    rfl

theorem read_conn (h : ConnHistory) : readConn (object h.fields) = some h := by
  have apart : (h.fields.map Prod.fst).Nodup := by simp [ConnHistory.fields]
  simp only [readConn, textField, field_object apart]
  simp [ConnHistory.fields, List.lookup_cons, read_items read_point]

end Reads

def OutboundMsg.acted : OutboundMsg → Bool
  | .event _ => false
  | .remove key => key ≠ ""
  | .history h => h ≠ []
  | _ => true

theorem read_message {m : OutboundMsg} {v : Value} (made : record (m.fields F) = some v)
    (carries : F.Carries m) (acted : OutboundMsg.acted m = true) : readMessage F v = some m := by
  have encodes := record_encodes made
  have apart : ((m.fields F).map Prod.fst).Nodup := by cases m <;> simp [OutboundMsg.fields]
  obtain rfl := record_eq made
  simp only [readMessage, textField, field_object apart]
  cases m with
  | event e => cases acted
  | stats s =>
    obtain ⟨w, nested⟩ : ∃ w, record (s.fields F) = some w := by
      simpa [OutboundMsg.fields, Option.isSome_iff_exists] using encodes
    simp [OutboundMsg.fields, List.lookup_cons, nested, read_stats nested carries]
  | resource r =>
    obtain ⟨w, nested⟩ : ∃ w, record (r.fields F) = some w := by
      simpa [OutboundMsg.fields, Option.isSome_iff_exists] using encodes
    simp [OutboundMsg.fields, List.lookup_cons, nested, read_resource nested carries]
  | remove key =>
    have some : key ≠ "" := of_decide_eq_true acted
    simp [OutboundMsg.fields, List.lookup_cons, textOrOmitted, some]
  | history h =>
    have some : h ≠ [] := of_decide_eq_true acted
    simp [OutboundMsg.fields, List.lookup_cons, some, read_items read_conn]

theorem read_silent {m : OutboundMsg} {v : Value} (made : record (m.fields F) = some v)
    (silent : OutboundMsg.acted m = false) : readMessage F v = none := by
  have apart : ((m.fields F).map Prod.fst).Nodup := by cases m <;> simp [OutboundMsg.fields]
  obtain rfl := record_eq made
  simp only [readMessage, textField, field_object apart]
  cases m with
  | event e => simp [OutboundMsg.fields, List.lookup_cons]
  | remove key =>
    have empty : key = "" := by simpa [OutboundMsg.acted] using silent
    simp [OutboundMsg.fields, List.lookup_cons, textOrOmitted, empty]
  | history h =>
    have empty : h = [] := by simpa [OutboundMsg.acted] using silent
    simp [OutboundMsg.fields, List.lookup_cons, empty]
  | _ => cases silent

theorem marshal_isSome (m : OutboundMsg) : (marshal F m).isSome = encodes m := by
  rw [marshal, Option.isSome_map, record_isSome]
  cases m with
  | event e => simp [OutboundMsg.fields, record_isSome, RawEvent.fields, encodes]
  | stats s =>
    simp [OutboundMsg.fields, record_isSome, StatSnapshot.fields, encodes, encodes_floatOrOmitted,
      Bool.and_assoc]
  | resource r =>
    simp [OutboundMsg.fields, record_isSome, ResourceSnapshot.fields, encodes, encodes_float,
      Bool.and_assoc]
  | remove key => simp [OutboundMsg.fields, encodes]
  | history h =>
    by_cases empty : h = [] <;> simp [OutboundMsg.fields, encodes, empty]

theorem fits_stats {s : StatSnapshot} {v : Value} (made : record (s.fields F) = some v)
    (carries : F.Carries (.stats s)) (depth : Nat) : v.Fits (depth + 1) := by
  have floats : ∀ x ∈ OutboundMsg.floats (.stats s), (floatOrOmitted F x).Fits depth := by
    exact fun x there => fits_floatOrOmitted (carries x there) depth
  obtain rfl := record_eq made
  refine fits_object ?_
  simpa [StatSnapshot.fields, OutboundMsg.floats] using floats

theorem fits_conn (h : ConnHistory) : (object h.fields).Fits 3 := by
  have points : ∀ v ∈ h.points.map fun p => object p.fields, v.Fits 1 := by
    intro v there
    obtain ⟨p, _, rfl⟩ := List.mem_map.mp there
    exact fits_object (by simp [HistoryPoint.fields])
  refine fits_object ?_
  simpa [ConnHistory.fields] using fits_array points

theorem fits_message {m : OutboundMsg} {v : Value} (made : record (m.fields F) = some v)
    (carries : F.Carries m) : v.Fits 5 := by
  obtain rfl := record_eq made
  refine fits_object ?_
  cases m with
  | event e =>
    have fits : ∀ v, record e.fields = some v → v.Fits 4 := by
      intro v made
      obtain rfl := record_eq made
      exact fits_object (by simp [RawEvent.fields])
    simpa [OutboundMsg.fields] using fits
  | stats s => simpa [OutboundMsg.fields] using fun v made => fits_stats made carries 3
  | resource r =>
    have writes : ∀ x ∈ OutboundMsg.floats (.resource r), F.Writes x := by
      exact fun x there => writes_of_reads (carries x there)
    simpa [OutboundMsg.fields] using fun v made => fits_resource made writes 3
  | remove key => simp [OutboundMsg.fields]
  | history h =>
    have conns : ∀ v ∈ h.map fun c => object c.fields, v.Fits 3 := by
      intro v there
      obtain ⟨c, _, rfl⟩ := List.mem_map.mp there
      exact fits_conn c
    by_cases empty : h = []
    · simp [OutboundMsg.fields, empty]
    · simpa [OutboundMsg.fields, empty] using fits_array conns

theorem onmessage_silent {m : OutboundMsg} (silent : OutboundMsg.acted m = false)
    (some : m ≠ .history []) (now : Clock) (c : Client) : c.onmessage now m = c := by
  cases m with
  | event e => rfl
  | remove key =>
    have empty : key = "" := by simpa [OutboundMsg.acted] using silent
    rw [empty]
    rfl
  | history h =>
    have empty : h = [] := by simpa [OutboundMsg.acted] using silent
    exact absurd (congrArg OutboundMsg.history empty) some
  | _ => cases silent

theorem readFrame_marshal {m : OutboundMsg} {data : List UInt8} (made : marshal F m = some data)
    (carries : F.Carries m) :
    readFrame F data = if OutboundMsg.acted m = true then some m else none := by
  obtain ⟨v, record, rfl⟩ := Option.map_eq_some_iff.mp made
  have parsed : parse (Utf8.decode (Utf8.encode v.print)) = some v := by
    rw [Utf8.decode_encode]
    exact parse_print (fits_message record carries) (by decide)
  unfold readFrame
  rw [parsed, Option.bind_some]
  split
  · rename_i acted
    exact read_message record carries acted
  · rename_i silent
    exact read_silent record (by simpa using silent)

theorem receive_message {m : OutboundMsg} {data : List UInt8} (made : marshal F m = some data)
    (carries : F.Carries m) (kept : m ≠ .history []) (now : Clock) (c : Client) :
    c.receive F now data = c.onmessage now m := by
  unfold Client.receive
  rw [readFrame_marshal made carries]
  split
  · rename_i read
    obtain ⟨_, same⟩ := Option.ite_none_right_eq_some.mp read
    cases same
    rfl
  · rename_i read
    have silent : OutboundMsg.acted m = false := by simpa using read
    exact (onmessage_silent silent kept now c).symm

/-- A dashboard does with the bytes of messages what the messages ask for. -/
theorem receive_marshal {ms : List (Clock × OutboundMsg)} {frames : List (List UInt8)}
    (made : List.Forall₂ (fun m data => marshal F m.2 = some data) ms frames)
    (carries : ∀ m ∈ ms, F.Carries m.2) (kept : ∀ m ∈ ms, m.2 ≠ .history []) (c : Client) :
    ((ms.map Prod.fst).zip frames).foldl (fun c d => c.receive F d.1 d.2) c =
      ms.foldl (fun c m => c.onmessage m.1 m.2) c := by
  induction made generalizing c with
  | nil => rfl
  | cons first rest ih =>
    obtain ⟨carries, later⟩ := List.forall_mem_cons.mp carries
    obtain ⟨some, others⟩ := List.forall_mem_cons.mp kept
    rw [List.map_cons, List.zip_cons_cons, List.foldl_cons, List.foldl_cons,
      receive_message first carries some]
    exact ih later others _

def checkoutLoad : ResourceSnapshot :=
  ⟨"checkout", 1700000000000, .finite 50, .finite 0, 1048576, 0, .finite 3, 4096, 0, .finite 0, 0,
    .finite 0, .finite 0⟩

def checkoutMessages : List (Clock × OutboundMsg) :=
  [(⟨1, 1, 1⟩, .resource checkoutLoad), (⟨2, 2, 2⟩, .remove "gateway→checkout")]

theorem checkout_load_read : ∃ frames,
    List.Forall₂ (fun m data => marshal wholeText m.2 = some data) checkoutMessages frames ∧
      ((checkoutMessages.map Prod.fst).zip frames).foldl
          (fun c d => c.receive wholeText d.1 d.2) Client.opened =
        checkoutMessages.foldl (fun c m => c.onmessage m.1 m.2) Client.opened := by
  obtain ⟨load, first⟩ := Option.isSome_iff_exists.mp
    (marshal_isSome (F := wholeText) (.resource checkoutLoad))
  obtain ⟨removal, second⟩ := Option.isSome_iff_exists.mp
    (marshal_isSome (F := wholeText) (.remove "gateway→checkout"))
  have made : List.Forall₂ (fun m data => marshal wholeText m.2 = some data) checkoutMessages
      [load, removal] := .cons first (.cons second .nil)
  exact ⟨_, made, receive_marshal made (by decide) (by simp [checkoutMessages]) .opened⟩

end Dashboard
