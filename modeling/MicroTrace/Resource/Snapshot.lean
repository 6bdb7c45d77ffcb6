import Mathlib.Data.Rat.Floor
import MicroTrace.Resource.Files

/- readSnapshot of resource_agent/main.go: five required files, three optional ones, and the
   baselines of a container that are replaced together when all required files were read. -/
namespace ResourceAgent
open CollectorModel Text

structure ContainerState where
  cpuPrev : CpuPrev
  ioPrev : IoPrev
  memPrev : MemPrev
  hasPrev : Bool
  deriving DecidableEq

def ContainerState.zero : ContainerState := ⟨⟨0, 0, 0⟩, ⟨0, 0⟩, ⟨0, 0⟩, false⟩

structure Failure where
  file : String
  cause : FileError
  deriving DecidableEq

abbrev Files := String → File

structure Call where
  files : Files
  name : String
  cgroupPath : String
  nowMs : ℤ
  intervalSec : ℚ

/- strconv.ParseFloat, and the conversion to uint64 of a value that does not fit, which the
   language leaves to the machine. -/
structure Floats where
  parseFloat : List Char → Option Float64
  overflow : ℚ → UInt64

def Floats.toUint64 (F : Floats) (v : ℚ) : UInt64 :=
  if v < 2 ^ 64 then UInt64.ofNat ⌊v⌋₊ else F.overflow v

/- A failed call keeps the state; none is a panic. -/
abbrev Reading := ExceptT Failure (StateT ContainerState Option)

def checked {R : Type} (file : String) (read : R × Option FileError) : Reading R :=
  match read.2 with
  | none => pure read.1
  | some cause => throw ⟨file, cause⟩

def unlessPanic {R : Type} (read : Option R) : Reading R :=
  fun st => read.map fun result => (.ok result, st)

def orZero : Float64 × Option FileError → Float64
  | (pct, none) => pct
  | (_, some _) => .finite 0

def readSnapshot (F : Floats) (c : Call) : Reading (Option ResourceSnapshot) := do
  let cpuCur ← checked "cpu.stat" (readCPUStat (c.files (c.cgroupPath ++ "/cpu.stat")))
  let memCur ← checked "memory.current"
    (readUint64File (c.files (c.cgroupPath ++ "/memory.current")))
  let memLimit := (readUint64File (c.files (c.cgroupPath ++ "/memory.max"))).1
  let memEvCur ← checked "memory.events"
    (readMemoryEvents (c.files (c.cgroupPath ++ "/memory.events")))
  let ioStat ← unlessPanic (readIOStat (c.files (c.cgroupPath ++ "/io.stat")))
  let ioCur ← checked "io.stat" ioStat
  let ioWaitPct := orZero (readIOWaitPct (c.files "/proc/stat"))
  let psi := readPSIMemory F.parseFloat (c.files (c.cgroupPath ++ "/memory.pressure"))
  let st ← get
  if st.hasPrev = false then
    set (⟨cpuCur, ioCur, memEvCur, true⟩ : ContainerState)
    return none
  else
    let deltaUsage := safeDeltaU64 cpuCur.usageUsec st.cpuPrev.usageUsec
    let intervalUsec := c.intervalSec * 1000000
    let cpuPct := clamp100 (.finite (deltaUsage / intervalUsec * 100))
    let deltaThrottled := safeDeltaU64 cpuCur.throttledUs st.cpuPrev.throttledUs
    let cpuThrottlePct := clamp100 (.finite (deltaThrottled / intervalUsec * 100))
    let deltaRBytes := safeDeltaU64 ioCur.rbytes st.ioPrev.rbytes
    let deltaWBytes := safeDeltaU64 ioCur.wbytes st.ioPrev.wbytes
    let ioReadPerS := F.toUint64 (deltaRBytes / c.intervalSec)
    let ioWritePerS := F.toUint64 (deltaWBytes / c.intervalSec)
    let deltaHigh := safeDeltaU64 memEvCur.high st.memPrev.high
    let deltaOOM := safeDeltaU64 memEvCur.oomKill st.memPrev.oomKill
    let memPressurePct := memPressureScore deltaHigh
    set (⟨cpuCur, ioCur, memEvCur, st.hasPrev⟩ : ContainerState)
    return some {
      serviceName := c.name
      timestampMs := c.nowMs
      cpuPct := cpuPct
      cpuThrottlePct := cpuThrottlePct
      memCurrentBytes := UInt64.ofNat memCur
      memLimitBytes := UInt64.ofNat memLimit
      memPressurePct := memPressurePct
      ioReadBytesPerS := ioReadPerS
      ioWriteBytesPerS := ioWritePerS
      ioWaitPct := ioWaitPct
      oomKillCount := UInt64.ofNat deltaOOM
      psiMemSomePct := psi.1
      psiMemFullPct := psi.2 }

structure Counters where
  cpu : CpuPrev
  io : IoPrev
  mem : MemPrev
  deriving DecidableEq

def ContainerState.counters (st : ContainerState) : Counters := ⟨st.cpuPrev, st.ioPrev, st.memPrev⟩

def ContainerState.stored (cur : Counters) : ContainerState := ⟨cur.cpu, cur.io, cur.mem, true⟩

def Call.cpuStat (c : Call) := readCPUStat (c.files (c.cgroupPath ++ "/cpu.stat"))

def Call.memoryCurrent (c : Call) := readUint64File (c.files (c.cgroupPath ++ "/memory.current"))

def Call.memoryEvents (c : Call) := readMemoryEvents (c.files (c.cgroupPath ++ "/memory.events"))

def Call.ioStat (c : Call) := readIOStat (c.files (c.cgroupPath ++ "/io.stat"))

/- What a call finds, whatever the state: none is a panic. -/
def Call.found (c : Call) : Option (Except Failure Counters) :=
  match c.cpuStat.2, c.memoryCurrent.2, c.memoryEvents.2, c.ioStat with
  | some e, _, _, _ => some (.error ⟨"cpu.stat", e⟩)
  | none, some e, _, _ => some (.error ⟨"memory.current", e⟩)
  | none, none, some e, _ => some (.error ⟨"memory.events", e⟩)
  | none, none, none, none => none
  | none, none, none, some (_, some e) => some (.error ⟨"io.stat", e⟩)
  | none, none, none, some (io, none) => some (.ok ⟨c.cpuStat.1, io, c.memoryEvents.1⟩)

structure Deltas where
  usage : ℕ
  throttled : ℕ
  rbytes : ℕ
  wbytes : ℕ
  high : ℕ
  oomKill : ℕ
  deriving DecidableEq

def Deltas.between (prev cur : Counters) : Deltas where
  usage := cur.cpu.usageUsec - prev.cpu.usageUsec
  throttled := cur.cpu.throttledUs - prev.cpu.throttledUs
  rbytes := cur.io.rbytes - prev.io.rbytes
  wbytes := cur.io.wbytes - prev.io.wbytes
  high := cur.mem.high - prev.mem.high
  oomKill := cur.mem.oomKill - prev.mem.oomKill

def snapshotOf (F : Floats) (c : Call) (d : Deltas) : ResourceSnapshot where
  serviceName := c.name
  timestampMs := c.nowMs
  cpuPct := clamp100 (.finite (d.usage / (c.intervalSec * 1000000) * 100))
  cpuThrottlePct := clamp100 (.finite (d.throttled / (c.intervalSec * 1000000) * 100))
  memCurrentBytes := UInt64.ofNat c.memoryCurrent.1
  memLimitBytes := UInt64.ofNat (readUint64File (c.files (c.cgroupPath ++ "/memory.max"))).1
  memPressurePct := memPressureScore d.high
  ioReadBytesPerS := F.toUint64 (d.rbytes / c.intervalSec)
  ioWriteBytesPerS := F.toUint64 (d.wbytes / c.intervalSec)
  ioWaitPct := orZero (readIOWaitPct (c.files "/proc/stat"))
  oomKillCount := UInt64.ofNat d.oomKill
  psiMemSomePct := (readPSIMemory F.parseFloat (c.files (c.cgroupPath ++ "/memory.pressure"))).1
  psiMemFullPct := (readPSIMemory F.parseFloat (c.files (c.cgroupPath ++ "/memory.pressure"))).2

theorem checked_ok {R S : Type} {file : String} {read : R × Option FileError}
    (good : read.2 = none) (next : R → Reading S) (st : ContainerState) :
    (checked file read >>= next) st = next read.1 st := by
  unfold checked
  rw [good]
  rfl

theorem checked_error {R S : Type} {file : String} {read : R × Option FileError} {e : FileError}
    (bad : read.2 = some e) (next : R → Reading S) (st : ContainerState) :
    (checked file read >>= next) st = some (.error ⟨file, e⟩, st) := by
  unfold checked
  rw [bad]
  rfl

theorem unlessPanic_none {R S : Type} {read : Option R} (panic : read = none)
    (next : R → Reading S) (st : ContainerState) : (unlessPanic read >>= next) st = none := by
  rw [panic]
  rfl

theorem unlessPanic_some {R S : Type} {read : Option R} {result : R} (done : read = some result)
    (next : R → Reading S) (st : ContainerState) :
    (unlessPanic read >>= next) st = next result st := by
  rw [done]
  rfl

/-- All that a call can do: panic, fail without a trace, store its first counters, or store
    its counters and return a snapshot of what has been added to the stored ones. -/
theorem read_snapshot_eq (F : Floats) (c : Call) (st : ContainerState) :
    readSnapshot F c st = match c.found with
      | none => none
      | some (.error failure) => some (.error failure, st)
      | some (.ok cur) =>
          if st.hasPrev = false then some (.ok none, .stored cur)
          else some (.ok (some (snapshotOf F c (.between st.counters cur))), .stored cur) := by
  unfold readSnapshot Call.found
  cases cpu : c.cpuStat.2 with
  | some e => exact checked_error cpu _ st
  | none =>
    refine (checked_ok cpu _ st).trans ?_
    cases current : c.memoryCurrent.2 with
    | some e => exact checked_error current _ st
    | none =>
      refine (checked_ok current _ st).trans ?_
      cases events : c.memoryEvents.2 with
      | some e => exact checked_error events _ st
      | none =>
        refine (checked_ok events _ st).trans ?_
        cases io : c.ioStat with
        | none => exact unlessPanic_none io _ st
        | some read =>
          refine (unlessPanic_some io _ st).trans ?_
          obtain ⟨cur, err⟩ := read
          cases err with
          | some e => exact checked_error rfl _ st
          | none =>
            refine (checked_ok rfl _ st).trans ?_
            obtain ⟨cpuPrev, ioPrev, memPrev, hasPrev⟩ := st
            simp only [safeDelta_eq]
            cases hasPrev with
            | false => rfl
            | true => rfl

end ResourceAgent
