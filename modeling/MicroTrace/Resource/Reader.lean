import MicroTrace.Library.JsonLines
import MicroTrace.Collector.Lines
import MicroTrace.Collector.Outbound
import MicroTrace.Resource.Instances

/- The snapshots of resource_agent on their way into the collector (resource/reader.go): a line
   of JSON each, read with json.Unmarshal. The agent may be killed at any time, so what has been
   written may end anywhere. -/
namespace CollectorResource
open CollectorModel Json LineStream Runs Text ResourceAgent

section Reader

variable (F : FloatText)

/- strconv.ParseUint and strconv.ParseInt with 64 bits. -/
def readUint (v : Value) : Option UInt64 :=
  v.nat?.bind fun n => if n < 2 ^ 64 then some (UInt64.ofNat n) else none

def readInt (v : Value) : Option Int :=
  v.int?.bind fun n => if -2 ^ 63 ≤ n ∧ n < 2 ^ 63 then some n else none

/- A number out of range is an error. -/
def readFloat : Value → Option Float64
  | .number t => if (F.parse t).isFinite then some (F.parse t) else none
  | _ => none

/- A null leaves the field as it is. -/
def storing {A : Type} (read : Value → Option A) (set : ResourceSnapshot → A → ResourceSnapshot)
    (s : ResourceSnapshot) : Value → Option ResourceSnapshot
  | .null => some s
  | v => (read v).map (set s)

abbrev Setter := ResourceSnapshot → Value → Option ResourceSnapshot

def setters : List (String × Setter) :=
  [("service_name", storing Value.text? fun s t => { s with serviceName := t }),
    ("timestamp_ms", storing readInt fun s n => { s with timestampMs := n }),
    ("cpu_pct", storing (readFloat F) fun s x => { s with cpuPct := x }),
    ("cpu_throttle_pct", storing (readFloat F) fun s x => { s with cpuThrottlePct := x }),
    ("mem_current_bytes", storing readUint fun s n => { s with memCurrentBytes := n }),
    ("mem_limit_bytes", storing readUint fun s n => { s with memLimitBytes := n }),
    ("mem_pressure_pct", storing (readFloat F) fun s x => { s with memPressurePct := x }),
    ("io_read_bytes_per_s", storing readUint fun s n => { s with ioReadBytesPerS := n }),
    ("io_write_bytes_per_s", storing readUint fun s n => { s with ioWriteBytesPerS := n }),
    ("io_wait_pct", storing (readFloat F) fun s x => { s with ioWaitPct := x }),
    ("oom_kill_count", storing readUint fun s n => { s with oomKillCount := n }),
    ("psi_mem_some_pct", storing (readFloat F) fun s x => { s with psiMemSomePct := x }),
    ("psi_mem_full_pct", storing (readFloat F) fun s x => { s with psiMemFullPct := x })]

/- A key names a field exactly or up to case. -/
def findSetter (key : List Char) : Option (String × Setter) :=
  ((setters F).find? fun f => f.1.toList = key).or
    ((setters F).find? fun f =>
      f.1.toList.map CollectorAgent.foldRune = key.map CollectorAgent.foldRune)

def storeMember (s : ResourceSnapshot) (m : List Char × Value) : Option ResourceSnapshot :=
  match findSetter F m.1 with
  | none => some s
  | some f => f.2 s m.2

def zeroSnapshot : ResourceSnapshot :=
  ⟨"", 0, .finite 0, .finite 0, 0, 0, .finite 0, 0, 0, .finite 0, 0, .finite 0, .finite 0⟩

def readSnapshot : Value → Option ResourceSnapshot
  | .null => some zeroSnapshot
  | .object members => members.foldlM (storeMember F) zeroSnapshot
  | _ => none

/-- The goroutine of SubprocessProvider.Start: what it sends on the channel. It skips a line that
    it cannot read, and a cancelled context ends it at a send. -/
def readLines (cancelAt : Option Nat) (content : List UInt8) (failed : Bool) :
    List ResourceSnapshot :=
  let snapshots := (scan content failed).lines.filterMap fun line =>
    (parse line).bind (readSnapshot F)
  match cancelAt with
  | none => snapshots
  | some k => snapshots.take k

def stdout (snapshots : List ResourceSnapshot) : List UInt8 :=
  snapshots.flatMap fun s =>
    match record (s.fields F) with
    | none => []
    | some v => printLine v ++ [newline]

end Reader

variable {F : FloatText} {s : ResourceSnapshot}

theorem record_isSome_of_encodes (finite : encodes s = true) :
    record (s.fields F) = some (object (s.fields F)) := by
  have all : (record (s.fields F)).isSome = encodes s := by
    rw [record_isSome]
    simp [ResourceSnapshot.fields, encodes, encodes_float, Bool.and_assoc]
  obtain ⟨v, made⟩ := Option.isSome_iff_exists.mp (all.trans finite)
  rw [made, record_eq made]

theorem stdout_eq {snapshots : List ResourceSnapshot}
    (finite : ∀ s ∈ snapshots, encodes s = true) :
    stdout F snapshots = stream (snapshots.map fun s => printLine (object (s.fields F))) := by
  rw [stdout, stream, List.flatMap_map]
  refine List.flatMap_congr ?_
  intro s member
  rw [record_isSome_of_encodes (finite s member)]

theorem store_named {f : String × Setter} (listed : f ∈ setters F) (s : ResourceSnapshot)
    (v : Value) : storeMember F s (f.1.toList, v) = f.2 s v := by
  have apart : ((setters F).map Prod.fst).Nodup := by simp [setters]
  simp only [storeMember, findSetter, find_named apart listed, Option.some_or]

/-- The text of a percentage is a number of JSON, and it is read as a finite one. -/
structure Percentages (F : FloatText) : Prop where
  number : ∀ q, 0 ≤ q → q ≤ 100 → IsNumber (F.format q)
  finite : ∀ q, 0 ≤ q → q ≤ 100 → (F.parse (F.format q)).isFinite = true

def reread (F : FloatText) : Float64 → Float64
  | .finite q => F.parse (F.format q)
  | x => x

def received (F : FloatText) (s : ResourceSnapshot) : ResourceSnapshot :=
  { s with
    cpuPct := reread F s.cpuPct
    cpuThrottlePct := reread F s.cpuThrottlePct
    memPressurePct := reread F s.memPressurePct
    ioWaitPct := reread F s.ioWaitPct
    psiMemSomePct := reread F s.psiMemSomePct
    psiMemFullPct := reread F s.psiMemFullPct }

theorem reread_exact {x : Float64} (reads : F.Reads x) : reread F x = x := by
  cases x with
  | finite q => exact FloatText.Exact.back reads
  | _ => rfl

theorem received_exact (carries : F.Carries (.resource s)) : received F s = s := by
  simp only [FloatText.Carries, OutboundMsg.floats, List.forall_mem_cons] at carries
  obtain ⟨cpu, throttle, memory, io, part, full, _⟩ := carries
  rw [received, reread_exact cpu, reread_exact throttle, reread_exact memory, reread_exact io,
    reread_exact part, reread_exact full]

section Percent

def Percent : Float64 → Prop
  | .finite q => 0 ≤ q ∧ q ≤ 100
  | _ => True

def Percents (s : ResourceSnapshot) : Prop := ∀ x ∈ OutboundMsg.floats (.resource s), Percent x

theorem percent_zero : Percent (.finite 0) := ⟨by norm_num, by norm_num⟩

theorem percent_clamp (x : Float64) : Percent (clamp100 x) := by
  cases x with
  | finite v =>
    simp only [clamp100]
    split
    · exact percent_zero
    · rename_i low
      split
      · exact ⟨by norm_num, by norm_num⟩
      · rename_i high
        exact ⟨not_lt.mp low, not_lt.mp high⟩
  | posInf => exact ⟨by norm_num, by norm_num⟩
  | negInf => exact percent_zero
  | nan => trivial

theorem percent_pressure (deltaHigh : ℕ) : Percent (memPressureScore deltaHigh) := by
  unfold memPressureScore
  split
  · exact percent_zero
  · exact percent_clamp _

theorem percent_wait (file : File) : Percent (orZero (readIOWaitPct file)) := by
  have of_words (words : List (List Char)) : Percent (ioWaitOf words) := by
    unfold ioWaitOf
    split
    · exact percent_zero
    · dsimp only
      split
      · exact percent_zero
      · exact percent_clamp _
  cases file with
  | missing => exact percent_zero
  | opened content failed =>
    simp only [readIOWaitPct]
    split
    · exact percent_zero
    · exact of_words _

theorem percent_psi (parseFloat : List Char → Option Float64) (file : File) :
    Percent (readPSIMemory parseFloat file).1 ∧ Percent (readPSIMemory parseFloat file).2 := by
  cases file with
  | missing => exact ⟨percent_zero, percent_zero⟩
  | opened content failed =>
    have step (result : Float64 × Float64) (line : List Char)
        (before : Percent result.1 ∧ Percent result.2) :
        Percent (psiLine parseFloat result line).1 ∧
          Percent (psiLine parseFloat result line).2 := by
      unfold psiLine
      split
      · exact before
      · exact before
      · split
        · exact before
        · split
          · exact ⟨percent_clamp _, before.2⟩
          · split
            · exact ⟨before.1, percent_clamp _⟩
            · exact before
    exact List.foldlRecOn _ _ ⟨percent_zero, percent_zero⟩ fun result before line _ =>
      step result line before

theorem percents_snapshot (floats : Floats) (c : Call) (d : Deltas) :
    Percents (snapshotOf floats c d) := by
  obtain ⟨part, full⟩ := percent_psi floats.parseFloat
    (c.files (c.cgroupPath ++ "/memory.pressure"))
  simp only [Percents, OutboundMsg.floats, List.forall_mem_cons, snapshotOf]
  exact ⟨percent_clamp _, percent_clamp _, percent_pressure _, percent_wait _, part, full,
    List.forall_mem_nil _⟩

end Percent

section Stored

variable {A : Type} (read : Value → Option A) (set : ResourceSnapshot → A → ResourceSnapshot)

@[simp] theorem storing_number (s : ResourceSnapshot) (t : List Char) :
    storing read set s (.number t) = (read (.number t)).map (set s) := rfl

@[simp] theorem storing_text (s : ResourceSnapshot) (t : List Char) :
    storing read set s (.string t) = (read (.string t)).map (set s) := rfl

end Stored

theorem read_float (text : Percentages F) {x : Float64} (finite : x.isFinite = true)
    (percent : Percent x) :
    ∃ t, floatEntry F x = .value (.number t) ∧ readFloat F (.number t) = some (reread F x) := by
  cases x with
  | finite q => exact ⟨F.format q, rfl, if_pos (text.finite q percent.1 percent.2)⟩
  | _ => cases finite

theorem writes_percent (text : Percentages F) {x : Float64} (percent : Percent x) :
    F.Writes x := by
  cases x with
  | finite q => exact text.number q percent.1 percent.2
  | _ => trivial

@[simp] theorem read_uint (n : UInt64) :
    readUint (.number (Nat.toDigits 10 n.toNat)) = some n := by
  have small : n.toNat < 2 ^ 64 := n.toNat_lt
  have read : (Value.number (Nat.toDigits 10 n.toNat)).nat? = some n.toNat :=
    digits_toDigits n.toNat
  rw [readUint, read, Option.bind_some, if_pos small, UInt64.ofNat_toNat]

theorem read_int {n : Int} (fits : -2 ^ 63 ≤ n ∧ n < 2 ^ 63) :
    readInt (.number (intText n)) = some n := by
  rw [readInt, int_intText, Option.bind_some, if_pos fits]

theorem store_members (pairs : List ((String × Setter) × Value))
    (listed : ∀ p ∈ pairs, p.1 ∈ setters F) (s : ResourceSnapshot) :
    (pairs.map fun p => (p.1.1.toList, p.2)).foldlM (storeMember F) s =
      pairs.foldlM (fun s p => p.1.2 s p.2) s := by
  induction pairs generalizing s with
  | nil => rfl
  | cons p pairs ih =>
    obtain ⟨first, later⟩ := List.forall_mem_cons.mp listed
    rw [List.map_cons, List.foldlM_cons, List.foldlM_cons, store_named first]
    exact bind_congr fun next => ih later next

theorem read_object (text : Percentages F) (finite : encodes s = true) (percents : Percents s)
    (time : -2 ^ 63 ≤ s.timestampMs ∧ s.timestampMs < 2 ^ 63) :
    readSnapshot F (object (s.fields F)) = some (received F s) := by
  simp only [Percents, OutboundMsg.floats, List.forall_mem_cons] at percents
  obtain ⟨cpu, throttle, memory, io, part, full, _⟩ := percents
  simp only [encodes, Bool.and_eq_true, and_assoc] at finite
  obtain ⟨cpu', throttle', memory', io', part', full'⟩ := finite
  obtain ⟨t₁, eq₁, read₁⟩ := read_float text cpu' cpu
  obtain ⟨t₂, eq₂, read₂⟩ := read_float text throttle' throttle
  obtain ⟨t₃, eq₃, read₃⟩ := read_float text memory' memory
  obtain ⟨t₄, eq₄, read₄⟩ := read_float text io' io
  obtain ⟨t₅, eq₅, read₅⟩ := read_float text part' part
  obtain ⟨t₆, eq₆, read₆⟩ := read_float text full' full
  let values : List Value := [.string s.serviceName.toList, .number (intText s.timestampMs),
    .number t₁, .number t₂, .number (Nat.toDigits 10 s.memCurrentBytes.toNat),
    .number (Nat.toDigits 10 s.memLimitBytes.toNat), .number t₃,
    .number (Nat.toDigits 10 s.ioReadBytesPerS.toNat),
    .number (Nat.toDigits 10 s.ioWriteBytesPerS.toNat), .number t₄,
    .number (Nat.toDigits 10 s.oomKillCount.toNat), .number t₅, .number t₆]
  have members : (s.fields F).filterMap entryMember =
      ((setters F).zip values).map fun p => (p.1.1.toList, p.2) := by
    rw [ResourceSnapshot.fields, eq₁, eq₂, eq₃, eq₄, eq₅, eq₆]
    rfl
  rw [object, readSnapshot, members, store_members _ fun p member => List.of_mem_zip member |>.1]
  simp [setters, values, received, Value.text?, read_int time, read₁, read₂, read₃, read₄, read₅,
    read₆]

section Stream

def line (F : FloatText) (s : ResourceSnapshot) : List UInt8 := printLine (object (s.fields F))

def readLine (F : FloatText) (line : List UInt8) : Option ResourceSnapshot :=
  (parseLine line).bind (readSnapshot F)

theorem kept_snapshot (text : Percentages F) (finite : encodes s = true) (percents : Percents s)
    (time : -2 ^ 63 ≤ s.timestampMs ∧ s.timestampMs < 2 ^ 63) :
    Kept (line F) (readLine F) (received F) s := by
  have writes : ∀ x ∈ OutboundMsg.floats (.resource s), F.Writes x :=
    fun x there => writes_percent text (percents x there)
  exact kept_object rfl (fits_resource (record_isSome_of_encodes finite) writes 0) (by decide)
    (read_object text finite percents time)

variable {cfg : Config} {m m' : Agent} {out : List ResourceSnapshot}

theorem printed_encodes (result : Except Failure (Option ResourceSnapshot)) :
    ∀ s ∈ printed result, encodes s = true := by
  unfold printed
  split
  · simp
  · simp
  · split
    · rename_i finite
      simpa using finite
    · simp

theorem printed_percents {c : Call} {st st' : ContainerState}
    {result : Except Failure (Option ResourceSnapshot)}
    (taken : readStep cfg.floats st c = some (st', [result])) :
    ∀ s ∈ printed result, Percents s := by
  rcases read_step_cases taken with ⟨_, _, _, same⟩ | ⟨_, _, _, ⟨_, same⟩ | ⟨_, same⟩⟩
  · obtain rfl := List.singleton_inj.mp same
    exact List.forall_mem_nil _
  · obtain rfl := List.singleton_inj.mp same
    exact List.forall_mem_nil _
  · obtain rfl := List.singleton_inj.mp same
    simp only [printed]
    split
    · exact List.forall_mem_singleton.mpr (percents_snapshot _ _ _)
    · exact List.forall_mem_nil _

theorem visit_prints {v : Visit} (taken : visit cfg m v = some (m', out)) :
    ∀ s ∈ out, encodes s = true ∧ Percents s := by
  obtain ⟨later, _⟩ := visit_later taken
  cases called : v.call cfg with
  | none =>
    rw [visit, if_pos later, called] at taken
    cases taken
    exact List.forall_mem_nil _
  | some c =>
    obtain ⟨result, st, read, _, rfl⟩ := visit_call called later taken
    exact fun s there => ⟨printed_encodes result s there, printed_percents read s there⟩

theorem collect_prints {clock : Time} {ticks : List Tick}
    (run : exec (collect cfg) (Agent.start clock) ticks = some (m, out)) :
    ∀ s ∈ out, encodes s = true ∧ Percents s := by
  refine exec_history (I := fun _ _ out => ∀ s ∈ out, encodes s = true ∧ Percents s) (by simp) ?_
    (collect_run run)
  intro _ _ _ _ out o _ before taken
  exact List.forall_mem_append.mpr ⟨before, visit_prints taken⟩

theorem readLines_eq {content : List UInt8} (short : Short content) (cancelAt : Option ℕ)
    (failed : Bool) : readLines F cancelAt content failed =
      let snapshots := (rawLines content).filterMap (readLine F)
      match cancelAt with
      | none => snapshots
      | some k => snapshots.take k := by
  have lines : (scan content failed).lines.filterMap (fun line =>
      (parse line).bind (readSnapshot F)) = (rawLines content).filterMap (readLine F) := by
    rw [scan_short short, linesOf, List.filterMap_map]
    rfl
  simp only [readLines, lines]

/-- Whatever the agent has collected, and wherever its output ends: the collector gets the
    snapshots of the whole lines in their order and no other, with each percentage as its text is
    read and everything else as it was. -/
theorem snapshots_survive_cut (text : Percentages F) {clock : Time} {ticks : List Tick}
    (run : exec (collect cfg) (Agent.start clock) ticks = some (m, out))
    (time : ∀ s ∈ out, -2 ^ 63 ≤ s.timestampMs ∧ s.timestampMs < 2 ^ 63)
    (short : ∀ s ∈ out, (line F s).length < maxTokenSize) (cut : ℕ) (failed : Bool) :
    let sent := out.map (received F)
    let arrived := sent.take (whole (out.map (line F)) cut)
    readLines F none ((stdout F out).take cut) failed = arrived ∧
      (∀ k, readLines F (some k) ((stdout F out).take cut) failed = arrived.take k) ∧
      ((stdout F out).length ≤ cut + 1 → arrived = sent) ∧
      ((∀ s ∈ out, F.Carries (.resource s)) → sent = out) := by
  have prints := collect_prints run
  have kept : ∀ s ∈ out, Kept (line F) (readLine F) (received F) s := fun s member =>
    kept_snapshot text (prints s member).1 (prints s member).2 (time s member)
  have printed : stdout F out = stream (out.map (line F)) :=
    stdout_eq fun s member => (prints s member).1
  have arrived := read_take kept cut
  rw [List.map_take] at arrived
  have read (cancelAt : Option ℕ) :=
    readLines_eq (F := F) (short_take kept short cut) cancelAt failed
  rw [printed]
  refine ⟨?_, ?_, ?_, ?_⟩
  · rw [read, arrived]
  · intro k
    rw [read, arrived]
  · intro all
    rw [whole_all _ all, List.length_map, ← List.length_map (received F), List.take_length]
  · intro carries
    exact (List.map_congr_left fun s member => received_exact (carries s member)).trans
      (List.map_id out)

end Stream

def busySeconds : List Tick :=
  [.listed 1000 [dbItem "a" "usage_usec 100\n" 1000000000],
   .listed 2000 [dbItem "a" "usage_usec 200100\n" 2000000000]]

def busySnapshot : ResourceSnapshot :=
  ⟨"db", 2000, .finite 20, .finite 0, 4096, 0, .finite 0, 0, 0, .finite 0, 0, .finite 0, .finite 0⟩

theorem wholeText_percentages : Percentages wholeText where
  number q _ _ := number_int q.num
  finite q _ _ := by simp [wholeText, int_intText, Float64.isFinite]

theorem busy_second_survives : ∃ m,
    exec (collect everySecond) (Agent.start 0) busySeconds = some (m, [busySnapshot]) ∧
      readLines wholeText none
        ((stdout wholeText [busySnapshot]).take ((stdout wholeText [busySnapshot]).length - 1))
        false = [busySnapshot] := by
  obtain ⟨m, out, run, rfl⟩ : ∃ m out,
      exec (collect everySecond) (Agent.start 0) busySeconds = some (m, out) ∧
        out = [busySnapshot] := ⟨_, _, rfl, by decide +kernel⟩
  have time : ∀ s ∈ [busySnapshot], -2 ^ 63 ≤ s.timestampMs ∧ s.timestampMs < 2 ^ 63 := by
    decide +kernel
  have short : ∀ s ∈ [busySnapshot], (line wholeText s).length < maxTokenSize := by decide +kernel
  have carries : ∀ s ∈ [busySnapshot], wholeText.Carries (.resource s) := by decide +kernel
  obtain ⟨read, _, all, same⟩ := snapshots_survive_cut wholeText_percentages run time short
    ((stdout wholeText [busySnapshot]).length - 1) false
  exact ⟨m, run, read.trans ((all (by omega)).trans (same carries))⟩

end CollectorResource
