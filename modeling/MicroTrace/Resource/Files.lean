import MicroTrace.Library.Text
import MicroTrace.Collector.Model

/- The files resource_agent/main.go reads, and what it makes of their lines. A reader returns
   its result next to its error, as the source does. Percentages are exact rationals. -/
namespace ResourceAgent
open CollectorModel Text

structure CpuPrev where
  usageUsec : ℕ
  throttledUs : ℕ
  nrThrottled : ℕ
  deriving DecidableEq

structure IoPrev where
  rbytes : ℕ
  wbytes : ℕ
  deriving DecidableEq

structure MemPrev where
  high : ℕ
  oomKill : ℕ
  deriving DecidableEq

/- Lines of a key and a value; `set` stores the value. Any other line is skipped. -/
def keyedLine {R : Type} (set : List Char → ℕ → R → R) (result : R) (line : List Char) : R :=
  match fields line with
  | [] => result
  | [_] => result
  | [key, text] =>
      match parseUint text with
      | .value val => set key val result
      | .malformed => result
      | .outOfRange => result
  | _ :: _ :: _ :: _ => result

def readKeyed {R : Type} (set : List Char → ℕ → R → R) (zero : R) : File → R × Option FileError
  | .missing => (zero, some .notOpened)
  | .opened content failed =>
      ((scan content failed).lines.foldl (keyedLine set) zero, (scan content failed).err)

def CpuPrev.store (key : List Char) (val : ℕ) (result : CpuPrev) : CpuPrev :=
  if key = "usage_usec".toList then { result with usageUsec := val }
  else if key = "throttled_usec".toList then { result with throttledUs := val }
  else if key = "nr_throttled".toList then { result with nrThrottled := val }
  else result

def readCPUStat : File → CpuPrev × Option FileError := readKeyed CpuPrev.store ⟨0, 0, 0⟩

def MemPrev.store (key : List Char) (val : ℕ) (result : MemPrev) : MemPrev :=
  if key = "high".toList then { result with high := val }
  else if key = "oom_kill".toList then { result with oomKill := val }
  else result

def readMemoryEvents : File → MemPrev × Option FileError := readKeyed MemPrev.store ⟨0, 0⟩

def ioField (result : IoPrev) (field : List Char) : IoPrev :=
  match cutAt '=' field with
  | none => result
  | some (key, text) =>
      match parseUint text with
      | .value val =>
          if key = "rbytes".toList then { result with rbytes := wrap64 (result.rbytes + val) }
          else if key = "wbytes".toList then { result with wbytes := wrap64 (result.wbytes + val) }
          else result
      | .malformed => result
      | .outOfRange => result

/- The code drops the first word of every line. Without one the slice is out of range and the
   agent panics: none. -/
def ioLine (result : IoPrev) (line : List Char) : Option IoPrev :=
  match fields line with
  | [] => none
  | _ :: rest => some (rest.foldl ioField result)

/- A file that can not be opened counts as zero, without an error. -/
def readIOStat : File → Option (IoPrev × Option FileError)
  | .missing => some (⟨0, 0⟩, none)
  | .opened content failed =>
      ((scan content failed).lines.foldlM ioLine ⟨0, 0⟩).map fun result =>
        (result, (scan content failed).err)

/- A text that is no number, such as max, is zero. -/
def readUint64File : File → ℕ × Option FileError
  | .missing => (0, some .notOpened)
  | .opened _ true => (0, some .notRead)
  | .opened content false =>
      match parseUint (trimSpace (Utf8.decode content)) with
      | .value val => (val, none)
      | .malformed => (0, none)
      | .outOfRange => (0, none)

def clamp100 : Float64 → Float64
  | .finite v => if v < 0 then .finite 0 else if 100 < v then .finite 100 else .finite v
  | .posInf => .finite 100
  | .negInf => .finite 0
  | .nan => .nan

/- The value next to an ignored error: the largest one when it is out of range. -/
def parseUintOrZero (text : List Char) : ℕ :=
  match parseUint text with
  | .value val => val
  | .malformed => 0
  | .outOfRange => 2 ^ 64 - 1

def ioWaitOf (words : List (List Char)) : Float64 :=
  if words.length < 6 then .finite 0
  else
    let vals := words.tail.map parseUintOrZero
    let total := vals.foldl (fun total v => wrap64 (total + v)) 0
    if total = 0 then .finite 0
    else clamp100 (.finite ((vals.getD 4 0 : ℚ) / total * 100))

def readIOWaitPct : File → Float64 × Option FileError
  | .missing => (.finite 0, some .notOpened)
  | .opened content failed =>
      match (scan content failed).lines.find? ("cpu ".toList.isPrefixOf) with
      | none => (.finite 0, none)
      | some line => (ioWaitOf (fields line), none)

def psiValue (parseFloat : List Char → Option Float64) (kvs : List (List Char)) :
    Option Float64 :=
  (kvs.find? ("avg10=".toList.isPrefixOf)).bind fun kv => parseFloat (kv.drop 6)

def psiLine (parseFloat : List Char → Option Float64) (result : Float64 × Float64)
    (line : List Char) : Float64 × Float64 :=
  match fields line with
  | [] => result
  | [_] => result
  | kind :: kv :: kvs =>
      match psiValue parseFloat (kv :: kvs) with
      | none => result
      | some val =>
          if kind = "some".toList then (clamp100 val, result.2)
          else if kind = "full".toList then (result.1, clamp100 val)
          else result

def readPSIMemory (parseFloat : List Char → Option Float64) : File → Float64 × Float64
  | .missing => (.finite 0, .finite 0)
  | .opened content failed =>
      (scan content failed).lines.foldl (psiLine parseFloat) (.finite 0, .finite 0)

def safeDeltaU64 (curr prev : ℕ) : ℕ := if curr < prev then 0 else curr - prev

theorem safeDelta_eq (curr prev : ℕ) : safeDeltaU64 curr prev = curr - prev := by
  unfold safeDeltaU64
  split <;> omega

/- The sum 1 + deltaHigh is a uint64; 1 / 0 is infinite. -/
def memPressureScore (deltaHigh : ℕ) : Float64 :=
  if deltaHigh = 0 then .finite 0
  else
    let n := wrap64 (1 + deltaHigh)
    clamp100 (if n = 0 then .negInf else .finite ((1 - 1 / (n : ℚ)) * 100))

def entry (key line : List Char) : Option ℕ :=
  match fields line with
  | [] => none
  | [_] => none
  | [k, text] => if k = key then decimal text else none
  | _ :: _ :: _ :: _ => none

def lastValue (key : String) (lines : List (List Char)) : ℕ :=
  ((lines.filterMap (entry key.toList)).getLast?).getD 0

def assigned (key word : List Char) : Option ℕ :=
  if (key ++ ['=']).isPrefixOf word then decimal (word.drop (key.length + 1)) else none

def total (key : String) (lines : List (List Char)) : ℕ :=
  ((lines.flatMap fun line => (fields line).tail).filterMap (assigned key.toList)).sum

section Keyed

variable {R : Type} {set : List Char → ℕ → R → R} {get : R → ℕ} {key : List Char}
  (law : ∀ k v r, get (set k v r) = if k = key then v else get r)

include law in
theorem keyed_line (result : R) (line : List Char) :
    get (keyedLine set result line) = (entry key line).getD (get result) := by
  unfold keyedLine entry
  match fields line with
  | [] => rfl
  | [_] => rfl
  | [k, text] =>
    dsimp only
    rw [decimal_eq]
    cases parseUint text with
    | value val =>
      rw [law, Parsed.toOption]
      split <;> rfl
    | malformed =>
      rw [Parsed.toOption, ite_self]
      rfl
    | outOfRange =>
      rw [Parsed.toOption, ite_self]
      rfl
  | _ :: _ :: _ :: _ => rfl

include law in
theorem keyed_last (lines : List (List Char)) (result : R) :
    get (lines.foldl (keyedLine set) result) =
      ((lines.filterMap (entry key)).getLast?).getD (get result) := by
  induction lines generalizing result with
  | nil => rfl
  | cons line lines ih =>
    rw [List.foldl_cons, ih, keyed_line law]
    cases found : entry key line with
    | none => rw [List.filterMap_cons_none found, Option.getD_none]
    | some val =>
      rw [List.filterMap_cons_some found, List.getLast?_cons, Option.getD_some, Option.getD_some]

end Keyed

theorem store_usage (key : List Char) (val : ℕ) (result : CpuPrev) :
    (CpuPrev.store key val result).usageUsec =
      if key = "usage_usec".toList then val else result.usageUsec := by
  unfold CpuPrev.store
  split
  · rfl
  · split
    · rfl
    · split <;> rfl

theorem store_throttled (key : List Char) (val : ℕ) (result : CpuPrev) :
    (CpuPrev.store key val result).throttledUs =
      if key = "throttled_usec".toList then val else result.throttledUs := by
  unfold CpuPrev.store
  split
  · rename_i other
    rw [other, if_neg (by decide)]
  · split
    · rfl
    · split <;> rfl

theorem store_nr_throttled (key : List Char) (val : ℕ) (result : CpuPrev) :
    (CpuPrev.store key val result).nrThrottled =
      if key = "nr_throttled".toList then val else result.nrThrottled := by
  unfold CpuPrev.store
  split
  · rename_i other
    rw [other, if_neg (by decide)]
  · split
    · rename_i other
      rw [other, if_neg (by decide)]
    · split <;> rfl

theorem store_high (key : List Char) (val : ℕ) (result : MemPrev) :
    (MemPrev.store key val result).high = if key = "high".toList then val else result.high := by
  unfold MemPrev.store
  split
  · rfl
  · split <;> rfl

theorem store_oom_kill (key : List Char) (val : ℕ) (result : MemPrev) :
    (MemPrev.store key val result).oomKill =
      if key = "oom_kill".toList then val else result.oomKill := by
  unfold MemPrev.store
  split
  · rename_i other
    rw [other, if_neg (by decide)]
  · split <;> rfl

theorem cpu_stat_last (content : List UInt8) (failed : Bool) :
    readCPUStat (.opened content failed) =
      (⟨lastValue "usage_usec" (scan content failed).lines,
        lastValue "throttled_usec" (scan content failed).lines,
        lastValue "nr_throttled" (scan content failed).lines⟩, (scan content failed).err) := by
  have usage := keyed_last store_usage (scan content failed).lines ⟨0, 0, 0⟩
  have throttled := keyed_last store_throttled (scan content failed).lines ⟨0, 0, 0⟩
  have times := keyed_last store_nr_throttled (scan content failed).lines ⟨0, 0, 0⟩
  rw [readCPUStat, readKeyed, Prod.mk.injEq, CpuPrev.mk.injEq]
  exact ⟨⟨usage, throttled, times⟩, rfl⟩

theorem memory_events_last (content : List UInt8) (failed : Bool) :
    readMemoryEvents (.opened content failed) =
      (⟨lastValue "high" (scan content failed).lines,
        lastValue "oom_kill" (scan content failed).lines⟩, (scan content failed).err) := by
  have high := keyed_last store_high (scan content failed).lines ⟨0, 0⟩
  have kills := keyed_last store_oom_kill (scan content failed).lines ⟨0, 0⟩
  rw [readMemoryEvents, readKeyed, Prod.mk.injEq, MemPrev.mk.injEq]
  exact ⟨⟨high, kills⟩, rfl⟩

section Devices

theorem assigned_of_cut {key field : List Char} (free : '=' ∉ key) :
    assigned key field = (cutAt '=' field).bind fun parts =>
      if parts.1 = key then decimal parts.2 else none := by
  unfold assigned
  split
  · rename_i found
    obtain ⟨text, rfl⟩ := List.isPrefixOf_iff_prefix.mp found
    rw [List.append_assoc, List.singleton_append, cutAt_join free]
    simp
  · rename_i missing
    cases cut : cutAt '=' field with
    | none => rfl
    | some parts =>
      obtain ⟨k, text⟩ := parts
      have whole := cutAt_some cut
      rw [Option.bind_some]
      split
      · rename_i same
        obtain rfl : k = key := same
        refine absurd (List.isPrefixOf_iff_prefix.mpr ⟨text, ?_⟩) missing
        rw [whole, List.append_assoc, List.singleton_append]
      · rfl

theorem wrap64_add (a b : ℕ) : wrap64 (wrap64 a + b) = wrap64 (a + b) := Nat.mod_add_mod a _ b

theorem io_field (r w : ℕ) (field : List Char) :
    ioField ⟨wrap64 r, wrap64 w⟩ field =
      ⟨wrap64 (r + (assigned "rbytes".toList field).getD 0),
        wrap64 (w + (assigned "wbytes".toList field).getD 0)⟩ := by
  rw [assigned_of_cut (by decide), assigned_of_cut (by decide), ioField]
  cases cutAt '=' field with
  | none => rfl
  | some parts =>
    obtain ⟨key, text⟩ := parts
    dsimp only [Option.bind_some]
    rw [decimal_eq]
    cases parseUint text with
    | value val =>
      dsimp only [Parsed.toOption]
      rw [wrap64_add, wrap64_add]
      split
      · rename_i reads
        rw [if_neg (by rw [reads]; decide)]
        rfl
      · split
        · rfl
        · rfl
    | malformed =>
      dsimp only [Parsed.toOption]
      rw [ite_self, ite_self]
      rfl
    | outOfRange =>
      dsimp only [Parsed.toOption]
      rw [ite_self, ite_self]
      rfl

theorem sum_assigned_cons (key field : List Char) (fields : List (List Char)) :
    ((field :: fields).filterMap (assigned key)).sum =
      (assigned key field).getD 0 + (fields.filterMap (assigned key)).sum := by
  cases found : assigned key field with
  | none => rw [List.filterMap_cons_none found, Option.getD_none, Nat.zero_add]
  | some val => rw [List.filterMap_cons_some found, List.sum_cons, Option.getD_some]

theorem io_fields (r w : ℕ) (fields : List (List Char)) :
    fields.foldl ioField ⟨wrap64 r, wrap64 w⟩ =
      ⟨wrap64 (r + (fields.filterMap (assigned "rbytes".toList)).sum),
        wrap64 (w + (fields.filterMap (assigned "wbytes".toList)).sum)⟩ := by
  induction fields generalizing r w with
  | nil => rfl
  | cons field fields ih =>
    rw [List.foldl_cons, io_field, ih, sum_assigned_cons, sum_assigned_cons, Nat.add_assoc,
      Nat.add_assoc]

theorem total_cons (key : String) (line : List Char) (lines : List (List Char)) :
    total key (line :: lines) =
      ((fields line).tail.filterMap (assigned key.toList)).sum + total key lines := by
  rw [total, List.flatMap_cons, List.filterMap_append, List.sum_append]
  rfl

theorem io_lines (r w : ℕ) (lines : List (List Char)) :
    lines.foldlM ioLine ⟨wrap64 r, wrap64 w⟩ =
      if ∀ line ∈ lines, fields line ≠ [] then
        some ⟨wrap64 (r + total "rbytes" lines), wrap64 (w + total "wbytes" lines)⟩
      else none := by
  induction lines generalizing r w with
  | nil => rfl
  | cons line lines ih =>
    rw [List.foldlM_cons, ioLine]
    cases words : fields line with
    | nil =>
      rw [if_neg fun all => all line List.mem_cons_self words]
      rfl
    | cons word rest =>
      have tail : (fields line).tail = rest := by rw [words, List.tail_cons]
      have filled : (∀ l ∈ line :: lines, fields l ≠ []) ↔ ∀ l ∈ lines, fields l ≠ [] := by
        rw [List.forall_mem_cons, words]
        exact and_iff_right (List.cons_ne_nil word rest)
      rw [total_cons, total_cons, tail, ← Nat.add_assoc, ← Nat.add_assoc]
      dsimp only [Option.bind_eq_bind, Option.bind_some]
      rw [io_fields, ih]
      simp only [filled]

theorem io_stat_total (content : List UInt8) (failed : Bool) :
    readIOStat (.opened content failed) =
      if ∀ line ∈ (scan content failed).lines, fields line ≠ [] then
        some (⟨wrap64 (total "rbytes" (scan content failed).lines),
          wrap64 (total "wbytes" (scan content failed).lines)⟩, (scan content failed).err)
      else none := by
  have loop := io_lines 0 0 (scan content failed).lines
  have zero : (⟨0, 0⟩ : IoPrev) = ⟨wrap64 0, wrap64 0⟩ := rfl
  rw [Nat.zero_add, Nat.zero_add] at loop
  rw [readIOStat, zero, loop, apply_ite (Option.map _)]
  rfl

end Devices

def Summed (content : List UInt8) (failed : Bool) : Prop :=
  readIOStat (.opened content failed) =
    some (⟨wrap64 (total "rbytes" (scan content failed).lines),
      wrap64 (total "wbytes" (scan content failed).lines)⟩, (scan content failed).err)

/-- io.stat is summed exactly when every line has a word; a blank line is a panic. The other
    two files are read whatever they contain. Lines of less than 64 KiB are all delivered. -/
theorem parsing_exact_iff (content : List UInt8) (failed : Bool) :
    (Summed content failed ↔
        ∀ line ∈ (scan content failed).lines, ∃ c ∈ line, isSpace c = false) ∧
      (readIOStat (.opened content failed) = none ↔
        ∃ line ∈ (scan content failed).lines, ∀ c ∈ line, isSpace c = true) ∧
      readCPUStat (.opened content failed) =
        (⟨lastValue "usage_usec" (scan content failed).lines,
          lastValue "throttled_usec" (scan content failed).lines,
          lastValue "nr_throttled" (scan content failed).lines⟩, (scan content failed).err) ∧
      readMemoryEvents (.opened content failed) =
        (⟨lastValue "high" (scan content failed).lines,
          lastValue "oom_kill" (scan content failed).lines⟩, (scan content failed).err) ∧
      (Short content → scan content false = ⟨linesOf content, none⟩) := by
  have filled (line : List Char) : fields line ≠ [] ↔ ∃ c ∈ line, isSpace c = false := by
    rw [Ne, fields_nil_iff]
    simp
  refine ⟨?_, ?_, cpu_stat_last content failed, memory_events_last content failed,
    fun short => scan_short short false⟩
  · rw [Summed, io_stat_total]
    simp [filled]
  · rw [io_stat_total]
    simp [filled]

def twoDevices : List UInt8 :=
  Utf8.ascii "8:0 rbytes=10 wbytes=7 rios=1\n8:16\n8:32 rbytes=x rbytes=5 wbytes=-1\n".toList

theorem two_devices_summed : Summed twoDevices false ∧
    scan twoDevices false = ⟨linesOf twoDevices, none⟩ ∧
    total "rbytes" (linesOf twoDevices) = 15 ∧ total "wbytes" (linesOf twoDevices) = 7 := by
  have lengths : (rawLines twoDevices).map List.length = [29, 4, 32] := by decide
  have devices : ∀ line ∈ (scan twoDevices false).lines, '8' ∈ line := by decide
  obtain ⟨summed, _, _, _, whole⟩ := parsing_exact_iff twoDevices false
  refine ⟨summed.mpr ?_, whole (short_of_lengths lengths (by decide)), by decide, by decide⟩
  intro line member
  exact ⟨'8', devices line member, by decide⟩

def blankLine : List UInt8 := Utf8.ascii "8:0 rbytes=10 wbytes=7\n\n".toList

theorem blank_line_panics : readIOStat (.opened blankLine false) = none ∧
    ¬ ∀ content, Short content → Summed content false := by
  have panics : readIOStat (.opened blankLine false) = none := by decide
  have lengths : (rawLines blankLine).map List.length = [22, 0] := by decide
  refine ⟨panics, ?_⟩
  intro claim
  have summed := claim blankLine (short_of_lengths lengths (by decide))
  rw [Summed, panics] at summed
  cases summed

end ResourceAgent
