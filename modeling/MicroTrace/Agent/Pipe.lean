import MicroTrace.Agent.Wire
import MicroTrace.Library.JsonText
import MicroTrace.Library.LineStream

/- The agent and the reader of the collector on the two ends of a pipe. The sock_ops program
   runs for the sockets of a host in any order, its events are printed in the format that
   MICROTRACE_WIRE names, and the agent may be killed at any time. -/
namespace AgentOutput
open AgentSockOps CollectorModel CollectorAgent Json LineStream Runs
open Text (rawLines Short)
open Utf8 (ascii Ascii decode_ascii)

/- The value of the variable in the environment that the agent inherits from the collector. -/
abbrev Wire := Option (List UInt8)

/- main of tcp_trace.c. An empty value has its terminator in front. -/
def useProtobuf : Wire → Bool
  | none => false
  | some wire => wire.headD 0 = 0x70 || wire.headD 0 = 0x50

/- NewSubprocessProvider. os.Getenv does not tell an unset variable from an empty one. -/
def protobuf (wire : Wire) : Bool :=
  let wire := wire.getD []
  0 < wire.length && (wire.headD 0 = 0x70 || wire.headD 0 = 0x50)

theorem same_format (wire : Wire) : useProtobuf wire = protobuf wire := by
  rcases wire with - | - | ⟨b, wire⟩
  · rfl
  · rfl
  · simp [useProtobuf, protobuf]

def handleEvent (pbEncode : Encoder) (wire : Wire) (e : RingEvent) : List UInt8 :=
  if useProtobuf wire then outputEventPb pbEncode e else outputEvent e

def readStream (wire : Wire) (unmarshal : List UInt8 → Option PbEvent) (cancelAt : Option ℕ)
    (bytes : List UInt8) : CollectorAgent.Reading :=
  if protobuf wire then readProtobuf unmarshal cancelAt bytes else readJSON cancelAt bytes

section Host

variable {Conn : Type} [DecidableEq Conn]

/- The program runs for one socket at a time. -/
def host : Stepper (Conn → Socket) (Conn × Stimulus) RingEvent := fun socks l =>
  (kernel (socks l.1) l.2).map fun r => (Function.update socks l.1 r.1, r.2)

def Filled (e : RingEvent) : Prop :=
  ∃ view type latency, e = fillEvent view type latency ∧ latency.toNat < 2 ^ 29

theorem srtt_small (view : SockView) : (srttReal view).toNat < 2 ^ 29 := by
  have small := view.srttUs.toNat_lt
  rw [srttReal, UInt32.toNat_toUInt64, UInt32.toNat_shiftRight]
  show view.srttUs.toNat >>> 3 < 536870912
  rw [Nat.shiftRight_eq_div_pow]
  omega

theorem reported_filled {st : Stimulus} {e : RingEvent} (reported : e ∈ st.report) : Filled e := by
  unfold Stimulus.report at reported
  split at reported
  · exact ⟨_, _, _, List.mem_singleton.mp reported, srtt_small st.view⟩
  · exact ⟨_, _, _, List.mem_singleton.mp reported, srtt_small st.view⟩
  · exact ⟨_, _, _, List.mem_singleton.mp reported, by decide⟩
  · cases reported

theorem kernel_reported {sock t : Socket} {st : Stimulus} {o : List RingEvent}
    (taken : kernel sock st = some (t, o)) : ∀ e ∈ o, e ∈ st.report := by
  obtain ⟨happening, view, room⟩ := st
  intro e member
  cases happening <;>
    grind [kernel, Socket.invoke, Socket.invokeIf, handleSockOps, Stimulus.report]

theorem host_reported {socks socks' : Conn → Socket} {labels : List (Conn × Stimulus)}
    {events : List RingEvent} (run : exec host socks labels = some (socks', events)) :
    ∀ e ∈ events, ∃ l ∈ labels, e ∈ l.2.report := by
  refine exec_history (I := fun ls _ events => ∀ e ∈ events, ∃ l ∈ ls, e ∈ l.2.report) (by simp)
    ?_ run
  intro ls _ _ l out o _ before taken e member
  obtain ⟨⟨sock, told⟩, invoked, made⟩ := Option.map_eq_some_iff.mp taken
  cases made
  rcases List.mem_append.mp member with earlier | now
  · obtain ⟨l', there, reported⟩ := before e earlier
    exact ⟨l', List.mem_append_left _ there, reported⟩
  · exact ⟨l, by simp, kernel_reported invoked e now⟩

theorem host_filled {socks socks' : Conn → Socket} {labels : List (Conn × Stimulus)}
    {events : List RingEvent} (run : exec host socks labels = some (socks', events)) :
    ∀ e ∈ events, Filled e := by
  intro e member
  obtain ⟨_, _, reported⟩ := host_reported run e member
  exact reported_filled reported

theorem filled_blank {e : RingEvent} (filled : Filled e) : e.comm = blank := by
  obtain ⟨_, _, _, rfl, _⟩ := filled
  rfl

end Host

section Lines

variable {e : RingEvent}

theorem loop_part (cancelAt : Option ℕ) (line part : List UInt8) (one : newline ∉ part)
    (short : line.length + part.length < maxScanTokenSize) :
    readJSONLoop cancelAt line part =
      if line ++ part = [] then ⟨[], .endOfInput⟩
      else handleLine cancelAt (line ++ part) fun _ => ⟨[], .endOfInput⟩ := by
  induction part generalizing line with
  | nil => rw [readJSONLoop, List.append_nil]
  | cons b part ih =>
    have other : b ≠ newline := fun same => one (same ▸ List.mem_cons_self)
    rw [List.length_cons] at short
    rw [readJSONLoop, if_neg other, if_pos (by omega),
      ih (line ++ [b]) (fun member => one (List.mem_cons_of_mem _ member)) (by simp; omega),
      List.append_assoc]
    rfl

def readLine (line : List UInt8) : Option Event := unmarshalEvent (dropCR line)

theorem readJSON_rawLines {bytes : List UInt8} (short : Short bytes) (cancelAt : Option ℕ) :
    readJSON cancelAt bytes = upTo cancelAt ((rawLines bytes).filterMap readLine) .endOfInput := by
  induction size : bytes.length using Nat.strongRecOn generalizing bytes cancelAt with
  | ind n ih =>
    by_cases ends : newline ∈ bytes
    · obtain ⟨line, rest, rfl, one⟩ := List.eq_append_cons_of_mem ends
      have lines : rawLines (line ++ newline :: rest) = line :: rawLines rest :=
        rawLines_line one rest
      have small : line.length < maxScanTokenSize := short line (lines ▸ List.mem_cons_self)
      have later (cancelAt : Option ℕ) := ih rest.length (by simp [← size]; omega)
        (fun l member => short l (lines ▸ List.mem_cons_of_mem line member)) cancelAt rfl
      rw [readJSON, loop_line cancelAt [] line rest one (by simpa using small), lines, handleLine,
        List.nil_append]
      cases read : readLine line with
      | none =>
        rw [List.filterMap_cons_none read, ← later,
          show unmarshalEvent (dropCR line) = none from read]
        rfl
      | some e =>
        rw [List.filterMap_cons_some read, upTo, ← funext later,
          show unmarshalEvent (dropCR line) = some e from read]
        rfl
    · have lines : rawLines bytes = if bytes = [] then [] else [bytes] := rawLines_part ends
      by_cases empty : bytes = []
      · subst empty
        rfl
      · rw [if_neg empty] at lines
        have small : bytes.length < maxScanTokenSize :=
          short bytes (lines ▸ List.mem_singleton_self _)
        rw [readJSON, loop_part cancelAt [] bytes ends (by simpa using small), List.nil_append,
          if_neg empty, lines, handleLine]
        cases read : readLine bytes with
        | none =>
          rw [List.filterMap_cons_none read, show unmarshalEvent (dropCR bytes) = none from read]
          rfl
        | some e =>
          rw [List.filterMap_cons_some read, show unmarshalEvent (dropCR bytes) = some e from read]
          rfl

theorem line_braces (e : RingEvent) : ∃ text, line e = '\x7b' :: (text ++ ['\x7d']) :=
  ⟨_, rfl⟩

theorem readLine_cut (e : RingEvent) {n : ℕ} (begun : 0 < n) (cut : n < (ascii (line e)).length) :
    readLine ((ascii (line e)).take n) = none := by
  have bytes := printable_bytes (printable_line e)
  have kept : dropCR ((ascii (line e)).take n) = (ascii (line e)).take n := by
    refine if_neg ?_
    intro returns
    have inside := List.mem_of_mem_take (List.mem_of_getLast? returns)
    exact absurd (bytes 13 inside) (by decide)
  have part : (ascii (line e)).take n = ascii ((line e).take n) := List.map_take.symm
  have plain : Ascii ((line e).take n) :=
    fun c member => (printable_line e c (List.mem_of_mem_take member)).2
  have whole : parse (line e) = some (.object ((typeMember e :: members e).map memberValue)) :=
    parse_printObject _ _ (plain_members e)
  obtain ⟨text, same⟩ := line_braces e
  rw [ascii, List.length_map, same, List.length_cons] at cut
  have refused : parse ((line e).take n) = none := by
    obtain ⟨k, rfl⟩ : ∃ k, n = k + 1 := ⟨n - 1, by omega⟩
    rw [same, ← List.take_append_drop k (text ++ ['\x7d'])] at whole
    rw [same, List.take_succ_cons]
    refine parse_cut whole (c := '\x7d') ?_ rfl
    rw [List.length_append, List.length_singleton] at cut
    rw [List.drop_append_of_le_length (by omega)]
    exact List.mem_append_right _ (List.mem_singleton.mpr rfl)
  rw [readLine, kept, part, unmarshalEvent, decode_ascii plain, refused]

theorem kept_line (e : RingEvent) : Kept (fun e => ascii (line e)) readLine delivered e where
  one := (line_stands e).one
  some := by
    obtain ⟨text, same⟩ := line_braces e
    rw [same]
    exact nofun
  back := (line_stands e).read
  cut _ := readLine_cut e

end Lines

section Cut

variable {pbEncode : Encoder} {unmarshal : List UInt8 → Option PbEvent} {events : List RingEvent}

/- How many events have been written whole in front of the cut; the newline of the last line
   does not count. -/
def arrived (pbEncode : Encoder) (wire : Wire) (events : List RingEvent) (cut : ℕ) : ℕ :=
  if useProtobuf wire then (Frames.whole (events.map (pbBody pbEncode)) cut).length
  else whole (events.map fun e => ascii (line e)) cut

theorem printed_lines (unnamed : ∀ e ∈ events, e.comm = blank) :
    events.flatMap outputEvent = stream (events.map fun e => ascii (line e)) := by
  rw [stream, List.flatMap_map]
  exact List.flatMap_congr fun e member => outputEvent_eq (unnamed e member)

theorem json_cut (unnamed : ∀ e ∈ events, e.comm = blank) (cut : ℕ) (cancelAt : Option ℕ) :
    readJSON cancelAt ((events.flatMap outputEvent).take cut) =
      upTo cancelAt ((events.take (whole (events.map fun e => ascii (line e)) cut)).map delivered)
        .endOfInput := by
  have kept : ∀ e ∈ events, Kept (fun e => ascii (line e)) readLine delivered e :=
    fun e _ => kept_line e
  have short : ∀ e ∈ events, (ascii (line e)).length < Text.maxTokenSize :=
    fun e _ => (line_stands e).short
  rw [printed_lines unnamed, readJSON_rawLines (short_take kept short cut), read_take kept]

theorem protobuf_cut (unnamed : ∀ e ∈ events, e.comm = blank)
    (codec : ∀ e ∈ events, Codec pbEncode unmarshal (pbEvent e)) (cut : ℕ)
    (cancelAt : Option ℕ) : ∃ exit,
      readProtobuf unmarshal cancelAt ((events.flatMap (outputEventPb pbEncode)).take cut) =
        upTo cancelAt ((events.take
          (Frames.whole (events.map (pbBody pbEncode)) cut).length).map delivered) exit := by
  have first := Frames.whole_prefix (events.map (pbBody pbEncode)) cut
  have bodies := List.prefix_iff_eq_take.mp first
  rw [← List.map_take] at bodies
  have read := loop_stream unmarshal _ (bodies_small codec) cut
    (((events.flatMap (outputEventPb pbEncode)).take cut).length + 1) cancelAt
    (List.replicate 256 0)
  rw [← written_frames codec, bodies, decoded_delivered
    (fun e member => unnamed e (List.mem_of_mem_take member))
    fun e member => codec e (List.mem_of_mem_take member)] at read
  exact ⟨_, read (Nat.lt_succ_self _)⟩

theorem handleEvent_eq (wire : Wire) : handleEvent pbEncode wire =
    if useProtobuf wire then outputEventPb pbEncode else outputEvent := by
  funext e
  unfold handleEvent
  split <;> rfl

theorem arrived_all (unnamed : ∀ e ∈ events, e.comm = blank)
    (codec : ∀ e ∈ events, Codec pbEncode unmarshal (pbEvent e)) {wire : Wire} {cut : ℕ}
    (all : (events.flatMap (handleEvent pbEncode wire)).length ≤ cut) :
    arrived pbEncode wire events cut = events.length := by
  rw [handleEvent_eq] at all
  unfold arrived
  split
  · rename_i format
    rw [if_pos format, written_frames codec] at all
    rw [Frames.whole_all _ all, List.length_map]
  · rename_i format
    rw [if_neg format, printed_lines unnamed] at all
    rw [whole_all _ (Nat.le_succ_of_le all), List.length_map]

theorem delivered_small {e : RingEvent} (filled : Filled e) :
    (delivered e).latencyUs.toNat < 2 ^ 29 := by
  obtain ⟨view, type, latency, rfl, small⟩ := filled
  simp only [delivered]
  split
  · decide
  · exact small

theorem read_arrived (unnamed : ∀ e ∈ events, e.comm = blank)
    (codec : ∀ e ∈ events, Codec pbEncode unmarshal (pbEvent e))
    (wire : Wire) (cut : ℕ) (cancelAt : Option ℕ) : ∃ exit,
      readStream wire unmarshal cancelAt ((events.flatMap (handleEvent pbEncode wire)).take cut) =
        upTo cancelAt ((events.take (arrived pbEncode wire events cut)).map delivered) exit := by
  simp only [readStream, arrived, ← same_format, handleEvent_eq]
  cases useProtobuf wire with
  | true => simpa using protobuf_cut unnamed codec cut cancelAt
  | false => exact ⟨_, by simpa using json_cut unnamed cut cancelAt⟩

variable {Conn : Type} [DecidableEq Conn]

/-- The sockets of a host in any order, any value of the variable, and an agent whose output ends
    anywhere: the collector gets the submitted events whose bytes have arrived, as they were and
    in their order, and no other. -/
theorem events_survive_cut {families : Conn → UInt32} {socks : Conn → Socket}
    {labels : List (Conn × Stimulus)}
    (run : exec host (fun c => .opened (families c)) labels = some (socks, events))
    (codec : ∀ e ∈ events, Codec pbEncode unmarshal (pbEvent e)) (wire : Wire) (cut : ℕ) :
    let output := events.flatMap (handleEvent pbEncode wire)
    let got := (events.take (arrived pbEncode wire events cut)).map delivered
    (readStream wire unmarshal none (output.take cut)).sent = got ∧
    (∀ k, (readStream wire unmarshal (some k) (output.take cut)).sent = got.take k) ∧
    (output.length ≤ cut → got = events.map delivered) ∧
    ∀ e ∈ got, e.latencyUs.toNat < 2 ^ 29 := by
  have filled := host_filled run
  have unnamed : ∀ e ∈ events, e.comm = blank := fun e member => filled_blank (filled e member)
  intro output got
  have read := read_arrived unnamed codec wire cut
  refine ⟨?_, ?_, ?_, ?_⟩
  · obtain ⟨exit, same⟩ := read none
    rw [same, upTo_none]
  · intro k
    obtain ⟨exit, same⟩ := read (some k)
    rw [same, upTo_some]
    split
    · rfl
    · rename_i enough
      rw [List.take_of_length_le (Nat.le_of_not_lt enough)]
  · intro all
    simp only [got]
    rw [arrived_all unnamed codec all, List.take_length]
  · intro e member
    obtain ⟨event, there, rfl⟩ := List.mem_map.mp member
    exact delivered_small (filled event (List.mem_of_mem_take there))

end Cut

def twoSockets : List (ℕ × Stimulus) :=
  [(1, connected), (2, connected), (1, ⟨.rttUpdate, clientView 2400, true⟩)]

def twoSocketEvents : List RingEvent :=
  [fillEvent (clientView 1600) eventTypeConnect 200,
    fillEvent (clientView 1600) eventTypeConnect 200, fillEvent (clientView 2400) eventTypeRtt 300]

theorem two_sockets_cut : ∃ socks,
    exec host (fun _ : ℕ => .opened afInet) twoSockets = some (socks, twoSocketEvents) ∧
      (readStream (some [0x70, 0x62]) (decodeOf twoSocketEvents) none
        ((twoSocketEvents.flatMap (handleEvent wireEncode (some [0x70, 0x62]))).take 110)).sent =
          (twoSocketEvents.take 2).map delivered := by
  obtain ⟨socks, run⟩ : ∃ socks,
      exec host (fun _ : ℕ => .opened afInet) twoSockets = some (socks, twoSocketEvents) :=
    ⟨_, rfl⟩
  have codec : ∀ e ∈ twoSocketEvents,
      Codec wireEncode (decodeOf twoSocketEvents) (pbEvent e) := by
    simp only [twoSocketEvents, List.forall_mem_cons]
    exact ⟨wire_codec (by decide) rfl, wire_codec (by decide) rfl, wire_codec (by decide) rfl,
      by simp⟩
  obtain ⟨sent, _⟩ := events_survive_cut run codec (some [0x70, 0x62]) 110
  have two : arrived wireEncode (some [0x70, 0x62]) twoSocketEvents 110 = 2 := by decide +kernel
  exact ⟨socks, run, by rw [sent, two]⟩

end AgentOutput
