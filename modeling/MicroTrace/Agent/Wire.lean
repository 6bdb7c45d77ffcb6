import MicroTrace.Agent.Output
import MicroTrace.Collector.Lines

/- The two wire formats side by side: what the collector's readers make of what the agent
   prints. -/
namespace AgentOutput
open AgentSockOps CollectorModel CollectorAgent Frames Json Utf8

def MicrotraceEvent.message (m : MicrotraceEvent) : PbEvent where
  type := .ofText (String.ofList (decode m.type))
  pid := m.pid
  comm := String.ofList (decode m.comm)
  saddr := String.ofList (decode m.saddr)
  daddr := String.ofList (decode m.daddr)
  dport := m.dport
  latencyUs := m.latencyUs
  jitterUs := m.jitterUs

def typeText (type : UInt8) : List Char :=
  if type = eventTypeRetransmit then "retransmit".toList
  else if type = eventTypeRtt then "rtt".toList
  else "connect".toList

def delivered (e : RingEvent) : Event where
  type := .ofText (String.ofList (typeText e.type))
  pid := e.pid
  comm := ""
  sAddr := String.ofList (quad e.saddr)
  dAddr := String.ofList (quad e.daddr)
  dPort := e.dport
  latencyUs := if e.type = eventTypeRetransmit then 0 else e.latencyUs
  jitterUs := if e.type = eventTypeRetransmit then 0 else e.jitterUs

def blank : List UInt8 := List.replicate 16 0

def timing (e : RingEvent) : List (List Char × Scalar) :=
  if e.type = eventTypeRetransmit then []
  else [("latency_us".toList, .nat e.latencyUs.toNat), ("jitter_us".toList, .nat e.jitterUs.toNat)]

def members (e : RingEvent) : List (List Char × Scalar) :=
  [("pid".toList, .nat e.pid.toNat), ("comm".toList, .text []),
    ("saddr".toList, .text (quad e.saddr)), ("daddr".toList, .text (quad e.daddr)),
    ("dport".toList, .nat e.dport.toNat)] ++ timing e

def typeMember (e : RingEvent) : List Char × Scalar := ("type".toList, .text (typeText e.type))

/- A line of the agent, as the text of an object. -/
def line (e : RingEvent) : List Char := printObject (typeMember e) (members e)

theorem outputEvent_eq {e : RingEvent} (unnamed : e.comm = blank) :
    outputEvent e = ascii (line e) ++ [newline] := by
  have nameless : cString e.comm = [] := by
    rw [unnamed]
    rfl
  have ended : [newline] = ascii ['\n'] := rfl
  rw [ended, ← ascii_append]
  unfold outputEvent
  simp only [nameless, inetNtoa_eq, snprintf_quad, text, decimal, List.append_nil, ← ascii_append]
  split
  · rename_i retransmit
    simp [line, printObject, printMember, typeMember, members, timing, typeText, quoted,
      Scalar.print, retransmit]
  · split
    · rename_i other rtt
      simp [line, printObject, printMember, typeMember, members, timing, typeText, quoted,
        Scalar.print, rtt, eventTypeRtt, eventTypeRetransmit]
    · rename_i other rtt
      simp [line, printObject, printMember, typeMember, members, timing, typeText, quoted,
        Scalar.print, other, rtt]

theorem plain_quad (addr : UInt32) : Plain (quad addr) := by
  have dot {t : List Char} (rest : Plain t) : Plain ('.' :: t) :=
    plain_append (show Plain ['.'] by decide) rest
  have digits (i : Nat) := plain_digits (octet addr i)
  exact plain_append (digits 0) (dot (plain_append (digits 1) (dot (plain_append (digits 2)
    (dot (digits 3))))))

theorem plain_typeText (type : UInt8) : Plain (typeText type) := by
  unfold typeText
  split
  · decide
  · split <;> decide

theorem plain_members (e : RingEvent) :
    ∀ m ∈ typeMember e :: members e, Plain m.1 ∧ m.2.Plain := by
  have name (f : Field) : Plain f.name.toList := by cases f <;> decide
  have timed : ∀ m ∈ timing e, Plain m.1 ∧ m.2.Plain := by
    unfold timing
    split
    · simp
    · simp only [List.forall_mem_cons]
      exact ⟨⟨name .latencyUs, trivial⟩, ⟨name .jitterUs, trivial⟩, by simp⟩
  refine List.forall_mem_cons.mpr ⟨⟨name .type, plain_typeText e.type⟩, ?_⟩
  refine List.forall_mem_append.mpr ⟨?_, timed⟩
  simp only [List.forall_mem_cons]
  exact ⟨⟨name .pid, trivial⟩, ⟨name .comm, show Plain [] by decide⟩,
    ⟨name .saddr, plain_quad e.saddr⟩, ⟨name .daddr, plain_quad e.daddr⟩,
    ⟨name .dport, trivial⟩, by simp⟩

theorem printable_line (e : RingEvent) : Printable (line e) := printable_object (plain_members e)

theorem parseUint_digits {n : Nat} (fits : n < 2 ^ 64) :
    parseUint (Nat.toDigits 10 n) = some n := by
  have digits : (Nat.toDigits 10 n).all Char.isDigit = true := by
    rw [List.all_eq_true]
    intro c member
    exact Nat.isDigit_of_mem_toDigits (by decide) (by decide) member
  rw [parseUint, Nat.ofDigitChars_ten_toDigits, if_pos ⟨digits, fits⟩]

theorem storeUint_digits {width n : Nat} (small : width ≤ 64) (fits : n < 2 ^ width) (e : Event)
    (set : Nat → Event) :
    storeUint width e set (.number (Nat.toDigits 10 n)) = some (set n) := by
  have long : n < 2 ^ 64 := Nat.lt_of_lt_of_le fits (Nat.pow_le_pow_right (by decide) small)
  simp only [storeUint, parseUint_digits long, Option.bind_some, if_pos fits]

theorem store_named (e : Event) (f : Field) (v : Value) :
    storeMember e (f.name.toList, v) = storeField e f v := by
  cases f <;> rfl

theorem members_named (e : RingEvent) : (typeMember e :: members e).map memberValue =
    [(Field.type.name.toList, .string (typeText e.type)),
      (Field.pid.name.toList, .number (Nat.toDigits 10 e.pid.toNat)),
      (Field.comm.name.toList, .string []),
      (Field.saddr.name.toList, .string (quad e.saddr)),
      (Field.daddr.name.toList, .string (quad e.daddr)),
      (Field.dport.name.toList, .number (Nat.toDigits 10 e.dport.toNat))] ++
    if e.type = eventTypeRetransmit then []
    else [(Field.latencyUs.name.toList, .number (Nat.toDigits 10 e.latencyUs.toNat)),
      (Field.jitterUs.name.toList, .number (Nat.toDigits 10 e.jitterUs.toNat))] := by
  unfold members timing
  split <;> rfl

theorem store_members (e : RingEvent) :
    ((typeMember e :: members e).map memberValue).foldlM storeMember zeroEvent =
      some (delivered e) := by
  have pid := storeUint_digits (show 32 ≤ 64 by decide) e.pid.toNat_lt
  have dport := storeUint_digits (show 16 ≤ 64 by decide) e.dport.toNat_lt
  have latency := storeUint_digits (Nat.le_refl 64) e.latencyUs.toNat_lt
  have jitter := storeUint_digits (Nat.le_refl 64) e.jitterUs.toNat_lt
  rw [members_named]
  unfold delivered
  split
  · simp only [List.append_nil, List.foldlM_cons, store_named, storeField, storeText, pid, dport,
      Option.bind_eq_bind, Option.bind_some, UInt32.ofNat_toNat, UInt16.ofNat_toNat]
    rfl
  · simp only [List.cons_append, List.nil_append, List.foldlM_cons, store_named, storeField,
      storeText, pid, dport, latency, jitter, Option.bind_eq_bind, Option.bind_some,
      UInt32.ofNat_toNat, UInt16.ofNat_toNat, UInt64.ofNat_toNat]
    rfl

theorem read_line (e : RingEvent) : unmarshalEvent (ascii (line e)) = some (delivered e) := by
  have plain : Ascii (line e) := fun c member => (printable_line e c member).2
  rw [unmarshalEvent, decode_ascii plain, line, parse_printObject _ _ (plain_members e)]
  exact store_members e

theorem printable_bytes {t : List Char} (printable : Printable t) :
    ∀ b ∈ ascii t, 0x20 ≤ b.toNat := by
  intro b member
  obtain ⟨c, there, rfl⟩ := List.mem_map.mp member
  obtain ⟨low, high⟩ := printable c there
  rw [UInt8.toNat_ofNat']
  omega

theorem digits_length {n : Nat} (fits : n < 2 ^ 64) : (Nat.toDigits 10 n).length ≤ 20 := by
  rw [Nat.length_toDigits_le_iff (by decide) (by decide)]
  omega

theorem typeText_length (type : UInt8) : (typeText type).length ≤ 10 := by
  unfold typeText
  split
  · decide
  · split <;> decide

theorem line_length (e : RingEvent) : (line e).length < maxScanTokenSize := by
  have type := typeText_length e.type
  have pid := digits_length (Nat.lt_trans e.pid.toNat_lt (by decide))
  have saddr := quad_length e.saddr
  have daddr := quad_length e.daddr
  have dport := digits_length (Nat.lt_trans e.dport.toNat_lt (by decide))
  have latency := digits_length e.latencyUs.toNat_lt
  have jitter := digits_length e.jitterUs.toNat_lt
  unfold line members timing maxScanTokenSize
  split
  · simp [printObject, printMember, typeMember, quoted, Scalar.print]
    omega
  · simp [printObject, printMember, typeMember, quoted, Scalar.print]
    omega

theorem line_stands (e : RingEvent) : Stands (ascii (line e)) (delivered e) := by
  have bytes := printable_bytes (printable_line e)
  refine ⟨?_, ?_, ?_⟩
  · intro ends
    exact absurd (bytes newline ends) (by decide)
  · rw [ascii, List.length_map]
    exact line_length e
  · have kept : dropCR (ascii (line e)) = ascii (line e) := by
      refine if_neg ?_
      intro returns
      exact absurd (bytes 13 (List.mem_of_getLast? returns)) (by decide)
    rw [kept, read_line]

theorem message_delivered {e : RingEvent} (unnamed : e.comm = blank) :
    eventOf (pbEvent e).message = delivered e := by
  have nameless : cString e.comm = [] := by
    rw [unnamed]
    rfl
  have quadText (addr : UInt32) : decode (ascii (quad addr)) = quad addr :=
    decode_ascii fun c member => (plain_quad addr c member).2.2.2
  have type : decode (snprintf 11 (typeStr e.type)) = typeText e.type := by
    unfold typeStr typeText
    split
    · decide
    · split <;> decide
  have comm : decode (snprintf 17 ([] : List UInt8)) = [] := rfl
  simp only [eventOf, MicrotraceEvent.message, pbEvent, delivered, type, nameless, comm,
    inetNtoa_eq, snprintf_quad, quadText, ite_not]
  simp

theorem upTo_sent (cancelAt : Option Nat) (events : List Event) (exit exit' : Exit) :
    (upTo cancelAt events exit).sent = (upTo cancelAt events exit').sent := by
  cases cancelAt with
  | none => rw [upTo_none, upTo_none]
  | some k =>
    rw [upTo_some, upTo_some]
    split <;> rfl

theorem json_delivers {events : List RingEvent} (unnamed : ∀ e ∈ events, e.comm = blank)
    (cancelAt : Option Nat) : readJSON cancelAt (events.flatMap outputEvent) =
      upTo cancelAt (events.map delivered) .endOfInput := by
  have printed : events.flatMap outputEvent =
      events.flatMap fun e => ascii (line e) ++ [newline] :=
    List.flatMap_congr fun e member => outputEvent_eq (unnamed e member)
  rw [printed]
  exact readJSON_lines events _ delivered (fun e _ => line_stands e) cancelAt

/-- What is relied on of nanopb and of the decoder of Go. -/
structure Codec (pbEncode : Encoder) (unmarshal : List UInt8 → Option PbEvent)
    (m : MicrotraceEvent) : Prop where
  fits : Fits pbEncode m
  inverse : ∀ size body, pbEncode size m = some body → unmarshal body = some m.message

section Protobuf

variable {pbEncode : Encoder} {unmarshal : List UInt8 → Option PbEvent} {events : List RingEvent}

theorem codec_body {e : RingEvent} (codec : Codec pbEncode unmarshal (pbEvent e)) :
    unmarshal (pbBody pbEncode e) = some (pbEvent e).message :=
  codec.inverse bufSize _ (pbBody_encoded codec.fits).1

theorem bodies_small (codec : ∀ e ∈ events, Codec pbEncode unmarshal (pbEvent e)) :
    ∀ body ∈ events.map (pbBody pbEncode), body.length < 2 ^ 32 := by
  intro body member
  obtain ⟨e, there, rfl⟩ := List.mem_map.mp member
  exact Nat.lt_of_le_of_lt (pbBody_encoded (codec e there).fits).2 (by decide)

theorem written_frames (codec : ∀ e ∈ events, Codec pbEncode unmarshal (pbEvent e)) :
    events.flatMap (outputEventPb pbEncode) = stream (events.map (pbBody pbEncode)) := by
  rw [stream, List.flatMap_map]
  exact List.flatMap_congr fun e member => outputEventPb_eq (codec e member).fits

theorem decoded_delivered (unnamed : ∀ e ∈ events, e.comm = blank)
    (codec : ∀ e ∈ events, Codec pbEncode unmarshal (pbEvent e)) :
    decoded unmarshal (events.map (pbBody pbEncode)) = events.map delivered := by
  induction events with
  | nil => rfl
  | cons e events ih =>
    obtain ⟨named, others⟩ := List.forall_mem_cons.mp unnamed
    obtain ⟨first, later⟩ := List.forall_mem_cons.mp codec
    have rest := ih others later
    rw [decoded] at rest ⊢
    rw [List.map_cons, List.filterMap_cons_some (codec_body first), List.map_cons, List.map_cons,
      rest, message_delivered named]

theorem protobuf_delivers (unnamed : ∀ e ∈ events, e.comm = blank)
    (codec : ∀ e ∈ events, Codec pbEncode unmarshal (pbEvent e)) (cancelAt : Option Nat) :
    ∃ exit, readProtobuf unmarshal cancelAt (events.flatMap (outputEventPb pbEncode)) =
      upTo cancelAt (events.map delivered) exit := by
  have written := written_frames codec
  have read := loop_stream unmarshal _ (bodies_small codec)
    (events.flatMap (outputEventPb pbEncode)).length
    ((events.flatMap (outputEventPb pbEncode)).length + 1) cancelAt (List.replicate 256 0)
  rw [← written, List.take_length, whole_all _ (by rw [written]),
    decoded_delivered unnamed codec] at read
  exact ⟨_, read (by omega)⟩

/-- Every list of events whose name field is blank, and an encoder and a decoder that keep to
    their documentation on the messages of these: both readers send the same events, one for
    each event printed, also when they are cancelled. -/
theorem wire_formats_agree (unnamed : ∀ e ∈ events, e.comm = blank)
    (codec : ∀ e ∈ events, Codec pbEncode unmarshal (pbEvent e)) :
    (∀ cancelAt, (readJSON cancelAt (events.flatMap outputEvent)).sent =
      (readProtobuf unmarshal cancelAt (events.flatMap (outputEventPb pbEncode))).sent) ∧
    (readJSON none (events.flatMap outputEvent)).sent = events.map delivered := by
  refine ⟨?_, ?_⟩
  · intro cancelAt
    obtain ⟨exit, read⟩ := protobuf_delivers unnamed codec cancelAt
    rw [json_delivers unnamed, read, upTo_sent]
  · rw [json_delivers unnamed, upTo_none]

end Protobuf

/- The wire format of proto3: seven bits a byte, least significant first, and fields that hold
   their default are left out. -/
def varintFrom : Nat → Nat → List UInt8
  | 0, n => [UInt8.ofNat n]
  | more + 1, n =>
      if n < 128 then [UInt8.ofNat n]
      else UInt8.ofNat (n % 128 + 128) :: varintFrom more (n / 128)

def varint (n : Nat) : List UInt8 := varintFrom 9 n

def uintField (field n : Nat) : List UInt8 :=
  if n = 0 then [] else varint (field * 8) ++ varint n

def stringField (field : Nat) (text : List UInt8) : List UInt8 :=
  if text = [] then [] else varint (field * 8 + 2) ++ varint text.length ++ text

def wireBody (m : MicrotraceEvent) : List UInt8 :=
  stringField 1 m.type ++ uintField 2 m.pid.toNat ++ stringField 3 m.comm ++
    stringField 4 m.saddr ++ stringField 5 m.daddr ++ uintField 6 m.dport.toNat ++
    uintField 7 m.latencyUs.toNat ++ uintField 8 m.jitterUs.toNat

def wireEncode : Encoder := fun size m =>
  if (wireBody m).length ≤ size then some (wireBody m) else none

/- A decoder on the messages of these events. -/
def decodeOf (events : List RingEvent) (body : List UInt8) : Option PbEvent :=
  (events.find? fun e => wireBody (pbEvent e) = body).map fun e => (pbEvent e).message

theorem wire_codec {events : List RingEvent} {e : RingEvent}
    (short : (wireBody (pbEvent e)).length ≤ microtraceEventSize)
    (known : decodeOf events (wireBody (pbEvent e)) = some (pbEvent e).message) :
    Codec wireEncode (decodeOf events) (pbEvent e) where
  fits _ _ room := ⟨_, if_pos (Nat.le_trans short room), short⟩
  inverse size body made := by
    obtain ⟨_, same⟩ := Option.ite_none_right_eq_some.mp made
    cases same
    exact known

def threeEvents : List RingEvent :=
  [⟨18446744073709551615, 18446744073709551615, 4294967295, 4294967295, 4294967295, 65535,
      eventTypeConnect, blank⟩,
    ⟨0, 0, 0, 0, 0, 0, eventTypeRtt, blank⟩,
    ⟨1500, 20, 40000, 33558956, 50336172, 80, eventTypeRetransmit, blank⟩]

theorem three_events_agree :
    (readJSON none (threeEvents.flatMap outputEvent)).sent =
        (readProtobuf (decodeOf threeEvents) none
          (threeEvents.flatMap (outputEventPb wireEncode))).sent ∧
      (readJSON none (threeEvents.flatMap outputEvent)).sent.length = 3 := by
  have unnamed : ∀ e ∈ threeEvents, e.comm = blank := by decide
  have codec : ∀ e ∈ threeEvents, Codec wireEncode (decodeOf threeEvents) (pbEvent e) := by
    simp only [threeEvents, List.forall_mem_cons]
    exact ⟨wire_codec (by decide) rfl, wire_codec (by decide) rfl, wire_codec (by decide) rfl,
      by simp⟩
  obtain ⟨same, all⟩ := wire_formats_agree unnamed codec
  exact ⟨same none, by rw [all, List.length_map]; rfl⟩

end AgentOutput
