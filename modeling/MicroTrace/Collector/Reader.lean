import MicroTrace.Library.Frames
import MicroTrace.Collector.Model

/- The reader of the agent's output (collector/agent/reader.go). A stream is the list of
   bytes that arrive before its end. `cancelAt` is the number of events sent before the
   select takes the branch of the cancelled context, or none if it never does. -/
namespace CollectorAgent
open CollectorModel Frames

inductive ReadError where
  | eof
  | unexpectedEOF
  deriving DecidableEq

structure ReadResult where
  buf : List UInt8
  rest : List UInt8
  err : Option ReadError
  deriving DecidableEq

/-- Bytes that do not arrive leave the buffer as it was. -/
def readFull (bytes buf : List UInt8) : ReadResult where
  buf := bytes.take buf.length ++ buf.drop bytes.length
  rest := bytes.drop buf.length
  err :=
    if buf.length ≤ bytes.length then none
    else if bytes.length = 0 then some .eof else some .unexpectedEOF

inductive Exit where
  | lengthPrefix (err : ReadError)
  | body (err : ReadError)
  | endOfInput
  | lineTooLong
  | cancelled
  | outOfFuel
  deriving DecidableEq

structure Reading where
  sent : List Event
  exit : Exit
  deriving DecidableEq

def Reading.after (e : Event) (r : Reading) : Reading := { r with sent := e :: r.sent }

/-- The select that ends an iteration, with the rest of the loop as a continuation. -/
def send (cancelAt : Option Nat) (e : Event) (loop : Option Nat → Reading) : Reading :=
  match cancelAt with
  | none => (loop none).after e
  | some 0 => ⟨[], .cancelled⟩
  | some (k + 1) => (loop (some k)).after e

def eventOf (m : PbEvent) : Event where
  type := m.type
  pid := m.pid
  comm := m.comm
  sAddr := m.saddr
  dAddr := m.daddr
  dPort := m.dport.toUInt16
  latencyUs := m.latencyUs
  jitterUs := m.jitterUs

/- The backing array is reused while it is large enough. -/
def grow (back : List UInt8) (n : Nat) : List UInt8 :=
  if back.length < n then List.replicate n 0 else back

section Protobuf
variable (unmarshal : List UInt8 → Option PbEvent)

def readProtobufLoop : Nat → Option Nat → List UInt8 → List UInt8 → Reading
  | 0, _, _, _ => ⟨[], .outOfFuel⟩
  | fuel + 1, cancelAt, back, bytes =>
      -- lenBuf is overwritten whole before it is read
      let head := readFull bytes (List.replicate 4 0)
      match head.err with
      | some err => ⟨[], .lengthPrefix err⟩
      | none =>
          let n := ofLE32 head.buf
          let back := grow back n
          let body := readFull head.rest (back.take n)
          match body.err with
          | some err => ⟨[], .body err⟩
          | none =>
              let back := body.buf ++ back.drop n
              match unmarshal (back.take n) with
              | none => readProtobufLoop fuel cancelAt back body.rest
              | some m =>
                  send cancelAt (eventOf m) fun cancelAt =>
                    readProtobufLoop fuel cancelAt back body.rest

/-- Each iteration takes at least four bytes, so the fuel never runs out. -/
def readProtobuf (cancelAt : Option Nat) (bytes : List UInt8) : Reading :=
  readProtobufLoop unmarshal (bytes.length + 1) cancelAt (List.replicate 256 0) bytes

end Protobuf

theorem readFull_whole {body buf : List UInt8} (rest : List UInt8)
    (fits : buf.length = body.length) :
    readFull (body ++ rest) buf = ⟨body, rest, none⟩ := by
  have filled : buf.drop (body ++ rest).length = [] := by
    rw [List.drop_eq_nil_iff, List.length_append]
    omega
  have enough : buf.length ≤ (body ++ rest).length := by
    rw [List.length_append]
    omega
  rw [readFull, filled, if_pos enough, fits, List.take_left, List.drop_left, List.append_nil]

theorem readFull_short (bytes buf : List UInt8) (short : bytes.length < buf.length) :
    (readFull bytes buf).err = some (if bytes.length = 0 then .eof else .unexpectedEOF) := by
  simp only [readFull, if_neg (Nat.not_le.mpr short)]
  split <;> rfl

theorem grow_length (back : List UInt8) (n : Nat) : n ≤ (grow back n).length := by
  unfold grow
  split
  · simp
  · omega

theorem grow_take_length (back : List UInt8) (n : Nat) : ((grow back n).take n).length = n := by
  have := grow_length back n
  rw [List.length_take]
  omega

/- How a stream that ends `left` bytes into a frame stops the reader. -/
def endOf (left : Nat) : Exit :=
  if left = 0 then .lengthPrefix .eof
  else if left < 4 then .lengthPrefix .unexpectedEOF
  else if left = 4 then .body .eof
  else .body .unexpectedEOF

def upTo : Option Nat → List Event → Exit → Reading
  | _, [], exit => ⟨[], exit⟩
  | cancelAt, e :: events, exit => send cancelAt e fun cancelAt => upTo cancelAt events exit

theorem upTo_none (events : List Event) (exit : Exit) : upTo none events exit = ⟨events, exit⟩ := by
  induction events with
  | nil => rfl
  | cons e events ih => simp only [upTo, send, ih, Reading.after]

theorem upTo_some (k : Nat) (events : List Event) (exit : Exit) : upTo (some k) events exit =
    if k < events.length then ⟨events.take k, .cancelled⟩ else ⟨events, exit⟩ := by
  induction events generalizing k with
  | nil => rfl
  | cons e events ih =>
    cases k with
    | zero => rfl
    | succ k =>
      simp only [upTo, send, ih, List.length_cons, Nat.succ_lt_succ_iff, List.take_succ_cons]
      split <;> rfl

section Protobuf
variable (unmarshal : List UInt8 → Option PbEvent)

/-- A whole frame: the message handed to the decoder is the body, whatever the buffer held. -/
theorem loop_frame (fuel : Nat) (cancelAt : Option Nat) (back : List UInt8) {body : List UInt8}
    (rest : List UInt8) (small : body.length < 2 ^ 32) :
    ∃ back', readProtobufLoop unmarshal (fuel + 1) cancelAt back (frame body ++ rest) =
      (unmarshal body).elim (readProtobufLoop unmarshal fuel cancelAt back' rest) fun m =>
        send cancelAt (eventOf m) fun cancelAt =>
          readProtobufLoop unmarshal fuel cancelAt back' rest := by
  have head : readFull (frame body ++ rest) (List.replicate 4 0) =
      ⟨le32 body.length, body ++ rest, none⟩ := by
    rw [frame, List.append_assoc]
    exact readFull_whole (body ++ rest) rfl
  have read := readFull_whole rest (grow_take_length back body.length)
  use body ++ (grow back body.length).drop body.length
  simp only [readProtobufLoop, head, ofLE32_le32 small, read, List.take_left]
  cases unmarshal body <;> rfl

theorem loop_cut (fuel : Nat) (cancelAt : Option Nat) (back : List UInt8) {body : List UInt8}
    {cut : Nat} (small : body.length < 2 ^ 32) (short : cut < 4 + body.length) :
    readProtobufLoop unmarshal (fuel + 1) cancelAt back ((frame body).take cut) =
      ⟨[], endOf cut⟩ := by
  have size : ((frame body).take cut).length = cut := by
    rw [List.length_take, frame_length]
    omega
  by_cases inside : cut < 4
  · have stopped := readFull_short ((frame body).take cut) (List.replicate 4 0)
      (by rw [size]; exact inside)
    rw [size] at stopped
    simp only [readProtobufLoop, stopped, endOf, if_pos inside]
    split <;> rfl
  · have split : (frame body).take cut = le32 body.length ++ body.take (cut - 4) := by
      rw [frame, List.take_append, le32_length, List.take_of_length_le]
      rw [le32_length]
      omega
    have head : readFull ((frame body).take cut) (List.replicate 4 0) =
        ⟨le32 body.length, body.take (cut - 4), none⟩ := by
      rw [split]
      exact readFull_whole (body.take (cut - 4)) rfl
    have left : (body.take (cut - 4)).length = cut - 4 := by
      rw [List.length_take]
      omega
    have stopped := readFull_short (body.take (cut - 4))
      ((grow back body.length).take body.length) (by rw [left, grow_take_length]; omega)
    rw [left] at stopped
    simp only [readProtobufLoop, head, ofLE32_le32 small, stopped]
    have four : cut - 4 = 0 ↔ cut = 4 := by omega
    simp only [endOf, four, if_neg inside, if_neg (show cut ≠ 0 by omega)]
    split <;> rfl

theorem loop_end (fuel : Nat) (cancelAt : Option Nat) (back : List UInt8) :
    readProtobufLoop unmarshal (fuel + 1) cancelAt back [] = ⟨[], endOf 0⟩ := rfl

def decoded (bodies : List (List UInt8)) : List Event := (bodies.filterMap unmarshal).map eventOf

theorem loop_stream (bodies : List (List UInt8)) (small : ∀ body ∈ bodies, body.length < 2 ^ 32)
    (cut fuel : Nat) (cancelAt : Option Nat) (back : List UInt8)
    (enough : ((stream bodies).take cut).length < fuel) :
    readProtobufLoop unmarshal fuel cancelAt back ((stream bodies).take cut) =
      upTo cancelAt (decoded unmarshal (whole bodies cut)) (endOf (leftover bodies cut)) := by
  obtain ⟨fuel, rfl⟩ : ∃ n, fuel = n + 1 := ⟨fuel - 1, by omega⟩
  induction bodies generalizing cut fuel cancelAt back with
  | nil => rw [stream, List.flatMap_nil, List.take_nil, loop_end]; rfl
  | cons body bodies ih =>
    have fits := small body List.mem_cons_self
    by_cases long : 4 + body.length ≤ cut
    · rw [take_stream_long body bodies long] at enough ⊢
      rw [List.length_append, frame_length] at enough
      obtain ⟨fuel, rfl⟩ : ∃ n, fuel = n + 1 := ⟨fuel - 1, by omega⟩
      obtain ⟨back', step⟩ := loop_frame unmarshal (fuel + 1) cancelAt back
        ((stream bodies).take (cut - (4 + body.length))) fits
      have later := fun cancelAt => ih (fun b member => small b (List.mem_cons_of_mem _ member))
        (cut - (4 + body.length)) cancelAt back' fuel (by omega)
      rw [step, whole, leftover, if_pos long, if_pos long]
      cases parsed : unmarshal body with
      | none => simp only [Option.elim, later, decoded, List.filterMap_cons_none parsed]
      | some m =>
        simp only [Option.elim, later, decoded, List.filterMap_cons_some parsed, List.map_cons,
          upTo]
    · rw [take_stream_short body bodies (by omega), whole, leftover, if_neg long, if_neg long,
        loop_cut unmarshal fuel cancelAt back fits (by omega)]
      rfl

/-- Every list of bodies, every position at which their frames are cut off and every decoder:
    the events of the whole and parsable bodies, in order, then the end of the stream. The
    bytes the buffer holds at the start make no difference. -/
theorem framing_exact (bodies : List (List UInt8)) (small : ∀ body ∈ bodies, body.length < 2 ^ 32)
    (cut : Nat) (cancelAt : Option Nat) :
    readProtobuf unmarshal none ((stream bodies).take cut) =
        ⟨((whole bodies cut).filterMap unmarshal).map eventOf, endOf (leftover bodies cut)⟩ ∧
      readProtobuf unmarshal cancelAt ((stream bodies).take cut) =
        upTo cancelAt (((whole bodies cut).filterMap unmarshal).map eventOf)
          (endOf (leftover bodies cut)) ∧
      ∀ back, readProtobufLoop unmarshal (((stream bodies).take cut).length + 1) cancelAt back
        ((stream bodies).take cut) = readProtobuf unmarshal cancelAt ((stream bodies).take cut) := by
  have read := loop_stream unmarshal bodies small cut (((stream bodies).take cut).length + 1)
  refine ⟨?_, read cancelAt _ (by omega), ?_⟩
  · exact (read none _ (by omega)).trans (upTo_none _ _)
  · intro back
    rw [readProtobuf, read cancelAt back (by omega), read cancelAt _ (by omega)]

end Protobuf

def typeOnly (type : EventType) : PbEvent := ⟨type, 0, "", "", "", 0, 0, 0⟩

def rttBody : List UInt8 := [10, 3, 114, 116, 116]

def decodeSample (body : List UInt8) : Option PbEvent :=
  if body = [] then some (typeOnly (.other ""))
  else if body = rttBody then some (typeOnly .rtt)
  else none

theorem damaged_stream_read : (∀ body ∈ [rttBody, [255], [], rttBody], body.length < 2 ^ 32) ∧
    readProtobuf decodeSample none ((stream [rttBody, [255], [], rttBody]).take 24) =
      ⟨[eventOf (typeOnly .rtt), eventOf (typeOnly (.other ""))], .body .unexpectedEOF⟩ :=
  ⟨by decide, (framing_exact decodeSample [rttBody, [255], [], rttBody] (by decide) 24 none).1⟩

end CollectorAgent
