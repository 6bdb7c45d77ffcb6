import MicroTrace.Library.Frames
import MicroTrace.Library.Utf8
import MicroTrace.Agent.SockOps

/- The user-space half of the agent (tcp_trace.c) prints each event of the ring buffer as a
   line of JSON or as a length-prefixed protobuf message. A format of printf is written as its
   pieces. -/
namespace AgentOutput
open AgentSockOps Frames Utf8

def text (s : String) : List UInt8 := ascii s.toList

def decimal (n : Nat) : List UInt8 := ascii (Nat.toDigits 10 n)

def cString (chars : List UInt8) : List UInt8 := chars.takeWhile (· ≠ 0)

def snprintf (size : Nat) (s : List UInt8) : List UInt8 := s.take (size - 1)

def octet (addr : UInt32) (i : Nat) : Nat := addr.toNat / 256 ^ i % 256

def inetNtoa (addr : UInt32) : List UInt8 :=
  decimal (octet addr 0) ++ text "." ++ decimal (octet addr 1) ++ text "." ++
    decimal (octet addr 2) ++ text "." ++ decimal (octet addr 3)

def outputEvent (e : RingEvent) : List UInt8 :=
  let saddrStr := snprintf 16 (inetNtoa e.saddr)
  let daddrStr := inetNtoa e.daddr
  if e.type = eventTypeRetransmit then
    text "\x7b\"type\":\"retransmit\",\"pid\":" ++ decimal e.pid.toNat ++
      text ",\"comm\":\"" ++ cString e.comm ++ text "\",\"saddr\":\"" ++ saddrStr ++
      text "\",\"daddr\":\"" ++ daddrStr ++ text "\",\"dport\":" ++ decimal e.dport.toNat ++
      text "\x7d\n"
  else if e.type = eventTypeRtt then
    text "\x7b\"type\":\"rtt\",\"pid\":" ++ decimal e.pid.toNat ++
      text ",\"comm\":\"" ++ cString e.comm ++ text "\",\"saddr\":\"" ++ saddrStr ++
      text "\",\"daddr\":\"" ++ daddrStr ++ text "\",\"dport\":" ++ decimal e.dport.toNat ++
      text ",\"latency_us\":" ++ decimal e.latencyUs.toNat ++
      text ",\"jitter_us\":" ++ decimal e.jitterUs.toNat ++ text "\x7d\n"
  else
    text "\x7b\"type\":\"connect\",\"pid\":" ++ decimal e.pid.toNat ++
      text ",\"comm\":\"" ++ cString e.comm ++ text "\",\"saddr\":\"" ++ saddrStr ++
      text "\",\"daddr\":\"" ++ daddrStr ++ text "\",\"dport\":" ++ decimal e.dport.toNat ++
      text ",\"latency_us\":" ++ decimal e.latencyUs.toNat ++
      text ",\"jitter_us\":" ++ decimal e.jitterUs.toNat ++ text "\x7d\n"

def typeStr (type : UInt8) : List UInt8 :=
  if type = eventTypeRetransmit then text "retransmit"
  else if type = eventTypeRtt then text "rtt"
  else text "connect"

/- The struct of event.pb.h, whose strings are what stands before their terminator. -/
structure MicrotraceEvent where
  type : List UInt8
  pid : UInt32
  comm : List UInt8
  saddr : List UInt8
  daddr : List UInt8
  dport : UInt32
  latencyUs : UInt64
  jitterUs : UInt64

def pbEvent (e : RingEvent) : MicrotraceEvent where
  type := snprintf 11 (typeStr e.type)
  pid := e.pid
  comm := snprintf 17 (cString e.comm)
  saddr := snprintf 16 (inetNtoa e.saddr)
  daddr := snprintf 16 (inetNtoa e.daddr)
  dport := e.dport.toUInt32
  latencyUs := if e.type ≠ eventTypeRetransmit then e.latencyUs else 0
  jitterUs := if e.type ≠ eventTypeRetransmit then e.jitterUs else 0

/-- What pb_encode of nanopb writes of a message into a stream with room for so many bytes, if it
    succeeds. -/
abbrev Encoder := Nat → MicrotraceEvent → Option (List UInt8)

def bufSize : Nat := 128

/-- An event that pb_encode refuses is not written. -/
def outputEventPb (pbEncode : Encoder) (e : RingEvent) : List UInt8 :=
  match pbEncode bufSize (pbEvent e) with
  | some body => frame body
  | none => []

/- The strings end inside the arrays of event.pb.h. -/
structure MicrotraceEvent.Terminated (m : MicrotraceEvent) : Prop where
  type : m.type.length < 11
  comm : m.comm.length < 17
  saddr : m.saddr.length < 16
  daddr : m.daddr.length < 16

/- MICROTRACE_EVENT_PB_H_MAX_SIZE -/
def microtraceEventSize : Nat := 98

/-- Into any stream with room for microtrace_Event_size bytes a message with terminated strings
    is encoded, in no more bytes than these. -/
def Fits (pbEncode : Encoder) (m : MicrotraceEvent) : Prop :=
  m.Terminated → ∀ size, microtraceEventSize ≤ size →
    ∃ body, pbEncode size m = some body ∧ body.length ≤ microtraceEventSize

theorem snprintf_length {size : Nat} (some : 0 < size) (s : List UInt8) :
    (snprintf size s).length < size := by
  have short : (snprintf size s).length ≤ size - 1 := List.length_take_le _ _
  omega

theorem terminated_event (e : RingEvent) : (pbEvent e).Terminated where
  type := snprintf_length (by decide) _
  comm := snprintf_length (by decide) _
  saddr := snprintf_length (by decide) _
  daddr := snprintf_length (by decide) _

def pbBody (pbEncode : Encoder) (e : RingEvent) : List UInt8 :=
  (pbEncode bufSize (pbEvent e)).getD []

section Body

variable {pbEncode : Encoder} {e : RingEvent}

theorem pbBody_encoded (fits : Fits pbEncode (pbEvent e)) :
    pbEncode bufSize (pbEvent e) = some (pbBody pbEncode e) ∧
      (pbBody pbEncode e).length ≤ microtraceEventSize := by
  obtain ⟨body, made, short⟩ := fits (terminated_event e) bufSize (by decide)
  rw [pbBody, made]
  exact ⟨rfl, short⟩

theorem outputEventPb_eq (fits : Fits pbEncode (pbEvent e)) :
    outputEventPb pbEncode e = frame (pbBody pbEncode e) := by
  rw [outputEventPb, (pbBody_encoded fits).1]

end Body

def quad (addr : UInt32) : List Char :=
  Nat.toDigits 10 (octet addr 0) ++ '.' :: (Nat.toDigits 10 (octet addr 1) ++
    '.' :: (Nat.toDigits 10 (octet addr 2) ++ '.' :: Nat.toDigits 10 (octet addr 3)))

theorem inetNtoa_eq (addr : UInt32) : inetNtoa addr = ascii (quad addr) := by
  simp [inetNtoa, quad, decimal, text, ascii]

theorem octet_digits (addr : UInt32) (i : Nat) : (Nat.toDigits 10 (octet addr i)).length ≤ 3 := by
  rw [Nat.length_toDigits_le_iff (by decide) (by decide)]
  have small : octet addr i < 256 := Nat.mod_lt _ (by decide)
  omega

theorem quad_length (addr : UInt32) : (quad addr).length ≤ 15 := by
  have first := octet_digits addr 0
  have second := octet_digits addr 1
  have third := octet_digits addr 2
  have fourth := octet_digits addr 3
  simp only [quad, List.length_append, List.length_cons]
  omega

theorem snprintf_quad (addr : UInt32) : snprintf 16 (ascii (quad addr)) = ascii (quad addr) := by
  refine List.take_of_length_le ?_
  rw [ascii, List.length_map]
  exact quad_length addr

end AgentOutput
