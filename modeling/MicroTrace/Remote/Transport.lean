import Mathlib.Data.Fintype.Basic
import MicroTrace.Library.Runs
import MicroTrace.Library.Merges
import MicroTrace.Collector.Model

/- The edge-to-central transport (collector/remote). Every edge has one stream of events and
   one of resource snapshots: its client sends what it reads, the wire keeps the order, and a
   handler of the central server puts each message on the channel all handlers share. A
   client may be cancelled at any time, and so may the server, which waits for its handlers
   before it closes the channels. -/
namespace CollectorRemote
open CollectorModel Runs Merges

structure TelemetryEvent where
  type : EventType
  pid : UInt32
  comm : String
  saddr : String
  daddr : String
  dport : UInt32
  latencyUs : UInt64
  jitterUs : UInt64
  deriving DecidableEq

structure TelemetryResource where
  serviceName : String
  timestampMs : Int
  cpuPct : Float64
  cpuThrottlePct : Float64
  memCurrentBytes : UInt64
  memLimitBytes : UInt64
  memPressurePct : Float64
  ioReadBytesPerS : UInt64
  ioWriteBytesPerS : UInt64
  ioWaitPct : Float64
  oomKillCount : UInt64
  psiMemSomePct : Float64
  psiMemFullPct : Float64
  deriving DecidableEq

/-- SendEvents or SendResources: reading and sending, waiting for the acknowledgement, or
    returned. -/
inductive Client where
  | streaming
  | closing
  | acked (received : Nat)
  | failed
  deriving DecidableEq

/-- StreamEvents or StreamResources: not called yet, at Recv, at the select with a message,
    or returned with an acknowledgement or with an error. -/
inductive Handler (M : Type) where
  | waiting
  | receiving (count : Nat)
  | holding (count : Nat) (msg : M)
  | answered (count : Nat)
  | returned
  deriving DecidableEq

def Handler.active {M : Type} : Handler M → Bool
  | .receiving _ => true
  | .holding _ _ => true
  | _ => false

structure Stream (V M : Type) where
  unread : List V
  sent : Nat
  wire : List M
  client : Client
  handler : Handler M

/-- The edge reads this list until its channel is closed. -/
def Stream.new {V M : Type} (source : List V) : Stream V M := ⟨source, 0, [], .streaming, .waiting⟩

inductive StreamAction where
  | send
  | closeSend
  | cancel
  | accept
  | recv
  | put
  | eof
  | fail
  | ack
  deriving DecidableEq

section Streams
variable {V M : Type} (toPB : V → M) (fromPB : M → V)

/-- One step of a stream and what it puts on the channel. -/
def Stream.step (st : Stream V M) : StreamAction → Option (Stream V M × List V)
  | .send =>
      match st.client, st.unread with
      | .streaming, v :: rest =>
          some ({ st with
            unread := rest
            sent := wrap64 (st.sent + 1)
            wire := st.wire ++ [toPB v] }, [])
      | _, _ => none
  | .closeSend =>
      match st.client, st.unread with
      | .streaming, [] => some ({ st with client := .closing }, [])
      | _, _ => none
  | .cancel =>
      match st.client with
      | .streaming => some ({ st with client := .failed }, [])
      | .closing => some ({ st with client := .failed }, [])
      | _ => none
  | .accept =>
      match st.handler with
      | .waiting => some ({ st with handler := .receiving 0 }, [])
      | _ => none
  | .recv =>
      match st.handler, st.wire with
      | .receiving count, msg :: rest =>
          some ({ st with wire := rest, handler := .holding count msg }, [])
      | _, _ => none
  | .put =>
      match st.handler with
      | .holding count msg =>
          some ({ st with handler := .receiving (wrap64 (count + 1)) }, [fromPB msg])
      | _ => none
  | .eof =>
      match st.handler, st.wire, st.client with
      | .receiving count, [], .closing => some ({ st with handler := .answered count }, [])
      | _, _, _ => none
  | .fail =>
      if st.handler.active ∧ st.client = .failed then some ({ st with handler := .returned }, [])
      else none
  | .ack =>
      match st.handler, st.client with
      | .answered count, .closing => some ({ st with client := .acked count }, [])
      | _, _ => none

def Stream.Flow (source done : List V) (st : Stream V M) : Prop :=
  match st.handler with
  | .waiting => done = [] ∧ source = st.wire.map fromPB ++ st.unread
  | .receiving count =>
      count = wrap64 done.length ∧ source = done ++ (st.wire.map fromPB ++ st.unread)
  | .holding count msg =>
      count = wrap64 done.length ∧ source = done ++ (fromPB msg :: st.wire.map fromPB ++ st.unread)
  | .answered count => count = wrap64 done.length ∧ source = done
  | .returned => done <+: source

structure Stream.Carries (source done : List V) (st : Stream V M) : Prop where
  flow : st.Flow fromPB source done
  sent : ∃ k, st.sent = wrap64 k ∧ k + st.unread.length = source.length
  closing : st.client = .closing → st.unread = []
  acked : ∀ r, st.client = .acked r → st.handler = .answered r ∧ st.unread = []
  returned : st.handler = .returned → st.client = .failed

variable {toPB fromPB}

end Streams

/-- The streams of one kind and the channel their handlers share: everything put on it, and
    how much of that the collector has received. -/
structure Lane (V M : Type) (n : Nat) where
  streams : Fin n → Stream V M
  log : List V
  taken : Nat
  closed : Bool
  panicked : Bool

section Lanes
variable {V M : Type} {n : Nat} (toPB : V → M) (fromPB : M → V)

def Lane.new (sources : Fin n → List V) : Lane V M n :=
  ⟨fun i => Stream.new (sources i), [], 0, false, false⟩

/-- A send waits while the channel is full and panics once it is closed. -/
def Lane.put (lane : Lane V M n) (capacity : Nat) (streams : Fin n → Stream V M) (out : List V) :
    Option (Lane V M n) :=
  if lane.closed then some { lane with panicked := true }
  else if lane.log.length - lane.taken < capacity then
    some { lane with streams := streams, log := lane.log ++ out }
  else none

def Lane.step (capacity : Nat) (serving : Bool) (lane : Lane V M n) (i : Fin n)
    (a : StreamAction) : Option (Lane V M n) :=
  if a = .accept ∧ serving = false then none
  else
    match (lane.streams i).step toPB fromPB a with
    | none => none
    | some (st, []) => some { lane with streams := Function.update lane.streams i st }
    | some (st, out) => lane.put capacity (Function.update lane.streams i st) out

def Lane.receive (lane : Lane V M n) : Option (Lane V M n) :=
  if lane.taken < lane.log.length then some { lane with taken := lane.taken + 1 } else none

def Lane.Quiet (lane : Lane V M n) : Prop := ∀ i, (lane.streams i).handler.active = false

instance (lane : Lane V M n) : Decidable lane.Quiet :=
  inferInstanceAs (Decidable (∀ i, (lane.streams i).handler.active = false))

def Lane.Carries (sources : Fin n → List V) (lane : Lane V M n) : Prop :=
  ∃ parts, Merge parts lane.log ∧ ∀ i, (lane.streams i).Carries fromPB (sources i) (parts i)

variable {toPB fromPB}

end Lanes

/- The goroutine of Start: before the context is done, inside GracefulStop, behind it. -/
inductive Phase where
  | serving
  | stopping
  | stopped
  deriving DecidableEq

structure Server (n : Nat) where
  events : Lane Event TelemetryEvent n
  resources : Lane ResourceSnapshot TelemetryResource n
  phase : Phase

inductive Action (n : Nat) where
  | event (edge : Fin n) (a : StreamAction)
  | resource (edge : Fin n) (a : StreamAction)
  | receiveEvent
  | receiveResource
  | gracefulStop
  | gracefullyStopped
  | closeEvents
  | closeResources

variable {n : Nat}

def Server.new (events : Fin n → List Event) (resources : Fin n → List ResourceSnapshot) :
    Server n := ⟨Lane.new events, Lane.new resources, .serving⟩

def Server.serving (s : Server n) : Bool := decide (s.phase = .serving)

def retransmit (pid : UInt32) : Event := ⟨.retransmit, pid, "", "10.0.0.1", "10.0.0.2", 80, 0, 0⟩

end CollectorRemote
