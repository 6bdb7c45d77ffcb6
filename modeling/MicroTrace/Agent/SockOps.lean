import MicroTrace.Library.Runs

/- The sock_ops program of the agent (tcp_trace.bpf.c) against the kernel that calls it. The
   kernel calls back on an RTT update or on a retransmission only while the socket carries
   the flag for that callback, and only the program sets flags. -/
namespace AgentSockOps
open Runs

def eventTypeConnect : UInt8 := 1
def eventTypeRetransmit : UInt8 := 2
def eventTypeRtt : UInt8 := 3

def afInet : UInt32 := 2

def retransCbFlag : UInt32 := (1 : UInt32) <<< 1
def rttCbFlag : UInt32 := (1 : UInt32) <<< 3
def allCbFlags : UInt32 := 0x7F

structure RingEvent where
  latencyUs : UInt64
  jitterUs : UInt64
  pid : UInt32
  saddr : UInt32
  daddr : UInt32
  dport : UInt16
  type : UInt8
  comm : List UInt8
  deriving DecidableEq

structure SockView where
  localPort : UInt32
  localIp4 : UInt32
  remoteIp4 : UInt32
  remotePort : UInt32
  srttUs : UInt32
  rttMin : UInt32
  deriving DecidableEq

inductive SockOp where
  | activeEstablishedCB
  | rttCB
  | retransCB
  | other (code : UInt32)
  deriving DecidableEq

structure BpfSockOps extends SockView where
  op : SockOp
  family : UInt32
  cbFlags : UInt32
  deriving DecidableEq

/- The agent is built for little-endian hosts. -/
def bpfNtohs (x : UInt16) : UInt16 := (x >>> 8) ||| (x <<< 8)

def srttReal (skops : SockView) : UInt64 := (skops.srttUs >>> 3).toUInt64

def fillEvent (skops : SockView) (type : UInt8) (latencyUs : UInt64) : RingEvent where
  latencyUs := latencyUs
  jitterUs :=
    if type ≠ eventTypeRetransmit then
      if srttReal skops > skops.rttMin.toUInt64 then srttReal skops - skops.rttMin.toUInt64 else 0
    else 0
  pid := skops.localPort
  saddr := skops.localIp4
  daddr := skops.remoteIp4
  dport := bpfNtohs (skops.remotePort >>> 16).toUInt16
  type := type
  comm := List.replicate 16 0

/- What the helper leaves in the socket: unknown bits are dropped. -/
def bpfSockOpsCbFlagsSet (argval : UInt32) : UInt32 := argval &&& allCbFlags

/-- The callback flags afterwards and the events submitted. An event is lost when the ring
    buffer has no room for it. -/
def handleSockOps (room : Bool) (skops : BpfSockOps) : UInt32 × List RingEvent :=
  if skops.family ≠ afInet then (skops.cbFlags, [])
  else match skops.op with
    | .activeEstablishedCB =>
        (bpfSockOpsCbFlagsSet (skops.cbFlags ||| rttCbFlag),
          if room then [fillEvent skops.toSockView eventTypeConnect (srttReal skops.toSockView)]
          else [])
    | .rttCB =>
        (skops.cbFlags,
          if room then [fillEvent skops.toSockView eventTypeRtt (srttReal skops.toSockView)]
          else [])
    | .retransCB =>
        (skops.cbFlags,
          if room then [fillEvent skops.toSockView eventTypeRetransmit 0] else [])
    | .other _ => (skops.cbFlags, [])

structure Socket where
  family : UInt32
  cbFlags : UInt32
  established : Bool
  deriving DecidableEq

def Socket.opened (family : UInt32) : Socket := ⟨family, 0, false⟩

inductive Happening where
  | established
  | rttUpdate
  | retransmission
  | other (code : UInt32)
  deriving DecidableEq

/- Something that happens to a socket, what the program can read then, and whether the ring
   buffer has room. -/
structure Stimulus where
  happening : Happening
  view : SockView
  room : Bool
  deriving DecidableEq

def Socket.invoke (sock : Socket) (st : Stimulus) (op : SockOp) : Socket × List RingEvent :=
  let (flags, events) :=
    handleSockOps st.room ⟨st.view, op, sock.family, sock.cbFlags⟩
  ({ sock with cbFlags := flags }, events)

/-- A callback that the socket has to ask for. -/
def Socket.invokeIf (sock : Socket) (flag : UInt32) (st : Stimulus) (op : SockOp) :
    Socket × List RingEvent :=
  if sock.cbFlags &&& flag ≠ 0 then sock.invoke st op else (sock, [])

def kernel : Stepper Socket Stimulus RingEvent := fun sock st =>
  match st.happening with
  | .established =>
      if sock.established then none
      else some ({ sock with established := true }.invoke st .activeEstablishedCB)
  | .rttUpdate =>
      if sock.established then some (sock.invokeIf rttCbFlag st .rttCB) else none
  | .retransmission =>
      if sock.established then some (sock.invokeIf retransCbFlag st .retransCB) else none
  | .other code => some (sock.invoke st (.other code))

/-- The event a stimulus should be reported by. -/
def Stimulus.report (st : Stimulus) : List RingEvent :=
  match st.happening with
  | .established => [fillEvent st.view eventTypeConnect (srttReal st.view)]
  | .rttUpdate => [fillEvent st.view eventTypeRtt (srttReal st.view)]
  | .retransmission => [fillEvent st.view eventTypeRetransmit 0]
  | .other _ => []

def Stimulus.seen (st : Stimulus) : List RingEvent :=
  if st.happening = .retransmission then [] else st.report

/- The flags of an established socket: the program has asked for RTT callbacks only. -/
theorem flags_after_connect : bpfSockOpsCbFlagsSet (0 ||| rttCbFlag) = rttCbFlag := by decide

theorem rtt_requested : rttCbFlag &&& rttCbFlag ≠ 0 := by decide

theorem retrans_not_requested : ¬ rttCbFlag &&& retransCbFlag ≠ 0 := by decide

theorem seen_established {first : Stimulus} (opening : first.happening = .established)
    (room : first.room = true) {t : Socket} {o : List RingEvent}
    (taken : kernel (.opened afInet) first = some (t, o)) :
    t = ⟨afInet, rttCbFlag, true⟩ ∧ o = first.seen := by
  obtain ⟨happening, view, ring⟩ := first
  subst opening room
  cases taken
  constructor
  · exact congrArg (Socket.mk afInet · true) flags_after_connect
  · rfl

theorem seen_step {st : Stimulus} (room : st.room = true) {t : Socket} {o : List RingEvent}
    (taken : kernel ⟨afInet, rttCbFlag, true⟩ st = some (t, o)) :
    t = ⟨afInet, rttCbFlag, true⟩ ∧ o = st.seen := by
  obtain ⟨happening, view, ring⟩ := st
  subst room
  cases happening with
  | established => cases taken
  | rttUpdate =>
    simp only [kernel, if_true, Socket.invokeIf, if_pos rtt_requested] at taken
    cases taken
    exact ⟨rfl, rfl⟩
  | retransmission =>
    simp only [kernel, if_true, Socket.invokeIf, if_neg retrans_not_requested] at taken
    cases taken
    exact ⟨rfl, rfl⟩
  | other code =>
    cases taken
    exact ⟨rfl, rfl⟩

theorem seen_run {later : List Stimulus} {t : Socket} {out : List RingEvent}
    (run : exec kernel ⟨afInet, rttCbFlag, true⟩ later = some (t, out))
    (room : ∀ st ∈ later, st.room = true) : out = later.flatMap Stimulus.seen := by
  induction later generalizing out with
  | nil => exact (exec_nil_iff.mp run).2
  | cons st later ih =>
    obtain ⟨u, o, o', first, rest, rfl⟩ := exec_cons_iff.mp run
    obtain ⟨rfl, rfl⟩ := seen_step (room st List.mem_cons_self) first
    rw [List.flatMap_cons, ih rest fun st' member => room st' (List.mem_cons_of_mem _ member)]

def retransmissions (later : List Stimulus) : Nat :=
  later.countP fun st => st.happening = .retransmission

theorem report_length (later : List Stimulus) : (later.flatMap Stimulus.report).length =
    (later.flatMap Stimulus.seen).length + retransmissions later := by
  induction later with
  | nil => rfl
  | cons st later ih =>
    simp only [retransmissions, List.flatMap_cons, List.length_append, List.countP_cons] at ih ⊢
    by_cases retransmitted : st.happening = .retransmission
    · have reported : st.report.length = 1 := by simp [Stimulus.report, retransmitted]
      have unseen : st.seen = [] := if_pos retransmitted
      simp only [retransmitted, unseen, List.length_nil, decide_true, if_true]
      omega
    · have same : st.seen = st.report := if_neg retransmitted
      simp only [retransmitted, same, decide_false, Bool.false_eq_true, if_false]
      omega

theorem seen_eq_report {later : List Stimulus}
    (none : ∀ st ∈ later, st.happening ≠ .retransmission) :
    later.flatMap Stimulus.seen = later.flatMap Stimulus.report := by
  induction later with
  | nil => rfl
  | cons st later ih =>
    have head : st.seen = st.report := if_neg (none st List.mem_cons_self)
    rw [List.flatMap_cons, List.flatMap_cons, head,
      ih fun st' member => none st' (List.mem_cons_of_mem _ member)]

/-- The submitted events are the connect event and one event for each RTT update and each
    retransmission, in order, exactly when there is no retransmission. -/
theorem socket_fully_reported_iff {first : Stimulus} {later : List Stimulus} {sock : Socket}
    {out : List RingEvent} (opening : first.happening = .established)
    (run : exec kernel (.opened afInet) (first :: later) = some (sock, out))
    (room : ∀ st ∈ first :: later, st.room = true) :
    out = (first :: later).flatMap Stimulus.report ↔
      ∀ st ∈ later, st.happening ≠ .retransmission := by
  obtain ⟨t, o, o', connect, rest, rfl⟩ := exec_cons_iff.mp run
  obtain ⟨rfl, rfl⟩ := seen_established opening (room first List.mem_cons_self) connect
  have tail := seen_run rest fun st member => room st (List.mem_cons_of_mem _ member)
  have head : first.seen = first.report := by simp [Stimulus.seen, opening]
  rw [tail, head, List.flatMap_cons, List.append_cancel_left_eq]
  constructor
  · intro same
    have count := report_length later
    rw [same] at count
    have zero : retransmissions later = 0 := by omega
    intro st member
    have missed := List.countP_eq_zero.mp zero st member
    simpa using missed
  · exact seen_eq_report

def clientView (srttUs : UInt32) : SockView :=
  ⟨40001, 0x030013AC, 0x040013AC, 0x901F0000, srttUs, 100⟩

def connected : Stimulus := ⟨.established, clientView 1600, true⟩

def twoUpdates : List Stimulus :=
  [⟨.rttUpdate, clientView 1640, true⟩, ⟨.rttUpdate, clientView 2400, true⟩]

theorem two_updates_fully_reported :
    ∃ sock out, exec kernel (.opened afInet) (connected :: twoUpdates) = some (sock, out) ∧
      out.map (·.type) = [eventTypeConnect, eventTypeRtt, eventTypeRtt] ∧
      (out = (connected :: twoUpdates).flatMap Stimulus.report ↔
        ∀ st ∈ twoUpdates, st.happening ≠ .retransmission) :=
  ⟨_, _, rfl, rfl, @socket_fully_reported_iff connected twoUpdates _ _ rfl rfl (by decide)⟩

def lossyLink : List Stimulus :=
  [⟨.rttUpdate, clientView 1640, true⟩, ⟨.retransmission, clientView 1640, true⟩]

theorem retransmission_not_reported :
    (∀ st ∈ connected :: lossyLink, st.room = true) ∧
    ∃ sock out, exec kernel (.opened afInet) (connected :: lossyLink) = some (sock, out) ∧
      out.map (·.type) = [eventTypeConnect, eventTypeRtt] ∧
      out ≠ (connected :: lossyLink).flatMap Stimulus.report :=
  ⟨by decide, _, _, rfl, rfl, by decide⟩

end AgentSockOps
