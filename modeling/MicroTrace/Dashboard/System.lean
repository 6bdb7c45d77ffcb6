import MicroTrace.Dashboard.Client

/- The Processor, the hub and one dashboard. The Run loop and ForwardResource each work
   through the calls they still have to make; Broadcast puts a message into the channel of
   hub.go, Hub.Run takes it out and then writes it under the hub lock, and ServeWs registers
   the dashboard and sends it the history under the same lock. A message that is lost on the
   way to a dashboard whose socket breaks is one that was written after the break. -/
namespace Dashboard
open CollectorModel CollectorStats RangeLoops Runs Lives

def broadcastBuffer : Nat := 512

/- json.Marshal rejects a number that is not finite. -/
def encodes : OutboundMsg → Bool
  | .stats s => s.dstCPUPct.isFinite && s.dstCPUThrottlePct.isFinite &&
      s.dstMemPressurePct.isFinite && s.dstIOWaitPct.isFinite
  | .resource r => r.cpuPct.isFinite && r.cpuThrottlePct.isFinite && r.memPressurePct.isFinite &&
      r.ioWaitPct.isFinite && r.psiMemSomePct.isFinite && r.psiMemFullPct.isFinite
  | _ => true

inductive RunOp where
  | send (call : Emission)
  | apply (a : Answers) (now : Time) (e : Event)

structure System where
  machine : Machine
  runOps : List RunOp
  resOps : List Emission
  queue : List OutboundMsg
  hand : Option OutboundMsg
  client : Client

def System.conns (s : System) : GoMap ConnKey ConnStats := s.machine.proc.conns

def System.start (storing : Bool) (clock : Time) : System :=
  ⟨.start storing clock, [], [], [], none, .opened⟩

inductive Label where
  | input (i : Input)
  | runOp
  | resOp
  | receive
  | write (now : Clock)
  | register (order : List ConnKey)
  | disconnect
  deriving DecidableEq

inductive Traffic where
  | enqueued (m : OutboundMsg)
  | written (m : OutboundMsg)

def System.broadcast (m : OutboundMsg) (s : System) : System × List Traffic :=
  if encodes m ∧ s.queue.length < broadcastBuffer then
    ({ s with queue := s.queue ++ [m] }, [.enqueued m])
  else (s, [])

def System.call (call : Emission) (s : System) : System × List Traffic :=
  match call.broadcast with
  | some m => s.broadcast m
  | none => (s, [])

/- handleEvent broadcasts the event before it takes the lock. -/
def System.accept (s : System) : Input → Option System
  | .resource res =>
      if s.resOps.isEmpty then
        (CollectorStats.step s.machine (.resource res)).map fun r =>
          { s with machine := r.1, resOps := r.2 }
      else none
  | .event a now e =>
      if s.runOps.isEmpty ∧ s.machine.running ∧ s.machine.clock ≤ now then
        some { s with
          machine := { s.machine with clock := now }
          runOps := [.send (.event (rawEvent a now e)), .apply a now e] }
      else none
  | i =>
      if s.runOps.isEmpty then
        (CollectorStats.step s.machine i).map fun r =>
          { s with machine := r.1, runOps := r.2.map RunOp.send }
      else none

def System.runNext (s : System) (rest : List RunOp) : RunOp → System × List Traffic
  | .send call => { s with runOps := rest }.call call
  | .apply a now e =>
      ({ s with
          runOps := rest
          machine := { s.machine with proc := applyEvent a now e s.machine.proc } }, [])

def Client.join (h : List ConnHistory) (c : Client) : Client :=
  let joined := { c with connected := true }
  if 0 < h.length then joined.onHistory h else joined

def step : Stepper System Label Traffic
  | s, .input i => (s.accept i).map fun t => (t, [])
  | s, .runOp => match s.runOps with
      | [] => none
      | op :: rest => some (s.runNext rest op)
  | s, .resOp => match s.resOps with
      | [] => none
      | call :: rest => some ({ s with resOps := rest }.call call)
  | s, .receive => match s.hand, s.queue with
      | none, m :: rest => some ({ s with hand := some m, queue := rest }, [])
      | _, _ => none
  | s, .write now => match s.hand with
      | some m => some ({ s with
          hand := none
          client := if s.client.connected then s.client.onmessage now m else s.client },
          [.written m])
      | none => none
  | s, .register order =>
      if s.client.connected = false ∧ Enumerates order s.conns then
        some ({ s with client := s.client.join (getHistory order s.machine.proc) }, [])
      else none
  | s, .disconnect =>
      if s.client.connected then
        some ({ s with client := { s.client with connected := false } }, [])
      else none

def Traffic.sent? : Traffic → Option OutboundMsg
  | .enqueued m => some m
  | .written _ => none

def Traffic.written? : Traffic → Option OutboundMsg
  | .enqueued _ => none
  | .written m => some m

def sent (out : List Traffic) : List OutboundMsg := out.filterMap Traffic.sent?

def written (out : List Traffic) : List OutboundMsg := out.filterMap Traffic.written?

def RunOp.message : RunOp → Option OutboundMsg
  | .send call => call.broadcast
  | .apply _ _ _ => none

def pending (ops : List RunOp) : List OutboundMsg := ops.filterMap RunOp.message

def broadcasts (s : System) : Label → Option OutboundMsg
  | .runOp => s.runOps.head?.bind RunOp.message
  | .resOp => s.resOps.head?.bind Emission.broadcast
  | _ => none

section Smooth

variable (names : ConnKey → Bool) (good : StatSnapshot → Bool)

/-- The step loses no message and its connections have names of the given kind: no broadcast
    finds the channel full, and what is published can be marshalled and is good. -/
def Smooth (s : System) : Label → Prop
  | .input (.event a _ _) => names a.connKey = true
  | .input (.tick now order) => ∀ snap ∈ (publishSnapshots order now s.machine.proc).2,
      encodes (.stats snap) = true ∧ good snap = true
  | .input (.closed now order) => ∀ snap ∈ (publishSnapshots order now s.machine.proc).2,
      encodes (.stats snap) = true ∧ good snap = true
  | l => (broadcasts s l).isSome = true → s.queue.length < broadcastBuffer

instance (s : System) : (l : Label) → Decidable (Smooth names good s l)
  | .input (.event _ _ _) => inferInstanceAs (Decidable (_ = _))
  | .input (.tick _ _) => inferInstanceAs (Decidable (∀ snap ∈ _, _))
  | .input (.closed _ _) => inferInstanceAs (Decidable (∀ snap ∈ _, _))
  | .input (.sweep _ _ _) => inferInstanceAs (Decidable (_ → _))
  | .input (.resource _) => inferInstanceAs (Decidable (_ → _))
  | .runOp => inferInstanceAs (Decidable (_ → _))
  | .resOp => inferInstanceAs (Decidable (_ → _))
  | .receive => inferInstanceAs (Decidable (_ → _))
  | .write _ => inferInstanceAs (Decidable (_ → _))
  | .register _ => inferInstanceAs (Decidable (_ → _))
  | .disconnect => inferInstanceAs (Decidable (_ → _))

variable {names good} {s : System}

theorem smooth_publish {i : Input} {now : Time} {order : List ConnKey}
    (kind : i = .tick now order ∨ i = .closed now order) (smooth : Smooth names good s (.input i)) :
    ∀ snap ∈ (publishSnapshots order now s.machine.proc).2,
      encodes (.stats snap) = true ∧ good snap = true := by
  rcases kind with rfl | rfl
  · exact smooth
  · exact smooth

theorem smooth_runCall {call : Emission} {rest : List RunOp} (smooth : Smooth names good s .runOp)
    (next : s.runOps = .send call :: rest) :
    call.broadcast.isSome = true → s.queue.length < broadcastBuffer := by
  intro some
  apply smooth
  simpa [broadcasts, next, RunOp.message] using some

theorem smooth_resCall {call : Emission} {rest : List Emission}
    (smooth : Smooth names good s .resOp) (next : s.resOps = call :: rest) :
    call.broadcast.isSome = true → s.queue.length < broadcastBuffer := by
  intro some
  apply smooth
  simpa [broadcasts, next] using some

end Smooth

theorem call_keeps {s t : System} {call : Emission} {o : List Traffic}
    (made : s.call call = (t, o)) :
    t.machine = s.machine ∧ t.runOps = s.runOps ∧ t.client = s.client ∧ written o = [] := by
  unfold System.call at made
  split at made
  · unfold System.broadcast at made
    split at made <;> cases made <;> exact ⟨rfl, rfl, rfl, rfl⟩
  · cases made
    exact ⟨rfl, rfl, rfl, rfl⟩

/-- Everything one step of the system can do, guards included. -/
inductive Move (s : System) : Label → System → List Traffic → Prop
  | publish (i : Input) (now : Time) (order : List ConnKey) (running : Bool)
      (kind : i = .tick now order ∨ i = .closed now order) (idle : s.runOps = [])
      (visit : Enumerates order s.conns) :
      Move s (.input i) { s with
        machine := ⟨(publishSnapshots order now s.machine.proc).1, now, running⟩
        runOps := (publishCalls s.machine.proc.storing
          (publishSnapshots order now s.machine.proc).2).map RunOp.send } []
  | sweep (now : Time) (order : List ConnKey) (flowOrder : List FlowKey) (idle : s.runOps = [])
      (visit : Enumerates order s.conns) :
      Move s (.input (.sweep now order flowOrder)) { s with
        machine := { s.machine with
          proc := (sweepExpired order flowOrder now s.machine.proc).1, clock := now }
        runOps := ((sweepExpired order flowOrder now s.machine.proc).2.map Emission.remove).map
          RunOp.send } []
  | event (a : Answers) (now : Time) (e : Event) (idle : s.runOps = []) :
      Move s (.input (.event a now e)) { s with
        machine := { s.machine with clock := now }
        runOps := [.send (.event (rawEvent a now e)), .apply a now e] } []
  | resource (r : ResourceSnapshot) (idle : s.resOps = []) :
      Move s (.input (.resource r)) { s with
        machine := { s.machine with proc := forwardResource r s.machine.proc }
        resOps := resourceCalls s.machine.proc.storing r } []
  | apply (a : Answers) (now : Time) (e : Event) (rest : List RunOp)
      (next : s.runOps = .apply a now e :: rest) :
      Move s .runOp { s with
        runOps := rest
        machine := { s.machine with proc := applyEvent a now e s.machine.proc } } []
  | runCall (call : Emission) (rest : List RunOp) (t : System) (o : List Traffic)
      (next : s.runOps = .send call :: rest) (made : { s with runOps := rest }.call call = (t, o)) :
      Move s .runOp t o
  | resCall (call : Emission) (rest : List Emission) (t : System) (o : List Traffic)
      (next : s.resOps = call :: rest) (made : { s with resOps := rest }.call call = (t, o)) :
      Move s .resOp t o
  | receive (m : OutboundMsg) (rest : List OutboundMsg) (free : s.hand = none)
      (next : s.queue = m :: rest) :
      Move s .receive { s with hand := some m, queue := rest } []
  | write (now : Clock) (m : OutboundMsg) (held : s.hand = some m) :
      Move s (.write now) { s with
        hand := none
        client := if s.client.connected then s.client.onmessage now m else s.client } [.written m]
  | register (order : List ConnKey) (away : s.client.connected = false)
      (visit : Enumerates order s.conns) :
      Move s (.register order)
        { s with client := s.client.join (getHistory order s.machine.proc) } []
  | disconnect (there : s.client.connected = true) :
      Move s .disconnect { s with client := { s.client with connected := false } } []

theorem turn_move {s : System} {i : Input} {m : Machine} {calls : List Emission}
    (idle : s.runOps = []) (noEvent : ∀ a now e, i ≠ .event a now e)
    (noResource : ∀ r, i ≠ .resource r)
    (taken : CollectorStats.step s.machine i = some (m, calls)) :
    Move s (.input i) { s with machine := m, runOps := calls.map RunOp.send } [] := by
  rcases step_cases taken with ⟨a, now, e, rfl, _⟩ |
    ⟨now, order, running, kind, _, _, visit, rfl, rfl⟩ |
    ⟨now, order, flowOrder, rfl, _, _, visit, _, rfl, rfl⟩ | ⟨r, rfl, _⟩
  · exact absurd rfl (noEvent a now e)
  · exact .publish i now order running (kind.imp And.left And.left) idle visit
  · exact .sweep now order flowOrder idle visit
  · exact absurd rfl (noResource r)

theorem accept_move {s t : System} {i : Input} (accepted : s.accept i = some t) :
    Move s (.input i) t [] := by
  cases i with
  | resource r =>
    simp only [System.accept, Option.ite_none_right_eq_some, List.isEmpty_iff] at accepted
    obtain ⟨idle, taken⟩ := accepted
    cases taken
    exact .resource r idle
  | event a now e =>
    simp only [System.accept, Option.ite_none_right_eq_some, List.isEmpty_iff] at accepted
    obtain ⟨⟨idle, _⟩, taken⟩ := accepted
    cases taken
    exact .event a now e idle
  | tick now order =>
    simp only [System.accept, Option.ite_none_right_eq_some, List.isEmpty_iff,
      Option.map_eq_some_iff] at accepted
    obtain ⟨idle, ⟨m, calls⟩, taken, rfl⟩ := accepted
    exact turn_move idle (by simp) (by simp) taken
  | closed now order =>
    simp only [System.accept, Option.ite_none_right_eq_some, List.isEmpty_iff,
      Option.map_eq_some_iff] at accepted
    obtain ⟨idle, ⟨m, calls⟩, taken, rfl⟩ := accepted
    exact turn_move idle (by simp) (by simp) taken
  | sweep now order flowOrder =>
    simp only [System.accept, Option.ite_none_right_eq_some, List.isEmpty_iff,
      Option.map_eq_some_iff] at accepted
    obtain ⟨idle, ⟨m, calls⟩, taken, rfl⟩ := accepted
    exact turn_move idle (by simp) (by simp) taken

theorem step_move {s t : System} {l : Label} {o : List Traffic}
    (taken : step s l = some (t, o)) : Move s l t o := by
  cases l with
  | input i =>
    simp only [step, Option.map_eq_some_iff, Prod.mk.injEq] at taken
    obtain ⟨u, accepted, rfl, rfl⟩ := taken
    exact accept_move accepted
  | runOp =>
    cases next : s.runOps with
    | nil => simp [step, next] at taken
    | cons op rest =>
      simp only [step, next, Option.some.injEq] at taken
      cases op with
      | send call => exact .runCall call rest t o next taken
      | apply a now e =>
        cases taken
        exact .apply a now e rest next
  | resOp =>
    cases next : s.resOps with
    | nil => simp [step, next] at taken
    | cons call rest =>
      simp only [step, next, Option.some.injEq] at taken
      exact .resCall call rest t o next taken
  | receive =>
    cases held : s.hand with
    | some m => simp [step, held] at taken
    | none =>
      cases next : s.queue with
      | nil => simp [step, held, next] at taken
      | cons m rest =>
        simp only [step, held, next, Option.some.injEq] at taken
        cases taken
        exact .receive m rest held next
  | write now =>
    cases held : s.hand with
    | none => simp [step, held] at taken
    | some m =>
      simp only [step, held, Option.some.injEq] at taken
      cases taken
      exact .write now m held
  | register order =>
    simp only [step, Option.ite_none_right_eq_some] at taken
    obtain ⟨⟨away, visit⟩, taken⟩ := taken
    cases taken
    exact .register order away visit
  | disconnect =>
    simp only [step, Option.ite_none_right_eq_some] at taken
    obtain ⟨there, taken⟩ := taken
    cases taken
    exact .disconnect there

end Dashboard
