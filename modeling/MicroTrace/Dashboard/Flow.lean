import MicroTrace.Dashboard.System

/- Messages on their way. Whatever has been enqueued has been written, is in the hand of
   Hub.Run or waits in the channel, in this order. What the collector has told about a key
   is what it has enqueued and what the Run loop is about to send; a step adds to it only
   when it publishes or sweeps. -/
namespace Dashboard
open CollectorModel CollectorStats RangeLoops Runs Lives

def delivered (call : Emission) : List OutboundMsg :=
  call.broadcast.toList.filter encodes

theorem call_delivers {s t : System} {call : Emission} {o : List Traffic}
    (made : s.call call = (t, o))
    (room : call.broadcast.isSome = true → s.queue.length < broadcastBuffer) :
    t = { s with queue := s.queue ++ delivered call } ∧
      o = (delivered call).map Traffic.enqueued := by
  unfold System.call at made
  cases message : call.broadcast with
  | none =>
    simp only [message] at made
    cases made
    simp [delivered, message]
  | some m =>
    have free := room (by simp [message])
    simp only [message, System.broadcast] at made
    cases sound : encodes m with
    | true =>
      simp only [sound, free, and_self, if_true] at made
      cases made
      simp [delivered, message, sound]
    | false =>
      simp only [sound, Bool.false_eq_true, false_and, if_false] at made
      cases made
      simp [delivered, message, sound]

theorem broadcast_streamed {call : Emission} {m : OutboundMsg} (made : call.broadcast = some m) :
    OutboundMsg.streamed m = true := by
  cases call <;> cases made <;> rfl

theorem mem_delivered {call : Emission} {m : OutboundMsg} (member : m ∈ delivered call) :
    call.broadcast = some m := by
  have listed := (List.mem_filter.mp member).1
  simpa using listed

theorem sent_append (out o : List Traffic) : sent (out ++ o) = sent out ++ sent o := by
  simp [sent]

theorem written_append (out o : List Traffic) : written (out ++ o) = written out ++ written o := by
  simp [written]

theorem sent_enqueued (ms : List OutboundMsg) : sent (ms.map Traffic.enqueued) = ms := by
  simp [sent, List.filterMap_map, Function.comp_def, Traffic.sent?]

theorem written_enqueued (ms : List OutboundMsg) : written (ms.map Traffic.enqueued) = [] := by
  simp [written, List.filterMap_map, Function.comp_def, Traffic.written?]

theorem sent_written (m : OutboundMsg) : sent [.written m] = [] := rfl

theorem written_written (m : OutboundMsg) : written [.written m] = [m] := rfl

theorem pending_publish (storing : Bool) (snaps : List StatSnapshot) :
    pending ((publishCalls storing snaps).map RunOp.send) = snaps.map OutboundMsg.stats := by
  induction snaps with
  | nil => rfl
  | cons snap snaps ih =>
    simp only [pending, publishCalls, List.flatMap_cons] at ih ⊢
    cases storing <;>
      simpa [List.filterMap_cons, RunOp.message, Emission.broadcast] using ih

theorem pending_removals (keys : List ConnKey) :
    pending ((keys.map Emission.remove).map RunOp.send) =
      keys.map fun key => OutboundMsg.remove key.text := by
  induction keys with
  | nil => rfl
  | cons key keys ih =>
    simp only [pending, List.map_cons] at ih ⊢
    simpa [RunOp.message, Emission.broadcast] using ih

structure Flow (s : System) (out : List Traffic) : Prop where
  fifo : sent out = written out ++ s.hand.toList ++ s.queue
  streamed : ∀ m ∈ sent out, OutboundMsg.streamed m = true
  encodable : ∀ m ∈ pending s.runOps, encodes m = true
  quiet : ∀ call ∈ s.resOps, ∀ key, words key call.broadcast.toList = []

theorem flow_start (storing : Bool) (clock : Time) : Flow (.start storing clock) [] := by
  constructor
  · rfl
  · simp [sent]
  · simp [System.start, pending]
  · simp [System.start]

section Steps

variable {names : ConnKey → Bool} {good : StatSnapshot → Bool} {s t : System} {l : Label}
  {out o : List Traffic}

theorem flow_call {r : System} {call : Emission} (before : Flow s out)
    (hand : r.hand = s.hand) (queue : r.queue = s.queue)
    (encodable : ∀ m ∈ pending r.runOps, encodes m = true)
    (quiet : ∀ c ∈ r.resOps, ∀ key, words key c.broadcast.toList = []) :
    Flow { r with queue := r.queue ++ delivered call }
      (out ++ (delivered call).map Traffic.enqueued) := by
  constructor
  · rw [sent_append, written_append, sent_enqueued, written_enqueued, before.fifo, hand, queue]
    simp
  · intro m member
    rw [sent_append, sent_enqueued] at member
    rcases List.mem_append.mp member with earlier | now
    · exact before.streamed m earlier
    · exact broadcast_streamed (mem_delivered now)
  · exact encodable
  · exact quiet

theorem pending_tail {op : RunOp} {rest : List RunOp} {m : OutboundMsg}
    (member : m ∈ pending rest) : m ∈ pending (op :: rest) := by
  obtain ⟨op', here, made⟩ := List.mem_filterMap.mp member
  exact List.mem_filterMap.mpr ⟨op', List.mem_cons_of_mem _ here, made⟩

theorem flow_step (before : Flow s out) (smooth : Smooth names good s l)
    (taken : step s l = some (t, o)) : Flow t (out ++ o) := by
  have silent : ∀ r : System, r.hand.toList ++ r.queue = s.hand.toList ++ s.queue →
      (∀ m ∈ pending r.runOps, encodes m = true) →
      (∀ c ∈ r.resOps, ∀ key, words key c.broadcast.toList = []) → Flow r (out ++ []) := by
    intro r same encodable quiet
    rw [List.append_nil]
    refine ⟨?_, before.streamed, encodable, quiet⟩
    rw [before.fifo, List.append_assoc, List.append_assoc, same]
  cases step_move taken with
  | publish i now order running kind idle visit =>
    refine silent _ rfl ?_ before.quiet
    intro m member
    rw [pending_publish] at member
    obtain ⟨snap, published, rfl⟩ := List.mem_map.mp member
    exact (smooth_publish kind smooth snap published).1
  | sweep now order flowOrder idle visit =>
    refine silent _ rfl ?_ before.quiet
    intro m member
    rw [pending_removals] at member
    obtain ⟨key, _, rfl⟩ := List.mem_map.mp member
    rfl
  | event a now e idle =>
    refine silent _ rfl ?_ before.quiet
    intro m member
    cases List.mem_singleton.mp member
    rfl
  | resource r idle =>
    refine silent _ rfl before.encodable ?_
    intro call member key
    cases storing : s.machine.proc.storing <;>
      simp [resourceCalls, storing] at member <;> rcases member with rfl | rfl <;> rfl
  | apply a now e rest next =>
    refine silent _ rfl ?_ before.quiet
    intro m member
    exact before.encodable m (next ▸ pending_tail member)
  | runCall call rest t o next made =>
    have room := smooth_runCall smooth next
    obtain ⟨rfl, rfl⟩ := call_delivers made room
    refine flow_call before rfl rfl ?_ before.quiet
    intro m member
    exact before.encodable m (next ▸ pending_tail member)
  | resCall call rest t o next made =>
    have room := smooth_resCall smooth next
    obtain ⟨rfl, rfl⟩ := call_delivers made room
    refine flow_call before rfl rfl before.encodable ?_
    intro c member
    exact before.quiet c (next ▸ List.mem_cons_of_mem _ member)
  | receive m rest free next =>
    refine silent _ ?_ before.encodable before.quiet
    simp [free, next]
  | write now m held =>
    refine ⟨?_, ?_, before.encodable, before.quiet⟩
    · rw [sent_append, written_append, sent_written, written_written, before.fifo, held]
      simp
    · intro m' member
      rw [sent_append, sent_written, List.append_nil] at member
      exact before.streamed m' member
  | register order away visit => exact silent _ rfl before.encodable before.quiet
  | disconnect there => exact silent _ rfl before.encodable before.quiet

end Steps

def told (key : String) (s : System) (out : List Traffic) : List (Word StatSnapshot) :=
  words key (sent out) ++ words key (pending s.runOps)

def spoken (key : String) (s : System) : Label → List (Word StatSnapshot)
  | .input (.tick now order) =>
      words key ((publishSnapshots order now s.machine.proc).2.map OutboundMsg.stats)
  | .input (.closed now order) =>
      words key ((publishSnapshots order now s.machine.proc).2.map OutboundMsg.stats)
  | .input (.sweep now order flowOrder) =>
      words key ((sweepExpired order flowOrder now s.machine.proc).2.map
        fun k => OutboundMsg.remove k.text)
  | _ => []

theorem spoken_publish (key : String) (s : System) {i : Input} {now : Time} {order : List ConnKey}
    (kind : i = .tick now order ∨ i = .closed now order) :
    spoken key s (.input i) =
      words key ((publishSnapshots order now s.machine.proc).2.map OutboundMsg.stats) := by
  rcases kind with rfl | rfl
  · rfl
  · rfl

theorem words_delivered {call : Emission} (key : String)
    (sound : ∀ m ∈ call.broadcast.toList, encodes m = true) :
    words key (delivered call) = words key call.broadcast.toList := by
  rw [delivered, List.filter_eq_self.mpr sound]

theorem pending_cons (op : RunOp) (rest : List RunOp) :
    pending (op :: rest) = op.message.toList ++ pending rest := by
  simp only [pending, List.filterMap_cons]
  cases op.message <;> rfl

theorem told_step {names : ConnKey → Bool} {good : StatSnapshot → Bool} {s t : System} {l : Label}
    {out o : List Traffic} (before : Flow s out) (smooth : Smooth names good s l)
    (taken : step s l = some (t, o)) (key : String) :
    told key t (out ++ o) = told key s out ++ spoken key s l := by
  unfold told
  cases step_move taken with
  | publish i now order running kind idle visit =>
    rw [spoken_publish key s kind, pending_publish, idle]
    simp [pending, words]
  | sweep now order flowOrder idle visit =>
    rw [spoken, pending_removals, idle]
    simp [pending, words]
  | event a now e idle =>
    rw [idle]
    simp [spoken, pending, words, RunOp.message, Emission.broadcast, word]
  | resource r idle => simp [spoken]
  | apply a now e rest next =>
    rw [next, pending_cons]
    simp [spoken, RunOp.message]
  | runCall call rest t o next made =>
    have room := smooth_runCall smooth next
    obtain ⟨rfl, rfl⟩ := call_delivers made room
    have sound : ∀ m ∈ call.broadcast.toList, encodes m = true := by
      intro m member
      apply before.encodable m
      rw [next, pending_cons]
      exact List.mem_append_left _ member
    rw [sent_append, sent_enqueued, words_append, words_delivered key sound, next, pending_cons,
      words_append]
    simp [spoken, RunOp.message]
  | resCall call rest t o next made =>
    have room := smooth_resCall smooth next
    obtain ⟨rfl, rfl⟩ := call_delivers made room
    have nothing : words key (delivered call) = [] := by
      have quiet := before.quiet call (by simp [next]) key
      simp only [words, List.filterMap_eq_nil_iff] at quiet ⊢
      intro m member
      exact quiet m (List.mem_filter.mp member).1
    rw [sent_append, sent_enqueued, words_append, nothing]
    simp [spoken]
  | receive m rest free next => simp [spoken]
  | write now m held =>
    rw [sent_append, sent_written]
    simp [spoken]
  | register order away visit => simp [spoken]
  | disconnect there => simp [spoken]

end Dashboard
