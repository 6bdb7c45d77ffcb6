import MicroTrace.Hub.Delivery

/- What goes into the hub comes out of it. A property of the messages that it accepts and of the
   history messages that it is given is one of all that it writes. -/
namespace CollectorHub
open CollectorModel Runs

variable {Conn Data : Type} {P : Data → Prop} {s t : Hub Conn Data}
  {o : List (Traffic Conn Data)}

def Serving.hand : Serving Data → List Data
  | .registered history => history.toList
  | .writing data => [data]
  | _ => []

/-- Every message on its way through the hub is of a kind. -/
structure Passing (P : Data → Prop) (s : Hub Conn Data) : Prop where
  running : ∀ data ∈ s.running.hand, P data
  queue : ∀ data ∈ s.broadcast, P data
  serving : ∀ c, ∀ data ∈ (s.serving c).hand, P data

theorem passing_new : Passing P (.new : Hub Conn Data) where
  running _ member := by cases member
  queue _ member := by cases member
  serving _ _ member := by cases member

variable [DecidableEq Conn]

theorem hand_update {v : Conn → Serving Data} {c : Conn} {w : Serving Data}
    (held : ∀ d, ∀ data ∈ (v d).hand, P data) (own : ∀ data ∈ w.hand, P data) :
    ∀ d, ∀ data ∈ (Function.update v c w d).hand, P data := by
  intro d
  by_cases same : d = c
  · subst same
    rw [Function.update_self]
    exact own
  · rw [Function.update_of_ne same]
    exact held d

def Traffic.brought : Traffic Conn Data → List Data
  | .accepted data => [data]
  | .registered _ history => history.toList
  | _ => []

theorem passing_step (passing : Passing P s) (brought : ∀ e ∈ o, ∀ data ∈ Traffic.brought e, P data)
    (move : Move s t o) : Passing P t := by
  have ⟨running, queue, serving⟩ := passing
  cases move with
  | dropped => exact passing
  | accept data =>
    refine ⟨running, ?_, serving⟩
    exact List.forall_mem_append.mpr ⟨queue, brought _ List.mem_cons_self⟩
  | receive msg rest idle next =>
    rw [next] at queue
    obtain ⟨first, later⟩ := List.forall_mem_cons.mp queue
    exact ⟨by simpa [Running.hand] using first, later, serving⟩
  | lock msg waiting free =>
    rw [waiting] at running
    exact ⟨running, queue, serving⟩
  | write msg c visited failed ranging there fresh =>
    rw [ranging] at running
    exact ⟨running, queue, serving⟩
  | written msg c visited failed ok writing =>
    rw [writing] at running
    exact ⟨running, queue, serving⟩
  | register c history new free =>
    exact ⟨running, queue, hand_update serving (brought _ List.mem_cons_self)⟩
  | writeHistory c data registered =>
    have own := serving c
    rw [registered] at own
    exact ⟨running, queue, hand_update serving own⟩
  | visited | delete | unlock | close => exact ⟨by simp [Running.hand], queue, serving⟩
  | _ => exact ⟨running, queue, hand_update serving (by simp [Serving.hand])⟩

theorem written_passed (passing : Passing P s) (move : Move s t o) {w : Writer} {c : Conn}
    {data : Data} {ok : Bool} (member : .ended w c data ok ∈ o) : P data := by
  cases move with
  | written msg d visited failed ok' writing =>
    cases List.mem_singleton.mp member
    exact passing.running data (by simp [writing, Running.hand])
  | writtenHistory d msg ok' writing =>
    cases List.mem_singleton.mp member
    exact passing.serving c data (by simp [writing, Serving.hand])
  | _ => simp at member

end CollectorHub
