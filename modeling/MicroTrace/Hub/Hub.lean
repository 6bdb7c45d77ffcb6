import Mathlib.Logic.Function.Basic
import MicroTrace.Collector.Model
import MicroTrace.Library.Runs

/- The WebSocket hub (hub/hub.go) with any number of clients. Hub.Run, every ServeWs call with
   the read goroutine it starts, and every Broadcast call take steps of their own; what they
   share is the client map, the mutex and the broadcast channel. A WriteMessage is two steps,
   its call and its return, so that writes could overlap if nothing prevented it, and it may
   return an error at any time. -/
namespace CollectorHub
open CollectorModel Runs

def bufferSize : Nat := 512

inductive Writer where
  | run
  | serve
  deriving DecidableEq

/-- What happens in a run, in the order in which it happens. -/
inductive Traffic (Conn Data : Type) where
  | accepted (data : Data)
  | registered (c : Conn) (history : Option Data)
  | began (w : Writer) (c : Conn) (data : Data)
  | ended (w : Writer) (c : Conn) (data : Data) (ok : Bool)
  | unregistered (c : Conn)
  | closed (c : Conn)
  deriving DecidableEq

/-- Where Hub.Run is: at Lock with a message, in the loop over the clients, inside a
    WriteMessage of that loop, deleting the failed clients, and closing them. With none left
    to close it waits at the channel. -/
inductive Running (Conn Data : Type) where
  | locking (msg : Data)
  | ranging (msg : Data) (visited failed : List Conn)
  | writing (msg : Data) (c : Conn) (visited failed : List Conn)
  | removing (left failed : List Conn)
  | closing (left : List Conn)
  deriving DecidableEq

/-- Where ServeWs and the read goroutine of a connection are. From `locking` on the read has
    failed and client.close runs. -/
inductive Serving (Data : Type) where
  | upgraded
  | registered (history : Option Data)
  | writing (data : Data)
  | unlocking
  | reading
  | locking
  | removing
  | closing
  | gone
  deriving DecidableEq

inductive Owner (Conn : Type) where
  | run
  | serve (c : Conn)
  | close (c : Conn)
  deriving DecidableEq

structure Hub (Conn Data : Type) where
  clients : List Conn
  broadcast : List Data
  mu : Option (Owner Conn)
  running : Running Conn Data
  serving : Conn → Serving Data
  closed : List Conn

inductive RunAction (Conn : Type) where
  | receive
  | lock
  | write (c : Conn)
  | written (ok : Bool)
  | visited
  | delete
  | unlock
  | close
  deriving DecidableEq

inductive ServeAction where
  | register (history : Option (List ConnHistory))
  | write
  | written (ok : Bool)
  | unlock
  | readError
  | lock
  | delete
  | close
  deriving DecidableEq

inductive Label (Conn : Type) where
  | broadcast (msg : OutboundMsg)
  | run (a : RunAction Conn)
  | serve (c : Conn) (a : ServeAction)
  deriving DecidableEq

variable {Conn Data : Type} [DecidableEq Conn]

def Hub.new : Hub Conn Data := ⟨[], [], none, .closing [], fun _ => .upgraded, []⟩

variable (marshal : OutboundMsg → Option Data)

def Hub.accept (s : Hub Conn Data) (msg : OutboundMsg) :
    Hub Conn Data × List (Traffic Conn Data) :=
  match marshal msg with
  | none => (s, [])
  | some data =>
      if s.broadcast.length < bufferSize then
        ({ s with broadcast := s.broadcast ++ [data] }, [.accepted data])
      else (s, [])

/-- One step of Hub.Run. The loop visits the clients of the map in any order. -/
def Hub.run (s : Hub Conn Data) :
    RunAction Conn → Option (Hub Conn Data × List (Traffic Conn Data))
  | .receive =>
      match s.running, s.broadcast with
      | .closing [], msg :: rest =>
          some ({ s with running := .locking msg, broadcast := rest }, [])
      | _, _ => none
  | .lock =>
      match s.running, s.mu with
      | .locking msg, none =>
          some ({ s with running := .ranging msg [] [], mu := some .run }, [])
      | _, _ => none
  | .write c =>
      match s.running with
      | .ranging msg visited failed =>
          if c ∈ s.clients ∧ c ∉ visited then
            some ({ s with running := .writing msg c visited failed }, [.began .run c msg])
          else none
      | _ => none
  | .written ok =>
      match s.running with
      | .writing msg c visited failed =>
          if ok = true ∧ c ∈ s.closed then none
          else some ({ s with running := .ranging msg (c :: visited)
                                (if ok then failed else failed ++ [c]) },
            [.ended .run c msg ok])
      | _ => none
  | .visited =>
      match s.running with
      | .ranging _ visited failed =>
          if ∀ c ∈ s.clients, c ∈ visited then
            some ({ s with running := .removing failed failed }, [])
          else none
      | _ => none
  | .delete =>
      match s.running with
      | .removing (c :: rest) failed =>
          some ({ s with clients := s.clients.filter (· ≠ c), running := .removing rest failed },
            [.unregistered c])
      | _ => none
  | .unlock =>
      match s.running with
      | .removing [] failed => some ({ s with running := .closing failed, mu := none }, [])
      | _ => none
  | .close =>
      match s.running with
      | .closing (c :: rest) =>
          some ({ s with running := .closing rest, closed := c :: s.closed }, [.closed c])
      | _ => none

/- The message ServeWs sends first, if historyFn is set and returns anything. -/
def historyMsg (history : Option (List ConnHistory)) : Option Data :=
  match history with
  | none => none
  | some h => if h.length > 0 then marshal (.history h) else none

/-- One step of ServeWs or of the read goroutine. The error of the history write is ignored.
    Nobody else calls client.close, so its Once lets every call through. -/
def Hub.serve (s : Hub Conn Data) (c : Conn) :
    ServeAction → Option (Hub Conn Data × List (Traffic Conn Data))
  | .register history =>
      match s.serving c, s.mu with
      | .upgraded, none =>
          some ({ s with
            mu := some (.serve c)
            clients := s.clients.insert c
            serving := Function.update s.serving c (.registered (historyMsg marshal history)) },
            [.registered c (historyMsg marshal history)])
      | _, _ => none
  | .write =>
      match s.serving c with
      | .registered (some data) =>
          some ({ s with serving := Function.update s.serving c (.writing data) },
            [.began .serve c data])
      | _ => none
  | .written ok =>
      match s.serving c with
      | .writing data =>
          if ok = true ∧ c ∈ s.closed then none
          else some ({ s with serving := Function.update s.serving c .unlocking },
            [.ended .serve c data ok])
      | _ => none
  | .unlock =>
      match s.serving c with
      | .registered none =>
          some ({ s with mu := none, serving := Function.update s.serving c .reading }, [])
      | .unlocking =>
          some ({ s with mu := none, serving := Function.update s.serving c .reading }, [])
      | _ => none
  | .readError =>
      match s.serving c with
      | .reading => some ({ s with serving := Function.update s.serving c .locking }, [])
      | _ => none
  | .lock =>
      match s.serving c, s.mu with
      | .locking, none =>
          some ({ s with
            mu := some (.close c)
            serving := Function.update s.serving c .removing }, [])
      | _, _ => none
  | .delete =>
      match s.serving c with
      | .removing =>
          some ({ s with
            mu := none
            clients := s.clients.filter (· ≠ c)
            serving := Function.update s.serving c .closing }, [.unregistered c])
      | _ => none
  | .close =>
      match s.serving c with
      | .closing =>
          some ({ s with
            serving := Function.update s.serving c .gone
            closed := c :: s.closed }, [.closed c])
      | _ => none

def step : Stepper (Hub Conn Data) (Label Conn) (Traffic Conn Data)
  | s, .broadcast msg => some (s.accept marshal msg)
  | s, .run a => s.run a
  | s, .serve c a => s.serve marshal c a

/-- Everything one step can do, guards included. -/
inductive Move (s : Hub Conn Data) : Hub Conn Data → List (Traffic Conn Data) → Prop
  | dropped : Move s s []
  | accept (data : Data) :
      Move s { s with broadcast := s.broadcast ++ [data] } [.accepted data]
  | receive (msg : Data) (rest : List Data) (idle : s.running = .closing [])
      (next : s.broadcast = msg :: rest) :
      Move s { s with running := .locking msg, broadcast := rest } []
  | lock (msg : Data) (waiting : s.running = .locking msg) (free : s.mu = none) :
      Move s { s with running := .ranging msg [] [], mu := some .run } []
  | write (msg : Data) (c : Conn) (visited failed : List Conn)
      (ranging : s.running = .ranging msg visited failed) (there : c ∈ s.clients)
      (fresh : c ∉ visited) :
      Move s { s with running := .writing msg c visited failed } [.began .run c msg]
  | written (msg : Data) (c : Conn) (visited failed : List Conn) (ok : Bool)
      (writing : s.running = .writing msg c visited failed) :
      Move s { s with running := .ranging msg (c :: visited)
                        (if ok then failed else failed ++ [c]) } [.ended .run c msg ok]
  | visited (msg : Data) (seen failed : List Conn) (ranging : s.running = .ranging msg seen failed)
      (all : ∀ c ∈ s.clients, c ∈ seen) :
      Move s { s with running := .removing failed failed } []
  | delete (c : Conn) (rest failed : List Conn)
      (removing : s.running = .removing (c :: rest) failed) :
      Move s { s with clients := s.clients.filter (· ≠ c), running := .removing rest failed }
        [.unregistered c]
  | unlock (failed : List Conn) (removing : s.running = .removing [] failed) :
      Move s { s with running := .closing failed, mu := none } []
  | close (c : Conn) (rest : List Conn) (closing : s.running = .closing (c :: rest)) :
      Move s { s with running := .closing rest, closed := c :: s.closed } [.closed c]
  | register (c : Conn) (history : Option Data) (new : s.serving c = .upgraded)
      (free : s.mu = none) :
      Move s { s with
        mu := some (.serve c)
        clients := s.clients.insert c
        serving := Function.update s.serving c (.registered history) } [.registered c history]
  | writeHistory (c : Conn) (data : Data) (registered : s.serving c = .registered (some data)) :
      Move s { s with serving := Function.update s.serving c (.writing data) }
        [.began .serve c data]
  | writtenHistory (c : Conn) (data : Data) (ok : Bool) (writing : s.serving c = .writing data) :
      Move s { s with serving := Function.update s.serving c .unlocking }
        [.ended .serve c data ok]
  | unlockServe (c : Conn) (done : s.serving c = .registered none ∨ s.serving c = .unlocking) :
      Move s { s with mu := none, serving := Function.update s.serving c .reading } []
  | readError (c : Conn) (reading : s.serving c = .reading) :
      Move s { s with serving := Function.update s.serving c .locking } []
  | lockClose (c : Conn) (locking : s.serving c = .locking) (free : s.mu = none) :
      Move s { s with
        mu := some (.close c)
        serving := Function.update s.serving c .removing } []
  | deleteClose (c : Conn) (removing : s.serving c = .removing) :
      Move s { s with
        mu := none
        clients := s.clients.filter (· ≠ c)
        serving := Function.update s.serving c .closing } [.unregistered c]
  | closeConn (c : Conn) (closing : s.serving c = .closing) :
      Move s { s with
        serving := Function.update s.serving c .gone
        closed := c :: s.closed } [.closed c]

variable {marshal}

theorem run_move {s t : Hub Conn Data} {a : RunAction Conn} {o : List (Traffic Conn Data)}
    (taken : s.run a = some (t, o)) : Move s t o := by
  cases a with
  | receive =>
    simp only [Hub.run] at taken
    split at taken
    · rename_i msg rest idle next
      cases taken
      exact .receive msg rest idle next
    · cases taken
  | lock =>
    simp only [Hub.run] at taken
    split at taken
    · rename_i msg waiting free
      cases taken
      exact .lock msg waiting free
    · cases taken
  | write c =>
    simp only [Hub.run] at taken
    split at taken
    · rename_i msg visited failed ranging
      obtain ⟨guard, made⟩ := Option.ite_none_right_eq_some.mp taken
      cases made
      exact .write msg c visited failed ranging guard.1 guard.2
    · cases taken
  | written ok =>
    simp only [Hub.run] at taken
    split at taken
    · rename_i msg c visited failed writing
      obtain ⟨_, made⟩ := Option.ite_none_left_eq_some.mp taken
      cases made
      exact .written msg c visited failed ok writing
    · cases taken
  | visited =>
    simp only [Hub.run] at taken
    split at taken
    · rename_i msg seen failed ranging
      obtain ⟨all, made⟩ := Option.ite_none_right_eq_some.mp taken
      cases made
      exact .visited msg seen failed ranging all
    · cases taken
  | delete =>
    simp only [Hub.run] at taken
    split at taken
    · rename_i c rest failed removing
      cases taken
      exact .delete c rest failed removing
    · cases taken
  | unlock =>
    simp only [Hub.run] at taken
    split at taken
    · rename_i failed removing
      cases taken
      exact .unlock failed removing
    · cases taken
  | close =>
    simp only [Hub.run] at taken
    split at taken
    · rename_i c rest closing
      cases taken
      exact .close c rest closing
    · cases taken

theorem serve_move {s t : Hub Conn Data} {c : Conn} {a : ServeAction}
    {o : List (Traffic Conn Data)} (taken : s.serve marshal c a = some (t, o)) : Move s t o := by
  cases a with
  | register history =>
    simp only [Hub.serve] at taken
    split at taken
    · rename_i new free
      cases taken
      exact .register c _ new free
    · cases taken
  | write =>
    simp only [Hub.serve] at taken
    split at taken
    · rename_i data registered
      cases taken
      exact .writeHistory c data registered
    · cases taken
  | written ok =>
    simp only [Hub.serve] at taken
    split at taken
    · rename_i data writing
      obtain ⟨_, made⟩ := Option.ite_none_left_eq_some.mp taken
      cases made
      exact .writtenHistory c data ok writing
    · cases taken
  | unlock =>
    simp only [Hub.serve] at taken
    split at taken
    · rename_i registered
      cases taken
      exact .unlockServe c (.inl registered)
    · rename_i unlocking
      cases taken
      exact .unlockServe c (.inr unlocking)
    · cases taken
  | readError =>
    simp only [Hub.serve] at taken
    split at taken
    · rename_i reading
      cases taken
      exact .readError c reading
    · cases taken
  | lock =>
    simp only [Hub.serve] at taken
    split at taken
    · rename_i locking free
      cases taken
      exact .lockClose c locking free
    · cases taken
  | delete =>
    simp only [Hub.serve] at taken
    split at taken
    · rename_i removing
      cases taken
      exact .deleteClose c removing
    · cases taken
  | close =>
    simp only [Hub.serve] at taken
    split at taken
    · rename_i closing
      cases taken
      exact .closeConn c closing
    · cases taken

theorem step_move {s t : Hub Conn Data} {l : Label Conn} {o : List (Traffic Conn Data)}
    (taken : step marshal s l = some (t, o)) : Move s t o := by
  cases l with
  | broadcast msg =>
    have made : s.accept marshal msg = (t, o) := Option.some.inj taken
    unfold Hub.accept at made
    split at made
    · cases made
      exact .dropped
    · split at made
      · cases made
        exact .accept _
      · cases made
        exact .dropped
  | run a => exact run_move taken
  | serve c a => exact serve_move taken

end CollectorHub
