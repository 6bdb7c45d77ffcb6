import Mathlib.Data.List.Perm.Basic
import MicroTrace.Library.Runs
import MicroTrace.Library.RangeLoops

/- The Docker resolver (collector/resolver/resolver.go) beside the daemon it asks. The daemon
   starts and stops containers on its own; it answers a list or an inspect call with what is
   true at that moment, and queues an event for the subscription once that is open. The
   resolver lists, fills its cache, subscribes and then handles one event after the other.
   A message counts as queued until its handler has read the daemon or the cache. -/
namespace CollectorResolver
open RangeLoops Runs

abbrev Cache := GoMap String String

def Cache.resolve (cache : Cache) (ip : String) : String :=
  match cache.lookup ip with
  | some name => name
  | none => ip

def Cache.isInternal (cache : Cache) (ip : String) : Bool := (cache.lookup ip).isSome

structure Container where
  id : String
  name : String
  ips : List String
  deriving DecidableEq

/- The parts of an API answer that the resolver reads. An address that is not valid is none. -/
structure Info where
  names : List String
  networks : List (Option String)
  deriving DecidableEq

def trimSlash (name : String) : String :=
  match name.toList with
  | '/' :: rest => String.ofList rest
  | _ => name

def containerName : List String → String
  | [] => "unknown"
  | name :: _ => trimSlash name

def addNetworks (name : String) (networks : List (Option String)) (cache : Cache) : Cache :=
  networks.foldl (fun cache net => match net with
    | some ip => cache.insert ip name
    | none => cache) cache

def refreshAll (items : List Info) (cache : Cache) : Cache :=
  items.foldl (fun cache c => addNetworks (containerName c.names) c.networks cache) cache

/- Inspect answers with a single name, so the trimming of handleEvent is containerName too. -/
def handleStart (info : Info) (cache : Cache) : Cache :=
  addNetworks (containerName info.names) info.networks cache

def handleDie (name : String) (order : List String) (cache : Cache) : Cache :=
  rangeDelete (fun _ n => decide (n = name)) order cache

/- Start carries the id that handleEvent inspects, die the name it deletes by. -/
inductive Message where
  | start (id : String)
  | die (name : String)
  deriving DecidableEq

inductive Stage where
  | created
  | listed (items : Option (List Info))
  | filled
  | watching
  | stopped
  deriving DecidableEq

structure World where
  running : List Container
  stage : Stage
  queue : List Message
  hand : Option Info
  cache : Cache

def World.new (running : List Container) : World := ⟨running, .created, [], none, ∅⟩

def Container.info (c : Container) : Info := ⟨["/" ++ c.name], c.ips.map some⟩

def Container.Apart (c d : Container) : Prop :=
  c.id ≠ d.id ∧ c.name ≠ d.name ∧ ∀ ip ∈ c.ips, ip ∉ d.ips

instance (c d : Container) : Decidable (c.Apart d) := inferInstanceAs (Decidable (_ ∧ _ ∧ _))

/- An event is delivered to a subscription that was open when it happened. -/
def World.notify (w : World) (m : Message) : List Message :=
  match w.stage with
  | .watching => w.queue ++ [m]
  | .stopped => w.queue ++ [m]
  | _ => w.queue

def World.inspect (w : World) (id : String) (gone : Option Info) : Option (Option Info) :=
  match w.running.find? (·.id = id) with
  | some c => some (some c.info)
  | none =>
      match gone with
      | none => some none
      | some info => if ∀ net ∈ info.networks, net = none then some (some info) else none

inductive Action where
  | start (c : Container)
  | die (c : Container)
  | list (order : Option (List Container))
  | fill
  | subscribe
  | inspect (gone : Option Info)
  | update
  | delete (order : List String)
  | stop
  deriving DecidableEq

def step : Stepper World Action Unit
  | w, .start c =>
      if ∀ d ∈ w.running, c.Apart d then
        some ({ w with running := c :: w.running, queue := w.notify (.start c.id) }, [])
      else none
  | w, .die c =>
      if c ∈ w.running then
        some ({ w with running := w.running.erase c, queue := w.notify (.die c.name) }, [])
      else none
  | w, .list order =>
      if w.stage = .created ∧ ∀ o ∈ order, o.Perm w.running then
        some ({ w with stage := .listed (order.map (·.map Container.info)) }, [])
      else none
  | w, .fill =>
      match w.stage with
      | .listed none => some ({ w with stage := .filled }, [])
      | .listed (some items) =>
          some ({ w with stage := .filled, cache := refreshAll items w.cache }, [])
      | _ => none
  | w, .subscribe =>
      if w.stage = .filled then some ({ w with stage := .watching }, []) else none
  | w, .inspect gone =>
      if w.stage = .watching ∧ w.hand = none then
        match w.queue with
        | .start id :: queue =>
            (w.inspect id gone).map fun hand => ({ w with queue := queue, hand := hand }, [])
        | _ => none
      else none
  | w, .update =>
      match w.hand with
      | some info => some ({ w with hand := none, cache := handleStart info w.cache }, [])
      | none => none
  | w, .delete order =>
      if w.stage = .watching ∧ w.hand = none ∧ Enumerates order w.cache then
        match w.queue with
        | .die name :: queue =>
            some ({ w with queue := queue, cache := handleDie name order w.cache }, [])
        | _ => none
      else none
  | w, .stop =>
      if w.stage = .watching ∧ w.hand = none then some ({ w with stage := .stopped }, [])
      else none

/-- Everything one step can do, guards included. -/
theorem step_cases {w w' : World} {a : Action} {out : List Unit}
    (taken : step w a = some (w', out)) :
    (∃ c, a = .start c ∧ (∀ d ∈ w.running, c.Apart d) ∧
      w' = { w with running := c :: w.running, queue := w.notify (.start c.id) }) ∨
    (∃ c, a = .die c ∧ c ∈ w.running ∧
      w' = { w with running := w.running.erase c, queue := w.notify (.die c.name) }) ∨
    (∃ order, a = .list order ∧ w.stage = .created ∧ (∀ o ∈ order, o.Perm w.running) ∧
      w' = { w with stage := .listed (order.map (·.map Container.info)) }) ∨
    (∃ items, a = .fill ∧ w.stage = .listed items ∧
      w' = { w with stage := .filled, cache := items.elim w.cache (refreshAll · w.cache) }) ∨
    (a = .subscribe ∧ w.stage = .filled ∧ w' = { w with stage := .watching }) ∨
    (∃ gone id queue hand, a = .inspect gone ∧ w.stage = .watching ∧ w.hand = none ∧
      w.queue = .start id :: queue ∧ w.inspect id gone = some hand ∧
      w' = { w with queue := queue, hand := hand }) ∨
    (∃ info, a = .update ∧ w.hand = some info ∧
      w' = { w with hand := none, cache := handleStart info w.cache }) ∨
    (∃ order name queue, a = .delete order ∧ w.stage = .watching ∧ w.hand = none ∧
      Enumerates order w.cache ∧ w.queue = .die name :: queue ∧
      w' = { w with queue := queue, cache := handleDie name order w.cache }) ∨
    (a = .stop ∧ w.stage = .watching ∧ w.hand = none ∧ w' = { w with stage := .stopped }) := by
  cases a with
  | start c =>
    simp only [step] at taken
    split at taken
    · rename_i free
      cases taken
      exact .inl ⟨c, rfl, free, rfl⟩
    · cases taken
  | die c =>
    simp only [step] at taken
    split at taken
    · rename_i alive
      cases taken
      exact .inr (.inl ⟨c, rfl, alive, rfl⟩)
    · cases taken
  | list order =>
    simp only [step] at taken
    split at taken
    · rename_i guard
      cases taken
      exact .inr (.inr (.inl ⟨order, rfl, guard.1, guard.2, rfl⟩))
    · cases taken
  | fill =>
    simp only [step] at taken
    split at taken
    · rename_i failed
      cases taken
      exact .inr (.inr (.inr (.inl ⟨none, rfl, failed, rfl⟩)))
    · rename_i items listed
      cases taken
      exact .inr (.inr (.inr (.inl ⟨some items, rfl, listed, rfl⟩)))
    · cases taken
  | subscribe =>
    simp only [step] at taken
    split at taken
    · rename_i filled
      cases taken
      exact .inr (.inr (.inr (.inr (.inl ⟨rfl, filled, rfl⟩))))
    · cases taken
  | inspect gone =>
    simp only [step] at taken
    split at taken
    · rename_i guard
      split at taken
      · rename_i id queue head
        obtain ⟨hand, answer, made⟩ := Option.map_eq_some_iff.mp taken
        cases made
        exact .inr (.inr (.inr (.inr (.inr (.inl
          ⟨gone, id, queue, hand, rfl, guard.1, guard.2, head, answer, rfl⟩)))))
      · cases taken
    · cases taken
  | update =>
    simp only [step] at taken
    split at taken
    · rename_i info held
      cases taken
      exact .inr (.inr (.inr (.inr (.inr (.inr (.inl ⟨info, rfl, held, rfl⟩))))))
    · cases taken
  | delete order =>
    simp only [step] at taken
    split at taken
    · rename_i guard
      split at taken
      · rename_i name queue head
        cases taken
        exact .inr (.inr (.inr (.inr (.inr (.inr (.inr (.inl
          ⟨order, name, queue, rfl, guard.1, guard.2.1, guard.2.2, head, rfl⟩)))))))
      · cases taken
    · cases taken
  | stop =>
    simp only [step] at taken
    split at taken
    · rename_i guard
      cases taken
      exact .inr (.inr (.inr (.inr (.inr (.inr (.inr (.inr ⟨rfl, guard.1, guard.2, rfl⟩)))))))
    · cases taken

end CollectorResolver
