import Mathlib.Algebra.GroupWithZero.Nat
import Mathlib.Algebra.Order.BigOperators.Group.List
import Mathlib.Algebra.Order.Group.Nat
import MicroTrace.Hub.Closing

/- The hub left to itself. With no broadcast, no new connection and no reader that ends, its
   goroutines come to rest after a number of steps that can be told beforehand; then the lock is
   free, and everything accepted has been written to everyone who is still there. A WriteMessage
   is taken to return at some time, with or without an error. -/
namespace CollectorHub
open CollectorModel Runs

variable {Conn Data : Type}

/- What the goroutines of the hub do without being asked to. -/
def Label.internal : Label Conn → Bool
  | .broadcast _ => false
  | .serve _ (.register _) => false
  | .serve _ .readError => false
  | _ => true

def Serving.effort : Serving Data → Nat
  | .registered (some _) => 3
  | .registered none => 1
  | .writing _ => 2
  | .unlocking => 1
  | .locking => 3
  | .removing => 2
  | .closing => 1
  | _ => 0

variable [DecidableEq Conn]

def unvisited (clients visited : List Conn) : Nat := (clients.filter fun c => c ∉ visited).length

/- A client costs a round at most its write, the return of the write, its removal and its
   close. -/
def Running.effort (clients : List Conn) : Running Conn Data → Nat
  | .locking _ => 4 * clients.length + 3
  | .ranging _ visited failed => 4 * unvisited clients visited + 2 * failed.length + 2
  | .writing _ c visited failed => 4 * unvisited clients (c :: visited) + 2 * failed.length + 5
  | .removing left failed => left.length + failed.length + 1
  | .closing left => left.length

/-- The steps that the hub can still take by itself, with the given connections. -/
def Hub.effort (conns : List Conn) (s : Hub Conn Data) : Nat :=
  s.broadcast.length * (4 * s.clients.length + 4) + s.running.effort s.clients +
    (conns.map fun c => (s.serving c).effort).sum

theorem unvisited_write {clients visited : List Conn} {c : Conn} (there : c ∈ clients)
    (fresh : c ∉ visited) : unvisited clients (c :: visited) < unvisited clients visited := by
  have split : clients.filter (fun d => d ∉ c :: visited) =
      (clients.filter fun d => d ∉ visited).filter fun d => d ≠ c := by
    rw [List.filter_filter]
    exact List.filter_congr fun d _ => by simp
  rw [unvisited, unvisited, split]
  exact List.length_filter_lt_length_iff_exists.mpr ⟨c, by simp [there, fresh], by simp⟩

theorem unvisited_filter (clients visited : List Conn) (p : Conn → Bool) :
    unvisited (clients.filter p) visited ≤ unvisited clients visited := by
  rw [unvisited, unvisited, List.filter_comm]
  exact List.length_filter_le p _

theorem effort_filter (clients : List Conn) (p : Conn → Bool) (r : Running Conn Data) :
    r.effort (clients.filter p) ≤ r.effort clients := by
  have fewer := List.length_filter_le p clients
  cases r with
  | locking msg =>
    simp only [Running.effort]
    omega
  | ranging msg visited failed =>
    have less := unvisited_filter clients visited p
    simp only [Running.effort]
    omega
  | writing msg c visited failed =>
    have less := unvisited_filter clients (c :: visited) p
    simp only [Running.effort]
    omega
  | _ => exact Nat.le_refl _

theorem sum_effort_update {conns : List Conn} {c : Conn} {f : Conn → Serving Data}
    {v : Serving Data} (listed : c ∈ conns) (less : v.effort < (f c).effort) :
    (conns.map fun d => (Function.update f c v d).effort).sum <
      (conns.map fun d => (f d).effort).sum := by
  refine List.sum_lt_sum _ _ ?_ ⟨c, listed, by simpa using less⟩
  intro d _
  by_cases same : d = c
  · subst same
    rw [Function.update_self]
    exact Nat.le_of_lt less
  · rw [Function.update_of_ne same]

variable {marshal : OutboundMsg → Option Data} {s t : Hub Conn Data} {o : List (Traffic Conn Data)}

theorem run_falls {a : RunAction Conn} (conns : List Conn) (taken : s.run a = some (t, o)) :
    t.effort conns < s.effort conns := by
  cases a with
  | receive =>
    simp only [Hub.run] at taken
    split at taken
    · rename_i msg rest idle next
      cases taken
      simp only [Hub.effort, idle, next, Running.effort, List.length_cons, List.length_nil,
        Nat.add_mul]
      omega
    · cases taken
  | lock =>
    simp only [Hub.run] at taken
    split at taken
    · rename_i msg waiting free
      cases taken
      have all : unvisited s.clients [] = s.clients.length := by simp [unvisited]
      simp only [Hub.effort, waiting, Running.effort, List.length_nil, all]
      omega
    · cases taken
  | write c =>
    simp only [Hub.run] at taken
    split at taken
    · rename_i msg visited failed ranging
      obtain ⟨⟨there, fresh⟩, made⟩ := Option.ite_none_right_eq_some.mp taken
      cases made
      have less := unvisited_write there fresh
      simp only [Hub.effort, ranging, Running.effort]
      omega
    · cases taken
  | written ok =>
    simp only [Hub.run] at taken
    split at taken
    · rename_i msg c visited failed writing
      obtain ⟨_, made⟩ := Option.ite_none_left_eq_some.mp taken
      cases made
      have more : (if ok then failed else failed ++ [c]).length ≤ failed.length + 1 := by
        cases ok <;> simp
      simp only [Hub.effort, writing, Running.effort]
      omega
    · cases taken
  | visited =>
    simp only [Hub.run] at taken
    split at taken
    · rename_i msg seen failed ranging
      obtain ⟨all, made⟩ := Option.ite_none_right_eq_some.mp taken
      cases made
      simp only [Hub.effort, ranging, Running.effort]
      omega
    · cases taken
  | delete =>
    simp only [Hub.run] at taken
    split at taken
    · rename_i c rest failed removing
      cases taken
      have fewer := List.length_filter_le (fun d => decide (d ≠ c)) s.clients
      have less := Nat.mul_le_mul_left s.broadcast.length
        (Nat.add_le_add_right (Nat.mul_le_mul_left 4 fewer) 4)
      simp only [Hub.effort, removing, Running.effort, List.length_cons]
      omega
    · cases taken
  | unlock =>
    simp only [Hub.run] at taken
    split at taken
    · rename_i failed removing
      cases taken
      simp only [Hub.effort, removing, Running.effort, List.length_nil]
      omega
    · cases taken
  | close =>
    simp only [Hub.run] at taken
    split at taken
    · rename_i c rest closing
      cases taken
      simp only [Hub.effort, closing, Running.effort, List.length_cons]
      omega
    · cases taken

/-- The connections whose goroutines have taken a step are among the given ones. -/
def Covered (conns : List Conn) (s : Hub Conn Data) : Prop :=
  ∀ c, s.serving c ≠ .upgraded → c ∈ conns

omit [DecidableEq Conn] in
theorem covered_of_serving {conns : List Conn} (covered : Covered conns s)
    (same : t.serving = s.serving) : Covered conns t := by
  intro c begun
  rw [same] at begun
  exact covered c begun

theorem covered_update {conns : List Conn} {c : Conn} {v : Serving Data}
    (covered : Covered conns s) (listed : c ∈ conns)
    (made : t.serving = Function.update s.serving c v) : Covered conns t := by
  intro d begun
  by_cases same : d = c
  · exact same ▸ listed
  · rw [made, Function.update_of_ne same] at begun
    exact covered d begun

theorem effort_update {conns : List Conn} {c : Conn} {v : Serving Data} (listed : c ∈ conns)
    (made : t.serving = Function.update s.serving c v) (less : v.effort < (s.serving c).effort)
    (running : t.running = s.running) (broadcast : t.broadcast = s.broadcast) {p : Conn → Bool}
    (clients : t.clients = s.clients.filter p) : t.effort conns < s.effort conns := by
  have fewer := List.length_filter_le p s.clients
  have rounds := Nat.mul_le_mul_left s.broadcast.length
    (Nat.add_le_add_right (Nat.mul_le_mul_left 4 fewer) 4)
  have round := effort_filter s.clients p s.running
  have own := sum_effort_update listed less
  rw [Hub.effort, Hub.effort, made, running, broadcast, clients]
  omega

theorem serve_falls {conns : List Conn} (covered : Covered conns s) {c : Conn} {a : ServeAction}
    (own : (Label.serve c a).internal = true) (taken : s.serve marshal c a = some (t, o)) :
    t.effort conns < s.effort conns ∧ Covered conns t := by
  have everyone : s.clients = s.clients.filter fun _ => true := by simp
  cases a with
  | register history => cases own
  | readError => cases own
  | write =>
    simp only [Hub.serve] at taken
    split at taken
    · rename_i data registered
      cases taken
      have listed := covered c (by simp [registered])
      exact ⟨effort_update listed rfl (by simp [registered, Serving.effort]) rfl rfl everyone,
        covered_update covered listed rfl⟩
    · cases taken
  | written ok =>
    simp only [Hub.serve] at taken
    split at taken
    · rename_i data writing
      obtain ⟨_, made⟩ := Option.ite_none_left_eq_some.mp taken
      cases made
      have listed := covered c (by simp [writing])
      exact ⟨effort_update listed rfl (by simp [writing, Serving.effort]) rfl rfl everyone,
        covered_update covered listed rfl⟩
    · cases taken
  | unlock =>
    simp only [Hub.serve] at taken
    split at taken
    · rename_i registered
      cases taken
      have listed := covered c (by simp [registered])
      exact ⟨effort_update listed rfl (by simp [registered, Serving.effort]) rfl rfl everyone,
        covered_update covered listed rfl⟩
    · rename_i unlocking
      cases taken
      have listed := covered c (by simp [unlocking])
      exact ⟨effort_update listed rfl (by simp [unlocking, Serving.effort]) rfl rfl everyone,
        covered_update covered listed rfl⟩
    · cases taken
  | lock =>
    simp only [Hub.serve] at taken
    split at taken
    · rename_i locking free
      cases taken
      have listed := covered c (by simp [locking])
      exact ⟨effort_update listed rfl (by simp [locking, Serving.effort]) rfl rfl everyone,
        covered_update covered listed rfl⟩
    · cases taken
  | delete =>
    simp only [Hub.serve] at taken
    split at taken
    · rename_i removing
      cases taken
      have listed := covered c (by simp [removing])
      exact ⟨effort_update listed rfl (by simp [removing, Serving.effort]) rfl rfl rfl,
        covered_update covered listed rfl⟩
    · cases taken
  | close =>
    simp only [Hub.serve] at taken
    split at taken
    · rename_i closing
      cases taken
      have listed := covered c (by simp [closing])
      exact ⟨effort_update listed rfl (by simp [closing, Serving.effort]) rfl rfl everyone,
        covered_update covered listed rfl⟩
    · cases taken

theorem run_serving {a : RunAction Conn} (taken : s.run a = some (t, o)) :
    t.serving = s.serving := by
  cases a <;> simp only [Hub.run] at taken <;> split at taken <;> grind

theorem step_falls {conns : List Conn} (covered : Covered conns s) {l : Label Conn}
    (own : l.internal = true) (taken : step marshal s l = some (t, o)) :
    t.effort conns < s.effort conns ∧ Covered conns t := by
  cases l with
  | broadcast msg => cases own
  | run a =>
    exact ⟨run_falls conns taken, covered_of_serving covered (run_serving taken)⟩
  | serve c a => exact serve_falls covered own taken

theorem serve_serving {c : Conn} {a : ServeAction} (taken : s.serve marshal c a = some (t, o)) :
    ∃ v, t.serving = Function.update s.serving c v := by
  cases a <;> simp only [Hub.serve] at taken <;> split at taken <;> grind

def Label.conn? : Label Conn → Option Conn
  | .serve c _ => some c
  | _ => none

def conns (labels : List (Label Conn)) : List Conn := labels.filterMap Label.conn?

theorem covered_run {labels : List (Label Conn)} {out : List (Traffic Conn Data)}
    (run : exec (step marshal) Hub.new labels = some (s, out)) : Covered (conns labels) s := by
  refine exec_history (I := fun labels s _ => Covered (conns labels) s) ?_ ?_ run
  · intro c begun
    exact absurd rfl begun
  · intro labels s t l _ o _ covered taken
    have wider : Covered (conns (labels ++ [l])) s := by
      intro c begun
      rw [conns, List.filterMap_append]
      exact List.mem_append_left _ (covered c begun)
    cases l with
    | broadcast msg =>
      refine covered_of_serving wider ?_
      have made : s.accept marshal msg = (t, o) := Option.some.inj taken
      unfold Hub.accept at made
      grind
    | run a => exact covered_of_serving wider (run_serving taken)
    | serve c a =>
      obtain ⟨v, made⟩ := serve_serving taken
      exact covered_update wider (by simp [conns, Label.conn?]) made

def Owner.Holds (s : Hub Conn Data) : Owner Conn → Prop
  | .run => s.running.locked = true
  | .serve c => (s.serving c).locked = true
  | .close c => s.serving c = .removing

/-- The lock is held only by someone between Lock and Unlock. -/
def Held (s : Hub Conn Data) : Prop := ∀ owner, s.mu = some owner → owner.Holds s

omit [DecidableEq Conn] in
theorem held_run {s t : Hub Conn Data} (held : Held s) (serving : t.serving = s.serving)
    (mu : t.mu = s.mu) (locked : s.running.locked = true → t.running.locked = true) : Held t := by
  intro owner owned
  have holds := held owner (mu ▸ owned)
  cases owner with
  | run => exact locked holds
  | serve c => rwa [Owner.Holds, serving]
  | close c => rwa [Owner.Holds, serving]

theorem held_serve {s t : Hub Conn Data} {c : Conn} {v : Serving Data} (held : Held s)
    (running : t.running = s.running) (serving : t.serving = Function.update s.serving c v)
    (mu : t.mu = s.mu) (locked : (s.serving c).locked = true → v.locked = true)
    (other : s.serving c ≠ .removing) : Held t := by
  intro owner owned
  have holds := held owner (mu ▸ owned)
  cases owner with
  | run => rwa [Owner.Holds, running]
  | serve d =>
    rw [Owner.Holds, serving]
    by_cases same : d = c
    · subst same
      rw [Function.update_self]
      exact locked holds
    · rwa [Function.update_of_ne same]
  | close d =>
    rw [Owner.Holds, serving, Function.update_of_ne]
    · exact holds
    · rintro rfl
      exact other holds

theorem held_step (held : Held s) (move : Move s t o) : Held t := by
  cases move with
  | dropped => exact held
  | accept data => exact held_run held rfl rfl id
  | receive msg rest idle next => exact held_run held rfl rfl (by simp [idle, Running.locked])
  | lock msg waiting free =>
    rintro owner ⟨⟩
    rfl
  | write msg c visited failed ranging there fresh => exact held_run held rfl rfl fun _ => rfl
  | written msg c visited failed ok writing => exact held_run held rfl rfl fun _ => rfl
  | visited msg seen failed ranging all => exact held_run held rfl rfl fun _ => rfl
  | delete c rest failed removing => exact held_run held rfl rfl fun _ => rfl
  | unlock failed removing => exact fun _ owned => by cases owned
  | close c rest closing => exact held_run held rfl rfl (by simp [closing, Running.locked])
  | register c history new free =>
    rintro owner ⟨⟩
    simp [Owner.Holds, Serving.locked]
  | writeHistory c data registered =>
    exact held_serve held rfl rfl rfl (fun _ => rfl) (by simp [registered])
  | writtenHistory c data ok writing =>
    exact held_serve held rfl rfl rfl (fun _ => rfl) (by simp [writing])
  | unlockServe c done => exact fun _ owned => by cases owned
  | readError c reading =>
    exact held_serve held rfl rfl rfl (by simp [reading, Serving.locked]) (by simp [reading])
  | lockClose c locking free =>
    rintro owner ⟨⟩
    simp [Owner.Holds]
  | deleteClose c removing => exact fun _ owned => by cases owned
  | closeConn c closing =>
    exact held_serve held rfl rfl rfl (by simp [closing, Serving.locked]) (by simp [closing])

def Stuck (marshal : OutboundMsg → Option Data) (s : Hub Conn Data) : Prop :=
  ∀ l : Label Conn, l.internal = true → step marshal s l = none

theorem free_of_stuck (held : Held s) (stuck : Stuck marshal s) : s.mu = none := by
  by_contra taken
  obtain ⟨owner, owned⟩ := Option.ne_none_iff_exists'.mp taken
  have holds := held owner owned
  cases owner with
  | run =>
    cases running : s.running with
    | ranging msg visited failed =>
      have none := stuck (.run .visited) rfl
      simp only [step, Hub.run, running, ite_eq_right_iff, reduceCtorEq, imp_false,
        not_forall] at none
      obtain ⟨c, there, fresh⟩ := none
      have next := stuck (.run (.write c)) rfl
      simp [step, Hub.run, running, there, fresh] at next
    | writing msg c visited failed =>
      have next := stuck (.run (.written false)) rfl
      simp [step, Hub.run, running] at next
    | removing left failed =>
      cases left with
      | nil =>
        have next := stuck (.run .unlock) rfl
        simp [step, Hub.run, running] at next
      | cons c rest =>
        have next := stuck (.run .delete) rfl
        simp [step, Hub.run, running] at next
    | _ => simp [Owner.Holds, running, Running.locked] at holds
  | serve c =>
    cases serving : s.serving c with
    | registered history =>
      cases history with
      | none =>
        have next := stuck (.serve c .unlock) rfl
        simp [step, Hub.serve, serving] at next
      | some data =>
        have next := stuck (.serve c .write) rfl
        simp [step, Hub.serve, serving] at next
    | writing data =>
      have next := stuck (.serve c (.written false)) rfl
      simp [step, Hub.serve, serving] at next
    | unlocking =>
      have next := stuck (.serve c .unlock) rfl
      simp [step, Hub.serve, serving] at next
    | _ => simp [Owner.Holds, serving, Serving.locked] at holds
  | close c =>
    have next := stuck (.serve c .delete) rfl
    have serving : s.serving c = .removing := holds
    simp [step, Hub.serve, serving] at next

theorem idle_of_stuck (exclusive : Exclusive s) (held : Held s) (stuck : Stuck marshal s) :
    s.running = .closing [] ∧ s.broadcast = [] := by
  have free := free_of_stuck held stuck
  have unlocked : s.running.locked ≠ true := by
    intro locked
    cases free.symm.trans (exclusive.run locked)
  have idle : s.running = .closing [] := by
    cases running : s.running with
    | locking msg =>
      have next := stuck (.run .lock) rfl
      simp [step, Hub.run, running, free] at next
    | closing left =>
      cases left with
      | nil => rfl
      | cons c rest =>
        have next := stuck (.run .close) rfl
        simp [step, Hub.run, running] at next
    | _ => simp [running, Running.locked] at unlocked
  refine ⟨idle, ?_⟩
  cases waiting : s.broadcast with
  | nil => rfl
  | cons msg rest =>
    have next := stuck (.run .receive) rfl
    simp [step, Hub.run, idle, waiting] at next

/- A connection whose goroutine cannot go on has not been registered yet, is being read from or
   has been torn down. -/
def Serving.resting : Serving Data → Bool
  | .upgraded => true
  | .reading => true
  | .gone => true
  | _ => false

theorem resting_of_stuck (exclusive : Exclusive s) (held : Held s) (stuck : Stuck marshal s)
    (c : Conn) : (s.serving c).resting = true := by
  have free := free_of_stuck held stuck
  have unlocked : (s.serving c).locked ≠ true := by
    intro locked
    cases free.symm.trans (exclusive.serve c locked)
  cases serving : s.serving c with
  | locking =>
    have next := stuck (.serve c .lock) rfl
    simp [step, Hub.serve, serving, free] at next
  | removing => cases free.symm.trans (exclusive.close c serving)
  | closing =>
    have next := stuck (.serve c .close) rfl
    simp [step, Hub.serve, serving] at next
  | registered history => simp [serving, Serving.locked] at unlocked
  | writing data => simp [serving, Serving.locked] at unlocked
  | unlocking => simp [serving, Serving.locked] at unlocked
  | _ => rfl

theorem stuck_of_resting (idle : s.running = .closing []) (empty : s.broadcast = [])
    (resting : ∀ c, (s.serving c).resting = true) : Stuck marshal s := by
  intro l own
  cases l with
  | broadcast msg => cases own
  | run a => cases a <;> simp [step, Hub.run, idle, empty]
  | serve c a =>
    have rest := resting c
    cases serving : s.serving c <;> cases a <;>
      simp_all [step, Hub.serve, Serving.resting, Label.internal]

/-- The hub at rest. The write of its history to whoever has been registered is over, with or
    without an error; then it has been written every accepted message from number `start c` on,
    unless its connection has left the map; whoever a broadcast could not be written to has left
    the map and has been closed. -/
structure Drained (out : List (Traffic Conn Data)) (s : Hub Conn Data) (start : Conn → Nat) :
    Prop where
  free : s.mu = none
  idle : s.running = .closing [] ∧ s.broadcast = []
  resting : ∀ c, (s.serving c).resting = true
  begins : ∀ c pre h post, out = pre ++ .registered c h :: post → start c ≤ (accepted pre).length
  greeted : ∀ c data, .registered c (some data) ∈ out → ∃ ok, .ended .serve c data ok ∈ out
  complete : ∀ c h, .registered c h ∈ out → .unregistered c ∉ out →
    received c out = (accepted out).drop (start c)
  failed : ∀ c msg, .ended .run c msg false ∈ out → .unregistered c ∈ out ∧ .closed c ∈ out

theorem drained_of_stuck {out : List (Traffic Conn Data)} (sound : Sound out s)
    (balanced : Balanced out s) (unlisted : Unlisted out s) (held : Held s)
    (stuck : Stuck marshal s) : ∃ start, Drained out s start := by
  obtain ⟨idle, empty⟩ := idle_of_stuck sound.exclusive held stuck
  have resting := resting_of_stuck sound.exclusive held stuck
  choose before block using sound.block
  refine ⟨fun c => (before c).length, free_of_stuck held stuck, ⟨idle, empty⟩, resting,
    fun c => (block c).begins, ?_, ?_, ?_⟩
  · intro c data told
    rcases (sound.writes c).history data told with waiting | writing | ended
    · have rest := resting c
      simp [waiting, Serving.resting] at rest
    · have rest := resting c
      simp [writing, Serving.resting] at rest
    · exact ended
  · intro c h told kept
    have alive : s.alive c := by
      refine ⟨sound.registry.present c h told kept, ?_⟩
      simp [idle, Running.failed]
    rw [(block c).complete alive, Hub.pending, idle, empty, List.append_assoc, List.drop_left]
    simp [Running.ahead]
  · intro c msg told
    have balance := balanced c
    have some : 0 < failures c out := List.countP_pos_iff.mpr ⟨_, told, by simp⟩
    have closed : 0 < closes c out := by
      rw [idle, Running.toClose, List.count_nil] at balance
      omega
    obtain ⟨e, member, about⟩ := List.countP_pos_iff.mp closed
    cases e with
    | closed d =>
      obtain rfl : d = c := by simpa using about
      exact ⟨unlisted.closed d member, member⟩
    | _ => cases about

/-- Whatever has happened before: left to itself the hub takes no more steps than its effort
    allows, in whatever order, and when none is left it is at rest. -/
theorem hub_drains {labels own : List (Label Conn)} {out o : List (Traffic Conn Data)}
    (run : exec (step marshal) Hub.new labels = some (s, out))
    (internal : ∀ l ∈ own, l.internal = true) (further : exec (step marshal) s own = some (t, o)) :
    own.length + t.effort (conns labels) ≤ s.effort (conns labels) ∧
      (Stuck marshal t → ∃ start, Drained (out ++ o) t start) := by
  have whole := exec_append_iff.mpr ⟨s, out, o, run, further, rfl⟩
  have bounded := exec_bounded (I := Covered (conns labels))
    (fun covered own taken => step_falls covered own taken) (covered_run run) internal further
  have held : Held t := exec_keeps (fun held taken => held_step held (step_move taken))
    (fun _ owned => by cases owned) whole
  obtain ⟨balanced, unlisted⟩ := torn_run whole
  exact ⟨bounded.1, drained_of_stuck (sound_run whole) balanced unlisted held⟩

def removalWaits : List (Label Nat) :=
  [.serve 1 (.register none), .serve 1 .unlock, .broadcast (.remove "a")]

def removalSent : List (Label Nat) :=
  [.run .receive, .run .lock, .run (.write 1), .run (.written true), .run .visited, .run .unlock]

theorem removal_drained : ∃ s t out o start,
    exec (step exampleText) Hub.new removalWaits = some (s, out) ∧
      exec (step exampleText) s removalSent = some (t, o) ∧
      s.effort (conns removalWaits) = 8 ∧ Drained (out ++ o) t start := by
  obtain ⟨s, t, out, o, run, further, effort, idle, empty, serving⟩ : ∃ s t out o,
      exec (step exampleText) Hub.new removalWaits = some (s, out) ∧
        exec (step exampleText) s removalSent = some (t, o) ∧
        s.effort (conns removalWaits) = 8 ∧ t.running = .closing [] ∧ t.broadcast = [] ∧
        t.serving = Function.update (Function.update (fun _ => .upgraded) 1 (.registered none)) 1
          .reading :=
    ⟨_, _, _, _, rfl, rfl, rfl, rfl, rfl, rfl⟩
  have resting (c : Nat) : (t.serving c).resting = true := by
    rw [serving, Function.update_idem, Function.update_apply]
    split <;> rfl
  obtain ⟨_, drained⟩ := hub_drains run (by decide) further
  obtain ⟨start, drained⟩ := drained (stuck_of_resting idle empty resting)
  exact ⟨s, t, out, o, start, run, further, effort, drained⟩

end CollectorHub
