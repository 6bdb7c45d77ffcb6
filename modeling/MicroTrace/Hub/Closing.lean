import MicroTrace.Hub.Delivery

/- How often a connection is closed. Hub.Run closes the clients whose write has failed, and
   the read goroutine of each client closes it through its Once; the Once is asked by that
   goroutine alone, so it does not know of the other call. -/
namespace CollectorHub
open CollectorModel Runs

variable {Conn Data : Type}

@[simp]
def Running.toClose : Running Conn Data → List Conn
  | .locking _ => []
  | .ranging _ _ failed => failed
  | .writing _ _ _ failed => failed
  | .removing _ failed => failed
  | .closing left => left

@[simp]
def Serving.closes : Serving Data → ℕ
  | .gone => 1
  | _ => 0

theorem serving_closes_le (v : Serving Data) : v.closes ≤ 1 := by
  cases v <;> simp

/- Whoever is still to be closed has been taken out of the map, or will be before that. -/
def Running.Off (out : List (Traffic Conn Data)) : Running Conn Data → Prop
  | .removing left failed => ∀ c ∈ failed, c ∈ left ∨ .unregistered c ∈ out
  | .closing left => ∀ c ∈ left, .unregistered c ∈ out
  | _ => True

theorem off_later {out : List (Traffic Conn Data)} {r : Running Conn Data} (off : r.Off out)
    (o : List (Traffic Conn Data)) : r.Off (out ++ o) := by
  cases r with
  | removing left failed =>
    intro c member
    exact (off c member).imp_right (List.mem_append_left o)
  | closing left =>
    intro c member
    exact List.mem_append_left o (off c member)
  | _ => trivial

variable [DecidableEq Conn]

@[simp]
def Traffic.closes (c : Conn) : Traffic Conn Data → Bool
  | .closed d => d = c
  | _ => false

@[simp]
def Traffic.fails (c : Conn) : Traffic Conn Data → Bool
  | .ended .run d _ false => d = c
  | _ => false

def closes (c : Conn) (out : List (Traffic Conn Data)) : ℕ := out.countP (Traffic.closes c)

def failures (c : Conn) (out : List (Traffic Conn Data)) : ℕ := out.countP (Traffic.fails c)

theorem failures_eq_zero {c : Conn} {out : List (Traffic Conn Data)}
    (spared : ∀ msg, .ended .run c msg false ∉ out) : failures c out = 0 := by
  rw [failures, List.countP_eq_zero]
  intro e member
  cases e with
  | ended w d msg ok =>
    cases w <;> cases ok <;> simp only [Traffic.fails, decide_eq_true_eq, not_false_eq_true,
      Bool.false_eq_true]
    rintro rfl
    exact spared msg member
  | _ => simp

@[simp]
theorem closes_nil (c : Conn) : closes c ([] : List (Traffic Conn Data)) = 0 := rfl

@[simp]
theorem failures_nil (c : Conn) : failures c ([] : List (Traffic Conn Data)) = 0 := rfl

@[simp]
theorem closes_single (c : Conn) (e : Traffic Conn Data) :
    closes c [e] = if e.closes c then 1 else 0 := List.countP_singleton

@[simp]
theorem failures_single (c : Conn) (e : Traffic Conn Data) :
    failures c [e] = if e.fails c then 1 else 0 := List.countP_singleton

/-- Each failed write and each read goroutine that has ended stand for one call of Close, made
    or still to be made. -/
def Balanced (out : List (Traffic Conn Data)) (s : Hub Conn Data) : Prop :=
  ∀ c, closes c out + s.running.toClose.count c = failures c out + (s.serving c).closes

theorem closes_append (c : Conn) (out o : List (Traffic Conn Data)) :
    closes c (out ++ o) = closes c out + closes c o := List.countP_append

theorem failures_append (c : Conn) (out o : List (Traffic Conn Data)) :
    failures c (out ++ o) = failures c out + failures c o := List.countP_append

theorem balanced_run {out o : List (Traffic Conn Data)} {s t : Hub Conn Data}
    (held : Balanced out s) (serving : t.serving = s.serving)
    (own : ∀ c, closes c o + t.running.toClose.count c = s.running.toClose.count c + failures c o) :
    Balanced (out ++ o) t := by
  intro c
  have before := held c
  have now := own c
  rw [closes_append, failures_append, serving]
  omega

theorem balanced_serve {out o : List (Traffic Conn Data)} {s t : Hub Conn Data} {d : Conn}
    {v : Serving Data} (held : Balanced out s) (running : t.running = s.running)
    (serving : t.serving = Function.update s.serving d v) (fresh : (s.serving d).closes = 0)
    (own : ∀ c, failures c o = 0 ∧ closes c o = if c = d then v.closes else 0) :
    Balanced (out ++ o) t := by
  intro c
  have before := held c
  rw [closes_append, failures_append, (own c).1, (own c).2, running, serving]
  by_cases same : c = d
  · subst same
    rw [if_pos rfl, Function.update_self]
    omega
  · rw [if_neg same, Function.update_of_ne same]
    omega

theorem balanced_step {out o : List (Traffic Conn Data)} {s t : Hub Conn Data}
    (held : Balanced out s) (move : Move s t o) : Balanced (out ++ o) t := by
  cases move with
  | dropped => simpa using held
  | accept data => exact balanced_run held rfl (by simp)
  | receive msg rest idle next => exact balanced_run held rfl (by simp [idle])
  | lock msg waiting free => exact balanced_run held rfl (by simp [waiting])
  | write msg c visited failed ranging there fresh =>
    exact balanced_run held rfl (by simp [ranging])
  | written msg c visited failed ok writing =>
    refine balanced_run held rfl ?_
    intro d
    cases ok with
    | true => simp [writing]
    | false => simp [writing, List.count_append, List.count_singleton]
  | visited msg seen failed ranging all => exact balanced_run held rfl (by simp [ranging])
  | delete c rest failed removing => exact balanced_run held rfl (by simp [removing])
  | unlock failed removing => exact balanced_run held rfl (by simp [removing])
  | close c rest closing =>
    refine balanced_run held rfl ?_
    intro d
    simp [closing, List.count_cons, Nat.add_comm]
  | register c history new free => exact balanced_serve held rfl rfl (by simp [new]) (by simp)
  | writeHistory c data registered =>
    exact balanced_serve held rfl rfl (by simp [registered]) (by simp)
  | writtenHistory c data ok writing =>
    exact balanced_serve held rfl rfl (by simp [writing]) (by simp)
  | unlockServe c done =>
    refine balanced_serve held rfl rfl ?_ (by simp)
    rcases done with done | done <;> simp [done]
  | readError c reading => exact balanced_serve held rfl rfl (by simp [reading]) (by simp)
  | lockClose c locking free => exact balanced_serve held rfl rfl (by simp [locking]) (by simp)
  | deleteClose c removing => exact balanced_serve held rfl rfl (by simp [removing]) (by simp)
  | closeConn c closing =>
    refine balanced_serve held rfl rfl (by simp [closing]) ?_
    intro d
    simp [eq_comm]

structure Unlisted (out : List (Traffic Conn Data)) (s : Hub Conn Data) : Prop where
  running : s.running.Off out
  serving : ∀ c, s.serving c = .closing → .unregistered c ∈ out
  closed : ∀ c, .closed c ∈ out → .unregistered c ∈ out

theorem off_step {out o : List (Traffic Conn Data)} {s t : Hub Conn Data}
    (held : s.running.Off out) (move : Move s t o) : t.running.Off (out ++ o) := by
  cases move with
  | receive msg rest idle next => trivial
  | lock msg waiting free => trivial
  | write msg c visited failed ranging there fresh => trivial
  | written msg c visited failed ok writing => trivial
  | visited msg seen failed ranging all => exact fun c member => .inl member
  | delete c rest failed removing =>
    rw [removing] at held
    intro d member
    rcases held d member with waiting | gone
    · rcases List.mem_cons.mp waiting with rfl | later
      · exact .inr (List.mem_append_right out List.mem_cons_self)
      · exact .inl later
    · exact .inr (List.mem_append_left _ gone)
  | unlock failed removing =>
    rw [removing] at held
    intro d member
    rcases held d member with waiting | gone
    · cases waiting
    · exact List.mem_append_left _ gone
  | close c rest closing =>
    rw [closing] at held
    intro d member
    exact List.mem_append_left _ (held d (List.mem_cons_of_mem c member))
  | _ => exact off_later held _

theorem closing_before {o : List (Traffic Conn Data)} {s t : Hub Conn Data} {c : Conn}
    (move : Move s t o) (closing : t.serving c = .closing) :
    s.serving c = .closing ∨ .unregistered c ∈ o := by
  have update (d : Conn) (v : Serving Data) (other : v ≠ .closing)
      (now : Function.update s.serving d v c = .closing) : s.serving c = .closing := by
    by_cases same : c = d
    · subst same
      rw [Function.update_self] at now
      exact absurd now other
    · rw [Function.update_of_ne same] at now
      exact now
  cases move with
  | register d history new free => exact .inl (update d (.registered history) nofun closing)
  | writeHistory d data registered => exact .inl (update d (.writing data) nofun closing)
  | writtenHistory d data ok writing => exact .inl (update d .unlocking nofun closing)
  | unlockServe d done => exact .inl (update d .reading nofun closing)
  | readError d reading => exact .inl (update d .locking nofun closing)
  | lockClose d locking free => exact .inl (update d .removing nofun closing)
  | deleteClose d removing =>
    by_cases same : c = d
    · subst same
      exact .inr List.mem_cons_self
    · exact .inl ((Function.update_of_ne same .closing s.serving).symm.trans closing)
  | closeConn d closing' => exact .inl (update d .gone nofun closing)
  | _ => exact .inl closing

theorem closer {o : List (Traffic Conn Data)} {s t : Hub Conn Data} {c : Conn} (move : Move s t o)
    (told : .closed c ∈ o) :
    (∃ rest, s.running = .closing (c :: rest)) ∨ s.serving c = .closing := by
  cases move with
  | close d rest closing =>
    cases List.mem_singleton.mp told
    exact .inl ⟨rest, closing⟩
  | closeConn d closing =>
    cases List.mem_singleton.mp told
    exact .inr closing
  | _ => simp at told

theorem unlisted_step {out o : List (Traffic Conn Data)} {s t : Hub Conn Data}
    (held : Unlisted out s) (move : Move s t o) : Unlisted (out ++ o) t where
  running := off_step held.running move
  serving := by
    intro c closing
    rcases closing_before move closing with before | now
    · exact List.mem_append_left o (held.serving c before)
    · exact List.mem_append_right out now
  closed := by
    intro c told
    rcases List.mem_append.mp told with earlier | now
    · exact List.mem_append_left o (held.closed c earlier)
    · rcases closer move now with ⟨rest, closing⟩ | closing
      · have off := held.running
        rw [closing] at off
        exact List.mem_append_left o (off c List.mem_cons_self)
      · exact List.mem_append_left o (held.serving c closing)

variable {marshal : OutboundMsg → Option Data} {labels : List (Label Conn)} {s : Hub Conn Data}
  {out : List (Traffic Conn Data)}

theorem torn_run (run : exec (step marshal) Hub.new labels = some (s, out)) :
    Balanced out s ∧ Unlisted out s := by
  refine exec_history (I := fun _ s out => Balanced out s ∧ Unlisted out s) ⟨?_, ?_⟩
    (fun _ held taken => ⟨balanced_step held.1 (step_move taken),
      unlisted_step held.2 (step_move taken)⟩) run
  · intro c
    simp [Hub.new]
  · exact ⟨by simp [Hub.new, Running.Off], by simp [Hub.new], by simp⟩

/-- In every run a closed connection has left the map. It is closed at most once if no
    broadcast to it fails; and once it is torn down it has been closed once more than
    broadcasts to it have failed. -/
theorem closed_once_unless_failed (run : exec (step marshal) Hub.new labels = some (s, out))
    (c : Conn) :
    (.closed c ∈ out → c ∉ s.clients) ∧
      ((∀ msg, .ended .run c msg false ∉ out) → closes c out ≤ 1) ∧
      (c ∉ s.running.toClose → s.serving c = .gone → closes c out = failures c out + 1) := by
  obtain ⟨balanced, unlisted⟩ := torn_run run
  have balance := balanced c
  refine ⟨?_, ?_, ?_⟩
  · intro closed
    exact (sound_run run).registry.removed c (unlisted.closed c closed)
  · intro spared
    have none := failures_eq_zero spared
    have once := serving_closes_le (s.serving c)
    omega
  · intro done gone
    rw [List.count_eq_zero_of_not_mem done, gone] at balance
    exact balance

def closedTab : List (Label Nat) :=
  [.serve 1 (.register none), .serve 1 .unlock, .broadcast (.remove "a"), .run .receive, .run .lock,
    .run (.write 1), .run (.written true), .run .visited, .run .unlock, .serve 1 .readError,
    .serve 1 .lock, .serve 1 .delete, .serve 1 .close]

theorem closed_tab_closed_once : ∃ s out,
    exec (step exampleText) Hub.new closedTab = some (s, out) ∧ .closed 1 ∈ out ∧
      1 ∉ s.clients ∧ closes 1 out ≤ 1 := by
  obtain ⟨s, out, run, spared, told⟩ : ∃ s out,
      exec (step exampleText) Hub.new closedTab = some (s, out) ∧
        (∀ msg, .ended .run 1 msg false ∉ out) ∧ .closed 1 ∈ out :=
    ⟨_, [.registered 1 none, .accepted (removalText "a"), .began .run 1 (removalText "a"),
      .ended .run 1 (removalText "a") true, .unregistered 1, .closed 1], rfl, by simp, by simp⟩
  obtain ⟨left, once, _⟩ := closed_once_unless_failed run 1
  exact ⟨s, out, run, told, left told, once spared⟩

def brokenTab : List (Label Nat) :=
  [.serve 1 (.register none), .serve 1 .unlock, .broadcast (.remove "a"), .run .receive, .run .lock,
    .run (.write 1), .run (.written false), .run .visited, .run .delete, .run .unlock, .run .close,
    .serve 1 .readError, .serve 1 .lock, .serve 1 .delete, .serve 1 .close]

theorem broken_tab_closed_twice :
    ¬ ∀ (marshal : OutboundMsg → Option String) (labels : List (Label Nat)) (s : Hub Nat String)
        (out : List (Traffic Nat String)) (c : Nat),
      exec (step marshal) Hub.new labels = some (s, out) → closes c out ≤ 1 := by
  intro claim
  have once := claim exampleText brokenTab _ _ 1 rfl
  revert once
  decide

end CollectorHub
