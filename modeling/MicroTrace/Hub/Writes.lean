import Mathlib.Data.List.Chain
import MicroTrace.Hub.Hub

/- The lock of the hub. Whoever writes holds the mutex, so a connection sees one write at a
   time, its history message before anything that Hub.Run sends it, and nothing from Hub.Run
   once it has left the map. -/
namespace CollectorHub
open CollectorModel Runs

variable {Conn Data : Type}

def Traffic.accepted? : Traffic Conn Data → Option Data
  | .accepted data => some data
  | _ => none

def Traffic.conn? : Traffic Conn Data → Option Conn
  | .registered c _ => some c
  | .began _ c _ => some c
  | .ended _ c _ _ => some c
  | .unregistered c => some c
  | _ => none

def Traffic.write? : Traffic Conn Data → Option (Writer × Conn)
  | .began w c _ => some (w, c)
  | .ended w c _ _ => some (w, c)
  | _ => none

def accepted (out : List (Traffic Conn Data)) : List Data := out.filterMap Traffic.accepted?

@[simp] theorem accepted_nil : accepted ([] : List (Traffic Conn Data)) = [] := rfl

@[simp] theorem accepted_single (e : Traffic Conn Data) : accepted [e] = e.accepted?.toList := by
  cases told : e.accepted? <;> simp [accepted, told]

@[simp] theorem accepted_append (out o : List (Traffic Conn Data)) :
    accepted (out ++ o) = accepted out ++ accepted o := List.filterMap_append

def Running.locked : Running Conn Data → Bool
  | .ranging _ _ _ => true
  | .writing _ _ _ _ => true
  | .removing _ _ => true
  | _ => false

def Serving.locked : Serving Data → Bool
  | .registered _ => true
  | .writing _ => true
  | .unlocking => true
  | _ => false

/-- Whoever is between Lock and Unlock owns the mutex. -/
structure Exclusive (s : Hub Conn Data) : Prop where
  run : s.running.locked = true → s.mu = some .run
  serve : ∀ c, (s.serving c).locked = true → s.mu = some (.serve c)
  close : ∀ c, s.serving c = .removing → s.mu = some (.close c)

def Hub.writing (s : Hub Conn Data) (c : Conn) (data : Data) : Writer → Prop
  | .run => ∃ visited failed, s.running = .writing data c visited failed
  | .serve => s.serving c = .writing data

theorem writing_unique {s : Hub Conn Data} (exclusive : Exclusive s) {c : Conn} {data data' : Data}
    {w w' : Writer} (one : s.writing c data w) (other : s.writing c data' w') :
    w' = w ∧ data' = data := by
  have run := exclusive.run
  have serve := exclusive.serve c
  cases w <;> cases w' <;> grind [Hub.writing, Running.locked, Serving.locked]

theorem exclusive_run {s t : Hub Conn Data} (held : Exclusive s) (serving : t.serving = s.serving)
    (others : ∀ o, o ≠ .run → s.mu = some o → t.mu = some o)
    (own : t.running.locked = true → t.mu = some .run) : Exclusive t := by
  refine ⟨own, ?_, ?_⟩
  · intro c locked
    rw [serving] at locked
    exact others _ nofun (held.serve c locked)
  · intro c removing
    rw [serving] at removing
    exact others _ nofun (held.close c removing)

theorem writing_unless_run {s t : Hub Conn Data} {c : Conn} (serving : t.serving = s.serving)
    (outside : ∀ data d visited failed, s.running ≠ .writing data d visited failed) (w : Writer)
    (data : Data) (writing : s.writing c data w) : t.writing c data w := by
  cases w with
  | run =>
    obtain ⟨visited, failed, running⟩ := writing
    exact absurd running (outside data c visited failed)
  | serve =>
    rw [Hub.writing, serving]
    exact writing

def Running.failed : Running Conn Data → List Conn
  | .ranging _ _ failed => failed
  | .writing _ _ _ failed => failed
  | .removing left _ => left
  | _ => []

/- Whoever fails in a round has been visited, and the client being written to has not. -/
def Running.Visits (clients : List Conn) : Running Conn Data → Prop
  | .ranging _ visited failed => failed ⊆ visited
  | .writing _ c visited failed => c ∈ clients ∧ c ∉ visited ∧ failed ⊆ visited
  | _ => True

theorem visits_unlocked {running : Running Conn Data} (clients : List Conn)
    (unlocked : running.locked ≠ true) : running.Visits clients := by
  cases running with
  | ranging msg visited failed => exact absurd rfl unlocked
  | writing msg c visited failed => exact absurd rfl unlocked
  | _ => trivial

def Greeted (c : Conn) (data : Data) (serving : Serving Data) (out : List (Traffic Conn Data)) :
    Prop :=
  serving = .registered (some data) ∨ serving = .writing data ∨
    ∃ ok, .ended .serve c data ok ∈ out

theorem greeted_later {c : Conn} {data : Data} {v : Serving Data} {out : List (Traffic Conn Data)}
    (greeted : Greeted c data v out) (o : List (Traffic Conn Data)) :
    Greeted c data v (out ++ o) := by
  rcases greeted with waiting | writing | ⟨ok, ended⟩
  · exact .inl waiting
  · exact .inr (.inl writing)
  · exact .inr (.inr ⟨ok, List.mem_append_left o ended⟩)

variable [DecidableEq Conn]

def Traffic.received? (c : Conn) : Traffic Conn Data → Option Data
  | .ended .run d data true => if d = c then some data else none
  | _ => none

def received (c : Conn) (out : List (Traffic Conn Data)) : List Data :=
  out.filterMap (Traffic.received? c)

def writesTo (c : Conn) (out : List (Traffic Conn Data)) : List (Traffic Conn Data) :=
  out.filter fun e => e.write? = some (.run, c) ∨ e.write? = some (.serve, c)

@[simp] theorem received_nil (c : Conn) : received c ([] : List (Traffic Conn Data)) = [] := rfl

@[simp] theorem received_single (c : Conn) (e : Traffic Conn Data) :
    received c [e] = (e.received? c).toList := by
  cases told : e.received? c <;> simp [received, told]

@[simp] theorem received_append (c : Conn) (out o : List (Traffic Conn Data)) :
    received c (out ++ o) = received c out ++ received c o := List.filterMap_append

theorem writesTo_single {c : Conn} {e : Traffic Conn Data} {w : Writer}
    (wrote : e.write? = some (w, c)) : writesTo c [e] = [e] := by
  cases w <;> simp [writesTo, wrote]

@[simp] theorem writesTo_append (c : Conn) (out o : List (Traffic Conn Data)) :
    writesTo c (out ++ o) = writesTo c out ++ writesTo c o := List.filter_append ..

theorem exclusive_serve {s t : Hub Conn Data} {c : Conn} {v : Serving Data} (held : Exclusive s)
    (running : t.running = s.running) (serving : t.serving = Function.update s.serving c v)
    (others : ∀ o, o ≠ .serve c → o ≠ .close c → s.mu = some o → t.mu = some o)
    (own : v.locked = true → t.mu = some (.serve c))
    (closing : v = .removing → t.mu = some (.close c)) :
    Exclusive t := by
  refine ⟨?_, ?_, ?_⟩
  · intro locked
    rw [running] at locked
    exact others _ nofun nofun (held.run locked)
  · intro d locked
    by_cases same : d = c
    · subst same
      rw [serving, Function.update_self] at locked
      exact own locked
    · rw [serving, Function.update_of_ne same] at locked
      exact others _ (by simp [same]) nofun (held.serve d locked)
  · intro d removing
    by_cases same : d = c
    · subst same
      rw [serving, Function.update_self] at removing
      exact closing removing
    · rw [serving, Function.update_of_ne same] at removing
      exact others _ nofun (by simp [same]) (held.close d removing)

theorem exclusive_step {s t : Hub Conn Data} {o : List (Traffic Conn Data)}
    (held : Exclusive s) (move : Move s t o) : Exclusive t := by
  cases move with
  | dropped => exact held
  | accept data => exact ⟨held.run, held.serve, held.close⟩
  | receive msg rest idle next => exact exclusive_run held rfl (fun _ _ => id) nofun
  | lock msg waiting free => exact exclusive_run held rfl (by simp [free]) fun _ => rfl
  | write msg c visited failed ranging there fresh =>
    exact exclusive_run held rfl (fun _ _ => id) fun _ => held.run (by rw [ranging]; rfl)
  | written msg c visited failed ok writing =>
    exact exclusive_run held rfl (fun _ _ => id) fun _ => held.run (by rw [writing]; rfl)
  | visited msg seen failed ranging all =>
    exact exclusive_run held rfl (fun _ _ => id) fun _ => held.run (by rw [ranging]; rfl)
  | delete c rest failed removing =>
    exact exclusive_run held rfl (fun _ _ => id) fun _ => held.run (by rw [removing]; rfl)
  | unlock failed removing =>
    have mine := held.run (by rw [removing]; rfl)
    refine exclusive_run held rfl ?_ nofun
    intro o other owned
    exact absurd (Option.some.inj (owned.symm.trans mine)) other
  | close c rest closing => exact exclusive_run held rfl (fun _ _ => id) nofun
  | register c history new free =>
    exact exclusive_serve held rfl rfl (by simp [free]) (fun _ => rfl) nofun
  | writeHistory c data registered =>
    have mine := held.serve c (by rw [registered]; rfl)
    exact exclusive_serve held rfl rfl (fun _ _ _ => id) (fun _ => mine) nofun
  | writtenHistory c data ok writing =>
    have mine := held.serve c (by rw [writing]; rfl)
    exact exclusive_serve held rfl rfl (fun _ _ _ => id) (fun _ => mine) nofun
  | unlockServe c done =>
    have mine : s.mu = some (.serve c) := by
      rcases done with registered | unlocking
      · exact held.serve c (by rw [registered]; rfl)
      · exact held.serve c (by rw [unlocking]; rfl)
    refine exclusive_serve held rfl rfl ?_ nofun nofun
    intro o other _ owned
    exact absurd (Option.some.inj (owned.symm.trans mine)) other
  | readError c reading => exact exclusive_serve held rfl rfl (fun _ _ _ => id) nofun nofun
  | lockClose c locking free =>
    exact exclusive_serve held rfl rfl (by simp [free]) nofun fun _ => rfl
  | deleteClose c removing =>
    have mine := held.close c removing
    refine exclusive_serve held rfl rfl ?_ nofun nofun
    intro o _ other owned
    exact absurd (Option.some.inj (owned.symm.trans mine)) other
  | closeConn c closing => exact exclusive_serve held rfl rfl (fun _ _ _ => id) nofun nofun

structure Registry (out : List (Traffic Conn Data)) (s : Hub Conn Data) : Prop where
  unknown : ∀ c, s.serving c = .upgraded → ∀ e ∈ out, e.conn? ≠ some c
  joined : ∀ c ∈ s.clients, s.serving c ≠ .upgraded
  present : ∀ c h, .registered c h ∈ out → .unregistered c ∉ out → c ∈ s.clients
  removed : ∀ c, .unregistered c ∈ out → c ∉ s.clients
  failed : ∀ c ∈ s.running.failed, ∃ msg, .ended .run c msg false ∈ out
  visits : s.running.Visits s.clients

/- A connection stays where it is, or moves on: it never comes back to the beginning, and
   takes the lock of ServeWs only from there. -/
def Onward (v v' : Serving Data) : Prop :=
  v' = v ∨ (v' ≠ .upgraded ∧ (v'.locked = true → v = .upgraded ∨ v.locked = true))

theorem onward_update {f : Conn → Serving Data} {d : Conn} (v : Serving Data)
    (moved : Onward (f d) v) (c : Conn) : Onward (f c) (Function.update f d v c) := by
  by_cases same : c = d
  · subst same
    rw [Function.update_self]
    exact moved
  · exact .inl (Function.update_of_ne same v f)

theorem serving_onward {s t : Hub Conn Data} {o : List (Traffic Conn Data)} (move : Move s t o)
    (c : Conn) : Onward (s.serving c) (t.serving c) := by
  cases move with
  | register d history new free =>
    exact onward_update (.registered history) (.inr ⟨nofun, fun _ => .inl new⟩) c
  | writeHistory d data registered =>
    exact onward_update (.writing data) (.inr ⟨nofun, fun _ => .inr (by rw [registered]; rfl)⟩) c
  | writtenHistory d data ok writing =>
    exact onward_update .unlocking (.inr ⟨nofun, fun _ => .inr (by rw [writing]; rfl)⟩) c
  | unlockServe d done => exact onward_update .reading (.inr ⟨nofun, nofun⟩) c
  | readError d reading => exact onward_update .locking (.inr ⟨nofun, nofun⟩) c
  | lockClose d locking free => exact onward_update .removing (.inr ⟨nofun, nofun⟩) c
  | deleteClose d removing => exact onward_update .closing (.inr ⟨nofun, nofun⟩) c
  | closeConn d closing => exact onward_update .gone (.inr ⟨nofun, nofun⟩) c
  | _ => exact .inl rfl

theorem upgraded_before {s t : Hub Conn Data} {o : List (Traffic Conn Data)} {c : Conn}
    (move : Move s t o) (new : t.serving c = .upgraded) : s.serving c = .upgraded := by
  rcases serving_onward move c with same | ⟨later, _⟩
  · exact same.symm.trans new
  · exact absurd new later

theorem unlocked_step {s t : Hub Conn Data} {o : List (Traffic Conn Data)} {c : Conn}
    (move : Move s t o) (past : (s.serving c).locked = false ∧ s.serving c ≠ .upgraded) :
    (t.serving c).locked = false ∧ t.serving c ≠ .upgraded := by
  rcases serving_onward move c with same | ⟨later, locked⟩
  · rw [same]
    exact past
  · refine ⟨?_, later⟩
    by_contra inside
    rcases locked (by simpa using inside) with new | before
    · exact past.2 new
    · rw [past.1] at before
      cases before

theorem silent_before {s t : Hub Conn Data} {out o : List (Traffic Conn Data)} {c : Conn}
    {e : Traffic Conn Data} (held : Registry out s) (move : Move s t o)
    (new : t.serving c = .upgraded) (told : e ∈ o) : e.conn? ≠ some c := by
  have old := upgraded_before move new
  intro about
  cases move with
  | dropped => cases told
  | accept data =>
    cases List.mem_singleton.mp told
    cases about
  | receive msg rest idle next => cases told
  | lock msg waiting free => cases told
  | write msg d visited failed ranging there fresh =>
    cases List.mem_singleton.mp told
    cases about
    exact held.joined c there old
  | written msg d visited failed ok writing =>
    cases List.mem_singleton.mp told
    cases about
    have visits := held.visits
    rw [writing] at visits
    exact held.joined c visits.1 old
  | visited msg seen failed ranging all => cases told
  | delete d rest failed removing =>
    cases List.mem_singleton.mp told
    cases about
    obtain ⟨msg, ended⟩ := held.failed c (by simp [removing, Running.failed])
    exact held.unknown c old _ ended rfl
  | unlock failed removing => cases told
  | close d rest closing =>
    cases List.mem_singleton.mp told
    cases about
  | register d history upgraded free =>
    cases List.mem_singleton.mp told
    cases about
    simp at new
  | writeHistory d data registered =>
    cases List.mem_singleton.mp told
    cases about
    simp at new
  | writtenHistory d data ok writing =>
    cases List.mem_singleton.mp told
    cases about
    simp at new
  | unlockServe d done => cases told
  | readError d reading => cases told
  | lockClose d locking free => cases told
  | deleteClose d removing =>
    cases List.mem_singleton.mp told
    cases about
    simp at new
  | closeConn d closing =>
    cases List.mem_singleton.mp told
    cases about

theorem clients_cases {s t : Hub Conn Data} {o : List (Traffic Conn Data)} (move : Move s t o) :
    (t.clients = s.clients ∧ ∀ c, (∀ h, .registered c h ∉ o) ∧ .unregistered c ∉ o) ∨
    (∃ c h, o = [.registered c h] ∧ s.serving c = .upgraded ∧ t.serving c ≠ .upgraded ∧
      t.clients = s.clients.insert c) ∨
    (∃ c, o = [.unregistered c] ∧ t.clients = s.clients.filter (· ≠ c)) := by
  cases move with
  | register c history new free =>
    exact .inr (.inl ⟨c, history, rfl, new, by simp, rfl⟩)
  | delete c rest failed removing => exact .inr (.inr ⟨c, rfl, rfl⟩)
  | deleteClose c removing => exact .inr (.inr ⟨c, rfl, rfl⟩)
  | _ => exact .inl ⟨rfl, by simp⟩

theorem joined_step {s t : Hub Conn Data} {out o : List (Traffic Conn Data)} {c : Conn}
    (held : Registry out s) (move : Move s t o) (there : c ∈ t.clients) :
    t.serving c ≠ .upgraded := by
  intro new
  have old := upgraded_before move new
  rcases clients_cases move with ⟨same, _⟩ | ⟨d, h, _, _, started, made⟩ | ⟨d, _, made⟩
  · rw [same] at there
    exact held.joined c there old
  · rw [made] at there
    rcases List.mem_insert_iff.mp there with rfl | earlier
    · exact started new
    · exact held.joined c earlier old
  · rw [made] at there
    exact held.joined c (List.mem_of_mem_filter there) old

theorem present_step {s t : Hub Conn Data} {out o : List (Traffic Conn Data)} {c : Conn}
    {h : Option Data} (held : Registry out s) (move : Move s t o)
    (told : .registered c h ∈ out ++ o) (kept : .unregistered c ∉ out ++ o) : c ∈ t.clients := by
  rw [List.mem_append, not_or] at kept
  rcases clients_cases move with ⟨same, silent⟩ | ⟨d, h', rfl, _, _, made⟩ | ⟨d, rfl, made⟩
  · rw [same]
    exact held.present c h ((List.mem_append.mp told).resolve_right ((silent c).1 h)) kept.1
  · rw [made, List.mem_insert_iff]
    rcases List.mem_append.mp told with earlier | now
    · exact .inr (held.present c h earlier kept.1)
    · cases List.mem_singleton.mp now
      exact .inl rfl
  · rcases List.mem_append.mp told with earlier | now
    · have other : c ≠ d := by
        rintro rfl
        exact kept.2 List.mem_cons_self
      rw [made, List.mem_filter]
      exact ⟨held.present c h earlier kept.1, by simpa using other⟩
    · cases List.mem_singleton.mp now

theorem removed_step {s t : Hub Conn Data} {out o : List (Traffic Conn Data)} {c : Conn}
    (held : Registry out s) (move : Move s t o) (told : .unregistered c ∈ out ++ o) :
    c ∉ t.clients := by
  rcases clients_cases move with ⟨same, silent⟩ | ⟨d, h, rfl, new, _, made⟩ | ⟨d, rfl, made⟩
  · rw [same]
    exact held.removed c ((List.mem_append.mp told).resolve_right (silent c).2)
  · have earlier : .unregistered c ∈ out := by simpa using told
    rw [made, List.mem_insert_iff, not_or]
    refine ⟨?_, held.removed c earlier⟩
    rintro rfl
    exact held.unknown c new _ earlier rfl
  · rw [made, List.mem_filter]
    rintro ⟨there, other⟩
    rcases List.mem_append.mp told with earlier | now
    · exact held.removed c earlier there
    · cases List.mem_singleton.mp now
      simp at other

theorem failed_step {s t : Hub Conn Data} {out o : List (Traffic Conn Data)} {c : Conn}
    (held : Registry out s) (move : Move s t o) (failing : c ∈ t.running.failed) :
    ∃ msg, .ended .run c msg false ∈ out ++ o := by
  have earlier (before : c ∈ s.running.failed) : ∃ msg, .ended .run c msg false ∈ out ++ o := by
    obtain ⟨msg, told⟩ := held.failed c before
    exact ⟨msg, List.mem_append_left o told⟩
  cases move with
  | receive msg rest idle next => cases failing
  | lock msg waiting free => cases failing
  | write msg d visited failed ranging there fresh =>
    exact earlier (by rw [ranging]; exact failing)
  | written msg d visited failed ok writing =>
    cases ok with
    | true => exact earlier (by rw [writing]; exact failing)
    | false =>
      rcases List.mem_append.mp failing with before | now
      · exact earlier (by rw [writing]; exact before)
      · cases List.mem_singleton.mp now
        exact ⟨msg, by simp⟩
  | visited msg seen failed ranging all => exact earlier (by rw [ranging]; exact failing)
  | delete d rest failed removing =>
    exact earlier (by rw [removing]; exact List.mem_cons_of_mem d failing)
  | unlock failed removing => cases failing
  | close d rest closing => cases failing
  | _ => exact earlier failing

theorem visits_step {s t : Hub Conn Data} {out o : List (Traffic Conn Data)}
    (exclusive : Exclusive s) (held : Registry out s) (move : Move s t o) :
    t.running.Visits t.clients := by
  have visits := held.visits
  cases move with
  | lock msg waiting free => exact List.nil_subset _
  | write msg d visited failed ranging there fresh =>
    rw [ranging] at visits
    exact ⟨there, fresh, visits⟩
  | written msg d visited failed ok writing =>
    rw [writing] at visits
    have before := List.subset_cons_of_subset d visits.2.2
    cases ok with
    | true => exact before
    | false => exact List.append_subset.mpr ⟨before, by simp⟩
  | register d history new free =>
    refine visits_unlocked _ ?_
    intro locked
    cases free.symm.trans (exclusive.run locked)
  | deleteClose d removing =>
    refine visits_unlocked _ ?_
    intro locked
    cases (exclusive.close d removing).symm.trans (exclusive.run locked)
  | receive | visited | delete | unlock | close => trivial
  | _ => exact visits

theorem registry_step {s t : Hub Conn Data} {out o : List (Traffic Conn Data)}
    (exclusive : Exclusive s) (held : Registry out s) (move : Move s t o) :
    Registry (out ++ o) t where
  unknown c new e told := by
    rcases List.mem_append.mp told with earlier | now
    · exact held.unknown c (upgraded_before move new) e earlier
    · exact silent_before held move new now
  joined c there := joined_step held move there
  present c h told kept := present_step held move told kept
  removed c told := removed_step held move told
  failed c failing := failed_step held move failing
  visits := visits_step exclusive held move

/-- The next thing that happens to a connection after a write to it begins is its end. -/
def Apart (c : Conn) (out : List (Traffic Conn Data)) : Prop :=
  (writesTo c out).IsChain fun x y => ∀ w data, x = .began w c data → ∃ ok, y = .ended w c data ok

/-- The order of the writes to a connection and of its removal. -/
structure Writes (c : Conn) (out : List (Traffic Conn Data)) (s : Hub Conn Data) : Prop where
  apart : Apart c out
  last : ∀ w data, (writesTo c out).getLast? = some (.began w c data) → s.writing c data w
  silent : out.Pairwise fun x y => x = .unregistered c → y.write? ≠ some (.run, c)
  history_first : out.Pairwise fun x y => x.write? = some (.run, c) → y.write? ≠ some (.serve, c)
  after_history : ∀ e ∈ out, e.write? = some (.run, c) →
    (s.serving c).locked = false ∧ s.serving c ≠ .upgraded
  history : ∀ data, .registered c (some data) ∈ out → Greeted c data (s.serving c) out

theorem writing_unless_serve {s t : Hub Conn Data} {c d : Conn} {v : Serving Data}
    (running : t.running = s.running) (serving : t.serving = Function.update s.serving d v)
    (outside : d = c → ∀ data, s.serving d ≠ .writing data) (w : Writer)
    (data : Data) (writing : s.writing c data w) : t.writing c data w := by
  cases w with
  | run =>
    rw [Hub.writing, running]
    exact writing
  | serve =>
    have other : c ≠ d := by
      rintro rfl
      exact outside rfl data writing
    rw [Hub.writing, serving, Function.update_of_ne other]
    exact writing

theorem writes_cases {s t : Hub Conn Data} {o : List (Traffic Conn Data)}
    (exclusive : Exclusive s) (move : Move s t o) (c : Conn) :
    (writesTo c o = [] ∧ ∀ w data, s.writing c data w → t.writing c data w) ∨
    (∃ w data, o = [.began w c data] ∧ t.writing c data w ∧ ∀ w' data', ¬ s.writing c data' w') ∨
    (∃ w data ok, o = [.ended w c data ok] ∧ s.writing c data w) := by
  cases move with
  | dropped => exact .inl ⟨rfl, fun _ _ => id⟩
  | accept data =>
    refine .inl ⟨rfl, ?_⟩
    intro w data writing
    cases w <;> exact writing
  | receive msg rest idle next => exact .inl ⟨rfl, writing_unless_run rfl (by simp [idle])⟩
  | lock msg waiting free => exact .inl ⟨rfl, writing_unless_run rfl (by simp [waiting])⟩
  | write msg d visited failed ranging there fresh =>
    have outside : ∀ data d visited failed, s.running ≠ .writing data d visited failed := by
      simp [ranging]
    by_cases same : d = c
    · subst same
      refine .inr (.inl ⟨.run, msg, rfl, ⟨visited, failed, rfl⟩, ?_⟩)
      intro w data writing
      cases w with
      | run =>
        obtain ⟨visited, failed, running⟩ := writing
        exact outside data d visited failed running
      | serve =>
        have mine := exclusive.run (by rw [ranging]; rfl)
        have other := exclusive.serve d (by rw [writing]; rfl)
        cases mine.symm.trans other
    · exact .inl ⟨by simp [writesTo, Traffic.write?, same], writing_unless_run rfl outside⟩
  | written msg d visited failed ok writing =>
    by_cases same : d = c
    · subst same
      exact .inr (.inr ⟨.run, msg, ok, rfl, visited, failed, writing⟩)
    · refine .inl ⟨by simp [writesTo, Traffic.write?, same], ?_⟩
      intro w data other
      cases w with
      | run =>
        obtain ⟨visited', failed', running⟩ := other
        rw [writing] at running
        cases running
        exact absurd rfl same
      | serve => exact other
  | visited msg seen failed ranging all =>
    exact .inl ⟨rfl, writing_unless_run rfl (by simp [ranging])⟩
  | delete d rest failed removing =>
    exact .inl ⟨rfl, writing_unless_run rfl (by simp [removing])⟩
  | unlock failed removing => exact .inl ⟨rfl, writing_unless_run rfl (by simp [removing])⟩
  | close d rest closing => exact .inl ⟨rfl, writing_unless_run rfl (by simp [closing])⟩
  | register d history new free =>
    exact .inl ⟨rfl, writing_unless_serve rfl rfl (by simp [new])⟩
  | writeHistory d data registered =>
    by_cases same : d = c
    · subst same
      refine .inr (.inl ⟨.serve, data, rfl, Function.update_self .., ?_⟩)
      intro w data' writing
      cases w with
      | run =>
        obtain ⟨visited, failed, running⟩ := writing
        have mine := exclusive.serve d (by rw [registered]; rfl)
        have other := exclusive.run (by rw [running]; rfl)
        cases mine.symm.trans other
      | serve => cases registered.symm.trans writing
    · exact .inl ⟨by simp [writesTo, Traffic.write?, same],
        writing_unless_serve rfl rfl fun h => absurd h same⟩
  | writtenHistory d data ok writing =>
    by_cases same : d = c
    · subst same
      exact .inr (.inr ⟨.serve, data, ok, rfl, writing⟩)
    · exact .inl ⟨by simp [writesTo, Traffic.write?, same],
        writing_unless_serve rfl rfl fun h => absurd h same⟩
  | unlockServe d done =>
    refine .inl ⟨rfl, writing_unless_serve rfl rfl ?_⟩
    rcases done with registered | unlocking
    · simp [registered]
    · simp [unlocking]
  | readError d reading => exact .inl ⟨rfl, writing_unless_serve rfl rfl (by simp [reading])⟩
  | lockClose d locking free => exact .inl ⟨rfl, writing_unless_serve rfl rfl (by simp [locking])⟩
  | deleteClose d removing => exact .inl ⟨rfl, writing_unless_serve rfl rfl (by simp [removing])⟩
  | closeConn d closing => exact .inl ⟨rfl, writing_unless_serve rfl rfl (by simp [closing])⟩

theorem run_write_there {s t : Hub Conn Data} {out o : List (Traffic Conn Data)}
    {e : Traffic Conn Data} {c : Conn} (registry : Registry out s) (move : Move s t o)
    (told : e ∈ o) (wrote : e.write? = some (.run, c)) :
    c ∈ s.clients ∧ s.running.locked = true := by
  have visits := registry.visits
  cases move with
  | write msg d visited failed ranging there fresh =>
    cases List.mem_singleton.mp told
    cases wrote
    exact ⟨there, by rw [ranging]; rfl⟩
  | written msg d visited failed ok writing =>
    cases List.mem_singleton.mp told
    cases wrote
    rw [writing] at visits ⊢
    exact ⟨visits.1, rfl⟩
  | dropped | receive | lock | visited | unlock | unlockServe | readError | lockClose => cases told
  | _ =>
    cases List.mem_singleton.mp told
    cases wrote

theorem history_write_locked {s t : Hub Conn Data} {o : List (Traffic Conn Data)}
    {e : Traffic Conn Data} {c : Conn} (move : Move s t o) (told : e ∈ o)
    (wrote : e.write? = some (.serve, c)) : (s.serving c).locked = true := by
  cases move with
  | writeHistory d data registered =>
    cases List.mem_singleton.mp told
    cases wrote
    rw [registered]
    rfl
  | writtenHistory d data ok writing =>
    cases List.mem_singleton.mp told
    cases wrote
    rw [writing]
    rfl
  | dropped | receive | lock | visited | unlock | unlockServe | readError | lockClose => cases told
  | _ =>
    cases List.mem_singleton.mp told
    cases wrote

theorem greeted_update {c d : Conn} {data : Data} {f : Conn → Serving Data}
    {out : List (Traffic Conn Data)} (greeted : Greeted c data (f c) out)
    (passed : d = c → f d ≠ .registered (some data) ∧ f d ≠ .writing data) (v : Serving Data) :
    Greeted c data (Function.update f d v c) out := by
  by_cases same : d = c
  · subst same
    have past := passed rfl
    exact .inr (.inr ((greeted.resolve_left past.1).resolve_left past.2))
  · rw [Function.update_of_ne (Ne.symm same)]
    exact greeted

theorem history_step {s t : Hub Conn Data} {out o : List (Traffic Conn Data)} {c : Conn}
    {data : Data}
    (held : ∀ data, .registered c (some data) ∈ out → Greeted c data (s.serving c) out)
    (move : Move s t o) (told : .registered c (some data) ∈ out ++ o) :
    Greeted c data (t.serving c) (out ++ o) := by
  cases move with
  | register d history new free =>
    rcases List.mem_append.mp told with before | now
    · exact greeted_later (greeted_update (held data before) (by simp [new]) _) _
    · cases List.mem_singleton.mp now
      exact .inl (Function.update_self ..)
  | writeHistory d data' registered =>
    have greeted := held data (by simpa using told)
    by_cases same : d = c
    · subst same
      rcases greeted with waiting | writing | ended
      · cases registered.symm.trans waiting
        exact .inr (.inl (Function.update_self ..))
      · cases registered.symm.trans writing
      · exact greeted_later (.inr (.inr ended)) _
    · exact greeted_later (greeted_update greeted (fun h => absurd h same) _) _
  | writtenHistory d data' ok writing =>
    have greeted := held data (by simpa using told)
    by_cases same : d = c
    · subst same
      rcases greeted with waiting | now | ended
      · cases writing.symm.trans waiting
      · cases writing.symm.trans now
        exact .inr (.inr ⟨ok, by simp⟩)
      · exact greeted_later (.inr (.inr ended)) _
    · exact greeted_later (greeted_update greeted (fun h => absurd h same) _) _
  | unlockServe d done =>
    refine greeted_later (greeted_update (held data (by simpa using told)) ?_ _) _
    rcases done with registered | unlocking
    · simp [registered]
    · simp [unlocking]
  | readError d reading =>
    exact greeted_later (greeted_update (held data (by simpa using told)) (by simp [reading]) _) _
  | lockClose d locking free =>
    exact greeted_later (greeted_update (held data (by simpa using told)) (by simp [locking]) _) _
  | deleteClose d removing =>
    exact greeted_later (greeted_update (held data (by simpa using told)) (by simp [removing]) _) _
  | closeConn d closing =>
    exact greeted_later (greeted_update (held data (by simpa using told)) (by simp [closing]) _) _
  | _ => exact greeted_later (held data (by simpa using told)) _

theorem one_event {s t : Hub Conn Data} {o : List (Traffic Conn Data)} (move : Move s t o)
    (R : Traffic Conn Data → Traffic Conn Data → Prop) : o.Pairwise R := by
  cases move <;> simp

theorem writes_step {s t : Hub Conn Data} {out o : List (Traffic Conn Data)} {c : Conn}
    (exclusive : Exclusive s) (registry : Registry out s) (held : Writes c out s)
    (move : Move s t o) : Writes c (out ++ o) t := by
  have cases := writes_cases exclusive move c
  refine ⟨?_, ?_, ?_, ?_, ?_, ?_⟩
  · unfold Apart
    rw [writesTo_append]
    rcases cases with ⟨none, _⟩ | ⟨w, data, rfl, _, free⟩ | ⟨w, data, ok, rfl, writing⟩
    · rw [none, List.append_nil]
      exact held.apart
    · refine List.isChain_append.mpr ⟨held.apart, ?_, ?_⟩
      · rw [writesTo_single rfl]
        exact List.isChain_singleton _
      · rintro x last y - w' data' rfl
        exact absurd (held.last w' data' last) (free w' data')
    · refine List.isChain_append.mpr ⟨held.apart, ?_, ?_⟩
      · rw [writesTo_single rfl]
        exact List.isChain_singleton _
      · rintro x last y head w' data' rfl
        obtain ⟨rfl, rfl⟩ := writing_unique exclusive writing (held.last w' data' last)
        rw [writesTo_single rfl] at head
        exact ⟨ok, by simpa using head.symm⟩
  · intro w' data' last
    rw [writesTo_append] at last
    rcases cases with ⟨none, kept⟩ | ⟨w, data, rfl, now, _⟩ | ⟨w, data, ok, rfl, _⟩
    · rw [none, List.append_nil] at last
      exact kept w' data' (held.last w' data' last)
    · rw [writesTo_single rfl, List.getLast?_concat] at last
      cases last
      exact now
    · rw [writesTo_single rfl, List.getLast?_concat] at last
      cases last
  · refine List.pairwise_append.mpr ⟨held.silent, one_event move _, ?_⟩
    rintro x earlier y now rfl wrote
    exact registry.removed c earlier (run_write_there registry move now wrote).1
  · refine List.pairwise_append.mpr ⟨held.history_first, one_event move _, ?_⟩
    intro x earlier y now ran wrote
    have unlocked := (held.after_history x earlier ran).1
    rw [history_write_locked move now wrote] at unlocked
    cases unlocked
  · intro e told wrote
    rcases List.mem_append.mp told with earlier | now
    · exact unlocked_step move (held.after_history e earlier wrote)
    · obtain ⟨there, locked⟩ := run_write_there registry move now wrote
      refine unlocked_step move ⟨?_, registry.joined c there⟩
      by_contra serving
      have owner := exclusive.serve c (by simpa using serving)
      rw [exclusive.run locked] at owner
      cases owner
  · intro data told
    exact history_step held.history move told

end CollectorHub
