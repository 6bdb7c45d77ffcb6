import MicroTrace.Dashboard.Reading
import MicroTrace.Dashboard.Reconnect
import MicroTrace.Hub.Delivery

/- The collector with its hub as it is, lock, bytes and all, and any number of dashboards. As
   long as no write to a dashboard fails and its reader does not end, its browser sees what the
   system with that dashboard alone would show it. -/
namespace Dashboard
open CollectorModel CollectorStats RangeLoops Runs
open CollectorHub (Hub Running Serving RunAction ServeAction)

abbrev Frame := List UInt8

structure Fleet (Conn : Type) where
  machine : Machine
  runOps : List RunOp
  resOps : List Emission
  hub : Hub Conn Frame
  clients : Conn → Client

/- GetHistory is called by ServeWs with the connections in some order. -/
inductive Act (Conn : Type) where
  | input (i : Input)
  | runOp
  | resOp
  | run (a : RunAction Conn) (now : Clock)
  | register (c : Conn) (order : List ConnKey)
  | serve (c : Conn) (a : ServeAction) (now : Clock)
  deriving DecidableEq

abbrev Event (Conn : Type) := CollectorHub.Traffic Conn Frame

theorem accept_collector {i : Input} {r s t : System} (machine : s.machine = r.machine)
    (runOps : s.runOps = r.runOps) (resOps : s.resOps = r.resOps) (accepted : r.accept i = some t) :
    s.accept i =
      some { s with machine := t.machine, runOps := t.runOps, resOps := t.resOps } := by
  cases i with
  | event a now e =>
    simp only [System.accept, machine, runOps, Option.ite_none_right_eq_some] at accepted ⊢
    obtain ⟨ready, made⟩ := accepted
    cases made
    exact ⟨ready, by rw [resOps]⟩
  | _ =>
    simp only [System.accept, machine, runOps, resOps, Option.ite_none_right_eq_some,
      Option.map_eq_some_iff] at accepted ⊢
    obtain ⟨ready, turn, taken, rfl⟩ := accepted
    exact ⟨ready, turn, taken, rfl⟩

theorem smooth_collector {names : ConnKey → Bool} {good : StatSnapshot → Bool} {i : Input}
    {r s : System} (machine : s.machine = r.machine) (smooth : Smooth names good r (.input i)) :
    Smooth names good s (.input i) := by
  cases i with
  | event a now e => exact smooth
  | tick now order =>
    intro snap published
    rw [machine] at published
    exact smooth snap published
  | closed now order =>
    intro snap published
    rw [machine] at published
    exact smooth snap published
  | sweep now order flowOrder => exact nofun
  | resource r => exact nofun

variable {Conn : Type} [DecidableEq Conn]

def Fleet.start (Conn : Type) [DecidableEq Conn] (storing : Bool) (clock : Time) : Fleet Conn :=
  ⟨.start storing clock, [], [], .new, fun _ => .opened⟩

def Fleet.collector (f : Fleet Conn) : System := ⟨f.machine, f.runOps, f.resOps, [], none, .opened⟩

variable (F : FloatText)

/- A browser sees its socket open when it is registered, and a frame when it has been written. -/
def hear (now : Clock) (clients : Conn → Client) : Event Conn → Conn → Client
  | .registered c _ => Function.update clients c { clients c with connected := true }
  | .ended _ c data true => Function.update clients c ((clients c).receive F now data)
  | _ => clients

def Fleet.hubStep (f : Fleet Conn) (l : CollectorHub.Label Conn) (now : Clock) :
    Option (Fleet Conn × List (Event Conn)) :=
  (CollectorHub.step (marshal F) f.hub l).map fun r =>
    ({ f with hub := r.1, clients := r.2.foldl (hear F now) f.clients }, r.2)

def Fleet.broadcast (f : Fleet Conn) (m : OutboundMsg) : Fleet Conn × List (Event Conn) :=
  let r := f.hub.accept (marshal F) m
  ({ f with hub := r.1 }, r.2)

def Fleet.call (f : Fleet Conn) (call : Emission) : Fleet Conn × List (Event Conn) :=
  match call.broadcast with
  | some m => f.broadcast F m
  | none => (f, [])

def Fleet.step : Stepper (Fleet Conn) (Act Conn) (Event Conn)
  | f, .input i => (f.collector.accept i).map fun s =>
      ({ f with machine := s.machine, runOps := s.runOps, resOps := s.resOps }, [])
  | f, .runOp => match f.runOps with
      | [] => none
      | .send call :: rest => some ({ f with runOps := rest }.call F call)
      | .apply a now e :: rest => some ({ f with
          runOps := rest
          machine := { f.machine with proc := applyEvent a now e f.machine.proc } }, [])
  | f, .resOp => match f.resOps with
      | [] => none
      | call :: rest => some ({ f with resOps := rest }.call F call)
  | f, .run a now => f.hubStep F (.run a) now
  | f, .register c order =>
      if Enumerates order f.machine.proc.conns then
        f.hubStep F (.serve c (.register (some (getHistory order f.machine.proc)))) ⟨0, 0, 0⟩
      else none
  | _, .serve _ (.register _) _ => none
  | f, .serve c a now => f.hubStep F (.serve c a) now

def Fleet.speaks (f : Fleet Conn) : Act Conn → Option OutboundMsg
  | .runOp => broadcasts f.collector .runOp
  | .resOp => broadcasts f.collector .resOp
  | _ => none

section Clear

variable (names : ConnKey → Bool) (good : StatSnapshot → Bool)

def GoodInput (f : Fleet Conn) : Act Conn → Prop
  | .input i => Smooth names good f.collector (.input i)
  | _ => True

/-- No broadcast finds the channel full, its numbers are read back as they are written, and what
    is published has names of the given kind and is good. -/
def Clear (f : Fleet Conn) (l : Act Conn) : Prop :=
  GoodInput names good f l ∧
    ∀ m ∈ f.speaks l, F.Carries m ∧ f.hub.broadcast.length < CollectorHub.bufferSize

instance (f : Fleet Conn) : (l : Act Conn) → Decidable (GoodInput names good f l)
  | .input _ => inferInstanceAs (Decidable (Smooth names good f.collector _))
  | .runOp => inferInstanceAs (Decidable True)
  | .resOp => inferInstanceAs (Decidable True)
  | .run _ _ => inferInstanceAs (Decidable True)
  | .register _ _ => inferInstanceAs (Decidable True)
  | .serve _ _ _ => inferInstanceAs (Decidable True)

instance (f : Fleet Conn) (l : Act Conn) : Decidable (Clear F names good f l) :=
  inferInstanceAs (Decidable (_ ∧ ∀ m ∈ f.speaks l, _))

end Clear

def coming (c : Conn) : Running Conn Frame → Option Frame
  | .locking data => some data
  | .ranging data visited _ => if c ∈ visited then none else some data
  | .writing data _ visited _ => if c ∈ visited then none else some data
  | _ => none

structure Carried (m : OutboundMsg) (data : Frame) : Prop where
  made : marshal F m = some data
  carries : F.Carries m
  streamed : OutboundMsg.streamed m = true

/-- The browser of a connection beside the dashboard of the system. The history is in the
    dashboard from the registration on, in the browser once it has been written. -/
inductive Seen : Serving Frame → Client → Client → Prop
  | away (v : Client) (off : v.connected = false) : Seen .upgraded v v
  | greeting (data : Frame) (h : List ConnHistory) (v : Client)
      (made : marshal F (.history h) = some data) (kept : h ≠ []) (on : v.connected = true) :
      Seen (.registered (some data)) v (v.onHistory h)
  | writing (data : Frame) (h : List ConnHistory) (v : Client)
      (made : marshal F (.history h) = some data) (kept : h ≠ []) (on : v.connected = true) :
      Seen (.writing data) v (v.onHistory h)
  | silent (v : Client) (on : v.connected = true) : Seen (.registered none) v v
  | unlocking (v : Client) (on : v.connected = true) : Seen .unlocking v v
  | reading (v : Client) (on : v.connected = true) : Seen .reading v v

/-- A fleet and the system with the dashboard of one connection alone. -/
structure Shows (c : Conn) (f : Fleet Conn) (s : System) : Prop where
  machine : s.machine = f.machine
  runOps : s.runOps = f.runOps
  resOps : s.resOps = f.resOps
  sound : ∃ out, CollectorHub.Sound out f.hub
  queue : List.Forall₂ (Carried F) s.queue f.hub.broadcast
  hand : Option.Rel (Carried F) s.hand (coming c f.hub.running)
  client : Seen F (f.hub.serving c) (f.clients c) s.client
  joined : f.hub.serving c ≠ .upgraded → c ∈ f.hub.clients
  standing : c ∉ f.hub.running.failed

section Hub

variable {F} {names : ConnKey → Bool} {good : StatSnapshot → Bool} {c : Conn} {f : Fleet Conn}
  {s : System} {h : Hub Conn Frame} {o : List (Event Conn)} {now : Clock}

theorem receive_smooth : Smooth names good s .receive := nofun

theorem write_smooth : Smooth names good s (.write now) := nofun

theorem register_smooth {order : List ConnKey} : Smooth names good s (.register order) := nofun

def Fleet.after (F : FloatText) (now : Clock) (f : Fleet Conn) (h : Hub Conn Frame)
    (o : List (Event Conn)) : Fleet Conn :=
  { f with hub := h, clients := o.foldl (hear F now) f.clients }

theorem shows_still (shows : Shows F c f s) (move : CollectorHub.Move f.hub h o)
    (clients : (o.foldl (hear F now) f.clients) c = f.clients c)
    (queue : h.broadcast = f.hub.broadcast) (serving : h.serving c = f.hub.serving c)
    (same : coming c h.running = coming c f.hub.running)
    (joined : c ∈ f.hub.clients → c ∈ h.clients)
    (standing : c ∉ f.hub.running.failed → c ∉ h.running.failed) :
    Shows F c (f.after F now h o) s := by
  obtain ⟨out, sound⟩ := shows.sound
  refine ⟨shows.machine, shows.runOps, shows.resOps, ⟨_, CollectorHub.sound_step sound move⟩,
    ?_, ?_, ?_, ?_, standing shows.standing⟩
  · show List.Forall₂ _ _ h.broadcast
    rw [queue]
    exact shows.queue
  · show Option.Rel _ _ (coming c h.running)
    rw [same]
    exact shows.hand
  · show Seen F (h.serving c) ((o.foldl (hear F now) f.clients) c) s.client
    rw [serving, clients]
    exact shows.client
  · intro new
    exact joined (shows.joined (serving ▸ new))

def Staying (names : ConnKey → Bool) (good : StatSnapshot → Bool) (s : System) (l : Label) : Prop :=
  Smooth names good s l ∧ l ≠ .disconnect

instance (names : ConnKey → Bool) (good : StatSnapshot → Bool) (s : System) (l : Label) :
    Decidable (Staying names good s l) := inferInstanceAs (Decidable (_ ∧ _))

def Matched (F : FloatText) (names : ConnKey → Bool) (good : StatSnapshot → Bool) (c : Conn)
    (g : Fleet Conn) (o : List (Event Conn)) (s : System) : Prop :=
  ∃ ls t o', exec (restrict (Staying names good) step) s ls = some (t, o') ∧ Shows F c g t ∧
    List.Forall₂ (Carried F) (sent o') (CollectorHub.accepted o)

theorem matched_still {g : Fleet Conn} (quiet : CollectorHub.accepted o = [])
    (shows : Shows F c g s) : Matched F names good c g o s := by
  refine ⟨[], s, [], rfl, shows, ?_⟩
  rw [quiet]
  exact .nil

theorem matched_single {g : Fleet Conn} {l : Label} {t : System} {p : List Traffic}
    (smooth : Smooth names good s l) (stays : l ≠ .disconnect)
    (taken : step s l = some (t, p)) (shows : Shows F c g t)
    (told : List.Forall₂ (Carried F) (sent p) (CollectorHub.accepted o)) :
    Matched F names good c g o s :=
  ⟨[l], t, p, exec_single_iff.mpr (restrict_iff.mpr ⟨⟨smooth, stays⟩, taken⟩), shows, told⟩

omit [DecidableEq Conn] in
theorem accepted_fresh (fresh : ∀ data, .accepted data ∉ o) : CollectorHub.accepted o = [] := by
  refine List.filterMap_eq_nil_iff.mpr ?_
  intro e told
  cases e with
  | accepted data => exact absurd told (fresh data)
  | _ => rfl

/- Nobody holds the lock of ServeWs while Hub.Run writes. -/
theorem seen_unlocked {v : Serving Frame} {a b : Client} (seen : Seen F v a b)
    (there : v ≠ .upgraded) (unlocked : v.locked = false) :
    v = .reading ∧ b = a ∧ a.connected = true := by
  cases seen with
  | away v off => exact absurd rfl there
  | reading v on => exact ⟨rfl, rfl, on⟩
  | _ => cases unlocked

theorem seen_away {a b : Client} (seen : Seen F .upgraded a b) : b = a ∧ a.connected = false := by
  cases seen with
  | away v off => exact ⟨rfl, off⟩

theorem coming_nothing {q : Option OutboundMsg} (hand : Option.Rel (Carried F) q none) :
    q = none := by
  cases hand
  rfl

theorem coming_something {q : Option OutboundMsg} {data : Frame}
    (hand : Option.Rel (Carried F) q (some data)) : ∃ m, q = some m ∧ Carried F m data := by
  cases hand with
  | some carried => exact ⟨_, rfl, carried⟩

theorem receive_carried {m : OutboundMsg} {data : Frame} (carried : Carried F m data)
    (v : Client) : v.receive F now data = v.onmessage now m := by
  refine receive_message carried.made carried.carries ?_ now v
  rintro rfl
  cases carried.streamed

theorem onmessage_connected {v : Client} {m : OutboundMsg} (on : v.connected = true) :
    (v.onmessage now m).connected = true := by
  cases m with
  | remove key =>
    simp only [Client.onmessage, Client.onRemove]
    split <;> exact on
  | _ => exact on

theorem matched_receive {msg : Frame} {rest : List Frame} (shows : Shows F c f s)
    (move : CollectorHub.Move f.hub { f.hub with running := .locking msg, broadcast := rest } [])
    (idle : f.hub.running = .closing []) (next : f.hub.broadcast = msg :: rest) :
    Matched F names good c
      (f.after F now { f.hub with running := .locking msg, broadcast := rest } []) [] s := by
  obtain ⟨out, sound⟩ := shows.sound
  have queue := shows.queue
  rw [next] at queue
  obtain ⟨m, q, carried, later, waiting⟩ := List.forall₂_cons_right_iff.mp queue
  have hand := shows.hand
  rw [idle] at hand
  refine matched_single (l := .receive) receive_smooth nofun (p := [])
    (t := { s with hand := some m, queue := q }) ?_ ?_ .nil
  · simp only [step, coming_nothing hand, waiting]
  · exact ⟨shows.machine, shows.runOps, shows.resOps, ⟨_, CollectorHub.sound_step sound move⟩,
      later, .some carried, shows.client, shows.joined, List.not_mem_nil⟩

theorem matched_written {msg : Frame} {visited failed : List Conn} (shows : Shows F c f s)
    (move : CollectorHub.Move f.hub { f.hub with running := .ranging msg (c :: visited) failed }
      [.ended .run c msg true])
    (writing : f.hub.running = .writing msg c visited failed) :
    Matched F names good c
      (f.after F now { f.hub with running := .ranging msg (c :: visited) failed }
        [.ended .run c msg true]) [.ended .run c msg true] s := by
  obtain ⟨out, sound⟩ := shows.sound
  have visits := sound.registry.visits
  rw [writing] at visits
  obtain ⟨there, fresh, _⟩ := visits
  have hand := shows.hand
  rw [writing, coming, if_neg fresh] at hand
  obtain ⟨m, held, carried⟩ := coming_something hand
  have free : (f.hub.serving c).locked = false := by
    by_contra locked
    have mine := sound.exclusive.serve c (by simpa using locked)
    rw [sound.exclusive.run (by rw [writing]; rfl)] at mine
    cases mine
  obtain ⟨reading, same, on⟩ := seen_unlocked shows.client (sound.registry.joined c there) free
  refine matched_single (l := .write now) write_smooth nofun (p := [.written m])
    (t := { s with hand := none, client := s.client.onmessage now m }) ?_ ?_ .nil
  · simp only [step, held, same, on, if_true]
  · refine ⟨shows.machine, shows.runOps, shows.resOps, ⟨_, CollectorHub.sound_step sound move⟩,
      shows.queue, ?_, ?_, fun _ => there, ?_⟩
    · simp only [Fleet.after, coming, List.mem_cons_self, if_true]
      exact .none
    · simp only [Fleet.after, List.foldl_cons, List.foldl_nil, hear, Function.update_self, reading,
        receive_carried carried, same]
      exact .reading _ (onmessage_connected on)
    · have standing := shows.standing
      rw [writing] at standing
      exact standing

/- The loop ends. A connection that has not been written to is not in the map. -/
theorem matched_visited {msg : Frame} {seen failed : List Conn} (shows : Shows F c f s)
    (move : CollectorHub.Move f.hub { f.hub with running := .removing failed failed } [])
    (ranging : f.hub.running = .ranging msg seen failed) (all : ∀ d ∈ f.hub.clients, d ∈ seen) :
    Matched F names good c
      (f.after F now { f.hub with running := .removing failed failed } []) [] s := by
  obtain ⟨out, sound⟩ := shows.sound
  have hand := shows.hand
  have standing := shows.standing
  rw [ranging] at hand standing
  have later (t : System) (machine : t.machine = s.machine) (runOps : t.runOps = s.runOps)
      (resOps : t.resOps = s.resOps) (queue : t.queue = s.queue) (none : t.hand = none)
      (client : t.client = s.client) :
      Shows F c (f.after F now { f.hub with running := .removing failed failed } []) t := by
    refine ⟨machine.trans shows.machine, runOps.trans shows.runOps, resOps.trans shows.resOps,
      ⟨_, CollectorHub.sound_step sound move⟩, queue ▸ shows.queue, ?_, client ▸ shows.client,
      shows.joined, standing⟩
    rw [none]
    exact .none
  by_cases visited : c ∈ seen
  · rw [coming, if_pos visited] at hand
    exact matched_still rfl (later s rfl rfl rfl rfl (coming_nothing hand) rfl)
  · have absent : f.hub.serving c = .upgraded := by
      by_contra new
      exact visited (all c (shows.joined new))
    obtain ⟨same, off⟩ := seen_away (absent ▸ shows.client)
    rw [← same] at off
    rw [coming, if_neg visited] at hand
    obtain ⟨m, held, _⟩ := coming_something hand
    refine matched_single (l := .write now) write_smooth nofun (p := [.written m])
      (t := { s with hand := none }) ?_ (later _ rfl rfl rfl rfl rfl rfl) .nil
    simp only [step, held, off, Bool.false_eq_true, if_false]

theorem shows_serving {v : Serving Frame} {a b : Client} (shows : Shows F c f s)
    (move : CollectorHub.Move f.hub h o) (clients : (o.foldl (hear F now) f.clients) c = a)
    (running : h.running = f.hub.running) (queue : h.broadcast = f.hub.broadcast)
    (serving : h.serving = Function.update f.hub.serving c v) (seen : Seen F v a b)
    (joined : c ∈ h.clients) :
    Shows F c (f.after F now h o) { s with client := b } := by
  obtain ⟨out, sound⟩ := shows.sound
  refine ⟨shows.machine, shows.runOps, shows.resOps, ⟨_, CollectorHub.sound_step sound move⟩,
    ?_, ?_, ?_, fun _ => joined, ?_⟩
  · show List.Forall₂ _ _ h.broadcast
    rw [queue]
    exact shows.queue
  · show Option.Rel _ _ (coming c h.running)
    rw [running]
    exact shows.hand
  · show Seen F (h.serving c) ((o.foldl (hear F now) f.clients) c) b
    rw [serving, Function.update_self, clients]
    exact seen
  · show c ∉ h.running.failed
    rw [running]
    exact shows.standing

theorem seen_registered {data : Frame} {a b : Client}
    (seen : Seen F (.registered (some data)) a b) : Seen F (.writing data) a b := by
  cases seen with
  | greeting data h v made kept on => exact .writing data h _ made kept on

theorem seen_written {data : Frame} {a b : Client} (seen : Seen F (.writing data) a b)
    (now : Clock) :
    b = a.receive F now data ∧ b.connected = true := by
  cases seen with
  | writing data h v made kept on =>
    refine ⟨?_, on⟩
    refine (receive_message made nofun ?_ now a).symm
    simpa using kept

theorem seen_unlock {v : Serving Frame} {a b : Client} (seen : Seen F v a b)
    (done : v = .registered none ∨ v = .unlocking) : Seen F .reading a b := by
  rcases done with rfl | rfl
  · cases seen with
    | silent v on => exact .reading _ on
  · cases seen with
    | unlocking v on => exact .reading _ on

theorem seen_not_leaving {v : Serving Frame} {a b : Client} (seen : Seen F v a b) :
    v ≠ .locking ∧ v ≠ .removing ∧ v ≠ .closing := by
  cases seen <;> exact ⟨nofun, nofun, nofun⟩

/-- What a step of the hub does to a connection that is not being registered, whose writes
    succeed and whose reader goes on. -/
theorem matched_hub (shows : Shows F c f s) (move : CollectorHub.Move f.hub h o)
    (fresh : ∀ data, .accepted data ∉ o) (other : ∀ hist, .registered c hist ∉ o)
    (steady : ∀ w data, .ended w c data false ∉ o) (listens : h.serving c ≠ .locking) :
    Matched F names good c (f.after F now h o) o s := by
  have client := shows.client
  have standing := shows.standing
  have joined := shows.joined
  have leaving := seen_not_leaving client
  have quiet := accepted_fresh fresh
  cases id move with
  | dropped => exact matched_still quiet (shows_still shows move rfl rfl rfl rfl id id)
  | accept data => exact absurd List.mem_cons_self (fresh data)
  | receive msg rest idle next => exact matched_receive shows move idle next
  | lock msg waiting free =>
    refine matched_still quiet
      (shows_still shows move rfl rfl rfl ?_ id (fun _ => List.not_mem_nil))
    simp [coming, waiting]
  | write msg d visited failed ranging there fresh =>
    rw [ranging] at standing
    refine matched_still quiet (shows_still shows move rfl rfl rfl ?_ id (fun _ => standing))
    simp [coming, ranging]
  | written msg d visited failed ok writing =>
    by_cases mine : d = c
    · subst mine
      cases ok with
      | true => exact matched_written shows move writing
      | false => exact absurd List.mem_cons_self (steady .run msg)
    · have apart := Ne.symm mine
      rw [writing] at standing
      refine matched_still quiet (shows_still shows move ?_ rfl rfl ?_ id (fun _ => ?_))
      · cases ok with
        | true => exact Function.update_of_ne apart _ _
        | false => rfl
      · simp [coming, writing, apart]
      · cases ok with
        | true => exact standing
        | false => simpa [CollectorHub.Running.failed, apart] using standing
  | visited msg seen failed ranging all => exact matched_visited shows move ranging all
  | delete d rest failed removing =>
    rw [removing] at standing
    have apart : c ≠ d := fun same => standing (same ▸ List.mem_cons_self)
    refine matched_still quiet (shows_still shows move rfl rfl rfl ?_ ?_ ?_)
    · simp [coming, removing]
    · intro there
      simpa [apart] using there
    · exact fun _ inside => standing (List.mem_cons_of_mem d inside)
  | unlock failed removing =>
    refine matched_still quiet
      (shows_still shows move rfl rfl rfl ?_ id (fun _ => List.not_mem_nil))
    simp [coming, removing]
  | close d rest closing =>
    refine matched_still quiet
      (shows_still shows move rfl rfl rfl ?_ id (fun _ => List.not_mem_nil))
    simp [coming, closing]
  | register d hist new free =>
    have apart : c ≠ d := by
      rintro rfl
      exact other hist List.mem_cons_self
    refine matched_still quiet (shows_still shows move ?_ rfl ?_ rfl ?_ id)
    · exact Function.update_of_ne apart _ _
    · exact Function.update_of_ne apart _ _
    · exact fun there => List.mem_insert_of_mem there
  | writeHistory d data registered =>
    by_cases mine : d = c
    · subst mine
      rw [registered] at client
      exact matched_still quiet (shows_serving shows move rfl rfl rfl rfl (seen_registered client)
        (joined (by simp [registered])))
    · have apart := Ne.symm mine
      exact matched_still quiet
        (shows_still shows move rfl rfl (Function.update_of_ne apart _ _) rfl id id)
  | writtenHistory d data ok writing =>
    by_cases mine : d = c
    · subst mine
      cases ok with
      | true =>
        rw [writing] at client
        obtain ⟨same, on⟩ := seen_written client now
        refine matched_still quiet (shows_serving (b := s.client) shows move ?_ rfl rfl rfl
          (.unlocking _ on) (joined (by simp [writing])))
        simp [hear, same]
      | false => exact absurd List.mem_cons_self (steady .serve data)
    · have apart := Ne.symm mine
      refine matched_still quiet
        (shows_still shows move ?_ rfl (Function.update_of_ne apart _ _) rfl id id)
      cases ok with
      | true => exact Function.update_of_ne apart _ _
      | false => rfl
  | unlockServe d done =>
    by_cases mine : d = c
    · subst mine
      exact matched_still quiet (shows_serving shows move rfl rfl rfl rfl (seen_unlock client done)
        (joined (by rcases done with done | done <;> simp [done])))
    · have apart := Ne.symm mine
      exact matched_still quiet
        (shows_still shows move rfl rfl (Function.update_of_ne apart _ _) rfl id id)
  | readError d reading =>
    have apart : c ≠ d := by
      rintro rfl
      exact listens (Function.update_self ..)
    exact matched_still quiet
      (shows_still shows move rfl rfl (Function.update_of_ne apart _ _) rfl id id)
  | lockClose d locking free =>
    have apart : c ≠ d := by
      rintro rfl
      exact leaving.1 locking
    exact matched_still quiet
      (shows_still shows move rfl rfl (Function.update_of_ne apart _ _) rfl id id)
  | deleteClose d removing =>
    have apart : c ≠ d := by
      rintro rfl
      exact leaving.2.1 removing
    refine matched_still quiet
      (shows_still shows move rfl rfl (Function.update_of_ne apart _ _) rfl ?_ id)
    intro there
    simpa [apart] using there
  | closeConn d closing =>
    have apart : c ≠ d := by
      rintro rfl
      exact leaving.2.2 closing
    exact matched_still quiet
      (shows_still shows move rfl rfl (Function.update_of_ne apart _ _) rfl id id)

theorem matched_register {order : List ConnKey} {hist : Option Frame} (shows : Shows F c f s)
    (move : CollectorHub.Move f.hub h o) (visit : Enumerates order f.machine.proc.conns)
    (sent : hist = CollectorHub.historyMsg (marshal F) (some (getHistory order f.machine.proc)))
    (new : f.hub.serving c = .upgraded)
    (made : h = { f.hub with
      mu := some (.serve c)
      clients := f.hub.clients.insert c
      serving := Function.update f.hub.serving c (.registered hist) })
    (told : o = [.registered c hist]) : Matched F names good c (f.after F now h o) o s := by
  subst made told
  obtain ⟨same, off⟩ := seen_away (new ▸ shows.client)
  have away : s.client.connected = false := by
    rw [same]
    exact off
  have tracked : Enumerates order s.conns := by
    rw [System.conns, shows.machine]
    exact visit
  refine matched_single (l := .register order) (p := [])
    (t := { s with client := s.client.join (getHistory order s.machine.proc) }) register_smooth
    (by simp) ?_ ?_ .nil
  · simp only [step, away, tracked, and_self, if_true]
  · have known : getHistory order s.machine.proc = getHistory order f.machine.proc := by
      rw [shows.machine]
    rw [known]
    refine shows_serving (a := { f.clients c with connected := true }) shows move ?_ rfl rfl rfl ?_
      List.mem_insert_self
    · simp [hear]
    subst sent
    rw [same, Client.join]
    by_cases some : 0 < (getHistory order f.machine.proc).length
    · have encoded := marshal_isSome (F := F) (.history (getHistory order f.machine.proc))
      obtain ⟨data, made⟩ := Option.isSome_iff_exists.mp encoded
      rw [if_pos some, CollectorHub.historyMsg, if_pos some, made]
      exact .greeting data _ _ made (List.length_pos_iff.mp some) rfl
    · rw [if_neg some, CollectorHub.historyMsg, if_neg some]
      exact .silent _ rfl

end Hub

section Calls

variable {F} {names : ConnKey → Bool} {good : StatSnapshot → Bool} {c : Conn} {f g : Fleet Conn}
  {s : System} {o : List (Event Conn)}

theorem shows_collector (shows : Shows F c f s) (machine : Machine) (runOps : List RunOp)
    (resOps : List Emission) :
    Shows F c { f with machine := machine, runOps := runOps, resOps := resOps }
      { s with machine := machine, runOps := runOps, resOps := resOps } :=
  ⟨rfl, rfl, rfl, shows.sound, shows.queue, shows.hand, shows.client, shows.joined, shows.standing⟩

theorem shows_call {call : Emission} (shows : Shows F c f s)
    (clear : ∀ m ∈ call.broadcast, F.Carries m ∧ f.hub.broadcast.length < CollectorHub.bufferSize)
    (made : f.call F call = (g, o)) :
    ∃ t o', s.call call = (t, o') ∧ Shows F c g t ∧
      List.Forall₂ (Carried F) (sent o') (CollectorHub.accepted o) := by
  unfold Fleet.call at made
  unfold System.call
  cases message : call.broadcast with
  | none =>
    rw [message] at made
    cases made
    exact ⟨s, [], rfl, shows, .nil⟩
  | some m =>
    rw [message] at made clear
    obtain ⟨carries, room⟩ := clear m rfl
    have length := shows.queue.length_eq
    have encoded := marshal_isSome (F := F) m
    obtain ⟨out, sound⟩ := shows.sound
    simp only [Fleet.broadcast, CollectorHub.Hub.accept] at made
    simp only [System.broadcast]
    cases bytes : marshal F m with
    | none =>
      rw [bytes] at made encoded
      cases made
      have refused : encodes m = false := encoded.symm
      refine ⟨s, [], ?_, shows, .nil⟩
      simp [refused]
    | some data =>
      rw [bytes] at made encoded
      simp only [if_pos room] at made
      cases made
      have accepted : encodes m = true := encoded.symm
      have space : s.queue.length < broadcastBuffer := by
        rw [length]
        exact room
      have carried : Carried F m data := ⟨bytes, carries, broadcast_streamed message⟩
      refine ⟨{ s with queue := s.queue ++ [m] }, [.enqueued m], by simp [accepted, space], ?_,
        .cons carried .nil⟩
      exact ⟨shows.machine, shows.runOps, shows.resOps,
        ⟨_, CollectorHub.sound_step sound (.accept data)⟩,
        List.rel_append shows.queue (.cons carried .nil), shows.hand, shows.client, shows.joined,
        shows.standing⟩

theorem run_tells {a : RunAction Conn} {h k : Hub Conn Frame} (taken : h.run a = some (k, o)) :
    (∀ data, .accepted data ∉ o) ∧ (∀ d hist, .registered d hist ∉ o) ∧ k.serving = h.serving := by
  cases a <;> simp only [CollectorHub.Hub.run] at taken <;> grind

theorem serve_tells {d : Conn} {a : ServeAction} {h k : Hub Conn Frame}
    (other : ∀ hist, a ≠ .register hist) (taken : h.serve (marshal F) d a = some (k, o)) :
    (∀ data, .accepted data ∉ o) ∧ ∀ d hist, .registered d hist ∉ o := by
  cases a with
  | register hist => exact absurd rfl (other hist)
  | _ =>
    simp only [CollectorHub.Hub.serve] at taken
    grind

theorem update_listens {v : Conn → Serving Frame} {d : Conn} {w : Serving Frame}
    (other : w ≠ .locking) (listens : v c ≠ .locking) : Function.update v d w c ≠ .locking := by
  by_cases same : c = d
  · subst same
    rw [Function.update_self]
    exact other
  · rw [Function.update_of_ne same]
    exact listens

/- Only the end of its reader takes a connection to where it is closed. -/
theorem serve_listens {d : Conn} {a : ServeAction} {h k : Hub Conn Frame}
    (reads : d = c → a ≠ .readError) (taken : h.serve (marshal F) d a = some (k, o))
    (listens : h.serving c ≠ .locking) : k.serving c ≠ .locking := by
  cases a with
  | readError =>
    simp only [CollectorHub.Hub.serve] at taken
    split at taken
    · cases taken
      have apart : c ≠ d := fun same => reads same.symm rfl
      simp only [Function.update_of_ne apart]
      exact listens
    · cases taken
  | written ok =>
    simp only [CollectorHub.Hub.serve] at taken
    split at taken
    · obtain ⟨_, made⟩ := Option.ite_none_left_eq_some.mp taken
      cases made
      exact update_listens (by simp) listens
    · cases taken
  | _ =>
    simp only [CollectorHub.Hub.serve] at taken
    split at taken <;> cases taken <;> exact update_listens (by simp) listens

theorem room_of_clear {call : Emission} (shows : Shows F c f s)
    (clear : ∀ m ∈ call.broadcast, F.Carries m ∧ f.hub.broadcast.length < CollectorHub.bufferSize)
    (speaks : call.broadcast.isSome = true) : s.queue.length < broadcastBuffer := by
  obtain ⟨m, message⟩ := Option.isSome_iff_exists.mp speaks
  rw [shows.queue.length_eq]
  exact (clear m message).2

theorem matched_call {call : Emission} {l : Label} {r : Fleet Conn} {t : System}
    (shows : Shows F c r t)
    (clear : ∀ m ∈ call.broadcast, F.Carries m ∧ r.hub.broadcast.length < CollectorHub.bufferSize)
    (made : r.call F call = (g, o)) (smooth : Smooth names good s l) (stays : l ≠ .disconnect)
    (taken : ∀ u o', t.call call = (u, o') → step s l = some (u, o')) :
    Matched F names good c g o s := by
  obtain ⟨u, o', called, later, told⟩ := shows_call shows clear made
  exact matched_single smooth stays (taken u o' called) later told

theorem matched_runOp {op : RunOp} {rest : List RunOp} (shows : Shows F c f s)
    (next : f.runOps = op :: rest)
    (spoken : ∀ m ∈ op.message, F.Carries m ∧ f.hub.broadcast.length < CollectorHub.bufferSize)
    (taken : f.step F .runOp = some (g, o)) : Matched F names good c g o s := by
  have waiting := shows.runOps.trans next
  simp only [Fleet.step, next] at taken
  cases op with
  | send call =>
    have begun := shows_collector shows f.machine rest f.resOps
    refine matched_call (l := .runOp) begun spoken (Option.some.inj taken) ?_ (by simp) ?_
    · intro speaks
      rw [broadcasts, waiting] at speaks
      exact room_of_clear shows spoken speaks
    · intro u o' called
      simp only [step, waiting]
      rw [System.runNext, ← called, ← shows.machine, ← shows.resOps]
  | apply a now e =>
    cases taken
    refine matched_single (l := .runOp) (p := []) ?_ (by simp) ?_ (shows_collector shows
      { f.machine with proc := applyEvent a now e f.machine.proc } rest f.resOps) .nil
    · intro speaks
      rw [broadcasts, waiting] at speaks
      cases speaks
    · simp only [step, waiting]
      rw [System.runNext, ← shows.machine, ← shows.resOps]

theorem matched_resOp {call : Emission} {rest : List Emission} (shows : Shows F c f s)
    (next : f.resOps = call :: rest)
    (spoken : ∀ m ∈ call.broadcast, F.Carries m ∧ f.hub.broadcast.length < CollectorHub.bufferSize)
    (taken : f.step F .resOp = some (g, o)) : Matched F names good c g o s := by
  have waiting := shows.resOps.trans next
  simp only [Fleet.step, next] at taken
  have begun := shows_collector shows f.machine f.runOps rest
  refine matched_call (l := .resOp) begun spoken (Option.some.inj taken) ?_ (by simp) ?_
  · intro speaks
    rw [broadcasts, waiting] at speaks
    exact room_of_clear shows spoken speaks
  · intro u o' called
    simp only [step, waiting]
    rw [← called, ← shows.machine, ← shows.runOps]

theorem step_serve {d : Conn} {a : ServeAction} {now : Clock} (other : ∀ hist, a ≠ .register hist) :
    f.step F (.serve d a now) = f.hubStep F (.serve d a) now := by
  cases a with
  | register hist => exact absurd rfl (other hist)
  | _ => rfl

theorem matched_step {l : Act Conn} (shows : Shows F c f s) (clear : Clear F names good f l)
    (steady : ∀ w data, .ended w c data false ∉ o) (listens : ∀ now, l ≠ .serve c .readError now)
    (taken : f.step F l = some (g, o)) : Matched F names good c g o s := by
  obtain ⟨goodInput, spoken⟩ := clear
  cases l with
  | input i =>
    simp only [Fleet.step, Option.map_eq_some_iff, Prod.mk.injEq] at taken
    obtain ⟨t, accepted, rfl, rfl⟩ := taken
    have same := accept_collector shows.machine shows.runOps shows.resOps accepted
    refine matched_single (l := .input i) (p := []) (smooth_collector shows.machine goodInput)
      (by simp) ?_ (shows_collector shows t.machine t.runOps t.resOps) .nil
    simp only [step, same, Option.map_some]
  | runOp =>
    cases next : f.runOps with
    | nil => simp [Fleet.step, next] at taken
    | cons op rest =>
      refine matched_runOp shows next ?_ taken
      simpa [Fleet.speaks, broadcasts, Fleet.collector, next] using spoken
  | resOp =>
    cases next : f.resOps with
    | nil => simp [Fleet.step, next] at taken
    | cons call rest =>
      refine matched_resOp shows next ?_ taken
      simpa [Fleet.speaks, broadcasts, Fleet.collector, next] using spoken
  | run a now =>
    obtain ⟨⟨h, told⟩, moved, made⟩ := Option.map_eq_some_iff.mp taken
    cases made
    obtain ⟨fresh, other, same⟩ := run_tells moved
    refine matched_hub shows (CollectorHub.run_move moved) fresh (other c) steady ?_
    rw [same]
    exact (seen_not_leaving shows.client).1
  | register d order =>
    simp only [Fleet.step, Option.ite_none_right_eq_some] at taken
    obtain ⟨visit, taken⟩ := taken
    obtain ⟨⟨h, told⟩, moved, made⟩ := Option.map_eq_some_iff.mp taken
    cases made
    have move := CollectorHub.step_move moved
    simp only [CollectorHub.step, CollectorHub.Hub.serve] at moved
    split at moved
    · rename_i new free
      cases moved
      by_cases mine : d = c
      · subst mine
        exact matched_register shows move visit rfl new rfl rfl
      · refine matched_hub shows move (by simp) (by simp [Ne.symm mine]) (by simp) ?_
        exact update_listens (by simp) (seen_not_leaving shows.client).1
    · cases moved
  | serve d a now =>
    have other : ∀ hist, a ≠ .register hist := by
      rintro hist rfl
      cases taken
    rw [step_serve other] at taken
    obtain ⟨⟨h, told⟩, moved, made⟩ := Option.map_eq_some_iff.mp taken
    cases made
    have served : f.hub.serve (marshal F) d a = some (h, told) := moved
    obtain ⟨fresh, unregistered⟩ := serve_tells other served
    refine matched_hub shows (CollectorHub.serve_move served) fresh (unregistered c) steady ?_
    refine serve_listens ?_ served (seen_not_leaving shows.client).1
    rintro rfl rfl
    exact listens now rfl

theorem shows_start (storing : Bool) (clock : Time) :
    Shows F c (.start Conn storing clock) (.start storing clock) :=
  ⟨rfl, rfl, rfl, ⟨[], CollectorHub.sound_new⟩, .nil, .none, .away _ rfl, (absurd rfl ·),
    List.not_mem_nil⟩

def fails (c : Conn) : Event Conn → Bool
  | .ended _ d _ false => d = c
  | _ => false

def hangsUp (c : Conn) : Act Conn → Bool
  | .serve d .readError _ => d = c
  | _ => false

/-- No write to the connection fails in the run, and its reader does not end. -/
structure Steady (c : Conn) (ls : List (Act Conn)) (out : List (Event Conn)) : Prop where
  written : ∀ e ∈ out, fails c e = false
  listens : ∀ l ∈ ls, hangsUp c l = false

instance (c : Conn) (ls : List (Act Conn)) (out : List (Event Conn)) :
    Decidable (Steady c ls out) :=
  decidable_of_iff ((∀ e ∈ out, fails c e = false) ∧ ∀ l ∈ ls, hangsUp c l = false)
    ⟨fun both => ⟨both.1, both.2⟩, fun steady => ⟨steady.written, steady.listens⟩⟩

structure Alongside (F : FloatText) (c : Conn) (f : Fleet Conn) (out : List (Event Conn))
    (s : System) (out' : List Traffic) : Prop where
  shows : Shows F c f s
  told : List.Forall₂ (Carried F) (sent out') (CollectorHub.accepted out)

theorem alongside_run {storing : Bool} {clock : Time} {ls : List (Act Conn)}
    {out : List (Event Conn)}
    (run : exec (restrict (Clear F names good) (Fleet.step F)) (.start Conn storing clock) ls =
      some (f, out))
    (steady : Steady c ls out) :
    ∃ ls' s out', exec (restrict (Staying names good) step) (.start storing clock) ls' =
      some (s, out') ∧ Alongside F c f out s out' := by
  refine exec_simulates (P := fun l => hangsUp c l = false) (Q := fun e => fails c e = false)
    (R := Alongside F c) ?_ ⟨shows_start storing clock, .nil⟩ steady.listens steady.written run
  rintro f g l before o s before' ⟨shows, told⟩ listens written taken
  obtain ⟨clear, taken⟩ := restrict_iff.mp taken
  have arrives : ∀ w data, .ended w c data false ∉ o := by
    intro w data failed
    simpa [fails] using written _ failed
  have stays : ∀ now, l ≠ .serve c .readError now := by
    rintro now rfl
    simp [hangsUp] at listens
  obtain ⟨ls, t, o', ran, later, more⟩ := matched_step shows clear arrives stays taken
  refine ⟨ls, t, o', ran, later, ?_⟩
  rw [sent_append, CollectorHub.accepted_append]
  exact List.rel_append told more

/-- Every run of the collector with all its dashboards is, to a dashboard that stays connected,
    a run of the system with that dashboard alone, in which the same messages are sent. -/
theorem fleet_refines_system {storing : Bool} {clock : Time} {ls : List (Act Conn)}
    {out : List (Event Conn)}
    (run : exec (restrict (Clear F names good) (Fleet.step F)) (.start Conn storing clock) ls =
      some (f, out))
    (steady : Steady c ls out) :
    ∃ ls' s out', exec (restrict (Staying names good) step) (.start storing clock) ls' =
      some (s, out') ∧ Shows F c f s ∧
        List.Forall₂ (Carried F) (sent out') (CollectorHub.accepted out) := by
  obtain ⟨ls', s, out', ran, along⟩ := alongside_run run steady
  exact ⟨ls', s, out', ran, along.shows, along.told⟩

end Calls

def round (conns : List Nat) : List (Act Nat) :=
  [.run .receive ⟨7, 7, 7⟩, .run .lock ⟨7, 7, 7⟩] ++
    conns.flatMap (fun c => [.run (.write c) ⟨7, 7, 7⟩, .run (.written true) ⟨7, 7, 7⟩]) ++
    [.run .visited ⟨7, 7, 7⟩, .run .unlock ⟨7, 7, 7⟩]

/- Dashboard 1 is there from the start; dashboard 2 comes after the first tick, while its
   message is still in the channel. -/
def twoDashboards : List (Act Nat) :=
  [.register 1 [], .serve 1 .unlock ⟨7, 7, 7⟩,
    .input (.event ⟨"pay", "shop", true, true⟩ 1
      ⟨.connect, 40001, "", "10.0.0.1", "10.0.0.2", 80, 250, 0⟩), .runOp] ++ round [1] ++
    [.runOp, .input (.tick 2 [checkout]), .runOp, .register 2 [checkout],
      .serve 2 .write ⟨7, 7, 7⟩, .serve 2 (.written true) ⟨7, 7, 7⟩,
      .serve 2 .unlock ⟨7, 7, 7⟩] ++ round [2, 1]

theorem second_dashboard_refined :
    ∃ f out, exec (restrict (Clear wholeText arrowFree fun _ => true) (Fleet.step wholeText))
        (.start Nat false 0) twoDashboards = some (f, out) ∧ checkout ∈ f.machine.proc.conns ∧
      ∃ ls' s out', exec (restrict (Staying arrowFree fun _ => true) step) (.start false 0) ls' =
        some (s, out') ∧ Shows wholeText 2 f s ∧
          List.Forall₂ (Carried wholeText) (sent out') (CollectorHub.accepted out) := by
  obtain ⟨f, out, run, tracked, steady⟩ : ∃ f out,
      exec (restrict (Clear wholeText arrowFree fun _ => true) (Fleet.step wholeText))
        (.start Nat false 0) twoDashboards = some (f, out) ∧ checkout ∈ f.machine.proc.conns ∧
        Steady 2 twoDashboards out :=
    ⟨_, _, rfl, by decide, by decide⟩
  exact ⟨f, out, run, tracked, fleet_refines_system run steady⟩

end Dashboard
