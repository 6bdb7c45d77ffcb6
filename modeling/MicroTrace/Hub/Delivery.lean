import MicroTrace.Hub.Writes

/- What each client of the hub receives: a block of the messages accepted into the broadcast
   channel, without gaps, that begins with the message Hub.Run next takes the lock for and
   ends only where the client fails or is closed. -/
namespace CollectorHub
open CollectorModel Runs

variable {Conn Data : Type}

def Running.hand : Running Conn Data → List Data
  | .locking msg => [msg]
  | .ranging msg _ _ => [msg]
  | .writing msg _ _ _ => [msg]
  | _ => []

/-- Every accepted message is done with, in the hand of Hub.Run or in the channel. -/
def Flows (out : List (Traffic Conn Data)) (s : Hub Conn Data) : Prop :=
  ∃ done, accepted out = done ++ (s.running.hand ++ s.broadcast)

variable [DecidableEq Conn]

theorem flows_step {s t : Hub Conn Data} {out o : List (Traffic Conn Data)} (held : Flows out s)
    (move : Move s t o) : Flows (out ++ o) t := by
  obtain ⟨done, all⟩ := held
  rw [Flows, accepted_append, all]
  cases move with
  | receive msg rest idle next =>
    exact ⟨done, by simp [idle, next, Running.hand]⟩
  | lock msg waiting free => exact ⟨done, by simp [waiting, Running.hand]⟩
  | write msg c visited failed ranging there fresh =>
    exact ⟨done, by simp [Traffic.accepted?, ranging, Running.hand]⟩
  | written msg c visited failed ok writing =>
    exact ⟨done, by simp [Traffic.accepted?, writing, Running.hand]⟩
  | visited msg seen failed ranging all =>
    exact ⟨done ++ [msg], by simp [ranging, Running.hand]⟩
  | delete c rest failed removing =>
    exact ⟨done, by simp [Traffic.accepted?, removing, Running.hand]⟩
  | unlock failed removing => exact ⟨done, by simp [removing, Running.hand]⟩
  | close c rest closing =>
    exact ⟨done, by simp [Traffic.accepted?, closing, Running.hand]⟩
  | _ => exact ⟨done, by simp [Traffic.accepted?]⟩

def Running.ahead (c : Conn) : Running Conn Data → List Data
  | .locking msg => [msg]
  | .ranging msg visited _ => if c ∈ visited then [] else [msg]
  | .writing msg _ visited _ => if c ∈ visited then [] else [msg]
  | _ => []

/-- What Hub.Run still has to write to a client: the message in its hand, unless the loop has
    been past the client, and the channel. -/
def Hub.pending (s : Hub Conn Data) (c : Conn) : List Data := s.running.ahead c ++ s.broadcast

def Hub.alive (s : Hub Conn Data) (c : Conn) : Prop := c ∈ s.clients ∧ c ∉ s.running.failed

/-- What a client has received stands behind the messages of `before`, which were all
    accepted when it was registered. -/
structure Block (c : Conn) (out : List (Traffic Conn Data)) (s : Hub Conn Data)
    (before : List Data) : Prop where
  begins : ∀ pre h post, out = pre ++ .registered c h :: post →
    before.length ≤ (accepted pre).length
  contiguous : before ++ received c out <+: accepted out
  complete : s.alive c → accepted out = before ++ received c out ++ s.pending c

theorem split_earlier {A : Type} {out o pre post : List A} {e : A} (later : e ∉ o)
    (split : out ++ o = pre ++ e :: post) : ∃ mid, out = pre ++ e :: mid := by
  rcases List.append_eq_append_iff.mp split with ⟨mid, _, rest⟩ | ⟨mid, rfl, rest⟩
  · exact absurd (by simp [rest]) later
  · cases mid with
    | nil => exact absurd (by simp [← (List.nil_append o ▸ rest)]) later
    | cons d mid =>
      obtain ⟨rfl, _⟩ := List.cons.inj rest
      exact ⟨mid, rfl⟩

theorem block_move {c : Conn} {out o : List (Traffic Conn Data)} {s t : Hub Conn Data}
    {before : List Data} (held : Block c out s before) (known : ∀ h, .registered c h ∉ o)
    (living : t.alive c → s.alive c) (live : received c o ≠ [] → s.alive c)
    (moved : s.alive c → t.alive c ∨ received c o ≠ [] →
      s.pending c ++ accepted o = received c o ++ t.pending c) : Block c (out ++ o) t before := by
  refine ⟨?_, ?_, ?_⟩
  · intro pre h post split
    obtain ⟨mid, rfl⟩ := split_earlier (known h) split
    exact held.begins pre h mid rfl
  · rw [accepted_append, received_append]
    by_cases none : received c o = []
    · rw [none, List.append_nil]
      exact held.contiguous.trans (List.prefix_append _ _)
    · have alive := live none
      refine ⟨t.pending c, ?_⟩
      rw [held.complete alive, List.append_assoc _ (s.pending c),
        moved alive (.inr none)]
      simp
  · intro alive
    have old := living alive
    rw [accepted_append, received_append, held.complete old, List.append_assoc _ (s.pending c),
      moved old (.inl alive)]
    simp

theorem nothing_received {c : Conn} {out : List (Traffic Conn Data)} {s : Hub Conn Data}
    (registry : Registry out s) (new : s.serving c = .upgraded) : received c out = [] := by
  refine List.filterMap_eq_nil_iff.mpr ?_
  intro e told
  have other := registry.unknown c new e told
  unfold Traffic.received?
  split
  · rename_i d data
    rw [if_neg]
    rintro rfl
    exact other rfl
  · rfl

/- A registration finds the lock free, so Hub.Run still has to write its message to the new
   client. -/
theorem block_register {c : Conn} {history : Option Data} {out : List (Traffic Conn Data)}
    {s : Hub Conn Data} (exclusive : Exclusive s) (registry : Registry out s)
    (flows : Flows out s) (new : s.serving c = .upgraded) (free : s.mu = none) :
    ∃ before, Block c (out ++ [.registered c history]) { s with
      mu := some (.serve c)
      clients := s.clients.insert c
      serving := Function.update s.serving c (.registered history) } before := by
  obtain ⟨done, all⟩ := flows
  have unlocked : s.running.locked = false := by
    by_contra locked
    have owner := exclusive.run (by simpa using locked)
    rw [free] at owner
    cases owner
  have nothing : received c (out ++ [.registered c history]) = [] := by
    rw [received_append, nothing_received registry new]
    rfl
  refine ⟨done, ?_, ?_, ?_⟩
  · intro pre h post split
    have counted : done.length ≤ (accepted out).length := by simp [all]
    rcases List.append_eq_append_iff.mp split with ⟨mid, rfl, _⟩ | ⟨mid, rfl, rest⟩
    · rw [accepted_append, List.length_append]
      omega
    · cases mid with
      | nil => simpa using counted
      | cons e mid =>
        obtain ⟨rfl, _⟩ := List.cons.inj rest
        exact absurd rfl (registry.unknown c new (.registered c h) (by simp))
  · rw [nothing, List.append_nil, accepted_append, all, List.append_assoc]
    exact List.prefix_append _ _
  · intro _
    rw [nothing, accepted_append, all]
    cases running : s.running <;>
      simp_all [Traffic.accepted?, Hub.pending, Running.ahead, Running.hand, Running.locked]

theorem block_written {c d : Conn} {msg : Data} {visited failed : List Conn} {ok : Bool}
    {out : List (Traffic Conn Data)} {s : Hub Conn Data} {before : List Data}
    (registry : Registry out s) (held : Block c out s before)
    (writing : s.running = .writing msg d visited failed) :
    Block c (out ++ [.ended .run d msg ok]) { s with
      running := .ranging msg (d :: visited) (if ok then failed else failed ++ [d]) } before := by
  have visits := registry.visits
  rw [writing] at visits
  obtain ⟨there, fresh, apart⟩ := visits
  by_cases same : d = c
  · subst same
    have alive : s.alive d := by
      refine ⟨there, ?_⟩
      rw [writing]
      exact fun failed => fresh (apart failed)
    refine block_move held (by simp) (fun _ => alive) (fun _ => alive) ?_
    intro _ still
    cases ok with
    | true =>
      simp [Hub.pending, Running.ahead, Traffic.accepted?, Traffic.received?, writing, fresh]
    | false => simp [Hub.alive, Running.failed, Traffic.received?] at still
  · have unheard : received c [Traffic.ended .run d msg ok] = [] := by
      cases ok <;> simp [Traffic.received?, same]
    refine block_move held (by simp) ?_ (fun told => absurd unheard told) ?_
    · intro alive
      refine ⟨alive.1, ?_⟩
      have out := alive.2
      cases ok <;> simp_all [Running.failed]
    · intro _ _
      rw [unheard]
      simp [Hub.pending, Running.ahead, Traffic.accepted?, writing, Ne.symm same]

theorem block_step {c : Conn} {out o : List (Traffic Conn Data)} {s t : Hub Conn Data}
    (exclusive : Exclusive s) (registry : Registry out s) (flows : Flows out s)
    (held : ∃ before, Block c out s before) (move : Move s t o) :
    ∃ before, Block c (out ++ o) t before := by
  obtain ⟨before, held⟩ := held
  cases move with
  | register d history new free =>
    by_cases same : d = c
    · subst same
      exact block_register exclusive registry flows new free
    · refine ⟨before, block_move held ?_ ?_ ?_ ?_⟩
      · simp [Ne.symm same]
      · intro alive
        exact ⟨(List.mem_insert_iff.mp alive.1).resolve_left (Ne.symm same), alive.2⟩
      · simp [Traffic.received?]
      · simp [Hub.pending, Traffic.accepted?, Traffic.received?]
  | accept data =>
    refine ⟨before, block_move held (by simp) id ?_ ?_⟩
    · simp [Traffic.received?]
    · simp [Hub.pending, Traffic.accepted?, Traffic.received?]
  | receive msg rest idle next =>
    refine ⟨before, block_move held (by simp) ?_ ?_ ?_⟩
    · intro alive
      exact ⟨alive.1, by simp [idle, Running.failed]⟩
    · simp
    · simp [Hub.pending, Running.ahead, idle, next]
  | lock msg waiting free =>
    refine ⟨before, block_move held (by simp) ?_ ?_ ?_⟩
    · intro alive
      exact ⟨alive.1, by simp [waiting, Running.failed]⟩
    · simp
    · simp [Hub.pending, Running.ahead, waiting]
  | write msg d visited failed ranging there fresh =>
    refine ⟨before, block_move held (by simp) ?_ ?_ ?_⟩
    · intro alive
      exact ⟨alive.1, by simpa [ranging, Running.failed] using alive.2⟩
    · simp [Traffic.received?]
    · simp [Hub.pending, Running.ahead, Traffic.accepted?, Traffic.received?, ranging]
  | written msg d visited failed ok writing =>
    exact ⟨before, block_written registry held writing⟩
  | visited msg seen failed ranging all =>
    refine ⟨before, block_move held (by simp) ?_ ?_ ?_⟩
    · intro alive
      exact ⟨alive.1, by simpa [ranging, Running.failed] using alive.2⟩
    · simp
    · intro alive _
      simp [Hub.pending, Running.ahead, ranging, all c alive.1]
  | delete d rest failed removing =>
    refine ⟨before, block_move held (by simp) ?_ ?_ ?_⟩
    · intro alive
      have kept : c ∈ s.clients ∧ c ≠ d := by simpa using alive.1
      exact ⟨kept.1, by simpa [removing, Running.failed, kept.2] using alive.2⟩
    · simp [Traffic.received?]
    · simp [Hub.pending, Running.ahead, Traffic.accepted?, Traffic.received?, removing]
  | unlock failed removing =>
    refine ⟨before, block_move held (by simp) ?_ ?_ ?_⟩
    · intro alive
      exact ⟨alive.1, by simp [removing, Running.failed]⟩
    · simp
    · simp [Hub.pending, Running.ahead, removing]
  | close d rest closing =>
    refine ⟨before, block_move held (by simp) ?_ ?_ ?_⟩
    · intro alive
      exact ⟨alive.1, by simp [closing, Running.failed]⟩
    · simp [Traffic.received?]
    · simp [Hub.pending, Running.ahead, Traffic.accepted?, Traffic.received?, closing]
  | deleteClose d removing =>
    refine ⟨before, block_move held (by simp) ?_ ?_ ?_⟩
    · intro alive
      exact ⟨List.mem_of_mem_filter alive.1, alive.2⟩
    · simp [Traffic.received?]
    · simp [Hub.pending, Traffic.accepted?, Traffic.received?]
  | _ =>
    refine ⟨before, block_move held (by simp) id ?_ ?_⟩
    · simp [Traffic.received?]
    · simp [Hub.pending, Traffic.accepted?, Traffic.received?]

structure Sound (out : List (Traffic Conn Data)) (s : Hub Conn Data) : Prop where
  exclusive : Exclusive s
  registry : Registry out s
  flows : Flows out s
  writes : ∀ c, Writes c out s
  block : ∀ c, ∃ before, Block c out s before

theorem sound_new : Sound [] (Hub.new : Hub Conn Data) where
  exclusive := ⟨by simp [Hub.new, Running.locked], by simp [Hub.new, Serving.locked],
    by simp [Hub.new]⟩
  registry := ⟨by simp, by simp [Hub.new], by simp, by simp, by simp [Hub.new, Running.failed],
    trivial⟩
  flows := ⟨[], rfl⟩
  writes _ := ⟨List.isChain_nil, by simp [writesTo], .nil, .nil, by simp, by simp⟩
  block _ := ⟨[], by simp, List.nil_prefix, by simp [Hub.alive, Hub.new]⟩

theorem sound_step {s t : Hub Conn Data} {out o : List (Traffic Conn Data)} (held : Sound out s)
    (move : Move s t o) : Sound (out ++ o) t where
  exclusive := exclusive_step held.exclusive move
  registry := registry_step held.exclusive held.registry move
  flows := flows_step held.flows move
  writes c := writes_step held.exclusive held.registry (held.writes c) move
  block c := block_step held.exclusive held.registry held.flows (held.block c) move

variable {marshal : OutboundMsg → Option Data}

theorem sound_run {labels : List (Label Conn)} {s : Hub Conn Data}
    {out : List (Traffic Conn Data)} (run : exec (step marshal) Hub.new labels = some (s, out)) :
    Sound out s :=
  exec_history (I := fun _ s out => Sound out s) sound_new
    (fun _ held taken => sound_step held (step_move taken)) run

/-- What the hub promises. Client `c` receives from Hub.Run the accepted messages from number
    `start c` on; while it is neither removed nor fails, what it has not received is pending. -/
structure InOrder (out : List (Traffic Conn Data)) (s : Hub Conn Data) (start : Conn → Nat) :
    Prop where
  apart : ∀ c, Apart c out
  silent : ∀ c, out.Pairwise fun x y => x = .unregistered c → y.write? ≠ some (.run, c)
  history_first : ∀ c, out.Pairwise fun x y =>
    x.write? = some (.run, c) → y.write? ≠ some (.serve, c)
  history_written : ∀ c data msg, .registered c (some data) ∈ out → .began .run c msg ∈ out →
    ∃ ok, .ended .serve c data ok ∈ out
  begins : ∀ c pre h post, out = pre ++ .registered c h :: post →
    start c ≤ (accepted pre).length
  contiguous : ∀ c, received c out <+: (accepted out).drop (start c)
  ends : ∀ c h, .registered c h ∈ out → .unregistered c ∉ out →
    (∀ msg, .ended .run c msg false ∉ out) →
      (accepted out).drop (start c) = received c out ++ s.pending c
  same_order : ∀ c d i j, i < (received c out).length → j < (received d out).length →
    start c + i = start d + j → (received c out)[i]? = (received d out)[j]?

theorem received_at {c : Conn} {out : List (Traffic Conn Data)} {start i : Nat}
    (contiguous : received c out <+: (accepted out).drop start)
    (there : i < (received c out).length) :
    (received c out)[i]? = (accepted out)[start + i]? := by
  rw [← List.getElem?_drop, List.prefix_iff_getElem?.mp contiguous i there,
    List.getElem?_eq_getElem there]

/-- Every interleaving of broadcasts, rounds of Hub.Run with any failures of its writes,
    registrations and closes. -/
theorem hub_delivers_in_order {labels : List (Label Conn)} {s : Hub Conn Data}
    {out : List (Traffic Conn Data)} (run : exec (step marshal) Hub.new labels = some (s, out)) :
    ∃ start, InOrder out s start := by
  have sound := sound_run run
  choose before block using sound.block
  have contiguous (c : Conn) : received c out <+: (accepted out).drop (before c).length := by
    obtain ⟨rest, all⟩ := (block c).contiguous
    rw [← all, List.append_assoc, List.drop_left]
    exact List.prefix_append _ _
  refine ⟨fun c => (before c).length, ?_⟩
  constructor
  · intro c
    exact (sound.writes c).apart
  · intro c
    exact (sound.writes c).silent
  · intro c
    exact (sound.writes c).history_first
  · intro c data msg registered began
    have past := (sound.writes c).after_history _ began rfl
    rcases (sound.writes c).history data registered with waiting | writing | ended
    · simp [waiting, Serving.locked] at past
    · simp [writing, Serving.locked] at past
    · exact ended
  · intro c
    exact (block c).begins
  · exact contiguous
  · intro c h registered there working
    have alive : s.alive c := by
      refine ⟨sound.registry.present c h registered there, ?_⟩
      intro failed
      obtain ⟨msg, ended⟩ := sound.registry.failed c failed
      exact working msg ended
    rw [(block c).complete alive, List.append_assoc, List.drop_left]
  · intro c d i j hereC hereD same
    rw [received_at (contiguous c) hereC, received_at (contiguous d) hereD, same]

def removalText (key : String) : String :=
  "\x7b\"msg_type\":\"remove\",\"remove_key\":\"" ++ key ++ "\"\x7d"

def exampleText : OutboundMsg → Option String
  | .remove key => some (removalText key)
  | .history [⟨key, []⟩] =>
      some ("\x7b\"msg_type\":\"history\",\"history\":[\x7b\"key\":\"" ++ key ++
        "\",\"points\":[]\x7d]\x7d")
  | _ => none

/- Client 2 registers while Hub.Run waits for the lock with a message that was accepted before;
   the next write to client 1 fails. -/
def twoClients : List (Label Nat) :=
  [.serve 1 (.register none), .serve 1 .unlock, .broadcast (.remove "a"), .run .receive,
    .serve 2 (.register (some [⟨"b", []⟩])), .serve 2 .write, .serve 2 (.written true),
    .serve 2 .unlock, .run .lock, .run (.write 2), .broadcast (.remove "b"), .run (.written true),
    .run (.write 1), .run (.written true), .run .visited, .run .unlock, .run .receive, .run .lock,
    .run (.write 1), .run (.written false), .run (.write 2), .run (.written true), .run .visited,
    .run .delete, .serve 1 .readError, .run .unlock, .run .close, .serve 1 .lock,
    .serve 1 .delete, .serve 1 .close]

theorem two_clients_in_order :
    ∃ s out start, exec (step exampleText) Hub.new twoClients = some (s, out) ∧
      InOrder out s start ∧ accepted out = [removalText "a", removalText "b"] ∧
      received 1 out = [removalText "a"] ∧ received 2 out = [removalText "a", removalText "b"] := by
  obtain ⟨s, out, run, all, first, second⟩ : ∃ s out,
      exec (step exampleText) Hub.new twoClients = some (s, out) ∧
        accepted out = [removalText "a", removalText "b"] ∧ received 1 out = [removalText "a"] ∧
        received 2 out = [removalText "a", removalText "b"] :=
    ⟨_, _, rfl, rfl, rfl, rfl⟩
  obtain ⟨start, ordered⟩ := hub_delivers_in_order run
  exact ⟨s, out, start, run, ordered, all, first, second⟩

end CollectorHub
