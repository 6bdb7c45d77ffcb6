import MicroTrace.Collector.SpikeBaseline
import MicroTrace.Resolver.Docker

/- handleEvent of stats.go against a cache that changes while it runs. The handler asks the
   resolver four times (name of the destination, name of the source, type of the source,
   type of the destination), each time under a read lock of its own, so the watcher may
   change the cache between any two of them. The broadcast between the second and the third
   read touches neither the cache nor the connections and is emitted with the event. -/
namespace CollectorResolver
open CollectorModel RangeLoops Runs
open CollectorStats (Machine Input Answers Emission ConnStats ConnKey nodeType detectCause eventConn
  applyEvent bridgeSample)

/-- An answer and the state of the cache it was read from. -/
structure Lookup (A : Type) where
  value : A
  cache : Cache

def lookupName (cache : Cache) (ip : String) : Lookup String := ⟨cache.resolve ip, cache⟩
def lookupType (cache : Cache) (ip : String) : Lookup Bool := ⟨cache.isInternal ip, cache⟩

inductive Handling where
  | idle
  | received (now : Time) (e : Event)
  | dstResolved (now : Time) (e : Event) (dst : Lookup String)
  | srcResolved (now : Time) (e : Event) (dst src : Lookup String)
  | srcTyped (now : Time) (e : Event) (dst src : Lookup String) (srcType : Lookup Bool)

structure System where
  docker : World
  machine : Machine
  handling : Handling

/- The loop that handles events also ticks and sweeps; ForwardResource has a goroutine of
   its own and waits only for the lock that handleEvent takes before it types the source. -/
inductive Label where
  | docker (a : Action)
  | input (i : Input)
  | receive (now : Time) (e : Event)
  | resolveDst
  | resolveSrc
  | typeSrc
  | typeDst

def Input.mayRun (i : Input) (h : Handling) : Bool :=
  match i, h with
  | .event _ _ _, _ => false
  | .resource _, .srcTyped _ _ _ _ _ => false
  | .resource _, _ => true
  | _, .idle => true
  | _, _ => false

def System.forward (s : System) (i : Input) (handling : Handling) :
    Option (System × List Emission) :=
  (CollectorStats.step s.machine i).map fun next =>
    ({ s with machine := next.1, handling := handling }, next.2)

def systemStep : Stepper System Label Emission
  | s, .docker a => (step s.docker a).map fun next => ({ s with docker := next.1 }, [])
  | s, .input i => if Input.mayRun i s.handling then s.forward i s.handling else none
  | s, .receive now e =>
      match s.handling with
      | .idle => some ({ s with handling := .received now e }, [])
      | _ => none
  | s, .resolveDst =>
      match s.handling with
      | .received now e =>
          some ({ s with handling := .dstResolved now e (lookupName s.docker.cache e.dAddr) }, [])
      | _ => none
  | s, .resolveSrc =>
      match s.handling with
      | .dstResolved now e dst =>
          some ({ s with
            handling := .srcResolved now e dst (lookupName s.docker.cache e.sAddr) }, [])
      | _ => none
  | s, .typeSrc =>
      match s.handling with
      | .srcResolved now e dst src =>
          some ({ s with
            handling := .srcTyped now e dst src (lookupType s.docker.cache e.sAddr) }, [])
      | _ => none
  | s, .typeDst =>
      match s.handling with
      | .srcTyped now e dst src srcType =>
          s.forward (.event ⟨dst.value, src.value, srcType.value, s.docker.cache.isInternal e.dAddr⟩
            now e) .idle
      | _ => none

def System.start (w : World) (storing : Bool) (clock : Time) : System :=
  ⟨w, Machine.start storing clock, .idle⟩

def Handling.Sound : Handling → Prop
  | .dstResolved _ e dst => dst = lookupName dst.cache e.dAddr
  | .srcResolved _ e dst src =>
      dst = lookupName dst.cache e.dAddr ∧ src = lookupName src.cache e.sAddr
  | .srcTyped _ e dst src srcType =>
      dst = lookupName dst.cache e.dAddr ∧ src = lookupName src.cache e.sAddr ∧
        srcType = lookupType srcType.cache e.sAddr
  | _ => True

theorem sound_step {s s' : System} {l : Label} {out : List Emission} (sound : s.handling.Sound)
    (taken : systemStep s l = some (s', out)) : s'.handling.Sound := by
  cases l with
  | docker a =>
    obtain ⟨next, _, made⟩ := Option.map_eq_some_iff.mp taken
    cases made
    exact sound
  | input i =>
    simp only [systemStep] at taken
    split at taken
    · obtain ⟨next, _, made⟩ := Option.map_eq_some_iff.mp taken
      cases made
      exact sound
    · cases taken
  | receive now e =>
    simp only [systemStep] at taken
    split at taken
    · cases taken
      trivial
    · cases taken
  | resolveDst =>
    simp only [systemStep] at taken
    split at taken
    · cases taken
      rfl
    · cases taken
  | resolveSrc =>
    simp only [systemStep] at taken
    split at taken
    · rename_i now e dst held
      cases taken
      rw [held] at sound
      exact ⟨sound, rfl⟩
    · cases taken
  | typeSrc =>
    simp only [systemStep] at taken
    split at taken
    · rename_i now e dst src held
      cases taken
      rw [held] at sound
      exact ⟨sound.1, sound.2, rfl⟩
    · cases taken
  | typeDst =>
    simp only [systemStep] at taken
    split at taken
    · obtain ⟨next, _, made⟩ := Option.map_eq_some_iff.mp taken
      cases made
      trivial
    · cases taken

theorem sound_run {w : World} {storing : Bool} {clock : Time} {ls : List Label} {s : System}
    {out : List Emission}
    (run : exec systemStep (System.start w storing clock) ls = some (s, out)) :
    s.handling.Sound :=
  exec_keeps (I := fun s => s.handling.Sound) sound_step trivial run

/-- The name and the type recorded for an address are those of one state of the cache among
    those the handler passed: a name taken from the cache is typed internal, and an internal
    endpoint has a name taken from the cache. -/
structure EndpointAgrees (ip : String) (name : Lookup String) (type : NodeType)
    (passed : List Cache) : Prop where
  named_internal : name.cache.lookup ip = some name.value → type = .internal
  internal_named : type = .internal → name.cache.lookup ip = some name.value
  one_state : ∃ c ∈ passed, c.resolve ip = name.value ∧ nodeType (c.isInternal ip) = type

structure EventAgrees (e : Event) (dst src : Lookup String) (cs : ConnStats)
    (passed : List Cache) : Prop where
  source : EndpointAgrees e.sAddr src cs.srcType passed
  destination : EndpointAgrees e.dAddr dst cs.dstType passed
  blame : dst.cache.lookup e.dAddr = some dst.value →
    ∀ res, (detectCause cs.dstType res).1 ≠ .external

theorem nodeType_internal_iff (internal : Bool) :
    nodeType internal = .internal ↔ internal = true := by
  cases internal <;> simp [nodeType]

theorem lookup_of_isInternal {cache : Cache} {ip : String} (known : cache.isInternal ip = true) :
    cache.lookup ip = some (cache.resolve ip) := by
  obtain ⟨name, found⟩ := Option.isSome_iff_exists.mp known
  simp only [Cache.resolve, found]

theorem isInternal_of_lookup {cache : Cache} {ip name : String}
    (found : cache.lookup ip = some name) : cache.isInternal ip = true := by
  simp [Cache.isInternal, found]

theorem endpoint_agrees_iff (ip : String) {named : Cache} (typed : Cache) {passed : List Cache}
    (among : named ∈ passed) :
    EndpointAgrees ip (lookupName named ip) (nodeType (typed.isInternal ip)) passed ↔
      named.isInternal ip = typed.isInternal ip := by
  constructor
  · intro agrees
    cases known : named.isInternal ip with
    | true =>
      have internal := agrees.named_internal (lookup_of_isInternal known)
      exact ((nodeType_internal_iff _).mp internal).symm
    | false =>
      cases later : typed.isInternal ip with
      | false => rfl
      | true =>
        have found := agrees.internal_named ((nodeType_internal_iff _).mpr later)
        rw [lookupName] at found
        rw [isInternal_of_lookup found] at known
        cases known
  · intro same
    constructor
    · intro found
      rw [nodeType_internal_iff, ← same]
      exact isInternal_of_lookup found
    · intro internal
      rw [nodeType_internal_iff, ← same] at internal
      exact lookup_of_isInternal internal
    · exact ⟨named, among, rfl, by rw [same]⟩

theorem event_conn_types (a : Answers) (now : Time) (e : Event) (p : CollectorStats.Processor) :
    (eventConn a now e p).srcType = nodeType a.srcInternal ∧
      (eventConn a now e p).dstType = nodeType a.dstInternal := by
  unfold eventConn
  split
  · simp only [ConnStats.sample, ConnStats.updateStableP99]
    split
    · exact ⟨rfl, rfl⟩
    · split <;> exact ⟨rfl, rfl⟩
  · split <;> exact ⟨rfl, rfl⟩

theorem detectCause_internal (res : Option ResourceSnapshot) :
    (detectCause .internal res).1 ≠ .external := by
  unfold detectCause
  cases res with
  | none => simp
  | some res =>
    simp only [reduceCtorEq, ↓reduceIte]
    split
    · simp
    · split
      · simp
      · split
        · simp
        · split <;> simp

/-- In every interleaving of cache updates with the four reads of an event: its endpoints are
    recorded consistently exactly when each address is in the cache at both of its reads or
    at neither. -/
theorem endpoints_agree_iff {w : World} {storing : Bool} {clock now : Time} {ls : List Label}
    {s s' : System} {out calls : List Emission} {e : Event} {dst src : Lookup String}
    {srcType : Lookup Bool}
    (run : exec systemStep (System.start w storing clock) ls = some (s, out))
    (reading : s.handling = .srcTyped now e dst src srcType)
    (taken : systemStep s .typeDst = some (s', calls)) :
    ∃ cs, s'.machine.proc.conns.lookup ⟨src.value, dst.value⟩ = some cs ∧
      (EventAgrees e dst src cs [dst.cache, src.cache, srcType.cache, s.docker.cache] ↔
        src.cache.isInternal e.sAddr = srcType.cache.isInternal e.sAddr ∧
          dst.cache.isInternal e.dAddr = s.docker.cache.isInternal e.dAddr) := by
  have sound := sound_run run
  rw [reading] at sound
  obtain ⟨dstRead, srcRead, typeRead⟩ := sound
  have typeValue : srcType.value = srcType.cache.isInternal e.sAddr :=
    congrArg Lookup.value typeRead
  simp only [systemStep, reading, System.forward] at taken
  obtain ⟨⟨m, o⟩, applied, made⟩ := Option.map_eq_some_iff.mp taken
  cases made
  rcases CollectorStats.step_cases applied with ⟨a, now', e', label, _, _, rfl, _⟩ |
    ⟨_, _, _, label, _⟩ | ⟨_, _, _, label, _⟩ | ⟨_, label, _⟩
  · cases label
    refine ⟨_, CollectorStats.conn_after_own_event, ?_⟩
    obtain ⟨srcTyped, dstTyped⟩ := event_conn_types ⟨dst.value, src.value, srcType.value,
      s.docker.cache.isInternal e.dAddr⟩ now e s.machine.proc
    have passes (c : Cache) (member : c ∈ [dst.cache, src.cache]) :
        c ∈ [dst.cache, src.cache, srcType.cache, s.docker.cache] :=
      List.mem_append_left [srcType.cache, s.docker.cache] member
    have source := endpoint_agrees_iff e.sAddr srcType.cache (passes src.cache (by simp))
    have destination := endpoint_agrees_iff e.dAddr s.docker.cache (passes dst.cache (by simp))
    rw [← srcRead, ← typeValue, ← srcTyped] at source
    rw [← dstRead, ← dstTyped] at destination
    constructor
    · intro agrees
      exact ⟨typeValue ▸ source.mp agrees.source, destination.mp agrees.destination⟩
    · rintro ⟨srcSame, dstSame⟩
      have typed := destination.mpr dstSame
      refine ⟨source.mpr (typeValue ▸ srcSame), typed, ?_⟩
      intro found res
      rw [typed.named_internal found]
      exact detectCause_internal res
  · rcases label with ⟨h, _⟩ | ⟨h, _⟩ <;> cases h
  · cases label
  · cases label

def caller : Container := ⟨"c1", "service-a", ["172.19.0.3"]⟩
def callee : Container := ⟨"c2", "service-b", ["172.19.0.4"]⟩
def bystander : Container := ⟨"c3", "service-c", ["172.19.0.5"]⟩

def resolverUp : List Label :=
  [.docker (.list (some [caller, callee])), .docker .fill, .docker .subscribe]

def otherStarts : List Label := resolverUp ++
  [.receive 1 (bridgeSample .rtt 40001 100), .resolveDst, .docker (.start bystander),
    .docker (.inspect none), .docker .update, .resolveSrc, .typeSrc]

theorem unrelated_start_agrees : ∃ s s' out calls dst src srcType cs,
    exec systemStep (System.start (World.new [caller, callee]) true 0) otherStarts =
        some (s, out) ∧
      s.handling = .srcTyped 1 (bridgeSample .rtt 40001 100) dst src srcType ∧
      systemStep s .typeDst = some (s', calls) ∧ dst.cache ≠ s.docker.cache ∧
      EventAgrees (bridgeSample .rtt 40001 100) dst src cs
        [dst.cache, src.cache, srcType.cache, s.docker.cache] := by
  obtain ⟨s, s', out, calls, dst, src, srcType, run, reading, taken, changed, same⟩ :
      ∃ s s' out calls dst src srcType,
        exec systemStep (System.start (World.new [caller, callee]) true 0) otherStarts =
            some (s, out) ∧
          s.handling = .srcTyped 1 (bridgeSample .rtt 40001 100) dst src srcType ∧
          systemStep s .typeDst = some (s', calls) ∧
          dst.cache.isInternal "172.19.0.5" ≠ s.docker.cache.isInternal "172.19.0.5" ∧
          src.cache.isInternal "172.19.0.3" = srcType.cache.isInternal "172.19.0.3" ∧
          dst.cache.isInternal "172.19.0.4" = s.docker.cache.isInternal "172.19.0.4" :=
    ⟨_, _, _, _, _, _, _, rfl, rfl, rfl, by decide, rfl, rfl⟩
  obtain ⟨cs, _, iff⟩ := endpoints_agree_iff run reading taken
  refine ⟨s, s', out, calls, dst, src, srcType, cs, run, reading, taken, ?_, iff.mpr same⟩
  intro equal
  rw [equal] at changed
  exact changed rfl

def calleeDies : List Label := resolverUp ++
  [.receive 1 (bridgeSample .rtt 40001 100), .resolveDst, .docker (.die callee),
    .docker (.delete ["172.19.0.3", "172.19.0.4"]), .resolveSrc, .typeSrc]

theorem dying_destination_typed_external :
    ¬ ∀ (running : List Container) (storing : Bool) (clock now : Time) (ls : List Label)
        (s s' : System) (out calls : List Emission) (e : Event) (dst src : Lookup String)
        (srcType : Lookup Bool) (cs : ConnStats),
      exec systemStep (System.start (World.new running) storing clock) ls = some (s, out) →
      s.handling = .srcTyped now e dst src srcType →
      systemStep s .typeDst = some (s', calls) →
      s'.machine.proc.conns.lookup ⟨src.value, dst.value⟩ = some cs →
      EventAgrees e dst src cs [dst.cache, src.cache, srcType.cache, s.docker.cache] := by
  intro claim
  have agrees := claim [caller, callee] true 0 1 calleeDies _ _ _ _ (bridgeSample .rtt 40001 100)
    _ _ _ _ rfl rfl rfl rfl
  have blamed := agrees.blame rfl none
  revert blamed
  decide

end CollectorResolver
