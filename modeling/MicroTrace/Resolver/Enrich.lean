import MicroTrace.Collector.SpikeBaseline
import MicroTrace.Resolver.Static

/- EnrichResolver (collector/resolver/enrich.go) and the Processor that asks it. Each lookup of
   net.LookupAddr may answer anything. EffectiveTLDPlusOne of the public suffix list is a
   parameter. The Processor handles one event at a time, so the calls of Resolve follow each
   other. -/
namespace CollectorResolver
open CollectorModel RangeLoops Runs
open CollectorStats (Machine Input Answers ConnKey Resolver bridgeSample)

def StaticResolver.service (r : StaticResolver) : Resolver := ⟨r.resolve, r.isInternal⟩

/- An error is none. -/
abbrev Answer := Option (List String)

def trimSuffix (host : String) : String :=
  if host.toList.getLast? = some '.' then String.ofList host.toList.dropLast else host

structure EnrichResolver where
  base : Resolver
  cache : Cache

def EnrichResolver.new (base : Resolver) : EnrichResolver := ⟨base, ∅⟩

def EnrichResolver.isInternal (r : EnrichResolver) (ip : String) : Bool := r.base.isInternal ip

/-- What one call of Resolve was asked, what it returned and whether it made a lookup. -/
structure Resolved where
  ip : String
  name : String
  looked : Bool
  deriving DecidableEq

variable (effectiveTLDPlusOne : String → Option String)

def lookupAndParse (ip : String) (answer : Answer) : String :=
  match answer with
  | none => ip
  | some [] => ip
  | some (addr :: _) =>
      match effectiveTLDPlusOne (trimSuffix addr) with
      | none => trimSuffix addr
      | some registered => registered

def EnrichResolver.resolve (r : EnrichResolver) (ip : String) (answer : Answer) :
    EnrichResolver × Resolved :=
  if r.base.resolve ip ≠ ip then (r, ⟨ip, r.base.resolve ip, false⟩)
  else match r.cache.lookup ip with
    | some cached => (r, ⟨ip, cached, false⟩)
    | none =>
        let result := lookupAndParse effectiveTLDPlusOne ip answer
        ({ r with cache := r.cache.insert ip result }, ⟨ip, result, true⟩)

def resolveStep : Stepper EnrichResolver (String × Answer) Resolved
  | r, (ip, answer) =>
      some ((r.resolve effectiveTLDPlusOne ip answer).1,
        [(r.resolve effectiveTLDPlusOne ip answer).2])

structure Enriched where
  resolver : EnrichResolver
  machine : Machine

def Enriched.start (base : Resolver) (storing : Bool) (clock : Time) : Enriched :=
  ⟨.new base, Machine.start storing clock⟩

inductive Arrival where
  | event (now : Time) (e : Event) (dst src : Answer)
  | input (i : Input)

structure Handled where
  event : Event
  answers : Answers

/-- handleEvent asks for the destination first. The other inputs of the Processor do not ask. -/
def handleStep : Stepper Enriched Arrival Handled
  | s, .event now e dst src =>
      let first := s.resolver.resolve effectiveTLDPlusOne e.dAddr dst
      let second := first.1.resolve effectiveTLDPlusOne e.sAddr src
      let answers : Answers := ⟨first.2.name, second.2.name, second.1.isInternal e.sAddr,
        second.1.isInternal e.dAddr⟩
      (CollectorStats.step s.machine (.event answers now e)).map fun next =>
        (⟨second.1, next.1⟩, [⟨e, answers⟩])
  | _, .input (.event _ _ _) => none
  | s, .input i => (CollectorStats.step s.machine i).map fun next => (⟨s.resolver, next.1⟩, [])

def EnrichResolver.Settled (r : EnrichResolver) (ip name : String) : Prop :=
  if r.base.resolve ip ≠ ip then name = r.base.resolve ip else r.cache.lookup ip = some name

variable {effectiveTLDPlusOne} {r : EnrichResolver} {ip name : String} {answer : Answer}

/- The base, the cache, or a lookup that is then in the cache. -/
theorem resolve_cases :
    (r.base.resolve ip ≠ ip ∧
      r.resolve effectiveTLDPlusOne ip answer = (r, ⟨ip, r.base.resolve ip, false⟩)) ∨
    (r.base.resolve ip = ip ∧ ∃ cached, r.cache.lookup ip = some cached ∧
      r.resolve effectiveTLDPlusOne ip answer = (r, ⟨ip, cached, false⟩)) ∨
    (r.base.resolve ip = ip ∧ r.cache.lookup ip = none ∧ ∃ result,
      r.resolve effectiveTLDPlusOne ip answer =
        ({ r with cache := r.cache.insert ip result }, ⟨ip, result, true⟩)) := by
  by_cases own : r.base.resolve ip = ip
  · cases held : r.cache.lookup ip with
    | some cached =>
      exact .inr (.inl ⟨own, cached, rfl, by simp [EnrichResolver.resolve, own, held]⟩)
    | none =>
      exact .inr (.inr ⟨own, rfl, lookupAndParse effectiveTLDPlusOne ip answer,
        by simp [EnrichResolver.resolve, own, held]⟩)
  · exact .inl ⟨own, by simp [EnrichResolver.resolve, own]⟩

theorem resolve_base : (r.resolve effectiveTLDPlusOne ip answer).1.base = r.base := by
  obtain ⟨_, eq⟩ | ⟨_, _, _, eq⟩ | ⟨_, _, _, eq⟩ := @resolve_cases effectiveTLDPlusOne r ip answer
  all_goals rw [eq]

theorem resolve_ip : (r.resolve effectiveTLDPlusOne ip answer).2.ip = ip := by
  obtain ⟨_, eq⟩ | ⟨_, _, _, eq⟩ | ⟨_, _, _, eq⟩ := @resolve_cases effectiveTLDPlusOne r ip answer
  all_goals rw [eq]

theorem settled_known (known : r.base.resolve ip ≠ ip) :
    r.Settled ip name ↔ name = r.base.resolve ip := by rw [EnrichResolver.Settled, if_pos known]

theorem settled_own (own : r.base.resolve ip = ip) :
    r.Settled ip name ↔ r.cache.lookup ip = some name := by
  rw [EnrichResolver.Settled, if_neg (not_not.mpr own)]

theorem settled_unique {name' : String} (one : r.Settled ip name) (other : r.Settled ip name') :
    name = name' := by
  by_cases own : r.base.resolve ip = ip
  · rw [settled_own own] at one other
    exact Option.some.inj (one.symm.trans other)
  · rw [settled_known own] at one other
    rw [one, other]

theorem settled_resolve : (r.resolve effectiveTLDPlusOne ip answer).1.Settled ip
    (r.resolve effectiveTLDPlusOne ip answer).2.name := by
  obtain ⟨known, eq⟩ | ⟨own, cached, held, eq⟩ | ⟨own, _, result, eq⟩ :=
    @resolve_cases effectiveTLDPlusOne r ip answer
  · rw [eq]
    exact (settled_known known).mpr rfl
  · rw [eq]
    exact (settled_own own).mpr held
  · rw [eq]
    apply (settled_own _).mpr
    · exact Finmap.lookup_insert _
    · exact own

theorem settled_kept {other : String} (settled : r.Settled ip name) :
    (r.resolve effectiveTLDPlusOne other answer).1.Settled ip name := by
  obtain ⟨_, eq⟩ | ⟨_, _, _, eq⟩ | ⟨_, absent, result, eq⟩ :=
    @resolve_cases effectiveTLDPlusOne r other answer
  · rwa [eq]
  · rwa [eq]
  · rw [eq]
    by_cases own : r.base.resolve ip = ip
    · rw [settled_own own] at settled
      have apart : ip ≠ other := by
        rintro rfl
        rw [settled] at absent
        cases absent
      apply (settled_own _).mpr
      · exact (Finmap.lookup_insert_of_ne _ apart).trans settled
      · exact own
    · apply (settled_known _).mpr
      · exact (settled_known own).mp settled
      · exact own

theorem resolve_new {base : Resolver} (own : base.resolve ip = ip) :
    ((EnrichResolver.new base).resolve effectiveTLDPlusOne ip answer).2.looked = true := by
  simp [EnrichResolver.resolve, EnrichResolver.new, own]

theorem resolve_known (known : r.base.resolve ip ≠ ip) :
    (r.resolve effectiveTLDPlusOne ip answer).2 = ⟨ip, r.base.resolve ip, false⟩ := by
  rw [EnrichResolver.resolve, if_pos known]

section Runs

variable {base : Resolver}

structure Told (base : Resolver) (outs : List Resolved) (r : EnrichResolver) : Prop where
  same : r.base = base
  settled : ∀ o ∈ outs, r.Settled o.ip o.name
  silent : ∀ o ∈ outs, base.resolve o.ip ≠ o.ip → o.looked = false

theorem told_step {r r' : EnrichResolver} {call : String × Answer} {outs now : List Resolved}
    (told : Told base outs r) (taken : resolveStep effectiveTLDPlusOne r call = some (r', now)) :
    Told base (outs ++ now) r' := by
  obtain ⟨ip, answer⟩ := call
  cases taken
  refine ⟨resolve_base.trans told.same, ?_, ?_⟩
  · intro o member
    rcases List.mem_append.mp member with earlier | new
    · exact settled_kept (told.settled o earlier)
    · obtain rfl := List.mem_singleton.mp new
      rw [resolve_ip]
      exact settled_resolve
  · intro o member known
    rcases List.mem_append.mp member with earlier | new
    · exact told.silent o earlier known
    · obtain rfl := List.mem_singleton.mp new
      rw [resolve_ip, ← told.same] at known
      rw [resolve_known known]

theorem told_run {calls : List (String × Answer)} {outs : List Resolved}
    (run : exec (resolveStep effectiveTLDPlusOne) (.new base) calls = some (r, outs)) :
    Told base outs r :=
  exec_history (I := fun _ r outs => Told base outs r) ⟨rfl, nofun, nofun⟩
    (fun _ told taken => told_step told taken) run

structure Asked (base : Resolver) (handled : List Handled) (s : Enriched) : Prop where
  same : s.resolver.base = base
  dst : ∀ h ∈ handled, s.resolver.Settled h.event.dAddr h.answers.dstService
  src : ∀ h ∈ handled, s.resolver.Settled h.event.sAddr h.answers.srcService

theorem asked_step {s s' : Enriched} {a : Arrival} {handled now : List Handled}
    (asked : Asked base handled s) (taken : handleStep effectiveTLDPlusOne s a = some (s', now)) :
    Asked base (handled ++ now) s' := by
  cases a with
  | event now e dst src =>
    obtain ⟨next, _, made⟩ := Option.map_eq_some_iff.mp taken
    cases made
    refine ⟨resolve_base.trans (resolve_base.trans asked.same), ?_, ?_⟩
    · intro h member
      rcases List.mem_append.mp member with earlier | new
      · exact settled_kept (settled_kept (asked.dst h earlier))
      · obtain rfl := List.mem_singleton.mp new
        exact settled_kept settled_resolve
    · intro h member
      rcases List.mem_append.mp member with earlier | new
      · exact settled_kept (settled_kept (asked.src h earlier))
      · obtain rfl := List.mem_singleton.mp new
        exact settled_resolve
  | input i =>
    have same : s'.resolver = s.resolver ∧ now = [] := by
      cases i with
      | event a now e => cases taken
      | _ =>
        simp only [handleStep, Option.map_eq_some_iff] at taken
        obtain ⟨next, _, made⟩ := taken
        cases made
        exact ⟨rfl, rfl⟩
    obtain ⟨resolver, rfl⟩ := same
    rw [List.append_nil]
    exact ⟨resolver ▸ asked.same, resolver ▸ asked.dst, resolver ▸ asked.src⟩

theorem asked_run {storing : Bool} {clock : Time} {arrivals : List Arrival} {s : Enriched}
    {handled : List Handled}
    (run : exec (handleStep effectiveTLDPlusOne) (.start base storing clock) arrivals =
      some (s, handled)) : Asked base handled s :=
  exec_history (I := fun _ s handled => Asked base handled s) ⟨rfl, nofun, nofun⟩
    (fun _ asked taken => asked_step asked taken) run

end Runs

section Names

variable (effectiveTLDPlusOne : String → Option String) (base : Resolver)

/-- Internal addresses keep the name the base gives them, without a lookup. -/
def InternalKept : Prop :=
  ∀ calls r outs, exec (resolveStep effectiveTLDPlusOne) (.new base) calls = some (r, outs) →
    ∀ o ∈ outs, base.isInternal o.ip = true → o.name = base.resolve o.ip ∧ o.looked = false

def NamesStable : Prop :=
  ∀ calls r outs, exec (resolveStep effectiveTLDPlusOne) (.new base) calls = some (r, outs) →
    ∀ o ∈ outs, ∀ o' ∈ outs, o.ip = o'.ip → o.name = o'.name

def KeysStable : Prop :=
  ∀ storing clock arrivals s handled,
    exec (handleStep effectiveTLDPlusOne) (.start base storing clock) arrivals =
        some (s, handled) →
      ∀ h ∈ handled, ∀ h' ∈ handled, h.event.sAddr = h'.event.sAddr →
        h.event.dAddr = h'.event.dAddr → h.answers.connKey = h'.answers.connKey

variable {effectiveTLDPlusOne} {base}

theorem names_stable : NamesStable effectiveTLDPlusOne base := by
  intro calls r outs run o one o' other same
  have told := told_run run
  exact settled_unique (told.settled o one) (same ▸ told.settled o' other)

theorem keys_stable : KeysStable effectiveTLDPlusOne base := by
  intro storing clock arrivals s handled run h one h' other src dst
  have asked := asked_run run
  have sameSrc := settled_unique (asked.src h one) (src ▸ asked.src h' other)
  have sameDst := settled_unique (asked.dst h one) (dst ▸ asked.dst h' other)
  rw [Answers.connKey, Answers.connKey, sameSrc, sameDst]

theorem internal_kept_iff :
    InternalKept effectiveTLDPlusOne base ↔
      ∀ ip, base.isInternal ip = true → base.resolve ip ≠ ip := by
  constructor
  · intro kept ip internal own
    have asked := kept [(ip, none)] _ _ rfl (EnrichResolver.resolve effectiveTLDPlusOne
      (.new base) ip none).2 List.mem_cons_self
    rw [resolve_ip] at asked
    rw [resolve_new own] at asked
    cases (asked internal).2
  · intro differ calls r outs run o member internal
    have told := told_run run
    have known := differ o.ip internal
    have settled := told.settled o member
    rw [settled_known (told.same ▸ known), told.same] at settled
    exact ⟨settled, told.silent o member known⟩

end Names

variable {cfg : StaticResolverConfig} {direct : Option (GoMap String String)} {visits : Visits}
  {table : Cache}

theorem self_named_iff (visit : visits.Of cfg direct)
    (loaded : loadStaticTable (.decoded cfg direct) visits = .ok table) :
    (∀ ip, (StaticResolver.new (some table)).service.isInternal ip = true →
        (StaticResolver.new (some table)).service.resolve ip ≠ ip) ↔
      ∀ ip, ¬ Lists cfg direct ip ip := by
  have own (ip : String) : Lists cfg direct ip ip ↔
      (StaticResolver.new (some table)).service.resolve ip = ip ∧
        (StaticResolver.new (some table)).service.isInternal ip = true :=
    (load_lists visit loaded ip ip).symm.trans (found_iff ip ip).symm
  simp only [own, not_and', Ne]

/-- Over an accepted table names and connections are stable in every run, and internal names
    are those of the table exactly when no address is listed under its own text. -/
theorem enriched_names_iff (effectiveTLDPlusOne : String → Option String)
    (visit : visits.Of cfg direct)
    (loaded : loadStaticTable (.decoded cfg direct) visits = .ok table) :
    (InternalKept effectiveTLDPlusOne (StaticResolver.new (some table)).service ↔
        ∀ ip, ¬ Lists cfg direct ip ip) ∧
      NamesStable effectiveTLDPlusOne (StaticResolver.new (some table)).service ∧
      KeysStable effectiveTLDPlusOne (StaticResolver.new (some table)).service :=
  ⟨internal_kept_iff.trans (self_named_iff visit loaded), names_stable, keys_stable⟩

/- EffectiveTLDPlusOne on the host of the comment in enrich.go. -/
def githubSuffix (host : String) : Option String :=
  if host = "lb-140-82-112-21.github.com" then some "github.com" else none

def oneHost (name : String) : StaticResolverConfig :=
  hostsOnly (Finmap.singleton "140.82.112.21" name)

def oneVisit : Visits := ⟨["140.82.112.21"], [], []⟩

theorem listed_host_kept : ∃ table,
    loadStaticTable (.decoded (oneHost "mirror") none) oneVisit = .ok table ∧
      InternalKept githubSuffix (StaticResolver.new (some table)).service := by
  have visit : oneVisit.Of (oneHost "mirror") none := by decide
  refine ⟨_, rfl, (enriched_names_iff githubSuffix visit rfl).1.mpr ?_⟩
  intro ip listed
  rw [oneHost, lists_hostsOnly] at listed
  obtain rfl := (Finmap.mem_singleton _ _ _).mp (Finmap.mem_of_lookup_eq_some listed)
  revert listed
  decide

theorem self_named_host_renamed :
    ¬ ∀ (effectiveTLDPlusOne : String → Option String) (cfg : StaticResolverConfig)
        (direct : Option (GoMap String String)) (visits : Visits) (table : Cache),
      visits.Of cfg direct → loadStaticTable (.decoded cfg direct) visits = .ok table →
      InternalKept effectiveTLDPlusOne (StaticResolver.new (some table)).service := by
  intro claim
  have kept := claim githubSuffix (oneHost "140.82.112.21") none oneVisit _ (by decide) rfl
    [("140.82.112.21", some ["lb-140-82-112-21.github.com."])] _ _ rfl
    ⟨"140.82.112.21", "github.com", true⟩ (by decide) rfl
  exact absurd kept.1 (by decide)

end CollectorResolver
