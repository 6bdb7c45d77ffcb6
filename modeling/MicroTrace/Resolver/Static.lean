import MicroTrace.Library.Filling
import MicroTrace.Library.IpText
import MicroTrace.Resolver.Docker

/- The static resolver (collector/resolver/static.go, resolver.go). A file is given as what
   os.ReadFile and yaml.Unmarshal make of it: a section that is missing or null is none, and
   direct is the whole document as one map, if it can be read as one. The two maps are ranged
   over in any order. -/
namespace CollectorResolver
open RangeLoops Filling

structure StaticResolverConfig where
  hosts : Option (GoMap String String)
  services : Option (GoMap String (List String))

inductive Document where
  | unreadable
  | malformed
  | decoded (cfg : StaticResolverConfig) (direct : Option (GoMap String String))

inductive LoadError where
  | notRead
  | notParsed
  | badIP (ip : String)
  | unnamed (ip : String)
  | duplicateIP (ip prev name : String)
  | empty
  deriving DecidableEq

def addStaticHost (table : Cache) (ip name : String) : Except LoadError Cache :=
  if IpText.parseIP ip.toList = none then .error (.badIP ip)
  else if name = "" then .error (.unnamed ip)
  else match table.lookup ip with
    | some prev =>
        if prev ≠ name then .error (.duplicateIP ip prev name) else .ok (table.insert ip name)
    | none => .ok (table.insert ip name)

/- The orders in which the maps of one call are visited. -/
structure Visits where
  hosts : List String
  services : List String
  direct : List String

def hostPairs (order : List String) (hosts : GoMap String String) : List (String × String) :=
  rangeCollect (fun ip name => some (ip, name)) order hosts

/- The inner loop goes through the addresses of a service in their order. -/
def servicePairs (order : List String) (services : GoMap String (List String)) :
    List (String × String) :=
  (rangeCollect (fun name ips => some (ips.map fun ip => (ip, name))) order services).flatten

def loadStaticTable (doc : Document) (visits : Visits) : Except LoadError Cache :=
  match doc with
  | .unreadable => .error .notRead
  | .malformed => .error .notParsed
  | .decoded cfg direct => do
      let table ← fill addStaticHost (hostPairs visits.hosts (cfg.hosts.getD ∅)) ∅
      let table ← fill addStaticHost (servicePairs visits.services (cfg.services.getD ∅)) table
      let table ←
        if table.keys.card = 0 ∧ cfg.hosts.isNone ∧ cfg.services.isNone then
          match direct with
          | none => .error .empty
          | some direct => fill addStaticHost (hostPairs visits.direct direct) table
        else .ok table
      if table.keys.card = 0 then .error .empty else .ok table

structure StaticResolver where
  table : Cache

def StaticResolver.new (table : Option Cache) : StaticResolver := ⟨table.getD ∅⟩

def StaticResolver.resolve (r : StaticResolver) (ip : String) : String := r.table.resolve ip

def StaticResolver.isInternal (r : StaticResolver) (ip : String) : Bool := r.table.isInternal ip

section Load

variable (cfg : StaticResolverConfig) (direct : Option (GoMap String String))

def Visits.Of (visits : Visits) : Prop :=
  Enumerates visits.hosts (cfg.hosts.getD ∅) ∧
    Enumerates visits.services (cfg.services.getD ∅) ∧ Enumerates visits.direct (direct.getD ∅)

instance (visits : Visits) : Decidable (visits.Of cfg direct) :=
  inferInstanceAs (Decidable (_ ∧ _ ∧ _))

def Lists (ip name : String) : Prop :=
  (cfg.hosts.getD ∅).lookup ip = some name ∨
    (∃ ips, (cfg.services.getD ∅).lookup name = some ips ∧ ip ∈ ips) ∨
    cfg.hosts = none ∧ cfg.services = none ∧ (direct.getD ∅).lookup ip = some name

structure Acceptable : Prop where
  entry : ∃ ip name, Lists cfg direct ip name
  parsed : ∀ ip name, Lists cfg direct ip name → IpText.parseIP ip.toList ≠ none
  named : ∀ ip name, Lists cfg direct ip name → name ≠ ""
  single : ∀ ip name other, Lists cfg direct ip name → Lists cfg direct ip other → name = other

end Load

def validHost (ip name : String) : Prop := IpText.parseIP ip.toList ≠ none ∧ name ≠ ""

theorem adds_static_host : Adds validHost addStaticHost := by
  intro table ip name next
  unfold addStaticHost
  split
  · rename_i bad
    exact ⟨nofun, fun added => absurd bad added.1.1⟩
  · rename_i good
    split
    · rename_i unnamed
      exact ⟨nofun, fun added => absurd unnamed added.1.2⟩
    · rename_i named
      cases held : table.lookup ip with
      | none => simp [validHost, good, named, eq_comm]
      | some prev =>
        by_cases same : prev = name
        · simp [validHost, good, named, same, eq_comm]
        · simp [validHost, same]

section Load

variable {cfg : StaticResolverConfig} {direct : Option (GoMap String String)} {visits : Visits}
  {table : Cache}

def entries (cfg : StaticResolverConfig) (direct : Option (GoMap String String))
    (visits : Visits) : List (String × String) :=
  hostPairs visits.hosts (cfg.hosts.getD ∅) ++ servicePairs visits.services (cfg.services.getD ∅) ++
    if cfg.hosts.isNone ∧ cfg.services.isNone then hostPairs visits.direct (direct.getD ∅) else []

theorem hostPairs_empty (order : List String) : hostPairs order ∅ = [] := by
  simp [hostPairs, rangeCollect]

theorem servicePairs_empty (order : List String) : servicePairs order ∅ = [] := by
  simp [servicePairs, rangeCollect]

def orEmpty (table : Cache) : Except LoadError Cache :=
  if table.keys.card = 0 then .error .empty else .ok table

theorem load_eq (cfg : StaticResolverConfig) (direct : Option (GoMap String String))
    (visits : Visits) : loadStaticTable (.decoded cfg direct) visits =
      (fill addStaticHost (entries cfg direct visits) ∅).bind orEmpty := by
  by_cases absent : cfg.hosts.isNone ∧ cfg.services.isNone
  · have noHosts := Option.isNone_iff_eq_none.mp absent.1
    have noServices := Option.isNone_iff_eq_none.mp absent.2
    -- the table is still empty when the direct map is looked at
    cases direct <;>
      simp [loadStaticTable, entries, noHosts, noServices, hostPairs_empty, servicePairs_empty,
        fill, orEmpty, bind, Except.bind]
  · rw [entries, if_neg absent, List.append_nil, fill_append]
    simp only [loadStaticTable, bind]
    cases fill addStaticHost (hostPairs visits.hosts (cfg.hosts.getD ∅)) ∅ with
    | error e => rfl
    | ok first =>
      simp only [Except.bind]
      cases fill addStaticHost (servicePairs visits.services (cfg.services.getD ∅)) first with
      | error e => rfl
      | ok second => simp only [absent, and_false, if_false, orEmpty]

theorem load_iff : loadStaticTable (.decoded cfg direct) visits = .ok table ↔
    fill addStaticHost (entries cfg direct visits) ∅ = .ok table ∧
      entries cfg direct visits ≠ [] := by
  rw [load_eq]
  cases filled : fill addStaticHost (entries cfg direct visits) ∅ with
  | error e => exact ⟨nofun, nofun⟩
  | ok whole =>
    rw [Ne, ← filled_nothing adds_static_host filled]
    simp only [Except.bind, orEmpty]
    split
    · rename_i nothing
      exact ⟨nofun, fun both => absurd nothing both.2⟩
    · rename_i something
      exact ⟨fun same => ⟨same, something⟩, fun both => both.1⟩

theorem mem_hostPairs {order : List String} {hosts : GoMap String String}
    (visit : Enumerates order hosts) (ip name : String) :
    (ip, name) ∈ hostPairs order hosts ↔ hosts.lookup ip = some name := by
  rw [hostPairs, mem_rangeCollect _ visit]
  simp

theorem mem_servicePairs {order : List String} {services : GoMap String (List String)}
    (visit : Enumerates order services) (ip name : String) :
    (ip, name) ∈ servicePairs order services ↔
      ∃ ips, services.lookup name = some ips ∧ ip ∈ ips := by
  simp only [servicePairs, List.mem_flatten, mem_rangeCollect _ visit, Option.some.injEq]
  constructor
  · rintro ⟨_, ⟨name', ips, found, rfl⟩, member⟩
    obtain ⟨ip', inside, eq⟩ := List.mem_map.mp member
    cases eq
    exact ⟨ips, found, inside⟩
  · rintro ⟨ips, found, inside⟩
    exact ⟨_, ⟨name, ips, found, rfl⟩, List.mem_map_of_mem inside⟩

theorem mem_entries (visit : visits.Of cfg direct) (ip name : String) :
    (ip, name) ∈ entries cfg direct visits ↔ Lists cfg direct ip name := by
  obtain ⟨hosts, services, others⟩ := visit
  rw [entries, List.mem_append, List.mem_append, mem_hostPairs hosts, mem_servicePairs services,
    Lists, or_assoc]
  split
  · rename_i absent
    rw [mem_hostPairs others, ← Option.isNone_iff_eq_none, ← Option.isNone_iff_eq_none]
    simp only [absent, true_and]
  · rename_i present
    rw [← Option.isNone_iff_eq_none, ← Option.isNone_iff_eq_none, ← and_assoc]
    simp only [present, false_and, List.not_mem_nil]

theorem found_iff (ip name : String) :
    (StaticResolver.new (some table)).resolve ip = name ∧
        (StaticResolver.new (some table)).isInternal ip = true ↔
      table.lookup ip = some name := by
  simp only [StaticResolver.new, Option.getD_some, StaticResolver.resolve,
    StaticResolver.isInternal, Cache.resolve, Cache.isInternal]
  cases found : table.lookup ip with
  | none => simp
  | some other => simp

theorem exists_visits (cfg : StaticResolverConfig) (direct : Option (GoMap String String)) :
    ∃ visits : Visits, visits.Of cfg direct := by
  obtain ⟨hosts, first⟩ := exists_enumeration (cfg.hosts.getD ∅)
  obtain ⟨services, second⟩ := exists_enumeration (cfg.services.getD ∅)
  obtain ⟨others, third⟩ := exists_enumeration (direct.getD ∅)
  exact ⟨⟨hosts, services, others⟩, first, second, third⟩

theorem load_lists (visit : visits.Of cfg direct)
    (loaded : loadStaticTable (.decoded cfg direct) visits = .ok table) (ip name : String) :
    table.lookup ip = some name ↔ Lists cfg direct ip name := by
  rw [filled_from_empty adds_static_host (load_iff.mp loaded).1, mem_entries visit]

theorem load_same {other : Visits} (visit : visits.Of cfg direct) (visit' : other.Of cfg direct)
    (loaded : loadStaticTable (.decoded cfg direct) visits = .ok table) :
    loadStaticTable (.decoded cfg direct) other = .ok table := by
  have same (ip name : String) :
      (ip, name) ∈ entries cfg direct visits ↔ (ip, name) ∈ entries cfg direct other := by
    rw [mem_entries visit, mem_entries visit']
  obtain ⟨filled, some⟩ := load_iff.mp loaded
  refine load_iff.mpr ⟨fill_order adds_static_host same filled, ?_⟩
  simpa only [Ne, List.eq_nil_iff_forall_not_mem, Prod.forall, same] using some

theorem acceptable_iff (visit : visits.Of cfg direct) :
    (∃ table, loadStaticTable (.decoded cfg direct) visits = .ok table) ↔
      Acceptable cfg direct := by
  have given : Given ∅ (entries cfg direct visits) = Lists cfg direct := by
    funext ip name
    simp [Given, mem_entries visit]
  have ok : (∃ table, fill addStaticHost (entries cfg direct visits) ∅ = .ok table) ↔ _ :=
    fill_ok_iff adds_static_host
  simp only [given, mem_entries visit] at ok
  simp only [load_iff, exists_and_right, ok]
  constructor
  · rintro ⟨⟨valid, single⟩, some⟩
    refine ⟨?_, fun ip name listed => (valid ip name listed).1,
      fun ip name listed => (valid ip name listed).2, single⟩
    obtain ⟨⟨ip, name⟩, member⟩ := List.exists_mem_of_ne_nil _ some
    exact ⟨ip, name, (mem_entries visit ip name).mp member⟩
  · intro acceptable
    refine ⟨⟨fun ip name listed => ⟨acceptable.parsed ip name listed,
      acceptable.named ip name listed⟩, acceptable.single⟩, ?_⟩
    obtain ⟨ip, name, listed⟩ := acceptable.entry
    exact List.ne_nil_of_mem ((mem_entries visit ip name).mpr listed)

end Load

/-- Loading a decoded file fails in every order of its maps or gives one table in all of them:
    it succeeds exactly when the listed pairs are acceptable, and they are the table. -/
theorem static_table_exact (cfg : StaticResolverConfig) (direct : Option (GoMap String String)) :
    ((∀ visits : Visits, visits.Of cfg direct →
        ∃ e, loadStaticTable (.decoded cfg direct) visits = .error e) ∨
      ∃ table, ∀ visits : Visits, visits.Of cfg direct →
        loadStaticTable (.decoded cfg direct) visits = .ok table) ∧
    ∀ visits : Visits, visits.Of cfg direct →
      ((∃ table, loadStaticTable (.decoded cfg direct) visits = .ok table) ↔
          Acceptable cfg direct) ∧
        ∀ table, loadStaticTable (.decoded cfg direct) visits = .ok table →
          ∀ ip name, table.lookup ip = some name ↔ Lists cfg direct ip name := by
  constructor
  · by_cases acceptable : Acceptable cfg direct
    · right
      obtain ⟨first, visit⟩ := exists_visits cfg direct
      obtain ⟨table, loaded⟩ := (acceptable_iff visit).mpr acceptable
      exact ⟨table, fun visits visit' => load_same visit visit' loaded⟩
    · left
      intro visits visit
      cases loaded : loadStaticTable (.decoded cfg direct) visits with
      | error e => exact ⟨e, rfl⟩
      | ok table => exact absurd ((acceptable_iff visit).mp ⟨table, loaded⟩) acceptable
  · intro visits visit
    exact ⟨acceptable_iff visit, fun table loaded => load_lists visit loaded⟩

def hostsOnly (hosts : GoMap String String) : StaticResolverConfig := ⟨some hosts, none⟩

theorem lists_hostsOnly {hosts : GoMap String String} (key name : String) :
    Lists (hostsOnly hosts) none key name ↔ hosts.lookup key = some name := by
  simp [Lists, hostsOnly]

def exampleHosts : StaticResolverConfig where
  hosts := some (Finmap.singleton "10.0.1.10" "service-a")
  services := some ((Finmap.singleton "service-a" ["10.0.1.10"]).insert "service-b"
    ["10.0.2.20", "10.0.2.21"])

def exampleVisits : Visits := ⟨["10.0.1.10"], ["service-b", "service-a"], []⟩

theorem repeated_pair_loaded :
    ∃ table, loadStaticTable (.decoded exampleHosts none) exampleVisits = .ok table ∧
      Acceptable exampleHosts none ∧ table.lookup "10.0.1.10" = some "service-a" ∧
      table.lookup "10.0.2.21" = some "service-b" := by
  obtain ⟨accepted, filled⟩ := (static_table_exact exampleHosts none).2 exampleVisits (by decide)
  refine ⟨_, rfl, accepted.mp ⟨_, rfl⟩, ?_, ?_⟩
  · exact (filled _ rfl "10.0.1.10" "service-a").mpr (.inl rfl)
  · exact (filled _ rfl "10.0.2.21" "service-b").mpr (.inr (.inl ⟨_, rfl, by simp⟩))

end CollectorResolver
