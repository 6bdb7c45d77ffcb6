import MicroTrace.Agent.Wire
import MicroTrace.Resolver.Static

/- The keys of a static table beside the addresses they denote. The loader checks that
   net.ParseIP accepts a key and then stores, compares and finds it as text, while the agent
   knows an IPv4 address by its dotted decimal alone. -/
namespace CollectorResolver
open RangeLoops AgentOutput AgentSockOps

def quadText (addr : UInt32) : String := String.ofList (Utf8.decode (inetNtoa addr))

def Denotes (key : String) (addr : UInt32) : Prop :=
  IpText.parseIP key.toList =
    some (IpText.mapped [octet addr 0, octet addr 1, octet addr 2, octet addr 3])

instance (key : String) (addr : UInt32) : Decidable (Denotes key addr) :=
  inferInstanceAs (Decidable (_ = _))

theorem quad_dotted (addr : UInt32) :
    quad addr = IpText.dotted (octet addr 0) (octet addr 1) (octet addr 2) (octet addr 3) := by
  simp [quad, IpText.dotted, List.intercalate_cons_cons]

theorem quadText_eq (addr : UInt32) : quadText addr = String.ofList (quad addr) := by
  have plain : Utf8.Ascii (quad addr) := fun c member => (plain_quad addr c member).2.2.2
  rw [quadText, inetNtoa_eq, Utf8.decode_ascii plain]

theorem quadText_delivered (e : RingEvent) :
    (delivered e).sAddr = quadText e.saddr ∧ (delivered e).dAddr = quadText e.daddr := by
  rw [quadText_eq, quadText_eq]
  exact ⟨rfl, rfl⟩

theorem denotes_plain {key : String} {addr : UInt32} (plain : ':' ∉ key.toList)
    (denotes : Denotes key addr) : key = quadText addr := by
  rw [quadText_eq, quad_dotted, ← IpText.parseIP_plain plain denotes, String.ofList_toList]

section Effective

variable (cfg : StaticResolverConfig) (direct : Option (GoMap String String))

/-- The agent's text of a listed IPv4 address has the name listed with it, whatever the spelling,
    and no address of either version is listed with two names. -/
structure Effective (r : StaticResolver) : Prop where
  named : ∀ addr key name, Lists cfg direct key name → Denotes key addr →
    r.resolve (quadText addr) = name ∧ r.isInternal (quadText addr) = true
  single : ∀ bytes key key' name name', Lists cfg direct key name → Lists cfg direct key' name' →
    IpText.parseIP key.toList = some bytes → IpText.parseIP key'.toList = some bytes →
      name = name'

/-- An IPv4 address spelt with colons is listed in dotted decimal too, with the same name. -/
def SpeltOut : Prop :=
  ∀ addr key name, Lists cfg direct key name → ':' ∈ key.toList → Denotes key addr →
    Lists cfg direct (quadText addr) name

/-- Different spellings of one IPv6 address are listed with the same name. -/
def SpeltAlike : Prop :=
  ∀ key key' name name', Lists cfg direct key name → Lists cfg direct key' name' → key ≠ key' →
    IpText.parseIP key.toList = IpText.parseIP key'.toList → (∀ addr, ¬ Denotes key addr) →
      name = name'

end Effective

variable {cfg : StaticResolverConfig} {direct : Option (GoMap String String)} {visits : Visits}
  {table : Cache}

theorem listed_of_spelt (spelt : SpeltOut cfg direct) {addr : UInt32} {key name : String}
    (listed : Lists cfg direct key name) (denotes : Denotes key addr) :
    Lists cfg direct (quadText addr) name := by
  by_cases colon : ':' ∈ key.toList
  · exact spelt addr key name listed colon denotes
  · exact denotes_plain colon denotes ▸ listed

theorem single_of_spelt (visit : visits.Of cfg direct)
    (loaded : loadStaticTable (.decoded cfg direct) visits = .ok table)
    (spelt : SpeltOut cfg direct) (alike : SpeltAlike cfg direct) {bytes : List ℕ}
    {key key' name name' : String} (listed : Lists cfg direct key name)
    (listed' : Lists cfg direct key' name') (parsed : IpText.parseIP key.toList = some bytes)
    (parsed' : IpText.parseIP key'.toList = some bytes) : name = name' := by
  have acceptable := (acceptable_iff visit).mp ⟨table, loaded⟩
  by_cases four : ∃ addr, Denotes key addr
  · obtain ⟨addr, denotes⟩ := four
    have denotes' : Denotes key' addr := parsed'.trans (parsed.symm.trans denotes)
    exact acceptable.single (quadText addr) name name' (listed_of_spelt spelt listed denotes)
      (listed_of_spelt spelt listed' denotes')
  · by_cases same : key = key'
    · subst same
      exact acceptable.single key name name' listed listed'
    · exact alike key key' name name' listed listed' same (parsed.trans parsed'.symm)
        (not_exists.mp four)

/-- The addresses of an accepted file are effective exactly when each IPv4 address that is spelt
    with colons is listed in dotted decimal as well, which is how the agent spells it, and the
    spellings of an IPv6 address do not differ in their names. -/
theorem addresses_effective_iff (visit : visits.Of cfg direct)
    (loaded : loadStaticTable (.decoded cfg direct) visits = .ok table) :
    (Effective cfg direct (StaticResolver.new (some table)) ↔
      SpeltOut cfg direct ∧ SpeltAlike cfg direct) ∧
      ∀ e : RingEvent, (delivered e).sAddr = quadText e.saddr ∧
        (delivered e).dAddr = quadText e.daddr := by
  have acceptable := (acceptable_iff visit).mp ⟨table, loaded⟩
  refine ⟨⟨?_, ?_⟩, quadText_delivered⟩
  · intro effective
    constructor
    · intro addr key name listed _ denotes
      rw [← load_lists visit loaded, ← found_iff]
      exact effective.named addr key name listed denotes
    · intro key key' name name' listed listed' _ same _
      obtain ⟨bytes, parsed⟩ := Option.ne_none_iff_exists'.mp (acceptable.parsed key name listed)
      exact effective.single bytes key key' name name' listed listed' parsed (same ▸ parsed)
  · rintro ⟨spelt, alike⟩
    constructor
    · intro addr key name listed denotes
      rw [found_iff, load_lists visit loaded]
      exact listed_of_spelt spelt listed denotes
    · intro bytes key key' name name' listed listed' parsed parsed'
      exact single_of_spelt visit loaded spelt alike listed listed' parsed parsed'

def mappedHost : GoMap String String := Finmap.singleton "::ffff:10.0.1.10" "service-a"

def bothSpellings : GoMap String String := mappedHost.insert "10.0.1.10" "service-a"

theorem both_spellings_spelt : SpeltOut (hostsOnly bothSpellings) none := by
  intro addr key name listed colon denotes
  rw [lists_hostsOnly] at listed ⊢
  have other : key ≠ "10.0.1.10" := by
    rintro rfl
    revert colon
    decide
  rw [bothSpellings, Finmap.lookup_insert_of_ne _ other] at listed
  obtain rfl := (Finmap.mem_singleton _ _ _).mp (Finmap.mem_of_lookup_eq_some listed)
  have same : IpText.parseIP "::ffff:10.0.1.10".toList = IpText.parseIP "10.0.1.10".toList := by
    decide
  have text : "10.0.1.10" = quadText addr := denotes_plain (by decide) (same.symm.trans denotes)
  rw [← text]
  cases listed
  rfl

theorem both_spellings_alike : SpeltAlike (hostsOnly bothSpellings) none := by
  have only {key name : String} (listed : Lists (hostsOnly bothSpellings) none key name) :
      name = "service-a" := by
    rw [lists_hostsOnly, bothSpellings] at listed
    by_cases dotted : key = "10.0.1.10"
    · subst dotted
      rw [Finmap.lookup_insert] at listed
      exact (Option.some.inj listed).symm
    · rw [Finmap.lookup_insert_of_ne _ dotted] at listed
      obtain rfl := (Finmap.mem_singleton _ _ _).mp (Finmap.mem_of_lookup_eq_some listed)
      exact (Option.some.inj listed).symm
  intro key key' name name' listed listed' _ _ _
  rw [only listed, only listed']

/- The loader lets two spellings of one IPv6 address have two names. -/
example : ∃ table, loadStaticTable (.decoded
    (hostsOnly ((Finmap.singleton "::1" "service-a").insert "0:0:0:0:0:0:0:1" "service-b")) none)
      ⟨["::1", "0:0:0:0:0:0:0:1"], [], []⟩ = .ok table := ⟨_, rfl⟩

theorem both_spellings_effective : ∃ table,
    loadStaticTable (.decoded (hostsOnly bothSpellings) none)
        ⟨["10.0.1.10", "::ffff:10.0.1.10"], [], []⟩ = .ok table ∧
      Effective (hostsOnly bothSpellings) none (StaticResolver.new (some table)) := by
  have visit : Visits.Of (hostsOnly bothSpellings) none
      ⟨["10.0.1.10", "::ffff:10.0.1.10"], [], []⟩ := by decide
  exact ⟨_, rfl, (addresses_effective_iff visit rfl).1.mpr
    ⟨both_spellings_spelt, both_spellings_alike⟩⟩

/-- The only key is accepted and never found: the agent's 10.0.1.10 stays unnamed. -/
theorem mapped_host_unnamed :
    ¬ ∀ (cfg : StaticResolverConfig) (direct : Option (GoMap String String)) (visits : Visits)
        (table : Cache), visits.Of cfg direct →
      loadStaticTable (.decoded cfg direct) visits = .ok table →
      Effective cfg direct (StaticResolver.new (some table)) := by
  intro claim
  have effective := claim (hostsOnly mappedHost) none ⟨["::ffff:10.0.1.10"], [], []⟩ _
    (by decide) rfl
  have named := effective.named 167837706 "::ffff:10.0.1.10" "service-a"
    ((lists_hostsOnly _ _).mpr rfl) (by decide)
  have text : quadText 167837706 = "10.0.1.10" := by decide
  rw [text] at named
  exact absurd named.1 (by decide)

end CollectorResolver
