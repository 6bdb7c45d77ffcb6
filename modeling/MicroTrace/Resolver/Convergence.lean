import MicroTrace.Resolver.Docker

/- The cache against the truth. While events are under way the cache may lag, but for every
   running container either its start is still to be handled with no later death of its
   name, or it is cached whole; and every entry is true or about to be deleted. -/
namespace CollectorResolver
open RangeLoops Runs

def Serves (running : List Container) (ip name : String) : Prop :=
  ∃ c ∈ running, c.name = name ∧ ip ∈ c.ips

def Exact (w : World) : Prop :=
  ∀ ip name, w.cache.lookup ip = some name ↔ Serves w.running ip name

def Settled (w : World) : Prop := w.queue = [] ∧ w.hand = none

def World.seen (w : World) : Cache :=
  match w.hand with
  | some info => handleStart info w.cache
  | none => w.cache

/- A start is still to be handled, and no death of the same name behind it. -/
def Awaited (c : Container) (queue : List Message) : Prop :=
  ∃ before after, queue = before ++ .start c.id :: after ∧ Message.die c.name ∉ after

structure Tracks (w : World) : Prop where
  subscribed : w.stage = .watching ∨ w.stage = .stopped
  apart : w.running.Pairwise Container.Apart
  served : ∀ c ∈ w.running, Awaited c w.queue ∨
    Message.die c.name ∉ w.queue ∧ ∀ ip ∈ c.ips, w.seen.lookup ip = some c.name
  backed : ∀ ip name, w.seen.lookup ip = some name →
    Serves w.running ip name ∨ Message.die name ∈ w.queue

theorem trimSlash_slash (name : String) : trimSlash ("/" ++ name) = name := by
  have chars : ("/" ++ name).toList = '/' :: name.toList := by
    rw [String.toList_append]
    rfl
  simp [trimSlash, chars]

theorem lookup_addNetworks (name ip : String) (networks : List (Option String)) (cache : Cache) :
    (addNetworks name networks cache).lookup ip =
      if some ip ∈ networks then some name else cache.lookup ip := by
  induction networks generalizing cache with
  | nil => simp [addNetworks]
  | cons net networks ih =>
    cases net with
    | none =>
      have skipped : addNetworks name (none :: networks) cache = addNetworks name networks cache :=
        rfl
      simp [skipped, ih]
    | some first =>
      have written : addNetworks name (some first :: networks) cache =
          addNetworks name networks (cache.insert first name) := rfl
      rw [written, ih]
      by_cases later : some ip ∈ networks
      · simp [later]
      · by_cases same : ip = first
        · subst same
          simp
        · simp [later, same, Finmap.lookup_insert_of_ne]

theorem lookup_handleStart (c : Container) (ip : String) (cache : Cache) :
    (handleStart c.info cache).lookup ip = if ip ∈ c.ips then some c.name else cache.lookup ip := by
  have name : containerName c.info.names = c.name := trimSlash_slash c.name
  have member : some ip ∈ c.info.networks ↔ ip ∈ c.ips := by simp [Container.info]
  rw [handleStart, lookup_addNetworks, name]
  simp only [member]

theorem lookup_handleStart_gone {info : Info} (gone : ∀ net ∈ info.networks, net = none)
    (ip : String) (cache : Cache) : (handleStart info cache).lookup ip = cache.lookup ip := by
  have absent : some ip ∉ info.networks := by
    intro member
    cases gone _ member
  rw [handleStart, lookup_addNetworks, if_neg absent]

theorem lookup_handleDie {order : List String} {cache : Cache} (visit : Enumerates order cache)
    (name ip : String) : (handleDie name order cache).lookup ip =
      (cache.lookup ip).filter fun n => !decide (n = name) :=
  lookup_rangeDelete _ visit ip

theorem apart_symm {c d : Container} (apart : c.Apart d) : d.Apart c :=
  ⟨Ne.symm apart.1, Ne.symm apart.2.1, fun ip here there => apart.2.2 ip there here⟩

instance : Std.Symm Container.Apart := ⟨fun _ _ => apart_symm⟩

theorem apart_of_mem {running : List Container} (apart : running.Pairwise Container.Apart)
    {c d : Container} (first : c ∈ running) (second : d ∈ running) (distinct : c ≠ d) :
    c.Apart d :=
  apart.forall first second distinct

theorem running_nodup {running : List Container} (apart : running.Pairwise Container.Apart) :
    running.Nodup :=
  apart.imp fun distinct same => distinct.1 (congrArg Container.id same)

theorem awaited_snoc {c : Container} {queue : List Message} {m : Message}
    (awaited : Awaited c queue) (other : m ≠ .die c.name) : Awaited c (queue ++ [m]) := by
  obtain ⟨before, after, rfl, clear⟩ := awaited
  refine ⟨before, after ++ [m], by simp, ?_⟩
  intro member
  rcases List.mem_append.mp member with inside | last
  · exact clear inside
  · exact other (List.mem_singleton.mp last).symm

theorem awaited_tail {c : Container} {queue : List Message} {m : Message}
    (awaited : Awaited c (m :: queue)) :
    Awaited c queue ∨ m = .start c.id ∧ Message.die c.name ∉ queue := by
  obtain ⟨before, after, split, clear⟩ := awaited
  cases before with
  | nil =>
    rw [List.nil_append, List.cons.injEq] at split
    exact .inr ⟨split.1, split.2 ▸ clear⟩
  | cons first before =>
    rw [List.cons_append, List.cons.injEq] at split
    exact .inl ⟨before, after, split.2, clear⟩

theorem notify_subscribed {w : World} (subscribed : w.stage = .watching ∨ w.stage = .stopped)
    (m : Message) : w.notify m = w.queue ++ [m] := by
  rcases subscribed with watching | stopped
  · simp only [World.notify, watching]
  · simp only [World.notify, stopped]

theorem tracks_start {w : World} {c : Container} (tracks : Tracks w)
    (free : ∀ d ∈ w.running, c.Apart d) :
    Tracks { w with running := c :: w.running, queue := w.queue ++ [.start c.id] } where
  subscribed := tracks.subscribed
  apart := List.pairwise_cons.mpr ⟨free, tracks.apart⟩
  served := by
    intro d member
    rcases List.mem_cons.mp member with rfl | old
    · exact .inl ⟨w.queue, [], rfl, List.not_mem_nil⟩
    · rcases tracks.served d old with awaited | ⟨clear, cached⟩
      · exact .inl (awaited_snoc awaited (by simp))
      · exact .inr ⟨by simpa using clear, cached⟩
  backed := by
    intro ip name found
    rcases tracks.backed ip name found with ⟨d, old, named, has⟩ | pending
    · exact .inl ⟨d, List.mem_cons_of_mem _ old, named, has⟩
    · exact .inr (List.mem_append_left _ pending)

theorem tracks_die {w : World} {c : Container} (tracks : Tracks w) (alive : c ∈ w.running) :
    Tracks { w with running := w.running.erase c, queue := w.queue ++ [.die c.name] } where
  subscribed := tracks.subscribed
  apart := tracks.apart.sublist List.erase_sublist
  served := by
    intro d member
    obtain ⟨distinct, old⟩ := (running_nodup tracks.apart).mem_erase_iff.mp member
    have renamed : c.name ≠ d.name := (apart_of_mem tracks.apart alive old (Ne.symm distinct)).2.1
    rcases tracks.served d old with awaited | ⟨clear, cached⟩
    · exact .inl (awaited_snoc awaited (by simpa using renamed))
    · refine .inr ⟨?_, cached⟩
      simp only [List.mem_append, List.mem_singleton, Message.die.injEq, not_or]
      exact ⟨clear, Ne.symm renamed⟩
  backed := by
    intro ip name found
    rcases tracks.backed ip name found with ⟨d, old, named, has⟩ | pending
    · by_cases same : d = c
      · subst same
        exact .inr (List.mem_append_right _ (by simp [named]))
      · exact .inl ⟨d, (running_nodup tracks.apart).mem_erase_iff.mpr ⟨same, old⟩, named, has⟩
    · exact .inr (List.mem_append_left _ pending)

theorem tracks_inspect_running {w : World} {c : Container} {queue : List Message}
    (tracks : Tracks w) (idle : w.hand = none) (head : w.queue = .start c.id :: queue)
    (alive : c ∈ w.running) : Tracks { w with queue := queue, hand := some c.info } where
  subscribed := tracks.subscribed
  apart := tracks.apart
  served := by
    intro d member
    have before := tracks.served d member
    simp only [World.seen, idle, head] at before
    simp only [World.seen, lookup_handleStart]
    by_cases same : d = c
    · subst same
      have written (clear : Message.die d.name ∉ queue) : Awaited d queue ∨
          Message.die d.name ∉ queue ∧
            ∀ ip ∈ d.ips, (if ip ∈ d.ips then some d.name else w.cache.lookup ip) = some d.name :=
        .inr ⟨clear, fun ip has => if_pos has⟩
      rcases before with awaited | ⟨clear, _⟩
      · rcases awaited_tail awaited with later | ⟨_, clear⟩
        · exact .inl later
        · exact written clear
      · exact written fun pending => clear (List.mem_cons_of_mem _ pending)
    · have apart := apart_of_mem tracks.apart member alive same
      rcases before with awaited | ⟨clear, cached⟩
      · rcases awaited_tail awaited with later | ⟨taken, _⟩
        · exact .inl later
        · exact absurd (Message.start.inj taken).symm apart.1
      · refine .inr ⟨fun pending => clear (List.mem_cons_of_mem _ pending), ?_⟩
        intro ip has
        rw [if_neg (apart.2.2 ip has)]
        exact cached ip has
  backed := by
    intro ip name found
    simp only [World.seen, lookup_handleStart] at found
    by_cases has : ip ∈ c.ips
    · rw [if_pos has] at found
      exact .inl ⟨c, alive, Option.some.inj found, has⟩
    · rw [if_neg has] at found
      have entry : w.seen.lookup ip = some name := by
        simp only [World.seen, idle]
        exact found
      rcases tracks.backed ip name entry with serves | pending
      · exact .inl serves
      · rw [head] at pending
        exact .inr (by simpa using pending)

theorem tracks_inspect_gone {w : World} {id : String} {queue : List Message} {hand : Option Info}
    (tracks : Tracks w) (idle : w.hand = none) (head : w.queue = .start id :: queue)
    (stopped : ∀ c ∈ w.running, c.id ≠ id)
    (empty : ∀ info ∈ hand, ∀ net ∈ info.networks, net = none) :
    Tracks { w with queue := queue, hand := hand } := by
  have same (ip : String) :
      (World.seen { w with queue := queue, hand := hand }).lookup ip = w.seen.lookup ip := by
    simp only [World.seen, idle]
    cases hand with
    | none => rfl
    | some info => exact lookup_handleStart_gone (empty info rfl) ip w.cache
  constructor
  · exact tracks.subscribed
  · exact tracks.apart
  · intro c member
    simp only [same]
    have before := tracks.served c member
    rw [head] at before
    rcases before with awaited | ⟨clear, cached⟩
    · rcases awaited_tail awaited with later | ⟨taken, _⟩
      · exact .inl later
      · exact absurd (Message.start.inj taken).symm (stopped c member)
    · exact .inr ⟨fun pending => clear (List.mem_cons_of_mem _ pending), cached⟩
  · intro ip name found
    rw [same] at found
    rcases tracks.backed ip name found with serves | pending
    · exact .inl serves
    · rw [head] at pending
      exact .inr (by simpa using pending)

theorem tracks_inspect {w : World} {id : String} {gone : Option Info} {queue : List Message}
    {hand : Option Info} (tracks : Tracks w) (idle : w.hand = none)
    (head : w.queue = .start id :: queue) (answer : w.inspect id gone = some hand) :
    Tracks { w with queue := queue, hand := hand } := by
  unfold World.inspect at answer
  split at answer
  · rename_i c found
    cases answer
    have named : c.id = id := by simpa using List.find?_some found
    subst named
    exact tracks_inspect_running tracks idle head (List.mem_of_find?_eq_some found)
  · rename_i missing
    have stopped : ∀ c ∈ w.running, c.id ≠ id := by
      intro c member
      simpa using List.find?_eq_none.mp missing c member
    split at answer
    · cases answer
      exact tracks_inspect_gone tracks idle head stopped (by simp)
    · rename_i info
      split at answer
      · rename_i empty
        cases answer
        refine tracks_inspect_gone tracks idle head stopped ?_
        intro other same
        cases same
        exact empty
      · cases answer

theorem tracks_update {w : World} {info : Info} (tracks : Tracks w) (held : w.hand = some info) :
    Tracks { w with hand := none, cache := handleStart info w.cache } := by
  have same : World.seen { w with hand := none, cache := handleStart info w.cache } = w.seen := by
    simp only [World.seen, held]
  constructor
  · exact tracks.subscribed
  · exact tracks.apart
  · rw [same]
    exact tracks.served
  · rw [same]
    exact tracks.backed

theorem tracks_delete {w : World} {name : String} {queue : List Message} {order : List String}
    (tracks : Tracks w) (idle : w.hand = none) (head : w.queue = .die name :: queue)
    (visit : Enumerates order w.cache) :
    Tracks { w with queue := queue, cache := handleDie name order w.cache } := by
  have left (ip : String) :
      (World.seen { w with queue := queue, cache := handleDie name order w.cache }).lookup ip =
        (w.seen.lookup ip).filter fun n => !decide (n = name) := by
    simp only [World.seen, idle]
    exact lookup_handleDie visit name ip
  constructor
  · exact tracks.subscribed
  · exact tracks.apart
  · intro c member
    have before := tracks.served c member
    rw [head] at before
    rcases before with awaited | ⟨clear, cached⟩
    · rcases awaited_tail awaited with later | ⟨taken, _⟩
      · exact .inl later
      · cases taken
    · simp only [List.mem_cons, Message.die.injEq, not_or] at clear
      refine .inr ⟨clear.2, ?_⟩
      intro ip has
      rw [left, cached ip has]
      simp [Option.filter, clear.1]
  · intro ip other found
    rw [left, Option.filter_eq_some_iff] at found
    rcases tracks.backed ip other found.1 with serves | pending
    · exact .inl serves
    · have distinct : other ≠ name := by simpa using found.2
      rw [head, List.mem_cons] at pending
      rcases pending with same | later
      · exact absurd (Message.die.inj same) distinct
      · exact .inr later

theorem tracks_step {w w' : World} {a : Action} {out : List Unit} (tracks : Tracks w)
    (taken : step w a = some (w', out)) : Tracks w' := by
  have notified := notify_subscribed tracks.subscribed
  have begun (stage : Stage) (early : stage ≠ .watching ∧ stage ≠ .stopped) : w.stage ≠ stage := by
    rintro rfl
    exact tracks.subscribed.elim early.1 early.2
  rcases step_cases taken with ⟨c, _, free, rfl⟩ | ⟨c, _, alive, rfl⟩ | ⟨order, _, created, _⟩ |
    ⟨items, _, listed, _⟩ | ⟨_, filled, _⟩ |
    ⟨gone, id, queue, hand, _, _, idle, head, answer, rfl⟩ | ⟨info, _, held, rfl⟩ |
    ⟨order, name, queue, _, _, idle, visit, head, rfl⟩ | ⟨_, _, _, rfl⟩
  · rw [notified]
    exact tracks_start tracks free
  · rw [notified]
    exact tracks_die tracks alive
  · exact absurd created (begun .created ⟨by simp, by simp⟩)
  · exact absurd listed (begun (.listed items) ⟨by simp, by simp⟩)
  · exact absurd filled (begun .filled ⟨by simp, by simp⟩)
  · exact tracks_inspect tracks idle head answer
  · exact tracks_update tracks held
  · exact tracks_delete tracks idle head visit
  · exact ⟨.inr rfl, tracks.apart, tracks.served, tracks.backed⟩

theorem exact_of_tracks {w : World} (tracks : Tracks w) (settled : Settled w) : Exact w := by
  have whole : w.seen = w.cache := by simp only [World.seen, settled.2]
  intro ip name
  constructor
  · intro found
    rcases tracks.backed ip name (whole ▸ found) with serves | pending
    · exact serves
    · rw [settled.1] at pending
      cases pending
  · rintro ⟨c, member, rfl, has⟩
    rcases tracks.served c member with ⟨before, after, queued, _⟩ | ⟨_, cached⟩
    · rw [settled.1] at queued
      simp at queued
    · exact whole ▸ cached ip has

/-- The moment the subscription opens on a cache that holds exactly what is running. -/
structure Opened (w : World) : Prop where
  watching : w.stage = .watching
  settled : Settled w
  apart : w.running.Pairwise Container.Apart
  exact : Exact w

theorem tracks_opened {w : World} (opened : Opened w) : Tracks w := by
  have whole : w.seen = w.cache := by simp only [World.seen, opened.settled.2]
  constructor
  · exact .inl opened.watching
  · exact opened.apart
  · intro c member
    rw [whole, opened.settled.1]
    exact .inr ⟨List.not_mem_nil, fun ip has => (opened.exact ip c.name).mpr ⟨c, member, rfl, has⟩⟩
  · intro ip name found
    exact .inl ((opened.exact ip name).mp (whole ▸ found))

theorem isInternal_iff {w : World} (exact : Exact w) (ip : String) :
    w.cache.isInternal ip = true ↔ ∃ c ∈ w.running, ip ∈ c.ips := by
  rw [Cache.isInternal, Option.isSome_iff_exists]
  constructor
  · rintro ⟨name, found⟩
    obtain ⟨c, member, _, has⟩ := (exact ip name).mp found
    exact ⟨c, member, has⟩
  · rintro ⟨c, member, has⟩
    exact ⟨c.name, (exact ip c.name).mpr ⟨c, member, rfl, has⟩⟩

theorem resolve_running {w : World} (exact : Exact w) {c : Container} (member : c ∈ w.running)
    {ip : String} (has : ip ∈ c.ips) : w.cache.resolve ip = c.name := by
  have found : w.cache.lookup ip = some c.name := (exact ip c.name).mpr ⟨c, member, rfl, has⟩
  simp only [Cache.resolve, found]

theorem resolve_unknown {w : World} (exact : Exact w) {ip : String}
    (unknown : ∀ c ∈ w.running, ip ∉ c.ips) : w.cache.resolve ip = ip := by
  have missing : w.cache.lookup ip = none := by
    rw [Option.eq_none_iff_forall_ne_some]
    intro name found
    obtain ⟨c, member, _, has⟩ := (exact ip name).mp found
    exact unknown c member has
  simp only [Cache.resolve, missing]

theorem exact_of_run {w w' : World} {actions : List Action} {out : List Unit} (opened : Opened w)
    (run : exec step w actions = some (w', out)) (settled : Settled w') : Exact w' :=
  exact_of_tracks (exec_keeps tracks_step (tracks_opened opened) run) settled

/-- Starts, deaths and restarts in any order and any lag: whenever everything has been
    processed the cache is the truth, and both questions are answered by it. -/
theorem cache_converges {w w' : World} {actions : List Action} {out : List Unit}
    (opened : Opened w) (run : exec step w actions = some (w', out)) (settled : Settled w') :
    Exact w' ∧
      (∀ ip, w'.cache.isInternal ip = true ↔ ∃ c ∈ w'.running, ip ∈ c.ips) ∧
      (∀ c ∈ w'.running, ∀ ip ∈ c.ips, w'.cache.resolve ip = c.name) ∧
      ∀ ip, (∀ c ∈ w'.running, ip ∉ c.ips) → w'.cache.resolve ip = ip := by
  have exact := exact_of_run opened run settled
  refine ⟨exact, isInternal_iff exact, ?_, ?_⟩
  · intro c member ip has
    exact resolve_running exact member has
  · intro ip unknown
    exact resolve_unknown exact unknown

def serviceA : Container := ⟨"c1", "service-a", ["172.19.0.3"]⟩
def serviceARestarted : Container := ⟨"c1", "service-a", ["172.19.0.4"]⟩
def serviceB : Container := ⟨"c2", "service-b", ["172.19.0.3"]⟩

/- The restart comes back under another address and a second container takes the old one
   before the first event is handled. -/
def restartBeforeHandling : List Action :=
  [.start serviceA, .die serviceA, .start serviceARestarted, .start serviceB, .inspect none,
    .update, .delete ["172.19.0.4"], .inspect none, .update, .inspect none, .update]

def watchingNothing : World := ⟨[], .watching, [], none, ∅⟩

theorem opened_on_nothing : Opened watchingNothing where
  watching := rfl
  settled := ⟨rfl, rfl⟩
  apart := List.Pairwise.nil
  exact := by
    intro ip name
    constructor
    · intro found
      rw [watchingNothing, Finmap.lookup_empty] at found
      cases found
    · rintro ⟨c, member, _⟩
      cases member

theorem late_handling_converges :
    ∃ w out, exec step watchingNothing restartBeforeHandling = some (w, out) ∧
      w.cache.lookup "172.19.0.3" = some "service-b" ∧
      (∀ c ∈ w.running, ∀ ip ∈ c.ips, w.cache.resolve ip = c.name) :=
  ⟨_, _, rfl, rfl,
    (@cache_converges _ _ _ _ opened_on_nothing (rfl : exec step watchingNothing
      restartBeforeHandling = some _) ⟨rfl, rfl⟩).2.2.1⟩

end CollectorResolver
