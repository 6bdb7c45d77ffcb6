import MicroTrace.Resolver.Convergence

/- From NewDockerResolver to the open subscription. The list answers for one moment and the
   subscription delivers from a later one; what happens to containers in between reaches the
   resolver by neither way. -/
namespace CollectorResolver
open RangeLoops Runs

theorem lookup_refreshAll {order : List Container} (apart : order.Pairwise Container.Apart)
    (cache : Cache) (ip name : String) :
    (refreshAll (order.map Container.info) cache).lookup ip = some name ↔
      Serves order ip name ∨ (∀ c ∈ order, ip ∉ c.ips) ∧ cache.lookup ip = some name := by
  induction order generalizing cache with
  | nil => simp [refreshAll, Serves]
  | cons c order ih =>
    obtain ⟨first, rest⟩ := List.pairwise_cons.mp apart
    have next : refreshAll ((c :: order).map Container.info) cache =
        refreshAll (order.map Container.info) (handleStart c.info cache) := rfl
    rw [next, ih rest, lookup_handleStart]
    by_cases has : ip ∈ c.ips
    · have others : ∀ d ∈ order, ip ∉ d.ips := fun d member => (first d member).2.2 ip has
      have nobody : ¬ Serves order ip name := by
        rintro ⟨d, member, _, there⟩
        exact others d member there
      simp only [nobody, has, if_true, Option.some.injEq, false_or]
      constructor
      · rintro ⟨_, named⟩
        exact .inl ⟨c, List.mem_cons_self, named, has⟩
      · rintro (⟨d, member, named, there⟩ | ⟨absent, _⟩)
        · rcases List.mem_cons.mp member with rfl | later
          · exact ⟨others, named⟩
          · exact absurd there (others d later)
        · exact absurd has (absent c List.mem_cons_self)
    · simp only [has, if_false, Serves, List.exists_mem_cons_iff, List.forall_mem_cons, and_false,
        false_or, not_false_eq_true, true_and]

structure Fresh (w : World) : Prop where
  stage : w.stage = .created
  cache : w.cache = ∅
  queue : w.queue = []
  hand : w.hand = none
  apart : w.running.Pairwise Container.Apart

structure Prepared (items : Option (List Info)) (w : World) : Prop where
  progress : w.stage = .listed items ∧ w.cache = ∅ ∨
    w.stage = .filled ∧ w.cache = items.elim ∅ (refreshAll · ∅)
  queue : w.queue = []
  hand : w.hand = none
  apart : w.running.Pairwise Container.Apart

theorem fresh_new {running : List Container} (apart : running.Pairwise Container.Apart) :
    Fresh (World.new running) := ⟨rfl, rfl, rfl, rfl, apart⟩

theorem apart_start {w : World} {c : Container} (apart : w.running.Pairwise Container.Apart)
    (free : ∀ d ∈ w.running, c.Apart d) : (c :: w.running).Pairwise Container.Apart :=
  List.pairwise_cons.mpr ⟨free, apart⟩

theorem apart_die {w : World} {c : Container} (apart : w.running.Pairwise Container.Apart) :
    (w.running.erase c).Pairwise Container.Apart := apart.sublist List.erase_sublist

theorem fresh_step {w w' : World} {a : Action} {out : List Unit}
    (fresh : w.stage = .created → Fresh w) (taken : step w a = some (w', out)) :
    w'.stage = .created → Fresh w' := by
  intro created
  rcases step_cases taken with ⟨c, _, free, rfl⟩ | ⟨c, _, alive, rfl⟩ | ⟨order, _, _, _, rfl⟩ |
    ⟨items, _, _, rfl⟩ | ⟨_, _, rfl⟩ | ⟨gone, id, queue, hand, _, watching, _, _, _, rfl⟩ |
    ⟨info, _, held, rfl⟩ | ⟨order, name, queue, _, watching, _, _, _, rfl⟩ | ⟨_, _, _, rfl⟩
  · have before := fresh created
    have silent : w.notify (.start c.id) = w.queue := by simp only [World.notify, before.stage]
    exact ⟨created, before.cache, silent.trans before.queue, before.hand,
      apart_start before.apart free⟩
  · have before := fresh created
    have silent : w.notify (.die c.name) = w.queue := by simp only [World.notify, before.stage]
    exact ⟨created, before.cache, silent.trans before.queue, before.hand, apart_die before.apart⟩
  · cases created
  · cases created
  · cases created
  · rw [watching] at created
    cases created
  · rw [(fresh created).hand] at held
    cases held
  · rw [watching] at created
    cases created
  · cases created

theorem notify_prepared {items : Option (List Info)} {w : World} (prepared : Prepared items w)
    (m : Message) : w.notify m = [] := by
  rcases prepared.progress with ⟨stage, _⟩ | ⟨stage, _⟩
  · simp only [World.notify, stage, prepared.queue]
  · simp only [World.notify, stage, prepared.queue]

theorem prepared_not_watching {items : Option (List Info)} {w : World}
    (prepared : Prepared items w) : w.stage ≠ .watching ∧ w.stage ≠ .created := by
  rcases prepared.progress with ⟨stage, _⟩ | ⟨stage, _⟩
  · simp [stage]
  · simp [stage]

theorem prepared_step {items : Option (List Info)} {w w' : World} {a : Action} {out : List Unit}
    (prepared : Prepared items w) (taken : step w a = some (w', out)) :
    Prepared items w' ∨ w'.stage = .watching := by
  have early := prepared_not_watching prepared
  rcases step_cases taken with ⟨c, _, free, rfl⟩ | ⟨c, _, alive, rfl⟩ | ⟨order, _, created, _⟩ |
    ⟨others, _, listed, rfl⟩ | ⟨_, _, rfl⟩ | ⟨gone, id, queue, hand, _, watching, _⟩ |
    ⟨info, _, held, _⟩ | ⟨order, name, queue, _, watching, _⟩ | ⟨_, watching, _⟩
  · exact .inl ⟨prepared.progress, notify_prepared prepared _, prepared.hand,
      apart_start prepared.apart free⟩
  · exact .inl ⟨prepared.progress, notify_prepared prepared _, prepared.hand,
      apart_die prepared.apart⟩
  · exact absurd created early.2
  · rcases prepared.progress with ⟨stage, empty⟩ | ⟨stage, _⟩
    · rw [stage] at listed
      cases listed
      refine .inl ⟨.inr ⟨rfl, ?_⟩, prepared.queue, prepared.hand, prepared.apart⟩
      simp only [empty]
    · rw [stage] at listed
      cases listed
  · exact .inr rfl
  · exact absurd watching early.1
  · rw [prepared.hand] at held
    cases held
  · exact absurd watching early.1
  · exact absurd watching early.1

theorem subscribed_step {w w' : World} {a : Action} {out : List Unit}
    (subscribed : w.stage = .watching ∨ w.stage = .stopped)
    (taken : step w a = some (w', out)) : w'.stage = .watching ∨ w'.stage = .stopped := by
  have begun (stage : Stage) (early : stage ≠ .watching ∧ stage ≠ .stopped) : w.stage ≠ stage := by
    rintro rfl
    exact subscribed.elim early.1 early.2
  rcases step_cases taken with ⟨c, _, _, rfl⟩ | ⟨c, _, _, rfl⟩ | ⟨order, _, created, _⟩ |
    ⟨items, _, listed, _⟩ | ⟨_, _, rfl⟩ | ⟨gone, id, queue, hand, _, _, _, _, _, rfl⟩ |
    ⟨info, _, _, rfl⟩ | ⟨order, name, queue, _, _, _, _, _, rfl⟩ | ⟨_, _, _, rfl⟩
  · exact subscribed
  · exact subscribed
  · exact absurd created (begun .created ⟨by simp, by simp⟩)
  · exact absurd listed (begun (.listed items) ⟨by simp, by simp⟩)
  · exact .inl rfl
  · exact subscribed
  · exact subscribed
  · exact subscribed
  · exact .inr rfl

theorem prepared_run {items : Option (List Info)} {w w' : World} {actions : List Action}
    {out : List Unit} (prepared : Prepared items w) (run : exec step w actions = some (w', out)) :
    Prepared items w' ∨ w'.stage = .watching ∨ w'.stage = .stopped := by
  apply exec_keeps (I := fun w => Prepared items w ∨ w.stage = .watching ∨ w.stage = .stopped)
    _ (.inl prepared) run
  intro s t a o held taken
  rcases held with ready | subscribed
  · rcases prepared_step ready taken with still | watching
    · exact .inl still
    · exact .inr (.inl watching)
  · exact .inr (subscribed_step subscribed taken)

/-- One start of the resolver: what the daemon runs when it answers the list and when the
    subscription opens, with the runs that lead there. -/
structure StartUp (order : Option (List Container)) (asked opened : World) : Prop where
  listing : ∃ running actions out, running.Pairwise Container.Apart ∧
    exec step (World.new running) actions = some (asked, out)
  opening : ∃ answered filled actions out out' out'',
    step asked (.list order) = some (answered, out) ∧
      exec step answered actions = some (filled, out') ∧
      step filled .subscribe = some (opened, out'')

def Listed (order : Option (List Container)) (asked : World) (ip name : String) : Prop :=
  order.isSome = true ∧ Serves asked.running ip name

theorem serves_perm {order running : List Container} (same : order.Perm running)
    (ip name : String) : Serves order ip name ↔ Serves running ip name := by
  simp only [Serves, same.mem_iff]

theorem step_list {w w' : World} {order : Option (List Container)} {out : List Unit}
    (taken : step w (.list order) = some (w', out)) : w.stage = .created ∧
      (∀ o ∈ order, o.Perm w.running) ∧
      w' = { w with stage := .listed (order.map (·.map Container.info)) } := by
  simp only [step] at taken
  split at taken
  · rename_i guard
    cases taken
    exact ⟨guard.1, guard.2, rfl⟩
  · cases taken

theorem step_subscribe {w w' : World} {out : List Unit}
    (taken : step w .subscribe = some (w', out)) :
    w.stage = .filled ∧ w' = { w with stage := .watching } := by
  simp only [step] at taken
  split at taken
  · rename_i filled
    cases taken
    exact ⟨filled, rfl⟩
  · cases taken

theorem opened_with_list {order : Option (List Container)} {asked opened : World}
    (start : StartUp order asked opened) :
    opened.stage = .watching ∧ Settled opened ∧ opened.running.Pairwise Container.Apart ∧
      ∀ ip name, opened.cache.lookup ip = some name ↔ Listed order asked ip name := by
  obtain ⟨running, before, _, apart, asking⟩ := start.listing
  obtain ⟨answered, filled, between, _, _, _, list, run, subscribe⟩ := start.opening
  obtain ⟨created, all, rfl⟩ := step_list list
  obtain ⟨stage, rfl⟩ := step_subscribe subscribe
  have fresh : Fresh asked := exec_keeps (I := fun w => w.stage = .created → Fresh w) fresh_step
    (fun _ => fresh_new apart) asking created
  have answer : Prepared (order.map (·.map Container.info))
      { asked with stage := .listed (order.map (·.map Container.info)) } :=
    ⟨.inl ⟨rfl, fresh.cache⟩, fresh.queue, fresh.hand, fresh.apart⟩
  rcases prepared_run answer run with ready | watching | stopped
  · refine ⟨rfl, ⟨ready.queue, ready.hand⟩, ready.apart, ?_⟩
    intro ip name
    rcases ready.progress with ⟨listed, _⟩ | ⟨_, cache⟩
    · rw [stage] at listed
      cases listed
    · simp only [cache]
      cases order with
      | none => simp [Listed]
      | some items =>
        have same : items.Perm asked.running := all items rfl
        have listed := lookup_refreshAll (fresh.apart.perm same.symm apart_symm) ∅ ip name
        simp only [Finmap.lookup_empty, reduceCtorEq, and_false, or_false] at listed
        simp only [Listed, Option.isSome_some, true_and, ← serves_perm same, ← listed]
        rfl
  · rw [stage] at watching
    cases watching
  · rw [stage] at stopped
    cases stopped

/-- In every run behind a start-up the cache is the truth whenever everything delivered has
    been handled, exactly when the addresses and names running as the subscription opens are
    those of the list. -/
theorem startup_exact_iff {order : Option (List Container)} {asked opened : World}
    (start : StartUp order asked opened) (actions : List Action) :
    (∀ handled later w out, actions = handled ++ later →
        exec step opened handled = some (w, out) → Settled w → Exact w) ↔
      ∀ ip name, Listed order asked ip name ↔ Serves opened.running ip name := by
  obtain ⟨watching, settled, apart, cached⟩ := opened_with_list start
  constructor
  · intro exact ip name
    rw [← cached]
    exact exact [] actions opened [] rfl rfl settled ip name
  · intro same handled later w out _ run quiet
    have exact : Exact opened := fun ip name => (cached ip name).trans (same ip name)
    exact exact_of_run ⟨watching, settled, apart, exact⟩ run quiet

def serviceARecreated : Container := ⟨"c9", "service-a", ["172.19.0.3"]⟩

/-- Listed, then recreated under the same name and address before the subscription opens. -/
theorem recreated_in_the_gap : ∃ asked opened, StartUp (some [serviceA]) asked opened ∧
    opened.running = [serviceARecreated] ∧
    ∀ handled later w out,
      [Action.die serviceARecreated, .delete ["172.19.0.3"]] = handled ++ later →
      exec step opened handled = some (w, out) → Settled w → Exact w := by
  have start : StartUp (some [serviceA]) (World.new [serviceA])
      ⟨[serviceARecreated], .watching, [], none, refreshAll [serviceA.info] ∅⟩ :=
    ⟨⟨[serviceA], [], [], List.pairwise_singleton _ _, rfl⟩,
      _, _, [.die serviceA, .fill, .start serviceARecreated], _, _, _, rfl, rfl, rfl⟩
  refine ⟨_, _, start, rfl, (startup_exact_iff start _).mpr ?_⟩
  intro ip name
  simp [Listed, Serves, World.new, serviceA, serviceARecreated]

theorem started_in_the_gap_is_missed :
    ¬ ∀ (order : Option (List Container)) (asked opened w : World) (actions : List Action)
        (out : List Unit), StartUp order asked opened →
      exec step opened actions = some (w, out) → Settled w → Exact w := by
  intro claim
  have exact := claim (some []) (World.new []) _ _ [] _
    ⟨⟨[], [], [], List.Pairwise.nil, rfl⟩,
      _, _, [.fill, .start serviceA], _, _, _, rfl, rfl, rfl⟩ rfl ⟨rfl, rfl⟩
  have found := (exact "172.19.0.3" "service-a").mpr
    ⟨serviceA, List.mem_singleton_self _, rfl, List.mem_singleton_self _⟩
  revert found
  decide

end CollectorResolver
