import MicroTrace.Library.RangeLoops

/- Tables filled one pair after the other. A pair is refused if it is not valid or if its key
   has another value already, and the first pair refused ends the loop. The result depends on
   which pairs there are, not on their order. -/
namespace Filling
open RangeLoops

variable {K V E : Type}

def fill (add : GoMap K V → K → V → Except E (GoMap K V)) :
    List (K × V) → GoMap K V → Except E (GoMap K V)
  | [], table => .ok table
  | (k, v) :: rest, table => (add table k v).bind (fill add rest)

theorem fill_bind_iff {add : GoMap K V → K → V → Except E (GoMap K V)} {next : GoMap K V}
    {rest : List (K × V)} {e : Except E (GoMap K V)} :
    e.bind (fill add rest) = .ok next ↔
      ∃ first, e = .ok first ∧ fill add rest first = .ok next := by
  cases e with
  | error e => exact ⟨nofun, nofun⟩
  | ok first => simp [Except.bind]

theorem fill_append {add : GoMap K V → K → V → Except E (GoMap K V)} {table : GoMap K V}
    {pairs pairs' : List (K × V)} :
    fill add (pairs ++ pairs') table = (fill add pairs table).bind (fill add pairs') := by
  induction pairs generalizing table with
  | nil => rfl
  | cons pair rest ih =>
    rw [List.cons_append, fill, fill]
    cases add table pair.1 pair.2 with
    | error e => rfl
    | ok first => exact ih

variable [DecidableEq K]

def Adds (valid : K → V → Prop) (add : GoMap K V → K → V → Except E (GoMap K V)) : Prop :=
  ∀ table k v next, add table k v = .ok next ↔
    valid k v ∧ (∀ w, table.lookup k = some w → w = v) ∧ next = table.insert k v

def Given (table : GoMap K V) (pairs : List (K × V)) (k : K) (v : V) : Prop :=
  table.lookup k = some v ∨ (k, v) ∈ pairs

def Single (given : K → V → Prop) : Prop := ∀ k v w, given k v → given k w → v = w

variable {valid : K → V → Prop} {add : GoMap K V → K → V → Except E (GoMap K V)}
  {table next : GoMap K V} {pairs rest : List (K × V)} {k : K} {v : V}

theorem given_insert (free : ∀ w, table.lookup k = some w → w = v) :
    Given (table.insert k v) rest = Given table ((k, v) :: rest) := by
  funext j w
  apply propext
  unfold Given
  by_cases same : j = k
  · subst same
    simp only [Finmap.lookup_insert, Option.some.injEq, List.mem_cons, Prod.mk.injEq, true_and]
    constructor
    · rintro (rfl | later)
      · exact .inr (.inl rfl)
      · exact .inr (.inr later)
    · rintro (held | rfl | later)
      · exact .inl (free w held).symm
      · exact .inl rfl
      · exact .inr later
  · simp [Finmap.lookup_insert_of_ne table same, same]

theorem fill_ok_iff (adds : Adds valid add) :
    (∃ next, fill add pairs table = .ok next) ↔
      (∀ k v, (k, v) ∈ pairs → valid k v) ∧ Single (Given table pairs) := by
  induction pairs generalizing table with
  | nil =>
    refine ⟨fun _ => ⟨nofun, ?_⟩, fun _ => ⟨table, rfl⟩⟩
    rintro k v w (one | none) (other | none)
    · exact Option.some.inj (one.symm.trans other)
    all_goals cases none
  | cons pair rest ih =>
    obtain ⟨k, v⟩ := pair
    simp only [fill, fill_bind_iff]
    constructor
    · rintro ⟨next, first, added, later⟩
      obtain ⟨good, free, rfl⟩ := (adds table k v first).mp added
      obtain ⟨goods, single⟩ := ih.mp ⟨next, later⟩
      rw [given_insert free] at single
      refine ⟨?_, single⟩
      intro j w member
      rcases List.mem_cons.mp member with eq | later
      · cases eq
        exact good
      · exact goods j w later
    · rintro ⟨goods, single⟩
      have free : ∀ w, table.lookup k = some w → w = v :=
        fun w held => single k w v (.inl held) (.inr List.mem_cons_self)
      obtain ⟨next, later⟩ := ih.mpr
        ⟨fun j w later => goods j w (List.mem_cons_of_mem _ later), given_insert free ▸ single⟩
      exact ⟨next, _, (adds table k v _).mpr ⟨goods k v List.mem_cons_self, free, rfl⟩, later⟩

theorem lookup_filled (adds : Adds valid add) (filled : fill add pairs table = .ok next) (j : K)
    (w : V) : next.lookup j = some w ↔ Given table pairs j w := by
  induction pairs generalizing table with
  | nil =>
    cases filled
    simp [Given]
  | cons pair rest ih =>
    obtain ⟨k, v⟩ := pair
    obtain ⟨first, added, later⟩ := fill_bind_iff.mp filled
    obtain ⟨_, free, rfl⟩ := (adds table k v first).mp added
    rw [ih later, given_insert free]

theorem filled_from_empty (adds : Adds valid add) (filled : fill add pairs ∅ = .ok next) (k : K)
    (v : V) : next.lookup k = some v ↔ (k, v) ∈ pairs := by
  simpa [Given] using lookup_filled adds filled k v

theorem filled_nothing (adds : Adds valid add) (filled : fill add pairs ∅ = .ok next) :
    next.keys.card = 0 ↔ pairs = [] := by
  rw [Finset.card_eq_zero, Finset.eq_empty_iff_forall_notMem, List.eq_nil_iff_forall_not_mem]
  constructor
  · intro none pair member
    have found := (filled_from_empty adds filled pair.1 pair.2).mpr member
    exact none pair.1 (Finmap.mem_keys.mpr (Finmap.mem_of_lookup_eq_some found))
  · intro none k key
    obtain ⟨v, found⟩ := Finmap.mem_iff.mp (Finmap.mem_keys.mp key)
    exact none (k, v) ((filled_from_empty adds filled k v).mp found)

theorem fill_order (adds : Adds valid add) {pairs' : List (K × V)}
    (same : ∀ k v, (k, v) ∈ pairs ↔ (k, v) ∈ pairs') (filled : fill add pairs table = .ok next) :
    fill add pairs' table = .ok next := by
  have given : Given table pairs = Given table pairs' := by
    funext k v
    rw [Given, Given, same]
  have ok := (fill_ok_iff adds).mp ⟨next, filled⟩
  simp only [given, same] at ok
  obtain ⟨other, filled'⟩ := (fill_ok_iff adds).mpr ok
  have equal : other = next := by
    apply Finmap.ext_lookup
    intro k
    apply Option.ext
    intro v
    rw [lookup_filled adds filled', lookup_filled adds filled, given]
  rw [filled', equal]

end Filling
