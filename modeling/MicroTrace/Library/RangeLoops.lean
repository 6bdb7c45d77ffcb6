import Mathlib.Data.Finmap

/- Loops that range over a finite map. A range visits every key of the map exactly once,
   in an order the runtime chooses, so a loop takes that order as an argument and every
   result below holds for all orders. -/
namespace RangeLoops

variable {K V A : Type} [DecidableEq K]

abbrev GoMap (K V : Type) := Finmap fun _ : K => V

def Enumerates (order : List K) (m : GoMap K V) : Prop :=
  order.Nodup ∧ order.toFinset = m.keys

instance (order : List K) (m : GoMap K V) : Decidable (Enumerates order m) :=
  inferInstanceAs (Decidable (_ ∧ _))

def updateAt (f : K → V → V) (m : GoMap K V) (k : K) : GoMap K V :=
  match m.lookup k with
  | some v => m.insert k (f k v)
  | none => m

def deleteAt (drop : K → V → Bool) (m : GoMap K V) (k : K) : GoMap K V :=
  match m.lookup k with
  | some v => if drop k v then m.erase k else m
  | none => m

def rangeUpdate (f : K → V → V) (order : List K) (m : GoMap K V) : GoMap K V :=
  order.foldl (updateAt f) m

def rangeDelete (drop : K → V → Bool) (order : List K) (m : GoMap K V) : GoMap K V :=
  order.foldl (deleteAt drop) m

def rangeCollect (f : K → V → Option A) (order : List K) (m : GoMap K V) : List A :=
  order.filterMap fun k => (m.lookup k).bind (f k)

theorem enumerates_mem {order : List K} {m : GoMap K V} (visit : Enumerates order m) (k : K) :
    k ∈ order ↔ k ∈ m := by
  rw [← List.mem_toFinset, visit.2, Finmap.mem_keys]

theorem exists_enumeration (m : GoMap K V) : ∃ order, Enumerates order m :=
  ⟨m.keys.toList, m.keys.nodup_toList, m.keys.toList_toFinset⟩

theorem lookup_updateAt_self (f : K → V → V) (m : GoMap K V) (k : K) :
    (updateAt f m k).lookup k = (m.lookup k).map (f k) := by
  unfold updateAt
  split
  · rename_i v found
    simp [found]
  · rename_i missing
    simp [missing]

theorem lookup_updateAt_of_ne (f : K → V → V) (m : GoMap K V) {j k : K} (other : j ≠ k) :
    (updateAt f m k).lookup j = m.lookup j := by
  unfold updateAt
  split
  · exact Finmap.lookup_insert_of_ne m other
  · rfl

theorem lookup_deleteAt_self (drop : K → V → Bool) (m : GoMap K V) (k : K) :
    (deleteAt drop m k).lookup k = (m.lookup k).filter fun v => !drop k v := by
  unfold deleteAt
  split
  · rename_i v found
    cases dropped : drop k v <;> simp [found, Option.filter, dropped]
  · rename_i missing
    simp [missing]

theorem lookup_deleteAt_of_ne (drop : K → V → Bool) (m : GoMap K V) {j k : K} (other : j ≠ k) :
    (deleteAt drop m k).lookup j = m.lookup j := by
  unfold deleteAt
  split
  · split
    · exact Finmap.lookup_erase_ne other
    · rfl
  · rfl

section Fold

variable {act : GoMap K V → K → GoMap K V} {g : K → Option V → Option V}
  (self : ∀ m k, (act m k).lookup k = g k (m.lookup k))
  (frame : ∀ m {j k : K}, j ≠ k → (act m k).lookup j = m.lookup j)

include frame in
theorem lookup_fold_of_not_mem {order : List K} {m : GoMap K V} {k : K} (absent : k ∉ order) :
    (order.foldl act m).lookup k = m.lookup k := by
  induction order generalizing m with
  | nil => rfl
  | cons j order ih =>
    simp only [List.mem_cons, not_or] at absent
    rw [List.foldl_cons, ih absent.2, frame m absent.1]

include self frame in
/- Each visit touches its own key only, so after a range every visited key has been
   treated exactly once. -/
theorem lookup_fold_of_mem {order : List K} {m : GoMap K V} {k : K} (nodup : order.Nodup)
    (mem : k ∈ order) : (order.foldl act m).lookup k = g k (m.lookup k) := by
  induction order generalizing m with
  | nil => simp at mem
  | cons j order ih =>
    obtain ⟨fresh, rest⟩ := List.nodup_cons.mp nodup
    rw [List.foldl_cons]
    rcases List.mem_cons.mp mem with same | later
    · subst k
      rw [lookup_fold_of_not_mem frame fresh, self]
    · have other : k ≠ j := fun eq => fresh (eq ▸ later)
      rw [ih rest later, frame m other]

end Fold

theorem lookup_rangeUpdate (f : K → V → V) {order : List K} {m : GoMap K V}
    (visit : Enumerates order m) (k : K) :
    (rangeUpdate f order m).lookup k = (m.lookup k).map (f k) := by
  by_cases mem : k ∈ m
  · exact lookup_fold_of_mem (g := fun k => Option.map (f k)) (lookup_updateAt_self f)
      (lookup_updateAt_of_ne f) visit.1 ((enumerates_mem visit k).mpr mem)
  · have absent : k ∉ order := fun h => mem ((enumerates_mem visit k).mp h)
    rw [rangeUpdate, lookup_fold_of_not_mem (lookup_updateAt_of_ne f) absent,
      Finmap.lookup_eq_none.mpr mem]
    rfl

theorem lookup_rangeDelete (drop : K → V → Bool) {order : List K} {m : GoMap K V}
    (visit : Enumerates order m) (k : K) :
    (rangeDelete drop order m).lookup k = (m.lookup k).filter fun v => !drop k v := by
  by_cases mem : k ∈ m
  · exact lookup_fold_of_mem (g := fun k => Option.filter fun v => !drop k v)
      (lookup_deleteAt_self drop) (lookup_deleteAt_of_ne drop) visit.1
      ((enumerates_mem visit k).mpr mem)
  · have absent : k ∉ order := fun h => mem ((enumerates_mem visit k).mp h)
    rw [rangeDelete, lookup_fold_of_not_mem (lookup_deleteAt_of_ne drop) absent,
      Finmap.lookup_eq_none.mpr mem]
    rfl

theorem mem_rangeUpdate (f : K → V → V) {order : List K} {m : GoMap K V}
    (visit : Enumerates order m) (k : K) : k ∈ rangeUpdate f order m ↔ k ∈ m := by
  rw [← Finmap.lookup_isSome, ← Finmap.lookup_isSome, lookup_rangeUpdate f visit,
    Option.isSome_map]

theorem filter_rangeCollect_of (f : K → V → Option A) (q : A → Bool) {order : List K}
    {m : GoMap K V} (visit : Enumerates order m) {k : K}
    (own : ∀ j v a, m.lookup j = some v → f j v = some a → (q a = true ↔ j = k)) :
    (rangeCollect f order m).filter q = ((m.lookup k).bind (f k)).toList := by
  have general : ∀ order : List K, order.Nodup →
      (order.filterMap fun j => (m.lookup j).bind (f j)).filter q =
        if k ∈ order then ((m.lookup k).bind (f k)).toList else [] := by
    intro order nodup
    induction order with
    | nil => rfl
    | cons j order ih =>
      obtain ⟨fresh, rest⟩ := List.nodup_cons.mp nodup
      have tail := ih rest
      rw [List.filterMap_cons]
      by_cases same : k = j
      · subst same
        rw [if_neg fresh] at tail
        cases got : (m.lookup k).bind (f k) with
        | none => simp [tail]
        | some a =>
          obtain ⟨v, found, made⟩ := Option.bind_eq_some_iff.mp got
          simp [(own k v a found made).mpr rfl, tail]
      · have mine : (k ∈ j :: order) = (k ∈ order) := by simp [same]
        simp only [mine]
        cases got : (m.lookup j).bind (f j) with
        | none => simpa using tail
        | some a =>
          obtain ⟨v, found, made⟩ := Option.bind_eq_some_iff.mp got
          have foreign : ¬ q a = true := fun mark => same ((own j v a found made).mp mark).symm
          simpa [foreign] using tail
  rw [rangeCollect, general order visit.1]
  split
  · rfl
  · rename_i absent
    have missing : k ∉ m := fun h => absent ((enumerates_mem visit k).mpr h)
    simp [Finmap.lookup_eq_none.mpr missing]

theorem filter_rangeCollect (f : K → V → Option A) (owner : A → K) {order : List K}
    {m : GoMap K V} (visit : Enumerates order m)
    (own : ∀ k v a, f k v = some a → owner a = k) (k : K) :
    (rangeCollect f order m).filter (fun a => owner a = k) =
      ((m.lookup k).bind (f k)).toList := by
  apply filter_rangeCollect_of f _ visit
  intro j v a _ made
  simp [own j v a made]

theorem mem_rangeCollect (f : K → V → Option A) {order : List K} {m : GoMap K V}
    (visit : Enumerates order m) (a : A) :
    a ∈ rangeCollect f order m ↔ ∃ k v, m.lookup k = some v ∧ f k v = some a := by
  simp only [rangeCollect, List.mem_filterMap, Option.bind_eq_some_iff]
  constructor
  · rintro ⟨k, _, v, found, made⟩
    exact ⟨k, v, found, made⟩
  · rintro ⟨k, v, found, made⟩
    exact ⟨k, (enumerates_mem visit k).mpr (Finmap.mem_of_lookup_eq_some found), v, found, made⟩

end RangeLoops
