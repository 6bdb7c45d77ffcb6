import Mathlib.Data.List.Induction

/- Runs of a partial step function. A label carries every choice the environment makes
   (arrival order, clock readings, the iteration order of a map), so a run is a list of
   labels. A step may refuse a label, and it emits the outputs it produces in order. -/
namespace Runs

variable {State Label Out : Type}

abbrev Stepper (State Label Out : Type) := State → Label → Option (State × List Out)

def exec (step : Stepper State Label Out) : Stepper State (List Label) Out
  | s, [] => some (s, [])
  | s, l :: ls => (step s l).bind fun first =>
      (exec step first.1 ls).map fun last => (last.1, first.2 ++ last.2)

variable {step : Stepper State Label Out}

theorem exec_nil_iff {s t : State} {out : List Out} :
    exec step s [] = some (t, out) ↔ t = s ∧ out = [] := by
  simp only [exec, Option.some.injEq, Prod.mk.injEq]
  exact ⟨fun h => ⟨h.1.symm, h.2.symm⟩, fun h => ⟨h.1.symm, h.2.symm⟩⟩

theorem exec_cons_iff {s u : State} {l : Label} {ls : List Label} {out : List Out} :
    exec step s (l :: ls) = some (u, out) ↔
      ∃ t now later, step s l = some (t, now) ∧ exec step t ls = some (u, later) ∧
        out = now ++ later := by
  constructor
  · intro run
    simp only [exec, Option.bind_eq_some_iff, Option.map_eq_some_iff] at run
    obtain ⟨⟨t, now⟩, first, ⟨v, later⟩, rest, eq⟩ := run
    simp only [Prod.mk.injEq] at eq
    obtain ⟨rfl, rfl⟩ := eq
    exact ⟨t, now, later, first, rest, rfl⟩
  · rintro ⟨t, now, later, first, rest, rfl⟩
    simp [exec, first, rest]

theorem exec_append_iff {s u : State} {as bs : List Label} {out : List Out} :
    exec step s (as ++ bs) = some (u, out) ↔
      ∃ t now later, exec step s as = some (t, now) ∧ exec step t bs = some (u, later) ∧
        out = now ++ later := by
  induction as generalizing s out with
  | nil =>
    constructor
    · intro run
      exact ⟨s, [], out, rfl, run, rfl⟩
    · rintro ⟨t, now, later, first, rest, rfl⟩
      obtain ⟨rfl, rfl⟩ := exec_nil_iff.mp first
      exact rest
  | cons a as ih =>
    constructor
    · intro run
      obtain ⟨t, o, o', first, rest, rfl⟩ := exec_cons_iff.mp run
      obtain ⟨v, p, q, left, right, rfl⟩ := ih.mp rest
      exact ⟨v, o ++ p, q, exec_cons_iff.mpr ⟨t, o, p, first, left, rfl⟩, right,
        (List.append_assoc o p q).symm⟩
    · rintro ⟨v, now, q, left, right, rfl⟩
      obtain ⟨t, o, p, first, rest, rfl⟩ := exec_cons_iff.mp left
      exact exec_cons_iff.mpr ⟨t, o, p ++ q, first, ih.mpr ⟨v, p, q, rest, right, rfl⟩,
        List.append_assoc o p q⟩

theorem exec_single_iff {s t : State} {l : Label} {out : List Out} :
    exec step s [l] = some (t, out) ↔ step s l = some (t, out) := by
  constructor
  · intro run
    obtain ⟨u, o, o', first, rest, rfl⟩ := exec_cons_iff.mp run
    obtain ⟨rfl, rfl⟩ := exec_nil_iff.mp rest
    simpa using first
  · intro first
    exact exec_cons_iff.mpr ⟨t, out, [], first, rfl, (List.append_nil out).symm⟩

theorem exec_snoc_iff {s u : State} {ls : List Label} {l : Label} {out : List Out} :
    exec step s (ls ++ [l]) = some (u, out) ↔
      ∃ t now later, exec step s ls = some (t, now) ∧ step t l = some (u, later) ∧
        out = now ++ later := by
  simp only [exec_append_iff, exec_single_iff]

theorem exec_keeps {I : State → Prop}
    (kept : ∀ {s t : State} {l : Label} {o : List Out}, I s → step s l = some (t, o) → I t)
    {s t : State} {ls : List Label} {out : List Out} (start : I s)
    (run : exec step s ls = some (t, out)) : I t := by
  induction ls generalizing s out with
  | nil =>
    obtain ⟨rfl, rfl⟩ := exec_nil_iff.mp run
    exact start
  | cons l ls ih =>
    obtain ⟨u, o, o', first, rest, rfl⟩ := exec_cons_iff.mp run
    exact ih (kept start first) rest

/- The run rule for an invariant that also reads the labels consumed and the outputs
   emitted so far. The induction is on the last step, where both lists grow. -/
theorem exec_history {I : List Label → State → List Out → Prop} {s : State}
    (start : I [] s [])
    (kept : ∀ {ls : List Label} {t u : State} {l : Label} {out o : List Out},
      exec step s ls = some (t, out) → I ls t out → step t l = some (u, o) →
        I (ls ++ [l]) u (out ++ o))
    {ls : List Label} {t : State} {out : List Out}
    (run : exec step s ls = some (t, out)) : I ls t out := by
  induction ls using List.reverseRecOn generalizing t out with
  | nil =>
    obtain ⟨rfl, rfl⟩ := exec_nil_iff.mp run
    exact start
  | append_singleton ls l ih =>
    obtain ⟨u, o, o', first, last, rfl⟩ := exec_snoc_iff.mp run
    exact kept first (ih first) last

/- The runs of a stepper in which every step also meets a condition on the state it starts
   from and on its label. -/
def restrict (P : State → Label → Prop) [∀ s l, Decidable (P s l)]
    (step : Stepper State Label Out) : Stepper State Label Out :=
  fun s l => if P s l then step s l else none

theorem restrict_iff {P : State → Label → Prop} [∀ s l, Decidable (P s l)] {s : State}
    {l : Label} {r : State × List Out} :
    restrict P step s l = some r ↔ P s l ∧ step s l = some r := by
  unfold restrict
  split
  · rename_i met
    exact ⟨fun taken => ⟨met, taken⟩, fun both => both.2⟩
  · rename_i unmet
    constructor
    · intro taken
      cases taken
    · intro both
      exact absurd both.1 unmet

theorem exec_refine {other : Stepper State Label Out} {I : State → Prop}
    (allowed : ∀ {s t : State} {l : Label} {o : List Out}, I s → step s l = some (t, o) →
      other s l = some (t, o) ∧ I t)
    {s t : State} {ls : List Label} {out : List Out} (start : I s)
    (run : exec step s ls = some (t, out)) : exec other s ls = some (t, out) ∧ I t := by
  induction ls generalizing s out with
  | nil =>
    obtain ⟨rfl, rfl⟩ := exec_nil_iff.mp run
    exact ⟨rfl, start⟩
  | cons l ls ih =>
    obtain ⟨u, o, o', first, rest, rfl⟩ := exec_cons_iff.mp run
    obtain ⟨same, kept⟩ := allowed start first
    obtain ⟨later, last⟩ := ih kept rest
    exact ⟨exec_cons_iff.mpr ⟨u, o, o', same, later, rfl⟩, last⟩

theorem exec_mono {other : Stepper State Label Out}
    (allowed : ∀ {s t : State} {l : Label} {o : List Out},
      step s l = some (t, o) → other s l = some (t, o))
    {s t : State} {ls : List Label} {out : List Out} (run : exec step s ls = some (t, out)) :
    exec other s ls = some (t, out) :=
  (exec_refine (I := fun _ => True) (fun _ taken => ⟨allowed taken, trivial⟩) trivial run).1

theorem exec_bounded {I : State → Prop} {P : Label → Prop} {supply : State → Nat}
    (falls : ∀ {s t : State} {l : Label} {o : List Out}, I s → P l → step s l = some (t, o) →
      supply t < supply s ∧ I t)
    {s t : State} {ls : List Label} {out : List Out} (start : I s) (labels : ∀ l ∈ ls, P l)
    (run : exec step s ls = some (t, out)) : ls.length + supply t ≤ supply s ∧ I t := by
  induction ls generalizing s out with
  | nil =>
    obtain ⟨rfl, rfl⟩ := exec_nil_iff.mp run
    exact ⟨Nat.le_of_eq (Nat.zero_add _), start⟩
  | cons l ls ih =>
    obtain ⟨u, now, later, first, rest, rfl⟩ := exec_cons_iff.mp run
    obtain ⟨label, labels⟩ := List.forall_mem_cons.mp labels
    obtain ⟨less, kept⟩ := falls start label first
    obtain ⟨bound, last⟩ := ih kept labels rest
    refine ⟨?_, last⟩
    rw [List.length_cons]
    omega

/-- Some state of a run, its first and its last one included, has the property. -/
def Passes (step : Stepper State Label Out) (s : State) (ls : List Label) (P : State → Prop) :
    Prop :=
  ∃ as bs t out, ls = as ++ bs ∧ exec step s as = some (t, out) ∧ P t

theorem passes_last {P : State → Prop} {s t : State} {ls : List Label} {out : List Out}
    (run : exec step s ls = some (t, out)) (last : P t) : Passes step s ls P :=
  ⟨ls, [], t, out, (List.append_nil ls).symm, run, last⟩

theorem passes_first {P : State → Prop} {s : State} {ls : List Label} (first : P s) :
    Passes step s ls P :=
  ⟨[], ls, s, [], rfl, rfl, first⟩

theorem passes_cons {P : State → Prop} {s t : State} {l : Label} {ls : List Label}
    {out : List Out} (taken : step s l = some (t, out)) (later : Passes step t ls P) :
    Passes step s (l :: ls) P := by
  obtain ⟨as, bs, u, o, rfl, run, holds⟩ := later
  exact ⟨l :: as, bs, u, out ++ o, rfl, exec_cons_iff.mpr ⟨t, out, o, taken, run, rfl⟩, holds⟩

section Always

/-- Every state a run passes, with the outputs up to it, has the property. -/
def Always (step : Stepper State Label Out) (s : State) (ls : List Label)
    (P : State → List Out → Prop) : Prop :=
  ∀ as bs t out, ls = as ++ bs → exec step s as = some (t, out) → P t out

/-- Every step of a run starts from a state that meets the condition with its label. -/
def EachStep (step : Stepper State Label Out) (s : State) (ls : List Label)
    (Q : State → Label → Prop) : Prop :=
  ∀ as l bs t out, ls = as ++ l :: bs → exec step s as = some (t, out) → Q t l

theorem eachStep_cons {Q : State → Label → Prop} {s t : State} {l : Label} {ls : List Label}
    {o : List Out} (first : Q s l) (taken : step s l = some (t, o)) (rest : EachStep step t ls Q) :
    EachStep step s (l :: ls) Q := by
  intro as m bs u out split run
  cases as with
  | nil =>
    cases split
    obtain ⟨rfl, rfl⟩ := exec_nil_iff.mp run
    exact first
  | cons a as =>
    cases split
    obtain ⟨t', o', later, taken', run', _⟩ := exec_cons_iff.mp run
    rw [taken, Option.some.injEq, Prod.mk.injEq] at taken'
    obtain ⟨rfl, rfl⟩ := taken'
    exact rest as m bs u later rfl run'

theorem eachStep_nil {Q : State → Label → Prop} {s : State} : EachStep step s [] Q := by
  intro as l bs t out split _
  simp at split

theorem always_of_steps {P : State → List Out → Prop} {Q : State → Label → Prop} {s : State}
    {ls : List Label} (start : P s [])
    (kept : ∀ {t u : State} {l : Label} {out o : List Out},
      l ∈ ls → P t out → Q t l → step t l = some (u, o) → P u (out ++ o))
    (each : EachStep step s ls Q) : Always step s ls P := by
  intro as
  induction as using List.reverseRecOn with
  | nil =>
    intro bs t out _ run
    obtain ⟨rfl, rfl⟩ := exec_nil_iff.mp run
    exact start
  | append_singleton as l ih =>
    intro bs u out split run
    rw [List.append_assoc, List.singleton_append] at split
    obtain ⟨t, now, later, first, last, rfl⟩ := exec_snoc_iff.mp run
    have member : l ∈ ls := split ▸ List.mem_append_right as List.mem_cons_self
    exact kept member (ih (l :: bs) t now split first) (each as l bs t now split first) last

theorem step_of_run {s u : State} {ls as bs : List Label} {l : Label} {out : List Out}
    (run : exec step s ls = some (u, out)) (split : ls = as ++ l :: bs) {t : State}
    {now : List Out} (first : exec step s as = some (t, now)) :
    ∃ v o, step t l = some (v, o) ∧ exec step s (as ++ [l]) = some (v, now ++ o) := by
  subst split
  obtain ⟨t', now', later, first', rest, _⟩ := exec_append_iff.mp run
  rw [first, Option.some.injEq, Prod.mk.injEq] at first'
  obtain ⟨rfl, rfl⟩ := first'
  obtain ⟨v, o, o', taken, _, _⟩ := exec_cons_iff.mp rest
  exact ⟨v, o, taken, exec_snoc_iff.mpr ⟨t, now, o, first, taken, rfl⟩⟩

end Always

section Simulation

variable {State' Label' Out' : Type} {other : Stepper State' Label' Out'}
  {R : State → List Out → State' → List Out' → Prop} {P : Label → Prop} {Q : Out → Prop}

theorem exec_simulates {s t : State} {s' : State'} {ls : List Label} {out : List Out}
    (matched : ∀ {u v : State} {l : Label} {before o : List Out} {u' : State'}
      {before' : List Out'}, R u before u' before' → P l → (∀ e ∈ o, Q e) →
        step u l = some (v, o) → ∃ ls v' o', exec other u' ls = some (v', o') ∧
          R v (before ++ o) v' (before' ++ o'))
    (start : R s [] s' []) (labels : ∀ l ∈ ls, P l) (outputs : ∀ e ∈ out, Q e)
    (run : exec step s ls = some (t, out)) :
    ∃ ls' t' out', exec other s' ls' = some (t', out') ∧ R t out t' out' := by
  induction ls using List.reverseRecOn generalizing t out with
  | nil =>
    obtain ⟨rfl, rfl⟩ := exec_nil_iff.mp run
    exact ⟨[], s', [], rfl, start⟩
  | append_singleton ls l ih =>
    obtain ⟨u, now, later, first, last, rfl⟩ := exec_snoc_iff.mp run
    obtain ⟨earlier, final⟩ := List.forall_mem_append.mp labels
    obtain ⟨told, emitted⟩ := List.forall_mem_append.mp outputs
    obtain ⟨as, u', o', begun, related⟩ := ih earlier told first
    obtain ⟨bs, t', o'', ended, next⟩ := matched related (final l List.mem_cons_self) emitted last
    exact ⟨as ++ bs, t', o' ++ o'', exec_append_iff.mpr ⟨u', o', o'', begun, ended, rfl⟩, next⟩

end Simulation

section Watch

variable {A : Type}

/-- The same runs, told by an observer that sees the state a step starts from and its label. -/
def watch (see : State → Label → List A) (step : Stepper State Label Out) :
    Stepper State Label A :=
  fun s l => (step s l).map fun r => (r.1, see s l)

variable {see : State → Label → List A} {s t : State}

theorem watch_iff {l : Label} {seen : List A} :
    watch see step s l = some (t, seen) ↔ (∃ o, step s l = some (t, o)) ∧ seen = see s l := by
  simp only [watch, Option.map_eq_some_iff, Prod.mk.injEq, Prod.exists]
  constructor
  · rintro ⟨u, o, taken, rfl, rfl⟩
    exact ⟨⟨o, taken⟩, rfl⟩
  · rintro ⟨⟨o, taken⟩, rfl⟩
    exact ⟨t, o, taken, rfl, rfl⟩

theorem exec_watched {ls : List Label} {out : List Out} (see : State → Label → List A)
    (run : exec step s ls = some (t, out)) :
    ∃ seen, exec (watch see step) s ls = some (t, seen) := by
  induction ls generalizing s out with
  | nil =>
    obtain ⟨rfl, rfl⟩ := exec_nil_iff.mp run
    exact ⟨[], rfl⟩
  | cons l ls ih =>
    obtain ⟨u, o, o', first, rest, rfl⟩ := exec_cons_iff.mp run
    obtain ⟨seen, later⟩ := ih rest
    exact ⟨see s l ++ seen,
      exec_cons_iff.mpr ⟨u, see s l, seen, watch_iff.mpr ⟨⟨o, first⟩, rfl⟩, later, rfl⟩⟩

end Watch

end Runs
