import MicroTrace.Library.RingBuffer

/- The words spoken about one key of a replicated map: a value is put, or the key is cut. A
   listener keeps the last value put since the last cut, and the values of the current life
   up to a bound. What it knows depends on where it started to listen only until the first
   cut it hears. -/
namespace Lives

inductive Word (V : Type) where
  | put (v : V)
  | cut

section

variable {V A B : Type}

def hear (f : V → A) : Option A → Word V → Option A
  | _, .put v => some (f v)
  | _, .cut => none

def current (f : V → A) (start : Option A) (ws : List (Word V)) : Option A :=
  ws.foldl (hear f) start

def grow (f : V → A) (bound : Nat) : List A → Word V → List A
  | xs, .put v => (xs ++ [f v]).rtake bound
  | _, .cut => []

def life (f : V → A) (bound : Nat) (start : List A) (ws : List (Word V)) : List A :=
  ws.foldl (grow f bound) start

/-- Nothing has been put since the last cut, if anything was said at all. -/
def Silent (ws : List (Word V)) : Prop := ws = [] ∨ ∃ us, ws = us ++ [.cut]

variable {f : V → A} {bound : Nat}

theorem current_append (start : Option A) (us vs : List (Word V)) :
    current f start (us ++ vs) = current f (current f start us) vs := by
  simp [current]

theorem life_append (start : List A) (us vs : List (Word V)) :
    life f bound start (us ++ vs) = life f bound (life f bound start us) vs := by
  simp [life]

theorem current_put (start : Option A) (us : List (Word V)) (v : V) :
    current f start (us ++ [.put v]) = some (f v) := by
  simp [current, hear]

theorem current_cut (start : Option A) (us : List (Word V)) :
    current f start (us ++ [.cut]) = none := by
  simp [current, hear]

theorem life_put (start : List A) (us : List (Word V)) (v : V) :
    life f bound start (us ++ [.put v]) = (life f bound start us ++ [f v]).rtake bound := by
  simp [life, grow]

theorem life_cut (start : List A) (us : List (Word V)) :
    life f bound start (us ++ [.cut]) = [] := by
  simp [life, grow]

theorem life_map (g : A → B) (start : List A) (ws : List (Word V)) :
    (life f bound start ws).map g = life (g ∘ f) bound (start.map g) ws := by
  induction ws generalizing start with
  | nil => rfl
  | cons w ws ih =>
    cases w with
    | put v =>
      have first : ((start ++ [f v]).rtake bound).map g =
          (start.map g ++ [(g ∘ f) v]).rtake bound := by
        simp [List.rtake, List.map_drop]
      exact (ih _).trans (congrArg (life (g ∘ f) bound · ws) first)
    | cut => exact ih []

theorem life_of_silent {ws : List (Word V)} (silent : Silent ws) : life f bound [] ws = [] := by
  rcases silent with rfl | ⟨us, rfl⟩
  · rfl
  · exact life_cut [] us

theorem cut_last_of_silent {us vs : List (Word V)} (silent : Silent (us ++ vs)) (some : vs ≠ []) :
    ∃ ws, vs = ws ++ [.cut] := by
  rcases silent with none | ⟨ws, split⟩
  · exact absurd (List.append_eq_nil_iff.mp none).2 some
  · obtain ⟨ws', last, rfl⟩ := List.eq_nil_or_concat' vs |>.resolve_left some
    rw [← List.append_assoc] at split
    have same := List.append_inj_right' split rfl
    exact ⟨ws', by rw [same]⟩

theorem current_of_silent {us vs : List (Word V)} (silent : Silent (us ++ vs))
    (some : vs ≠ []) (start : Option A) : current f start vs = none := by
  obtain ⟨ws, rfl⟩ := cut_last_of_silent silent some
  exact current_cut start ws

theorem current_start {ws : List (Word V)} (some : ws ≠ []) (a b : Option A) :
    current f a ws = current f b ws := by
  obtain ⟨us, w, rfl⟩ := List.eq_nil_or_concat' ws |>.resolve_left some
  cases w with
  | put v => rw [current_put, current_put]
  | cut => rw [current_cut, current_cut]

theorem current_of_suffix {us vs : List (Word V)} {a : A} (late : current f none vs = some a) :
    current f none (us ++ vs) = some a := by
  have said : vs ≠ [] := by
    rintro rfl
    cases late
  rw [current_append, current_start said _ none, late]

/-- After a cut it does not matter what was known before. -/
theorem life_reset {ws : List (Word V)} (reset : .cut ∈ ws) (xs ys : List A) :
    life f bound xs ws = life f bound ys ws := by
  obtain ⟨us, vs, rfl⟩ := List.append_of_mem reset
  have forgets : ∀ start : List A, life f bound start (us ++ .cut :: vs) = life f bound [] vs := by
    intro start
    rw [List.append_cons, life_append, life_cut]
  rw [forgets xs, forgets ys]

theorem life_overlap_silent {known flight early : List (Word V)}
    (silent : Silent (known ++ (flight ++ early))) :
    life f bound (life f bound [] (known ++ flight)) (flight ++ early) = [] := by
  by_cases said : flight ++ early = []
  · obtain ⟨rfl, rfl⟩ := List.append_eq_nil_iff.mp said
    exact life_of_silent silent
  · obtain ⟨ws, last⟩ := cut_last_of_silent silent said
    rw [last, life_cut]

/-- A listener that is told the life so far hears the words in flight once more. From the end
    of that life on it knows what one that listened from the beginning knows. -/
theorem life_overlap {known flight early late : List (Word V)}
    (silent : Silent (known ++ (flight ++ early))) :
    life f bound (life f bound [] (known ++ flight)) (flight ++ early ++ late) =
      life f bound [] (known ++ (flight ++ early) ++ late) := by
  rw [life_append _ (flight ++ early) late, life_overlap_silent silent, life_append [] _ late,
    life_of_silent silent]

theorem life_congr {g : V → A} {start : List A} {ws : List (Word V)}
    (same : ∀ v, .put v ∈ ws → f v = g v) : life f bound start ws = life g bound start ws := by
  induction ws generalizing start with
  | nil => rfl
  | cons w ws ih =>
    have later := fun v member => same v (List.mem_cons_of_mem w member)
    cases w with
    | put v =>
      have now := same v List.mem_cons_self
      exact (ih later).trans (congrArg (fun x => life g bound ((start ++ [x]).rtake bound) ws) now)
    | cut => exact ih later

def lastLife (ws : List (Word V)) : List V :=
  ws.foldl (fun vs w => match w with
    | .put v => vs ++ [v]
    | .cut => []) []

theorem lastLife_put (ws : List (Word V)) (v : V) :
    lastLife (ws ++ [.put v]) = lastLife ws ++ [v] := by
  simp [lastLife]

theorem lastLife_cut (ws : List (Word V)) : lastLife (ws ++ [.cut]) = [] := by
  simp [lastLife]

theorem life_eq_lastLife (ws : List (Word V)) :
    life f bound [] ws = ((lastLife ws).map f).rtake bound := by
  induction ws using List.reverseRecOn with
  | nil => simp [life, lastLife, List.rtake]
  | append_singleton ws w ih =>
    cases w with
    | put v =>
      rw [life_put, ih, RingBuffer.rtake_concat_rtake]
      simp [lastLife]
    | cut =>
      rw [life_cut]
      simp [lastLife, List.rtake]

end

end Lives
