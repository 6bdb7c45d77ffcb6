import Mathlib.Data.List.Basic

/- Slices as headers over shared backing arrays. An append writes in place while the header
   has room and moves to a fresh array once it has none, so two headers over one array see
   each other's writes until one of them grows. -/
namespace Slices

variable {α : Type}

structure Slice where
  array : Nat
  len : Nat
  cap : Nat
  fits : len ≤ cap
  deriving DecidableEq

structure Heap (α : Type) where
  cells : Nat → Nat → α
  fresh : Nat

/-- The capacity a runtime picks for the array that replaces a full one. -/
structure Growth where
  next : Nat → Nat
  larger : ∀ cap, cap < next cap

def Heap.write (h : Heap α) (array index : Nat) (x : α) : Heap α :=
  { h with cells := fun a k => if a = array ∧ k = index then x else h.cells a k }

def Heap.moved (h : Heap α) (s : Slice) : Heap α where
  cells a k := if a = h.fresh ∧ k < s.len then h.cells s.array k else h.cells a k
  fresh := h.fresh + 1

def Heap.suffix (h : Heap α) (s : Slice) (i : Nat) : List α :=
  (List.range' i (s.len - i)).map (h.cells s.array)

structure Buffer (α : Type) where
  heap : Heap α
  live : Slice
  allocated : live.array < heap.fresh

def Buffer.make (zero : α) (cap : Nat) : Buffer α where
  heap := ⟨fun _ _ => zero, 1⟩
  live := ⟨0, 0, cap, Nat.zero_le cap⟩
  allocated := Nat.zero_lt_one

def Buffer.append (g : Growth) (b : Buffer α) (x : α) : Buffer α :=
  if room : b.live.len < b.live.cap then
    { heap := b.heap.write b.live.array b.live.len x
      live := ⟨b.live.array, b.live.len + 1, b.live.cap, room⟩
      allocated := b.allocated }
  else
    { heap := (b.heap.moved b.live).write b.heap.fresh b.live.len x
      live := ⟨b.heap.fresh, b.live.len + 1, g.next b.live.cap,
        Nat.lt_of_le_of_lt b.live.fits (g.larger b.live.cap)⟩
      allocated := Nat.lt_succ_self b.heap.fresh }

/- The reslice to [:0], which keeps the array and its capacity. -/
def Buffer.reset (b : Buffer α) : Buffer α :=
  { b with live := { b.live with len := 0, fits := Nat.zero_le b.live.cap } }

def Buffer.contents (b : Buffer α) : List α := b.heap.suffix b.live 0

/-- The next append of `live` lands on a cell that `s` holds at or after position i. -/
def Overwrites (live s : Slice) (i : Nat) : Prop :=
  live.array = s.array ∧ i ≤ live.len ∧ live.len < s.len

instance (live s : Slice) (i : Nat) : Decidable (Overwrites live s i) :=
  inferInstanceAs (Decidable (_ ∧ _ ∧ _))

theorem suffix_next (h : Heap α) {s : Slice} {i : Nat} (inside : i < s.len) :
    h.suffix s i = h.cells s.array i :: h.suffix s (i + 1) := by
  unfold Heap.suffix
  have size : s.len - i = (s.len - (i + 1)) + 1 := by omega
  rw [size, List.range'_succ, List.map_cons]

theorem suffix_end (h : Heap α) {s : Slice} {i : Nat} (outside : s.len ≤ i) :
    h.suffix s i = [] := by
  unfold Heap.suffix
  rw [Nat.sub_eq_zero_of_le outside]
  rfl

theorem suffix_congr {h h' : Heap α} {s : Slice} {i : Nat}
    (same : ∀ k, i ≤ k → k < s.len → h'.cells s.array k = h.cells s.array k) :
    h'.suffix s i = h.suffix s i := by
  unfold Heap.suffix
  apply List.map_congr_left
  intro k member
  rw [List.mem_range'_1] at member
  exact same k member.1 (by omega)

theorem length_suffix (h : Heap α) (s : Slice) (i : Nat) :
    (h.suffix s i).length = s.len - i := by
  simp [Heap.suffix]

theorem contents_reset (b : Buffer α) : b.reset.contents = [] := rfl

theorem contents_append (g : Growth) (b : Buffer α) (x : α) :
    (b.append g x).contents = b.contents ++ [x] := by
  unfold Buffer.contents Buffer.append Heap.suffix
  split
  · simp only [Nat.sub_zero, List.range'_concat, List.map_append, List.map_cons, List.map_nil]
    congr 1
    · apply List.map_congr_left
      intro k member
      have inside : k < b.live.len := by simpa using (List.mem_range'_1.mp member).2
      simp [Heap.write, Nat.ne_of_lt inside]
    · simp [Heap.write]
  · simp only [Nat.sub_zero, List.range'_concat, List.map_append, List.map_cons, List.map_nil]
    congr 1
    · apply List.map_congr_left
      intro k member
      have inside : k < b.live.len := by simpa using (List.mem_range'_1.mp member).2
      simp [Heap.write, Heap.moved, Nat.ne_of_lt inside, inside]
    · simp [Heap.write]

/- Any other header over an allocated array keeps the elements from position i on, unless
   the append lands on one of them. -/
theorem suffix_append (g : Growth) (b : Buffer α) (x : α) {s : Slice} {i : Nat}
    (allocated : s.array < b.heap.fresh) (apart : ¬ Overwrites b.live s i) :
    (b.append g x).heap.suffix s i = b.heap.suffix s i := by
  apply suffix_congr
  intro k low high
  unfold Buffer.append
  split
  · have elsewhere : ¬ (s.array = b.live.array ∧ k = b.live.len) := by
      rintro ⟨same, rfl⟩
      exact apart ⟨same.symm, low, high⟩
    simp [Heap.write, elsewhere]
  · simp [Heap.write, Heap.moved, Nat.ne_of_lt allocated]

theorem fresh_append (g : Growth) (b : Buffer α) (x : α) :
    b.heap.fresh ≤ (b.append g x).heap.fresh := by
  unfold Buffer.append
  split
  · exact Nat.le_refl _
  · exact Nat.le_succ _

end Slices
