import Mathlib.Data.List.DropRight
import Mathlib.Data.List.OfFn
import Mathlib.Data.Int.ModEq
import Mathlib.Logic.Function.Basic
import Mathlib.Tactic.Ring

/- A fixed array overwritten in a circle. Indices are computed as the program computes
   them, over signed integers with truncated remainder; the bounds below show that no
   computed index leaves the array. The specification is the window: the last `size`
   values pushed, oldest first. -/
namespace RingBuffer

structure Ring (α : Type) (size : Nat) where
  cells : Fin size → α
  head : Fin size
  count : Nat
  count_le : count ≤ size

variable {α : Type} {size : Nat}

def Ring.empty (zero : α) (positive : 0 < size) : Ring α size :=
  ⟨fun _ => zero, ⟨0, positive⟩, 0, Nat.zero_le _⟩

def Ring.push (r : Ring α size) (x : α) : Ring α size where
  cells := Function.update r.cells r.head x
  head := ⟨(r.head.val + 1) % size, Nat.mod_lt _ (Nat.zero_lt_of_lt r.head.isLt)⟩
  count := if r.count < size then r.count + 1 else r.count
  count_le := by
    have bound := r.count_le
    split <;> omega

def Ring.slot (r : Ring α size) (i : Nat) : Int :=
  ((r.head.val : Int) - r.count + i + size).tmod size

def Ring.lastSlot (r : Ring α size) : Int := ((r.head.val : Int) - 1 + size).tmod size

theorem slot_eq_mod (r : Ring α size) (i : Nat) :
    r.slot i = (((r.head.val + (size - r.count) + i) % size : Nat) : Int) := by
  have bound := r.count_le
  have same : (r.head.val : Int) - r.count + i + size =
      ((r.head.val + (size - r.count) + i : Nat) : Int) := by
    push_cast [Nat.cast_sub bound]
    ring
  rw [Ring.slot, same, Int.tmod_eq_emod_of_nonneg (Int.natCast_nonneg _), Int.natCast_emod]

theorem lastSlot_eq_mod (r : Ring α size) :
    r.lastSlot = (((r.head.val + (size - 1)) % size : Nat) : Int) := by
  have positive : 1 ≤ size := Nat.zero_lt_of_lt r.head.isLt
  have same : (r.head.val : Int) - 1 + size = ((r.head.val + (size - 1) : Nat) : Int) := by
    push_cast [Nat.cast_sub positive]
    ring
  rw [Ring.lastSlot, same, Int.tmod_eq_emod_of_nonneg (Int.natCast_nonneg _), Int.natCast_emod]

theorem slot_in_bounds (r : Ring α size) (i : Nat) : 0 ≤ r.slot i ∧ r.slot i < size := by
  have lt := Nat.mod_lt (r.head.val + (size - r.count) + i) (Nat.zero_lt_of_lt r.head.isLt)
  rw [slot_eq_mod]
  omega

theorem lastSlot_in_bounds (r : Ring α size) : 0 ≤ r.lastSlot ∧ r.lastSlot < size := by
  have lt := Nat.mod_lt (r.head.val + (size - 1)) (Nat.zero_lt_of_lt r.head.isLt)
  rw [lastSlot_eq_mod]
  omega

def Ring.read (r : Ring α size) (i : Nat) : α :=
  r.cells ⟨(r.slot i).toNat, by have := slot_in_bounds r i; omega⟩

def Ring.newest (r : Ring α size) : α :=
  r.cells ⟨r.lastSlot.toNat, by have := lastSlot_in_bounds r; omega⟩

def Ring.samples (r : Ring α size) : List α := (List.range r.count).map r.read

theorem samples_length (r : Ring α size) : r.samples.length = r.count := by
  simp [Ring.samples]

theorem samples_empty (zero : α) (positive : 0 < size) :
    (Ring.empty zero positive).samples = [] := rfl

theorem mod_ne_of_lt {h i n : Nat} (first : i < n) (second : n < size) :
    (h + i) % size ≠ (h + n) % size := by
  intro same
  have cancelled : i ≡ n [MOD size] := Nat.ModEq.add_left_cancel' h same
  have := cancelled.eq_of_lt_of_lt (by omega) second
  omega

theorem read_push_at_head (r : Ring α size) (x : α) {i : Nat}
    (here : (r.push x).slot i = r.head.val) : (r.push x).read i = x := by
  have cell : (⟨((r.push x).slot i).toNat, by have := slot_in_bounds (r.push x) i; omega⟩ :
      Fin size) = r.head := by
    apply Fin.ext
    simp [here]
  rw [Ring.read, cell]
  exact Function.update_self r.head x r.cells

theorem read_push_elsewhere (r : Ring α size) (x : α) {i j : Nat}
    (same : (r.push x).slot i = r.slot j) (away : r.slot j ≠ r.head.val) :
    (r.push x).read i = r.read j := by
  have bounds := slot_in_bounds r j
  have cell : (⟨((r.push x).slot i).toNat, by have := slot_in_bounds (r.push x) i; omega⟩ :
      Fin size) = ⟨(r.slot j).toNat, by omega⟩ := by
    apply Fin.ext
    simp [same]
  have other : (⟨(r.slot j).toNat, by omega⟩ : Fin size) ≠ r.head := by
    intro eq
    have := congrArg Fin.val eq
    simp only at this
    omega
  rw [Ring.read, cell]
  exact Function.update_of_ne other x r.cells

theorem slot_push_growing (r : Ring α size) (x : α) (room : r.count < size) (i : Nat) :
    (r.push x).slot i = r.slot i := by
  rw [slot_eq_mod, slot_eq_mod]
  have grown : (r.push x).count = r.count + 1 := by simp [Ring.push, room]
  have moved : (r.push x).head.val = (r.head.val + 1) % size := rfl
  rw [grown, moved, Nat.add_assoc, Nat.mod_add_mod]
  congr 2
  omega

theorem slot_push_full (r : Ring α size) (x : α) (full : r.count = size) (i : Nat) :
    (r.push x).slot i = r.slot (i + 1) := by
  rw [slot_eq_mod, slot_eq_mod]
  have same : (r.push x).count = r.count := by simp [Ring.push, full]
  have moved : (r.push x).head.val = (r.head.val + 1) % size := rfl
  rw [same, moved, Nat.add_assoc, Nat.mod_add_mod]
  congr 2
  omega

/- Slots of the stored samples lie strictly ahead of the head, going round the circle. -/
theorem slot_ne_head (r : Ring α size) {i : Nat} (lower : 0 < size - r.count + i)
    (upper : size - r.count + i < size) : r.slot i ≠ r.head.val := by
  rw [slot_eq_mod]
  have turn : (r.head.val + 0) % size ≠ (r.head.val + (size - r.count + i)) % size :=
    mod_ne_of_lt lower upper
  have start : (r.head.val + 0) % size = r.head.val := Nat.mod_eq_of_lt r.head.isLt
  rw [start] at turn
  intro same
  apply turn
  rw [← Nat.add_assoc]
  omega

theorem slot_count (r : Ring α size) : r.slot r.count = r.head.val := by
  have bound := r.count_le
  rw [slot_eq_mod]
  have turn : r.head.val + (size - r.count) + r.count = r.head.val + size := by omega
  rw [turn, Nat.add_mod_right, Nat.mod_eq_of_lt r.head.isLt]

theorem newest_push (r : Ring α size) (x : α) : (r.push x).newest = x := by
  have positive := Nat.zero_lt_of_lt r.head.isLt
  have back : ((r.head.val + 1) % size + (size - 1)) % size = r.head.val := by
    rw [Nat.mod_add_mod]
    have turn : r.head.val + 1 + (size - 1) = r.head.val + size := by omega
    rw [turn, Nat.add_mod_right, Nat.mod_eq_of_lt r.head.isLt]
  have here : (r.push x).lastSlot = r.head.val := by
    rw [lastSlot_eq_mod]
    exact congrArg Nat.cast back
  have cell : (⟨(r.push x).lastSlot.toNat, by have := lastSlot_in_bounds (r.push x); omega⟩ :
      Fin size) = r.head := by
    apply Fin.ext
    simp [here]
  rw [Ring.newest, cell]
  exact Function.update_self r.head x r.cells

theorem newest_mem {r : Ring α size} (filled : 0 < r.count) : r.newest ∈ r.samples := by
  have last : r.slot (r.count - 1) = r.lastSlot := by
    have turn : (r.head.val : Int) - r.count + (r.count - 1 : Nat) + size =
        r.head.val - 1 + size := by
      omega
    rw [Ring.slot, Ring.lastSlot, turn]
  refine List.mem_map.mpr ⟨r.count - 1, List.mem_range.mpr (by omega), ?_⟩
  rw [Ring.read, Ring.newest]
  congr 2
  rw [last]

/- Window law: a push appends, and drops the oldest sample once the ring is full. -/
theorem samples_push (r : Ring α size) (x : α) :
    (r.push x).samples = (r.samples ++ [x]).rtake size := by
  have bound := r.count_le
  by_cases room : r.count < size
  · have grown : (r.push x).count = r.count + 1 := by simp [Ring.push, room]
    have kept : (List.range r.count).map (r.push x).read = r.samples := by
      apply List.map_congr_left
      intro i hi
      have lt := List.mem_range.mp hi
      exact read_push_elsewhere r x (slot_push_growing r x room i)
        (slot_ne_head r (by omega) (by omega))
    have newest : (r.push x).read r.count = x :=
      read_push_at_head r x ((slot_push_growing r x room r.count).trans (slot_count r))
    have whole : (r.samples ++ [x]).rtake size = r.samples ++ [x] := by
      rw [List.rtake, List.length_append, samples_length]
      have short : r.count + [x].length - size = 0 := by simp; omega
      rw [short, List.drop_zero]
    rw [whole, Ring.samples, grown, List.range_succ, List.map_append, kept]
    simp [newest]
  · have full : r.count = size := by omega
    have positive := Nat.zero_lt_of_lt r.head.isLt
    obtain ⟨n, hn⟩ : ∃ n, r.count = n + 1 := ⟨r.count - 1, by omega⟩
    have same : (r.push x).count = n + 1 := by simp [Ring.push, full]; omega
    have kept : (List.range n).map (r.push x).read =
        (List.range n).map fun i => r.read (i + 1) := by
      apply List.map_congr_left
      intro i hi
      have lt := List.mem_range.mp hi
      exact read_push_elsewhere r x (slot_push_full r x full i)
        (slot_ne_head r (by omega) (by omega))
    have newest : (r.push x).read n = x := by
      apply read_push_at_head
      rw [slot_push_full r x full, ← hn, slot_count]
    have trimmed : (r.samples ++ [x]).rtake size = r.samples.drop 1 ++ [x] := by
      rw [List.rtake, List.length_append, samples_length, full]
      have one : size + [x].length - size = 1 := by simp
      rw [one, List.drop_append_of_le_length (by rw [samples_length]; omega)]
    have shifted : r.samples.drop 1 = (List.range n).map fun i => r.read (i + 1) := by
      rw [Ring.samples, hn, List.range_succ_eq_map]
      simp [Function.comp_def]
    rw [trimmed, shifted, Ring.samples, same, List.range_succ, List.map_append, kept]
    simp [newest]

theorem rtake_concat_rtake (xs : List α) (x : α) (n : Nat) :
    (xs.rtake n ++ [x]).rtake n = (xs ++ [x]).rtake n := by
  simp only [List.rtake, List.length_append, List.length_drop, List.length_singleton]
  by_cases short : xs.length ≤ n
  · have none : xs.length - n = 0 := by omega
    rw [none, List.drop_zero]
    congr 1
  · have long : xs.length - n ≤ xs.length := by omega
    cases n with
    | zero => simp
    | succ n =>
      have left : xs.length - (xs.length - (n + 1)) + 1 - (n + 1) = 1 := by omega
      have right : xs.length + 1 - (n + 1) = (xs.length - (n + 1)) + 1 := by omega
      rw [left, right, ← List.drop_drop, List.drop_append_of_le_length long]

theorem rtake_copies (xs : List α) (x : α) (k n : Nat) :
    ∃ ys, (xs ++ List.replicate k x).rtake n = ys ++ List.replicate (min k n) x := by
  rw [List.rtake, List.length_append, List.length_replicate]
  by_cases many : n ≤ k
  · refine ⟨[], ?_⟩
    have past : xs.length + k - n = xs.length + (k - n) := by omega
    rw [past, List.drop_append, List.drop_of_length_le (by omega), Nat.min_eq_right many,
      Nat.add_sub_cancel_left, List.drop_replicate, Nat.sub_sub_self many]
  · refine ⟨xs.drop (xs.length + k - n), ?_⟩
    rw [List.drop_append_of_le_length (by omega), Nat.min_eq_left (by omega)]

/-- A ring filled from the start holds the end of everything pushed, in order. -/
theorem samples_pushes (zero : α) (positive : 0 < size) (xs : List α) :
    (xs.foldl Ring.push (Ring.empty zero positive)).samples = xs.rtake size := by
  induction xs using List.reverseRecOn with
  | nil => simp [samples_empty, List.rtake]
  | append_singleton xs x ih =>
    rw [List.foldl_append, List.foldl_cons, List.foldl_nil, samples_push, ih, rtake_concat_rtake]

theorem count_pushes (zero : α) (positive : 0 < size) (xs : List α) :
    (xs.foldl Ring.push (Ring.empty zero positive)).count = min xs.length size := by
  rw [← samples_length, samples_pushes, List.rtake, List.length_drop]
  omega

theorem newest_pushes (zero : α) (positive : 0 < size) (xs : List α) (nonempty : xs ≠ []) :
    (xs.foldl Ring.push (Ring.empty zero positive)).newest = xs.getLast nonempty := by
  induction xs using List.reverseRecOn with
  | nil => exact absurd rfl nonempty
  | append_singleton xs x ih =>
    rw [List.foldl_append, List.foldl_cons, List.foldl_nil, newest_push, List.getLast_concat]

end RingBuffer
