import MicroTrace.Library.Text

/- Records on a byte stream, one a line, and the stream cut off anywhere. A reader takes what
   stands behind the last newline for a line as well, so a line is whole although its newline
   alone is missing. -/
namespace LineStream
open Text

def stream (lines : List (List UInt8)) : List UInt8 := lines.flatMap fun line => line ++ [newline]

def whole : List (List UInt8) → Nat → Nat
  | [], _ => 0
  | line :: lines, cut => if line.length ≤ cut then whole lines (cut - (line.length + 1)) + 1 else 0

theorem stream_cons (line : List UInt8) (lines : List (List UInt8)) :
    stream (line :: lines) = line ++ newline :: stream lines := by
  simp [stream]

theorem take_stream_short (line : List UInt8) (lines : List (List UInt8)) {cut : Nat}
    (short : cut ≤ line.length) : (stream (line :: lines)).take cut = line.take cut := by
  rw [stream_cons, List.take_append_of_le_length short]

theorem take_stream_long (line : List UInt8) (lines : List (List UInt8)) {cut : Nat}
    (long : line.length < cut) : (stream (line :: lines)).take cut =
      line ++ newline :: (stream lines).take (cut - (line.length + 1)) := by
  obtain ⟨n, rfl⟩ : ∃ n, cut = line.length + (n + 1) := ⟨cut - line.length - 1, by omega⟩
  rw [stream_cons, List.take_length_add_append, List.take_succ_cons]
  congr 3
  omega

theorem whole_all (lines : List (List UInt8)) {cut : Nat}
    (all : (stream lines).length ≤ cut + 1) : whole lines cut = lines.length := by
  induction lines generalizing cut with
  | nil => rfl
  | cons line lines ih =>
    rw [stream_cons, List.length_append, List.length_cons] at all
    rw [whole, if_pos (by omega), ih (by omega), List.length_cons]

theorem whole_zero {lines : List (List UInt8)} (some : ∀ line ∈ lines, line ≠ []) :
    whole lines 0 = 0 := by
  cases lines with
  | nil => rfl
  | cons line lines =>
    have long := List.length_pos_iff.mpr (some line List.mem_cons_self)
    rw [whole, if_neg (by omega)]

theorem rawLines_line {line : List UInt8} (one : newline ∉ line) (rest : List UInt8) :
    rawLines (line ++ newline :: rest) = line :: rawLines rest := by
  have apart : ∀ b ∈ line, (b == newline) = false := by
    intro b member
    exact beq_false_of_ne fun same => one (same ▸ member)
  have pieces : (line ++ newline :: rest).splitOn newline = line :: rest.splitOn newline :=
    List.splitOnP_append_cons_of_forall_mem apart newline (beq_self_eq_true newline) rest
  obtain ⟨first, later, found⟩ := List.exists_cons_of_ne_nil
    (List.splitOnP_ne_nil (· == newline) rest)
  have found : rest.splitOn newline = first :: later := found
  simp only [rawLines, pieces, found, List.getLast?_cons_cons, List.dropLast_cons_cons]
  split <;> rfl

theorem rawLines_part {part : List UInt8} (one : newline ∉ part) :
    rawLines part = if part = [] then [] else [part] := by
  have apart : ∀ b ∈ part, (b == newline) = false := by
    intro b member
    exact beq_false_of_ne fun same => one (same ▸ member)
  have pieces : part.splitOn newline = [part] := List.splitOnP_eq_singleton apart
  simp only [rawLines, pieces, List.getLast?_singleton, Option.some.injEq]
  rfl

/-- What a reader finds in a stream that has been cut off: the whole lines, and then perhaps a
    part of the next one. -/
theorem rawLines_take {lines : List (List UInt8)} (one : ∀ line ∈ lines, newline ∉ line)
    (some : ∀ line ∈ lines, line ≠ []) (cut : Nat) :
    ∃ rest, rawLines ((stream lines).take cut) = lines.take (whole lines cut) ++ rest ∧
      (rest = [] ∨ ∃ line ∈ lines, ∃ n, 0 < n ∧ n < line.length ∧ rest = [line.take n]) := by
  induction lines generalizing cut with
  | nil => exact ⟨[], by simp [stream, rawLines, whole], .inl rfl⟩
  | cons line lines ih =>
    obtain ⟨first, later⟩ := List.forall_mem_cons.mp one
    obtain ⟨long, others⟩ := List.forall_mem_cons.mp some
    have part (n : Nat) : newline ∉ line.take n := fun inside => first (List.mem_of_mem_take inside)
    rcases Nat.lt_trichotomy cut line.length with inside | rfl | behind
    · have early : whole (line :: lines) cut = 0 := if_neg (Nat.not_le_of_lt inside)
      rw [take_stream_short line lines (Nat.le_of_lt inside), rawLines_part (part cut), early]
      by_cases none : cut = 0
      · exact ⟨[], by simp [none], .inl rfl⟩
      · have left : line.take cut ≠ [] := by simp [none, long]
        exact ⟨[line.take cut], by rw [if_neg left]; rfl,
          .inr ⟨line, List.mem_cons_self, cut, Nat.pos_of_ne_zero none, inside, rfl⟩⟩
    · refine ⟨[], ?_, .inl rfl⟩
      rw [take_stream_short line lines (Nat.le_refl _), List.take_length, rawLines_part first,
        if_neg long, whole, if_pos (Nat.le_refl _), Nat.sub_eq_zero_of_le (Nat.le_succ _),
        whole_zero others]
      rfl
    · obtain ⟨rest, found, cuts⟩ := ih later others (cut - (line.length + 1))
      refine ⟨rest, ?_, cuts.imp_right ?_⟩
      · rw [take_stream_long line lines behind, rawLines_line first, found, whole,
          if_pos (Nat.le_of_lt behind)]
        rfl
      · rintro ⟨line', member, n, more⟩
        exact ⟨line', List.mem_cons_of_mem line member, n, more⟩

section Records

variable {A B : Type}

/-- A record whose line is read back, and of whose line nothing is read when it is cut off. -/
structure Kept (line : A → List UInt8) (read : List UInt8 → Option B) (value : A → B) (a : A) :
    Prop where
  one : newline ∉ line a
  some : line a ≠ []
  back : read (line a) = .some (value a)
  cut : ∀ n, 0 < n → n < (line a).length → read ((line a).take n) = none

variable {line : A → List UInt8} {read : List UInt8 → Option B} {value : A → B} {items : List A}

theorem filterMap_back (kept : ∀ a ∈ items, Kept line read value a) :
    (items.map line).filterMap read = items.map value := by
  induction items with
  | nil => rfl
  | cons a items ih =>
    obtain ⟨first, later⟩ := List.forall_mem_cons.mp kept
    rw [List.map_cons, List.filterMap_cons_some first.back, ih later, List.map_cons]

/-- A reader of a stream that is cut off gets the records of the whole lines and no other. -/
theorem read_take (kept : ∀ a ∈ items, Kept line read value a) (cut : Nat) :
    (rawLines ((stream (items.map line)).take cut)).filterMap read =
      (items.take (whole (items.map line) cut)).map value := by
  obtain ⟨rest, found, cuts⟩ := rawLines_take
    (List.forall_mem_map.mpr fun a member => (kept a member).one)
    (List.forall_mem_map.mpr fun a member => (kept a member).some) cut
  have nothing : rest.filterMap read = [] := by
    rcases cuts with rfl | ⟨_, member, n, begun, within, rfl⟩
    · rfl
    · obtain ⟨a, there, rfl⟩ := List.mem_map.mp member
      rw [List.filterMap_cons_none ((kept a there).cut n begun within), List.filterMap_nil]
  have before : ∀ a ∈ items.take (whole (items.map line) cut), Kept line read value a :=
    fun a member => kept a (List.mem_of_mem_take member)
  rw [found, List.filterMap_append, nothing, List.append_nil, ← List.map_take,
    filterMap_back before]

theorem short_take (kept : ∀ a ∈ items, Kept line read value a)
    (short : ∀ a ∈ items, (line a).length < maxTokenSize) (cut : Nat) :
    Short ((stream (items.map line)).take cut) := by
  obtain ⟨rest, found, cuts⟩ := rawLines_take
    (List.forall_mem_map.mpr fun a member => (kept a member).one)
    (List.forall_mem_map.mpr fun a member => (kept a member).some) cut
  intro line' member
  rw [found] at member
  rcases List.mem_append.mp member with inside | inside
  · obtain ⟨a, there, rfl⟩ := List.mem_map.mp (List.mem_of_mem_take inside)
    exact short a there
  · rcases cuts with rfl | ⟨_, written, n, _, _, rfl⟩
    · cases inside
    · obtain ⟨a, there, rfl⟩ := List.mem_map.mp written
      rw [List.mem_singleton.mp inside]
      exact Nat.lt_of_le_of_lt (List.length_take_le' n _) (short a there)

end Records

end LineStream
