import MicroTrace.Library.LineStream
import MicroTrace.Library.JsonRecord

/- Objects on a byte stream, each printed on a line of its own. A line that has been cut off is
   no value, also where the cut goes through a character. -/
namespace Json
open LineStream Text

def printLine (v : Value) : List UInt8 := Utf8.encode v.print

def parseLine (line : List UInt8) : Option Value := parse (decodeLine line)

theorem print_members_last (members : List (List Char × Value)) :
    ∃ text, printMembers members = text ++ ['\x7d'] := by
  induction members with
  | nil => exact ⟨[], rfl⟩
  | cons m members ih =>
    obtain ⟨text, same⟩ := ih
    refine ⟨',' :: (quoted (escape m.1) ++ ':' :: (m.2.print ++ text)), ?_⟩
    rw [printMembers, same]
    simp

theorem print_object (members : List (List Char × Value)) :
    ∃ text, (Value.object members).print = '\x7b' :: (text ++ ['\x7d']) := by
  cases members with
  | nil => exact ⟨[], rfl⟩
  | cons m members =>
    obtain ⟨text, same⟩ := print_members_last members
    refine ⟨quoted (escape m.1) ++ ':' :: (m.2.print ++ text), ?_⟩
    rw [Value.print, same]
    simp

section Lines

variable {v : Value} {depth : Nat}

theorem not_mem_printLine (fits : v.Fits depth) {b : UInt8} (control : b < 0x20) :
    b ∉ printLine v := by
  intro inside
  have small : b.toNat < 32 := control
  have plain : b < 0x80 := by
    rw [UInt8.lt_iff_toNat_lt]
    exact Nat.lt_trans small (by decide)
  have visible := visible_print v fits _ (Utf8.mem_encode plain inside)
  have code : ∀ n < 32, (Char.ofNat n).toNat = n := by decide
  rw [code b.toNat small] at visible
  omega

theorem dropCR_take (fits : v.Fits depth) (n : Nat) :
    dropCR ((printLine v).take n) = (printLine v).take n := by
  refine if_neg ?_
  intro returns
  have inside := List.mem_of_mem_take (List.mem_of_getLast? returns)
  exact not_mem_printLine fits (show carriageReturn < 0x20 by decide) inside

theorem parseLine_printLine (fits : v.Fits depth) (shallow : depth ≤ maxNestingDepth) :
    parseLine (printLine v) = some v := by
  have kept := dropCR_take fits (printLine v).length
  rw [List.take_length] at kept
  rw [parseLine, decodeLine, kept, printLine, Utf8.decode_encode, parse_print fits shallow]

/-- The line of an object that is cut off anywhere is no value. -/
theorem parseLine_cut {members : List (List Char × Value)}
    (fits : (Value.object members).Fits depth) (shallow : depth ≤ maxNestingDepth) {n : Nat}
    (begun : 0 < n) (cut : n < (printLine (.object members)).length) :
    parseLine ((printLine (.object members)).take n) = none := by
  obtain ⟨j, m, less, read, some⟩ := Utf8.decode_take _ cut
  rw [parseLine, decodeLine, dropCR_take fits, printLine, read]
  cases m with
  | succ m =>
    rw [List.replicate_succ', ← List.append_assoc]
    exact parse_replacement _
  | zero =>
    obtain ⟨text, same⟩ := print_object members
    have whole := parse_print fits shallow
    rw [same] at whole less ⊢
    cases j with
    | zero => exact absurd (some begun) (by decide)
    | succ j =>
      rw [List.replicate_zero, List.append_nil, List.take_succ_cons]
      rw [← List.take_append_drop j (text ++ ['\x7d'])] at whole
      refine parse_cut whole (c := '\x7d') ?_ rfl
      rw [List.length_cons, Nat.succ_lt_succ_iff, List.length_append, List.length_singleton] at less
      rw [List.drop_append_of_le_length (Nat.le_of_lt_succ less)]
      exact List.mem_append_right _ (List.mem_singleton.mpr rfl)

end Lines

/-- An object that is read back as a record is kept by a stream of lines. -/
theorem kept_object {A B : Type} {written : A → Value} {read : Value → Option B} {value : A → B}
    {a : A} {members : List (List Char × Value)} {depth : Nat}
    (object : written a = .object members) (fits : (written a).Fits depth) (shallow : depth ≤ maxNestingDepth)
    (back : read (written a) = some (value a)) :
    Kept (fun a => printLine (written a)) (fun line => (parseLine line).bind read) value a where
  one := not_mem_printLine fits (by decide)
  some := by
    obtain ⟨text, same⟩ := print_object members
    rw [object, printLine, same]
    exact fun none => by simp [Utf8.encode, Utf8.encodeChar] at none
  back := by rw [parseLine_printLine fits shallow, Option.bind_some, back]
  cut n begun within := by
    rw [object] at fits within ⊢
    rw [parseLine_cut fits shallow begun within]
    rfl

end Json
