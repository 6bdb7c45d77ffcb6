import Mathlib.Tactic.FinCases
import MicroTrace.Library.Json

/- JSON values written the way Go writes them, and read back: no blanks, and in strings an
   escape for everything that JSON, HTML or JavaScript would take amiss. -/
namespace Json

def unicodeEscape (n : Nat) : List Char :=
  ['\\', 'u', Nat.digitChar (n / 4096 % 16), Nat.digitChar (n / 256 % 16),
    Nat.digitChar (n / 16 % 16), Nat.digitChar (n % 16)]

def escapeChar (c : Char) : List Char :=
  if c = '"' ∨ c = '\\' then ['\\', c]
  else if c = '\x08' then ['\\', 'b']
  else if c = '\x0c' then ['\\', 'f']
  else if c = '\n' then ['\\', 'n']
  else if c = '\r' then ['\\', 'r']
  else if c = '\t' then ['\\', 't']
  else if c.toNat < 0x20 ∨ c ∈ ['<', '>', '&', Char.ofNat 0x2028, Char.ofNat 0x2029] then
    unicodeEscape c.toNat
  else [c]

def escape (t : List Char) : List Char := t.flatMap escapeChar

mutual

def Value.print : Value → List Char
  | .null => ['n', 'u', 'l', 'l']
  | .bool true => ['t', 'r', 'u', 'e']
  | .bool false => ['f', 'a', 'l', 's', 'e']
  | .number text => text
  | .string text => quoted (escape text)
  | .array [] => ['[', ']']
  | .array (v :: items) => '[' :: (v.print ++ printItems items)
  | .object [] => ['\x7b', '\x7d']
  | .object (m :: members) =>
      '\x7b' :: (quoted (escape m.1) ++ ':' :: (m.2.print ++ printMembers members))

def printItems : List Value → List Char
  | [] => [']']
  | v :: items => ',' :: (v.print ++ printItems items)

def printMembers : List (List Char × Value) → List Char
  | [] => ['\x7d']
  | m :: members => ',' :: (quoted (escape m.1) ++ ':' :: (m.2.print ++ printMembers members))

end

def Digits.begin (c : Char) : Option Digits :=
  if c = '-' then some .neg else if c = '0' then some .zero else if c.isDigit then some .int
  else none

def Digits.read : List Char → Option Digits
  | [] => none
  | c :: text => (Digits.begin c).bind fun d => text.foldlM (fun d c => d.next c) d

def IsNumber (text : List Char) : Prop := ∃ d, Digits.read text = some d ∧ d.whole = true

instance (text : List Char) : Decidable (IsNumber text) :=
  decidable_of_iff ((Digits.read text).any Digits.whole = true) (by
    rw [Option.any_eq_true]
    rfl)

mutual

def Value.Fits : Nat → Value → Prop
  | _, .null => True
  | _, .bool _ => True
  | _, .number text => IsNumber text
  | _, .string _ => True
  | 0, .array _ => False
  | depth + 1, .array items => ItemsFit depth items
  | 0, .object _ => False
  | depth + 1, .object members => MembersFit depth members

def ItemsFit : Nat → List Value → Prop
  | _, [] => True
  | depth, v :: items => v.Fits depth ∧ ItemsFit depth items

def MembersFit : Nat → List (List Char × Value) → Prop
  | _, [] => True
  | depth, m :: members => m.2.Fits depth ∧ MembersFit depth members

end

section Escapes

theorem hexDigit_digitChar {d : Nat} (small : d < 16) : hexDigit (Nat.digitChar d) = some d := by
  interval_cases d <;> rfl

theorem hex4_escape {n : Nat} (small : n < 0x10000) :
    hex4 (Nat.digitChar (n / 4096 % 16)) (Nat.digitChar (n / 256 % 16))
      (Nat.digitChar (n / 16 % 16)) (Nat.digitChar (n % 16)) = n := by
  have digit (k : Nat) : hexDigit (Nat.digitChar (k % 16)) = some (k % 16) :=
    hexDigit_digitChar (Nat.mod_lt k (by decide))
  simp only [hex4, List.foldl_cons, List.foldl_nil, digit, Option.getD_some]
  omega

theorem unquote_unicode {a b c d : Char} (rest : List Char)
    (single : hex4 a b c d < 0xD800 ∨ 0xE000 ≤ hex4 a b c d) :
    unquote ('\\' :: 'u' :: a :: b :: c :: d :: rest) =
      Char.ofNat (hex4 a b c d) :: unquote rest := by
  have whole : ¬ (0xD800 ≤ hex4 a b c d ∧ hex4 a b c d < 0xE000) := by omega
  rw [unquote.eq_def]
  split
  · rename_i same
    cases same
  · rename_i same
    cases same
    rw [if_neg (by omega), if_neg whole]
  · rename_i same
    cases same
    rw [if_neg whole]
  · rename_i other same
    cases same
    exact absurd rfl (fun same => other a b c d rest rfl same)
  · rename_i other same
    cases same
    exact absurd rfl (fun same => other 'u' (a :: b :: c :: d :: rest) rfl same)

theorem unquote_short {c : Char} (rest : List Char) (short : c ≠ 'u') :
    unquote ('\\' :: c :: rest) = escaped c :: unquote rest := by
  rw [unquote] <;> simp [short]

theorem unquote_self {c : Char} (rest : List Char) (other : c ≠ '\\') :
    unquote (c :: rest) = c :: unquote rest := by
  rw [unquote] <;> simp [other]

def shortEscapes : List Char := ['b', 'f', 'n', 'r', 't', '\\', '/', '"']

theorem escapeChar_cases (c : Char) :
    (∃ d ∈ shortEscapes, escapeChar c = ['\\', d] ∧ escaped d = c) ∨
      (c.toNat < 0xD800 ∧ escapeChar c = unicodeEscape c.toNat) ∨
      (c ≠ '"' ∧ c ≠ '\\' ∧ 0x20 ≤ c.toNat ∧ escapeChar c = [c]) := by
  by_cases short : c ∈ ['"', '\\', '\x08', '\x0c', '\n', '\r', '\t']
  · left
    fin_cases short
    · exact ⟨'"', by decide, rfl, rfl⟩
    · exact ⟨'\\', by decide, rfl, rfl⟩
    · exact ⟨'b', by decide, rfl, rfl⟩
    · exact ⟨'f', by decide, rfl, rfl⟩
    · exact ⟨'n', by decide, rfl, rfl⟩
    · exact ⟨'r', by decide, rfl, rfl⟩
    · exact ⟨'t', by decide, rfl, rfl⟩
  · right
    simp only [List.mem_cons, List.not_mem_nil, or_false, not_or] at short
    obtain ⟨quote, backslash, b, f, n, r, t⟩ := short
    simp only [escapeChar, quote, backslash, b, f, n, r, t, or_self, if_false]
    split
    · rename_i amiss
      refine .inl ⟨?_, rfl⟩
      rcases amiss with low | listed
      · omega
      · fin_cases listed <;> decide
    · rename_i fine
      rw [not_or, Nat.not_lt] at fine
      exact .inr ⟨quote, backslash, fine.1, rfl⟩

theorem unquote_escape (t : List Char) : unquote (escape t) = t := by
  induction t with
  | nil => rfl
  | cons c t ih =>
    have whole : escape (c :: t) = escapeChar c ++ escape t := List.flatMap_cons
    rw [whole]
    obtain ⟨d, listed, eq, same⟩ | ⟨small, eq⟩ | ⟨_, backslash, _, eq⟩ := escapeChar_cases c
    · have short : d ≠ 'u' := by
        rintro rfl
        revert listed
        decide
      rw [eq, List.cons_append, List.cons_append, List.nil_append, unquote_short _ short, ih, same]
    · have number := hex4_escape (n := c.toNat) (by omega)
      rw [eq, unicodeEscape, List.cons_append, List.cons_append, List.cons_append,
        List.cons_append, List.cons_append, List.cons_append, List.nil_append,
        unquote_unicode _ (.inl (number.symm ▸ small)), number, Char.ofNat_toNat, ih]
    · rw [eq, List.cons_append, List.nil_append, unquote_self _ backslash, ih]

theorem run_short {d : Char} (listed : d ∈ shortEscapes) (stack : List Frame) (acc : List Char) :
    run ⟨stack, .string acc .plain⟩ ['\\', d] =
      some ⟨stack, .string (acc ++ ['\\', d]) .plain⟩ := by
  have opened : step ⟨stack, .string acc .plain⟩ '\\' =
      some ⟨stack, .string (acc ++ ['\\']) .escaped⟩ := rfl
  have closed : step ⟨stack, .string (acc ++ ['\\']) .escaped⟩ d =
      some ⟨stack, .string (acc ++ ['\\'] ++ [d]) .plain⟩ := if_pos listed
  rw [run_cons, opened, Option.bind_some, run_single, closed, List.append_assoc]
  rfl

theorem run_unicode (n : Nat) (stack : List Frame) (acc : List Char) :
    run ⟨stack, .string acc .plain⟩ (unicodeEscape n) =
      some ⟨stack, .string (acc ++ unicodeEscape n) .plain⟩ := by
  have digit (k : Nat) : (hexDigit (Nat.digitChar (k % 16))).isSome = true := by
    rw [hexDigit_digitChar (Nat.mod_lt k (by decide))]
    rfl
  simp [unicodeEscape, run, step, inString, digit]

theorem run_escape (t : List Char) (stack : List Frame) (acc : List Char) :
    run ⟨stack, .string acc .plain⟩ (escape t) =
      some ⟨stack, .string (acc ++ escape t) .plain⟩ := by
  induction t generalizing acc with
  | nil => simp [escape, run]
  | cons c t ih =>
    have whole : escape (c :: t) = escapeChar c ++ escape t := List.flatMap_cons
    have first : run ⟨stack, .string acc .plain⟩ (escapeChar c) =
        some ⟨stack, .string (acc ++ escapeChar c) .plain⟩ := by
      obtain ⟨d, listed, eq, _⟩ | ⟨_, eq⟩ | ⟨quote, backslash, printable, eq⟩ :=
        escapeChar_cases c
      · rw [eq]
        exact run_short listed stack acc
      · rw [eq]
        exact run_unicode c.toNat stack acc
      · rw [eq, run_single]
        simp only [step, inString, if_neg quote, if_neg backslash,
          if_neg (Nat.not_lt.mpr printable)]
    rw [whole, run_append, first, Option.bind_some, ih, List.append_assoc]

theorem run_string {s : Scanner} {stack : List Frame} (t : List Char)
    (begins : step s '"' = some ⟨stack, .string [] .plain⟩) :
    run s (quoted (escape t)) = some ⟨stack, .endValue (.string t)⟩ := by
  have ended : step ⟨stack, .string (escape t) .plain⟩ '"' =
      some ⟨stack, .endValue (.string t)⟩ := by
    simp only [step, inString, if_pos, unquote_escape]
  rw [quoted, run_cons, begins, Option.bind_some, run_append, run_escape, List.nil_append,
    Option.bind_some, run_single, ended]

end Escapes

section Numbers

theorem run_next {d d' : Digits} {text more : List Char}
    (read : more.foldlM (fun d c => d.next c) d = some d') (stack : List Frame) :
    run ⟨stack, .number text d⟩ more = some ⟨stack, .number (text ++ more) d'⟩ := by
  induction more generalizing d text with
  | nil =>
    cases read
    rw [List.append_nil]
    rfl
  | cons c more ih =>
    rw [List.foldlM_cons] at read
    obtain ⟨next, first, rest⟩ := Option.bind_eq_some_iff.mp read
    have taken : step ⟨stack, .number text d⟩ c = some ⟨stack, .number (text ++ [c]) next⟩ := by
      simp only [step, first]
    rw [run_cons, taken, Option.bind_some, ih rest, List.append_assoc]
    rfl

theorem run_number {text : List Char} {d : Digits} (read : Digits.read text = some d)
    (stack : List Frame) : run ⟨stack, .beginValue⟩ text = some ⟨stack, .number text d⟩ := by
  cases text with
  | nil => cases read
  | cons c text =>
    obtain ⟨first, begun, rest⟩ := Option.bind_eq_some_iff.mp read
    have taken : step ⟨stack, .beginValue⟩ c = some ⟨stack, .number [c] first⟩ := by
      unfold Digits.begin at begun
      split at begun
      · subst c
        cases begun
        rfl
      · split at begun
        · subst c
          cases begun
          rfl
        · split at begun
          · rename_i minus zero digit
            cases begun
            have other (x : Char) (letter : x.isDigit = false) : c ≠ x := by
              rintro rfl
              rw [letter] at digit
              cases digit
            have ink : isSpace c = false := by simp [isSpace, other]
            simp only [step, beginValue, ink, other '\x7b' rfl, other '[' rfl, other '"' rfl,
              minus, zero, digit, if_true, if_false, Bool.false_eq_true]
          · cases begun
    rw [run_cons, taken, Option.bind_some, run_next rest]
    rfl

/- The induction is on the number, whose digits but the last are those of its tenth. -/
theorem read_digits (n : Nat) :
    Digits.read (Nat.toDigits 10 n) = some (if n = 0 then .zero else .int) := by
  induction n using Nat.strongRecOn with
  | ind n ih =>
    by_cases small : n < 10
    · rw [Nat.toDigits_of_lt_base small]
      interval_cases n <;> rfl
    · have positive : n / 10 ≠ 0 := by omega
      have tenth := ih (n / 10) (by omega)
      have digit : (Nat.digitChar (n % 10)).isDigit = true := by
        rw [Nat.isDigit_digitChar]
        exact decide_eq_true (Nat.mod_lt n (by decide))
      rw [Nat.toDigits_of_base_le (by decide) (by omega), if_neg (by omega)]
      rw [if_neg positive] at tenth
      cases text : Nat.toDigits 10 (n / 10) with
      | nil =>
        rw [text] at tenth
        cases tenth
      | cons c more =>
        rw [text] at tenth
        obtain ⟨first, begun, rest⟩ := Option.bind_eq_some_iff.mp tenth
        rw [List.cons_append, Digits.read, begun, Option.bind_some, List.foldlM_append]
        show (more.foldlM (fun d c => d.next c) first >>= _) = _
        rw [rest]
        simp [Digits.next, digit]

theorem number_nat (n : Nat) : IsNumber (Nat.toDigits 10 n) := by
  refine ⟨_, read_digits n, ?_⟩
  split <;> rfl

def closers : List Char := [',', ']', '\x7d', ' ', '\n']

theorem next_closes {c : Char} (closing : c ∈ closers) (d : Digits) : d.next c = none := by
  fin_cases closing <;> cases d <;> rfl

/-- The scanner has read a value and takes what closes it as behind any value. -/
def Ended (stack : List Frame) (v : Value) (s : Scanner) : Prop :=
  ∀ c ∈ closers, step s c = endValue stack v c

theorem ended_value (stack : List Frame) (v : Value) : Ended stack v ⟨stack, .endValue v⟩ :=
  fun _ _ => rfl

theorem ended_number (stack : List Frame) (text : List Char) {d : Digits}
    (whole : d.whole = true) : Ended stack (.number text) ⟨stack, .number text d⟩ := by
  intro c closing
  simp only [step, next_closes closing, whole, if_true]

end Numbers

section Values

theorem ended_comma {stack : List Frame} {items : List Value} {v : Value} {s : Scanner}
    (ended : Ended (.array items :: stack) v s) :
    step s ',' = some ⟨.array (items ++ [v]) :: stack, .beginValue⟩ := ended ',' (by decide)

theorem ended_bracket {stack : List Frame} {items : List Value} {v : Value} {s : Scanner}
    (ended : Ended (.array items :: stack) v s) :
    step s ']' = some ⟨stack, .endValue (.array (items ++ [v]))⟩ := ended ']' (by decide)

theorem ended_member {stack : List Frame} {members : List (List Char × Value)} {key : List Char}
    {v : Value} {s : Scanner} (ended : Ended (.member members key :: stack) v s) :
    step s ',' = some ⟨.key (members ++ [(key, v)]) :: stack, .beginKey⟩ := ended ',' (by decide)

theorem ended_brace {stack : List Frame} {members : List (List Char × Value)} {key : List Char}
    {v : Value} {s : Scanner} (ended : Ended (.member members key :: stack) v s) :
    step s '\x7d' = some ⟨stack, .endValue (.object (members ++ [(key, v)]))⟩ :=
  ended '\x7d' (by decide)

theorem run_key {s : Scanner} {stack : List Frame} {members : List (List Char × Value)}
    (key : List Char) (text : List Char)
    (begins : step s '"' = some ⟨.key members :: stack, .string [] .plain⟩) :
    run s (quoted (escape key) ++ ':' :: text) =
      run ⟨.member members key :: stack, .beginValue⟩ text := by
  have colon : step ⟨.key members :: stack, .endValue (.string key)⟩ ':' =
      some ⟨.member members key :: stack, .beginValue⟩ := rfl
  rw [run_append, run_string key begins, Option.bind_some, run_cons, colon, Option.bind_some]

theorem print_head {v : Value} {depth : Nat} (fits : v.Fits depth) :
    ∃ c text, v.print = c :: text ∧ isSpace c = false ∧ c ≠ ']' := by
  cases v with
  | null => exact ⟨_, _, rfl, by decide, by decide⟩
  | bool b => cases b <;> exact ⟨_, _, rfl, by decide, by decide⟩
  | string text => exact ⟨_, _, rfl, by decide, by decide⟩
  | array items =>
    cases items with
    | nil => exact ⟨_, _, rfl, by decide, by decide⟩
    | cons w items => exact ⟨_, _, by rw [Value.print], by decide, by decide⟩
  | object members =>
    cases members with
    | nil => exact ⟨_, _, rfl, by decide, by decide⟩
    | cons m members => exact ⟨_, _, by rw [Value.print], by decide, by decide⟩
  | number text =>
    obtain ⟨d, read, _⟩ := fits
    cases text with
    | nil => cases read
    | cons c text =>
      obtain ⟨first, begun, _⟩ := Option.bind_eq_some_iff.mp read
      refine ⟨c, text, rfl, ?_, ?_⟩
      · by_contra blank
        simp only [isSpace, Bool.not_eq_false, Bool.or_eq_true, decide_eq_true_eq] at blank
        rcases blank with ((rfl | rfl) | rfl) | rfl <;> cases begun
      · rintro rfl
        cases begun

theorem run_or_empty {stack : List Frame} {items : List Value} {v : Value} {depth : Nat}
    (fits : v.Fits depth) :
    run ⟨.array items :: stack, .beginValueOrEmpty⟩ v.print =
      run ⟨.array items :: stack, .beginValue⟩ v.print := by
  obtain ⟨c, text, eq, ink, deep⟩ := print_head fits
  have same : step ⟨.array items :: stack, .beginValueOrEmpty⟩ c =
      step ⟨.array items :: stack, .beginValue⟩ c := by
    simp only [step, ink, deep, Bool.false_eq_true, if_false]
  rw [eq, run_cons, run_cons, same]

mutual

theorem run_value (v : Value) {depth : Nat} (stack : List Frame) (fits : v.Fits depth)
    (room : stack.length + depth ≤ maxNestingDepth) :
    ∃ s, run ⟨stack, .beginValue⟩ v.print = some s ∧ Ended stack v s := by
  cases v with
  | null => exact ⟨_, rfl, ended_value stack .null⟩
  | bool b => cases b <;> exact ⟨_, rfl, ended_value stack _⟩
  | number text =>
    obtain ⟨d, read, whole⟩ := fits
    exact ⟨_, run_number read stack, ended_number stack text whole⟩
  | string text => exact ⟨_, run_string text rfl, ended_value stack _⟩
  | array items =>
    cases depth with
    | zero => exact fits.elim
    | succ depth =>
      have opened : step ⟨stack, .beginValue⟩ '[' =
          some ⟨.array [] :: stack, .beginValueOrEmpty⟩ := if_pos (show stack.length < _ by omega)
      refine ⟨_, ?_, ended_value stack _⟩
      cases items with
      | nil =>
        rw [Value.print, run_cons, opened]
        rfl
      | cons w items =>
        obtain ⟨first, rest⟩ := fits
        obtain ⟨s, read, ended⟩ := run_value w (.array [] :: stack) first
          (by rw [List.length_cons]; omega)
        rw [Value.print, run_cons, opened, Option.bind_some, run_append, run_or_empty first, read,
          Option.bind_some, run_items items rest (by omega) ended]
        rfl
  | object members =>
    cases depth with
    | zero => exact fits.elim
    | succ depth =>
      have opened : step ⟨stack, .beginValue⟩ '\x7b' =
          some ⟨.key [] :: stack, .beginKeyOrEmpty⟩ := if_pos (show stack.length < _ by omega)
      refine ⟨_, ?_, ended_value stack _⟩
      cases members with
      | nil =>
        rw [Value.print, run_cons, opened]
        rfl
      | cons m members =>
        obtain ⟨first, rest⟩ := fits
        obtain ⟨s, read, ended⟩ := run_value m.2 (.member [] m.1 :: stack) first
          (by rw [List.length_cons]; omega)
        rw [Value.print, run_cons, opened, Option.bind_some, run_key m.1 _ rfl, run_append, read,
          Option.bind_some, run_fields members rest (by omega) ended]
        rfl

theorem run_items (items : List Value) {depth : Nat} {stack : List Frame} {s : Scanner}
    {before : List Value} {v : Value} (fits : ItemsFit depth items)
    (room : stack.length + 1 + depth ≤ maxNestingDepth)
    (ended : Ended (.array before :: stack) v s) :
    run s (printItems items) =
      some ⟨stack, .endValue (.array (before ++ v :: items))⟩ := by
  cases items with
  | nil =>
    rw [printItems, run_single, ended_bracket ended]
  | cons w items =>
    obtain ⟨first, rest⟩ := fits
    obtain ⟨s', read, ended'⟩ := run_value w (.array (before ++ [v]) :: stack) first
      (by simp; omega)
    rw [printItems, run_cons, ended_comma ended, Option.bind_some, run_append, read,
      Option.bind_some, run_items items rest room ended', List.append_assoc]
    rfl

theorem run_fields (members : List (List Char × Value)) {depth : Nat} {stack : List Frame}
    {s : Scanner} {before : List (List Char × Value)} {key : List Char} {v : Value}
    (fits : MembersFit depth members) (room : stack.length + 1 + depth ≤ maxNestingDepth)
    (ended : Ended (.member before key :: stack) v s) :
    run s (printMembers members) =
      some ⟨stack, .endValue (.object (before ++ (key, v) :: members))⟩ := by
  cases members with
  | nil =>
    rw [printMembers, run_single, ended_brace ended]
  | cons m members =>
    obtain ⟨first, rest⟩ := fits
    obtain ⟨s', read, ended'⟩ := run_value m.2 (.member (before ++ [(key, v)]) m.1 :: stack)
      first (by simp; omega)
    rw [printMembers, run_cons, ended_member ended, Option.bind_some, run_key m.1 _ rfl,
      run_append, read, Option.bind_some, run_fields members rest room ended', List.append_assoc]
    rfl

end

/-- Every value that fits is read back from its text. -/
theorem parse_print {v : Value} {depth : Nat} (fits : v.Fits depth)
    (shallow : depth ≤ maxNestingDepth) : parse v.print = some v := by
  obtain ⟨s, read, ended⟩ := run_value v [] fits (by rwa [List.length_nil, Nat.zero_add])
  have behind : step s ' ' = some ⟨[], .endValue v⟩ := ended ' ' (by decide)
  rw [parse, read, Option.bind_some, finish, behind]

theorem parse_print_newline {v : Value} {depth : Nat} (fits : v.Fits depth)
    (shallow : depth ≤ maxNestingDepth) : parse (v.print ++ ['\n']) = some v := by
  obtain ⟨s, read, ended⟩ := run_value v [] fits (by rwa [List.length_nil, Nat.zero_add])
  have behind : step s '\n' = some ⟨[], .endValue v⟩ := ended '\n' (by decide)
  rw [parse, run_append, read, Option.bind_some, run_single, behind]
  rfl

/-- No control character, so no line break. -/
def Visible (t : List Char) : Prop := ∀ c ∈ t, 0x20 ≤ c.toNat

theorem visible_of_all {t : List Char} (all : t.all (fun c => decide (0x20 ≤ c.toNat)) = true) :
    Visible t := by
  intro c member
  simpa using List.all_eq_true.mp all c member

theorem visible_cons {c : Char} {t : List Char} (first : 0x20 ≤ c.toNat) (rest : Visible t) :
    Visible (c :: t) := List.forall_mem_cons.mpr ⟨first, rest⟩

theorem visible_append {a b : List Char} (left : Visible a) (right : Visible b) :
    Visible (a ++ b) := List.forall_mem_append.mpr ⟨left, right⟩

theorem visible_escape (t : List Char) : Visible (escape t) := by
  intro c member
  obtain ⟨d, _, inside⟩ := List.mem_flatMap.mp member
  obtain ⟨e, listed, eq, _⟩ | ⟨_, eq⟩ | ⟨_, _, printable, eq⟩ := escapeChar_cases d
  · rw [eq] at inside
    fin_cases listed <;> fin_cases inside <;> decide
  · have digit (k : Nat) : 0x20 ≤ (Nat.digitChar (k % 16)).toNat := by
      have small := Nat.mod_lt k (show 0 < 16 by decide)
      generalize k % 16 = r at small
      interval_cases r <;> decide
    rw [eq] at inside
    simp only [unicodeEscape, List.mem_cons, List.not_mem_nil, or_false] at inside
    rcases inside with rfl | rfl | rfl | rfl | rfl | rfl
    · decide
    · decide
    · exact digit _
    · exact digit _
    · exact digit _
    · exact digit _
  · rw [eq] at inside
    cases List.mem_singleton.mp inside
    exact printable

theorem visible_quoted (t : List Char) : Visible (quoted (escape t)) :=
  visible_cons (by decide) (visible_append (visible_escape t) (visible_cons (by decide) nofun))

theorem visible_digit {c : Char} (digit : c.isDigit = true) : 0x20 ≤ c.toNat := by
  rw [Char.isDigit, Bool.and_eq_true, decide_eq_true_eq] at digit
  have low : 48 ≤ c.toNat := digit.1
  omega

theorem visible_begin {c : Char} {d : Digits} (begun : Digits.begin c = some d) :
    0x20 ≤ c.toNat := by
  unfold Digits.begin at begun
  split at begun
  · subst c
    decide
  · split at begun
    · subst c
      decide
    · split at begun
      · rename_i digit
        exact visible_digit digit
      · cases begun

theorem visible_next {c : Char} {d d' : Digits} (next : d.next c = some d') :
    0x20 ≤ c.toNat := by
  by_cases digit : c.isDigit = true
  · exact visible_digit digit
  · by_cases sign : c ∈ ['.', 'e', 'E', '+', '-', '0']
    · fin_cases sign <;> decide
    · simp only [List.mem_cons, List.not_mem_nil, or_false, not_or] at sign
      cases d <;> simp [Digits.next, digit, sign] at next

theorem visible_number {text : List Char} (number : IsNumber text) : Visible text := by
  obtain ⟨d, read, _⟩ := number
  cases text with
  | nil => cases read
  | cons c text =>
    obtain ⟨first, begun, rest⟩ := Option.bind_eq_some_iff.mp read
    refine visible_cons (visible_begin begun) ?_
    clear read begun
    induction text generalizing first with
    | nil => exact nofun
    | cons c text ih =>
      rw [List.foldlM_cons] at rest
      obtain ⟨next, taken, later⟩ := Option.bind_eq_some_iff.mp rest
      exact visible_cons (visible_next taken) (ih next later)

mutual

theorem visible_print (v : Value) {depth : Nat} (fits : v.Fits depth) : Visible v.print := by
  cases v with
  | null => exact visible_of_all rfl
  | bool b => cases b <;> exact visible_of_all rfl
  | number text => exact visible_number fits
  | string text => exact visible_quoted text
  | array items =>
    cases depth with
    | zero => exact fits.elim
    | succ depth =>
      cases items with
      | nil => exact visible_of_all rfl
      | cons w items =>
        rw [Value.print]
        exact visible_cons (by decide) (visible_append (visible_print w fits.1)
          (visible_items items fits.2))
  | object members =>
    cases depth with
    | zero => exact fits.elim
    | succ depth =>
      cases members with
      | nil => exact visible_of_all rfl
      | cons m members =>
        rw [Value.print]
        exact visible_cons (by decide) (visible_append (visible_quoted m.1)
          (visible_cons (by decide) (visible_append (visible_print m.2 fits.1)
            (visible_fields members fits.2))))

theorem visible_items (items : List Value) {depth : Nat} (fit : ItemsFit depth items) :
    Visible (printItems items) := by
  cases items with
  | nil => exact visible_cons (by decide) nofun
  | cons w items =>
    rw [printItems]
    exact visible_cons (by decide) (visible_append (visible_print w fit.1)
      (visible_items items fit.2))

theorem visible_fields (members : List (List Char × Value)) {depth : Nat}
    (fit : MembersFit depth members) : Visible (printMembers members) := by
  cases members with
  | nil => exact visible_cons (by decide) nofun
  | cons m members =>
    rw [printMembers]
    exact visible_cons (by decide) (visible_append (visible_quoted m.1)
      (visible_cons (by decide) (visible_append (visible_print m.2 fit.1)
        (visible_fields members fit.2))))

end

end Values

section Prefixes

/- Behind the first brace the scanner has left every value but a last one. -/
def Inside (s : Scanner) : Prop := s.stack = [] → ∃ v, s.mode = .endValue v

theorem push_inside {stack : List Frame} {frame : Frame} {mode : Mode} {s : Scanner}
    (pushed : push stack frame mode = some s) : Inside s := by
  unfold push at pushed
  split at pushed
  · cases pushed
    exact nofun
  · cases pushed

theorem kept_inside {stack : List Frame} (deep : stack ≠ []) (mode : Mode) :
    Inside ⟨stack, mode⟩ := fun closed => absurd closed deep

theorem ended_inside (stack : List Frame) (v : Value) : Inside ⟨stack, .endValue v⟩ :=
  fun _ => ⟨v, rfl⟩

theorem beginValue_inside {stack : List Frame} {c : Char} {s : Scanner} (deep : stack ≠ [])
    (begun : beginValue stack c = some s) : Inside s := by
  unfold beginValue at begun
  repeat' split at begun
  all_goals first
    | exact push_inside begun
    | (cases begun; exact kept_inside deep _)
    | cases begun

theorem beginKey_inside {stack : List Frame} {c : Char} {s : Scanner} (deep : stack ≠ [])
    (begun : beginKey stack c = some s) : Inside s := by
  unfold beginKey at begun
  repeat' split at begun
  all_goals first
    | (cases begun; exact kept_inside deep _)
    | cases begun

theorem endValue_inside {stack : List Frame} {v : Value} {c : Char} {s : Scanner}
    (taken : endValue stack v c = some s) : Inside s := by
  unfold endValue at taken
  repeat' split at taken
  all_goals first
    | (cases taken; exact ended_inside _ _)
    | (cases taken; exact nofun)
    | cases taken

theorem inString_inside {stack : List Frame} {text : List Char} {c : Char} {e : Escape}
    {s : Scanner} (deep : stack ≠ []) (taken : inString stack text c e = some s) : Inside s := by
  cases e
  all_goals
    simp only [inString] at taken
    repeat' split at taken
    all_goals first
      | (cases taken; exact ended_inside _ _)
      | (cases taken; exact kept_inside deep _)
      | cases taken

theorem step_inside {s s' : Scanner} {c : Char} (inside : Inside s) (taken : step s c = some s') :
    Inside s' := by
  obtain ⟨stack, mode⟩ := s
  have deep (other : ∀ v, mode ≠ .endValue v) : stack ≠ [] := by
    intro closed
    obtain ⟨v, same⟩ := inside closed
    exact other v same
  cases mode with
  | beginValue => exact beginValue_inside (deep (by simp)) taken
  | beginValueOrEmpty =>
    simp only [step] at taken
    split at taken
    · split at taken
      · cases taken
        exact inside
      · split at taken
        · cases taken
          exact ended_inside _ _
        · exact beginValue_inside (List.cons_ne_nil _ _) taken
    · cases taken
  | beginKey => exact beginKey_inside (deep (by simp)) taken
  | beginKeyOrEmpty =>
    simp only [step] at taken
    split at taken
    · split at taken
      · cases taken
        exact inside
      · split at taken
        · cases taken
          exact ended_inside _ _
        · exact beginKey_inside (List.cons_ne_nil _ _) taken
    · cases taken
  | string text e => exact inString_inside (deep (by simp)) taken
  | number text digits =>
    simp only [step] at taken
    split at taken
    · cases taken
      exact kept_inside (deep (by simp)) _
    · split at taken
      · exact endValue_inside taken
      · cases taken
  | word next rest v =>
    simp only [step] at taken
    split at taken
    · split at taken
      · cases taken
        exact ended_inside _ _
      · cases taken
        exact kept_inside (deep (by simp)) _
    · cases taken
  | endValue v => exact endValue_inside taken

theorem run_inside {s s' : Scanner} {t : List Char} (inside : Inside s)
    (ran : run s t = some s') : Inside s' := by
  induction t generalizing s with
  | nil =>
    cases ran
    exact inside
  | cons c t ih =>
    rw [run_cons] at ran
    obtain ⟨next, taken, rest⟩ := Option.bind_eq_some_iff.mp ran
    exact ih (step_inside inside taken) rest

theorem step_blank {s s' : Scanner} (taken : step s ' ' = some s') : s'.stack = s.stack := by
  obtain ⟨stack, mode⟩ := s
  have blank : isSpace ' ' = true := rfl
  cases mode with
  | beginValue =>
    cases taken
    rfl
  | beginValueOrEmpty =>
    cases stack with
    | nil => cases taken
    | cons frame rest =>
      cases frame with
      | array items =>
        cases taken
        rfl
      | key members => cases taken
      | member members key => cases taken
  | beginKey =>
    cases taken
    rfl
  | beginKeyOrEmpty =>
    cases stack with
    | nil => cases taken
    | cons frame rest =>
      cases frame with
      | array items => cases taken
      | key members =>
        cases taken
        rfl
      | member members key => cases taken
  | string text e =>
    cases e with
    | plain =>
      cases taken
      rfl
    | escaped => cases taken
    | hex left => cases taken
  | number text digits =>
    simp only [step, next_closes (c := ' ') (by decide), endValue, blank, if_true] at taken
    split at taken
    · cases taken
      rfl
    · cases taken
  | word next rest v =>
    simp only [step] at taken
    split at taken
    · split at taken <;> (cases taken; rfl)
    · cases taken
  | endValue v =>
    cases taken
    rfl

theorem finish_empty {s : Scanner} {v : Value} (finished : finish s = some v) : s.stack = [] := by
  unfold finish at finished
  split at finished
  · rename_i taken
    exact (step_blank taken).symm
  · cases finished

theorem run_ended {v : Value} {text : List Char} {c : Char} (behind : c ∈ text)
    (ink : isSpace c = false) : run ⟨[], .endValue v⟩ text = none := by
  induction text with
  | nil => cases behind
  | cons d text ih =>
    cases blank : isSpace d with
    | false =>
      have refused : step ⟨[], .endValue v⟩ d = none := by
        simp only [step, endValue, blank, Bool.false_eq_true, if_false]
      rw [run_cons, refused]
      rfl
    | true =>
      have stays : step ⟨[], .endValue v⟩ d = some ⟨[], .endValue v⟩ := if_pos blank
      have later : c ∈ text := by
        rcases List.mem_cons.mp behind with rfl | later
        · rw [ink] at blank
          cases blank
        · exact later
      rw [run_cons, stays, Option.bind_some, ih later]

/-- The text of an object that is cut off anywhere behind its first brace is no value. -/
theorem parse_cut {a b : List Char} {c : Char} {v : Value}
    (whole : parse ('\x7b' :: (a ++ b)) = some v) (left : c ∈ b) (ink : isSpace c = false) :
    parse ('\x7b' :: a) = none := by
  have opened : step ⟨[], .beginValue⟩ '\x7b' = some ⟨[.key []], .beginKeyOrEmpty⟩ := rfl
  rw [parse, run_cons, opened, Option.bind_some] at whole ⊢
  cases ran : run ⟨[.key []], .beginKeyOrEmpty⟩ a with
  | none => rfl
  | some s =>
    have inside : Inside s := run_inside (s := ⟨[.key []], .beginKeyOrEmpty⟩) (by simp [Inside]) ran
    rw [Option.bind_some]
    by_contra finished
    obtain ⟨w, eq⟩ := Option.ne_none_iff_exists'.mp finished
    obtain ⟨u, ended⟩ := inside (finish_empty eq)
    have closed : s = ⟨[], .endValue u⟩ := by
      rw [← finish_empty eq, ← ended]
    rw [run_append, ran, Option.bind_some, closed, run_ended left ink] at whole
    cases whole

/- The scanner waits for no replacement character. -/
def Spelled (s : Scanner) : Prop :=
  ∀ next rest v, s.mode = .word next rest v → ∀ c ∈ next :: rest, c ≠ replacement

theorem spelled_other {s : Scanner} (other : ∀ next rest v, s.mode ≠ .word next rest v) :
    Spelled s := fun next rest v same => absurd same (other next rest v)

theorem no_replacement {t : List Char} (apart : (t.all fun c => c != replacement) = true) :
    ∀ c ∈ t, c ≠ replacement := by
  simpa using apart

theorem beginValue_spelled {stack : List Frame} {c : Char} {s : Scanner}
    (begun : beginValue stack c = some s) : Spelled s := by
  unfold beginValue at begun
  repeat' split at begun
  all_goals first
    | (unfold push at begun; split at begun <;> cases begun; exact spelled_other (by simp))
    | (cases begun; rintro next rest v ⟨⟩; exact no_replacement rfl)
    | (cases begun; exact spelled_other (by simp))
    | cases begun

theorem beginKey_spelled {stack : List Frame} {c : Char} {s : Scanner}
    (begun : beginKey stack c = some s) : Spelled s := by
  unfold beginKey at begun
  repeat' split at begun
  all_goals first
    | (cases begun; exact spelled_other (by simp))
    | cases begun

theorem endValue_spelled {stack : List Frame} {v : Value} {c : Char} {s : Scanner}
    (taken : endValue stack v c = some s) : Spelled s := by
  unfold endValue at taken
  repeat' split at taken
  all_goals first
    | (cases taken; exact spelled_other (by simp))
    | cases taken

theorem inString_spelled {stack : List Frame} {text : List Char} {c : Char} {e : Escape}
    {s : Scanner} (taken : inString stack text c e = some s) : Spelled s := by
  cases e
  all_goals
    simp only [inString] at taken
    repeat' split at taken
    all_goals first
      | (cases taken; exact spelled_other (by simp))
      | cases taken

theorem step_spelled {s s' : Scanner} {c : Char} (spelled : Spelled s)
    (taken : step s c = some s') : Spelled s' := by
  obtain ⟨stack, mode⟩ := s
  cases mode with
  | beginValue => exact beginValue_spelled taken
  | beginValueOrEmpty =>
    simp only [step] at taken
    split at taken
    · split at taken
      · cases taken
        exact spelled
      · split at taken
        · cases taken
          exact spelled_other (by simp)
        · exact beginValue_spelled taken
    · cases taken
  | beginKey => exact beginKey_spelled taken
  | beginKeyOrEmpty =>
    simp only [step] at taken
    split at taken
    · split at taken
      · cases taken
        exact spelled
      · split at taken
        · cases taken
          exact spelled_other (by simp)
        · exact beginKey_spelled taken
    · cases taken
  | string text e => exact inString_spelled taken
  | number text digits =>
    simp only [step] at taken
    split at taken
    · cases taken
      exact spelled_other (by simp)
    · split at taken
      · exact endValue_spelled taken
      · cases taken
  | word next rest v =>
    simp only [step] at taken
    split at taken
    · split at taken
      · cases taken
        exact spelled_other (by simp)
      · rename_i next' rest'
        cases taken
        rintro _ _ _ ⟨⟩
        exact fun d member => spelled _ _ _ rfl d (List.mem_cons_of_mem next member)
    · cases taken
  | endValue v => exact endValue_spelled taken

theorem run_spelled {s s' : Scanner} {t : List Char} (spelled : Spelled s)
    (ran : run s t = some s') : Spelled s' := by
  induction t generalizing s with
  | nil =>
    cases ran
    exact spelled
  | cons c t ih =>
    rw [run_cons] at ran
    obtain ⟨next, taken, rest⟩ := Option.bind_eq_some_iff.mp ran
    exact ih (step_spelled spelled taken) rest

theorem endValue_replacement (stack : List Frame) (v : Value) :
    endValue stack v replacement = none := by
  cases stack with
  | nil => rfl
  | cons frame rest =>
    cases frame with
    | key members => cases v <;> rfl
    | _ => rfl

theorem step_replacement {s s' : Scanner} (spelled : Spelled s)
    (taken : step s replacement = some s') : ∃ text, s'.mode = .string text .plain := by
  obtain ⟨stack, mode⟩ := s
  cases mode with
  | beginValue => cases taken
  | beginValueOrEmpty =>
    cases stack with
    | nil => cases taken
    | cons frame rest => cases frame <;> cases taken
  | beginKey => cases taken
  | beginKeyOrEmpty =>
    cases stack with
    | nil => cases taken
    | cons frame rest => cases frame <;> cases taken
  | string text e =>
    cases e with
    | plain =>
      cases taken
      exact ⟨_, rfl⟩
    | escaped => cases taken
    | hex left => cases taken
  | number text digits =>
    have stays : digits.next replacement = none := by cases digits <;> rfl
    simp only [step, stays, endValue_replacement] at taken
    split at taken <;> cases taken
  | word next rest v =>
    have other : replacement ≠ next := (spelled next rest v rfl next List.mem_cons_self).symm
    simp only [step, if_neg other] at taken
    cases taken
  | endValue v =>
    simp only [step, endValue_replacement] at taken
    cases taken

/-- No text that ends with a replacement character is a value. -/
theorem parse_replacement (text : List Char) : parse (text ++ [replacement]) = none := by
  rw [parse, run_append]
  cases ran : run ⟨[], .beginValue⟩ text with
  | none => rfl
  | some s =>
    rw [Option.bind_some, run_single]
    cases taken : step s replacement with
    | none => rfl
    | some s' =>
      obtain ⟨stack, mode⟩ := s'
      obtain ⟨inner, rfl⟩ := step_replacement (run_spelled (spelled_other (by simp)) ran) taken
      cases stack <;> rfl

end Prefixes

end Json
