import Mathlib.Data.Nat.Notation

/- The texts of IP addresses, as net.ParseIP reads them: dotted decimal for IPv4, groups of
   hexadecimal digits for IPv6, with one :: for groups of zeros and perhaps a dotted decimal
   at the end. The value is sixteen bytes; an IPv4 address is held in its mapped form. -/
namespace IpText

def hexValue (c : Char) : Option ℕ :=
  if '0' ≤ c ∧ c ≤ '9' then some (c.toNat - '0'.toNat)
  else if 'a' ≤ c ∧ c ≤ 'f' then some (c.toNat - 'a'.toNat + 10)
  else if 'A' ≤ c ∧ c ≤ 'F' then some (c.toNat - 'A'.toNat + 10)
  else none

def isHex (c : Char) : Bool := (hexValue c).isSome

def hexNumber (digits : List Char) : ℕ :=
  digits.foldl (fun n c => n * 16 + (hexValue c).getD 0) 0

/- No sign, no leading zero and at most 255. -/
def octet (text : List Char) : Option ℕ :=
  if text ≠ [] ∧ text.all Char.isDigit ∧ (text.head? = some '0' → text = ['0']) ∧
      Nat.ofDigitChars 10 text 0 ≤ 255 then
    some (Nat.ofDigitChars 10 text 0)
  else none

def parseIPv4 (text : List Char) : Option (List ℕ) :=
  match text.splitOn '.' with
  | [a, b, c, d] => do return [← octet a, ← octet b, ← octet c, ← octet d]
  | _ => none

/-- The groups of an IPv6 text after the bytes already read. The gap is where the :: stands
    among the bytes. Whoever has read eight groups and not reached the end has no fuel left. -/
def groups : ℕ → List Char → List ℕ → Option ℕ → Option (List ℕ × Option ℕ)
  | 0, _, _, _ => none
  | fuel + 1, text, read, gap =>
      let digits := text.takeWhile isHex
      let next := read ++ [hexNumber digits / 256, hexNumber digits % 256]
      if digits.length = 0 ∨ 4 < digits.length then none
      else match text.dropWhile isHex with
        | [] => some (next, gap)
        | '.' :: _ =>
            -- a dotted decimal is the last four bytes
            if (gap = none ∧ read.length ≠ 12) ∨ 12 < read.length then none
            else (parseIPv4 text).map fun quad => (read ++ quad, gap)
        | ':' :: ':' :: rest =>
            if gap ≠ none then none
            else if rest = [] then some (next, some next.length)
            else groups fuel rest next (some next.length)
        | [':'] => none
        | ':' :: rest => groups fuel rest next gap
        | _ => none

/- The gap stands for at least one byte. -/
def expand : List ℕ × Option ℕ → Option (List ℕ)
  | (bytes, none) => if bytes.length = 16 then some bytes else none
  | (bytes, some gap) =>
      if bytes.length < 16 then
        some (bytes.take gap ++ List.replicate (16 - bytes.length) 0 ++ bytes.drop gap)
      else none

/- net.ParseIP refuses a zone. -/
def parseIPv6 (text : List Char) : Option (List ℕ) :=
  if '%' ∈ text then none
  else match text with
    | [':', ':'] => some (List.replicate 16 0)
    | ':' :: ':' :: rest => (groups 8 rest [] (some 0)).bind expand
    | _ => (groups 8 text [] none).bind expand

def mapped (quad : List ℕ) : List ℕ := List.replicate 10 0 ++ 255 :: 255 :: quad

/-- The first character that is a dot, a colon or a percent sign tells which form it is. -/
def parseIP (text : List Char) : Option (List ℕ) :=
  match text.find? fun c => c = '.' ∨ c = ':' ∨ c = '%' with
  | some '.' => (parseIPv4 text).map mapped
  | some ':' => parseIPv6 text
  | _ => none

example : parseIP "::FFFF:a00:10a".toList = parseIP "10.0.1.10".toList := by decide

example : parseIP "2001:db8::10.0.1.10".toList =
    some [32, 1, 13, 184, 0, 0, 0, 0, 0, 0, 0, 0, 10, 0, 1, 10] := by decide

example : parseIP "fe80::1%eth0".toList = none ∧ parseIP "1:2:3:4:5:6:7:8::".toList = none ∧
    parseIP "10.0.01.10".toList = none := by decide

section Digits

theorem isDigit_of_mem {n : ℕ} {c : Char} (member : c ∈ Nat.toDigits 10 n) : c.isDigit = true :=
  Nat.isDigit_of_mem_toDigits (by decide) (by decide) member

theorem digit_of_char {c : Char} (digit : c.isDigit = true) :
    ∃ d < 10, c = Nat.digitChar d ∧ c.toNat - '0'.toNat = d := by
  obtain ⟨low, high⟩ := Char.isDigit_iff_toNat.mp digit
  have nine : '9'.toNat = '0'.toNat + 9 := rfl
  have small : c.toNat - '0'.toNat < 10 := by omega
  refine ⟨c.toNat - '0'.toNat, small, ?_, rfl⟩
  apply Char.toNat_inj.mp
  rw [Nat.toNat_digitChar_of_lt_ten small]
  exact (Nat.add_sub_cancel' low).symm

theorem toDigits_append {text : List Char} {n : ℕ} (positive : 0 < n)
    (digits : text.all Char.isDigit = true) :
    Nat.toDigits 10 n ++ text = Nat.toDigits 10 (Nat.ofDigitChars 10 text n) := by
  induction text generalizing n with
  | nil => rw [List.append_nil, Nat.ofDigitChars_nil]
  | cons c text ih =>
    rw [List.all_cons, Bool.and_eq_true] at digits
    obtain ⟨d, small, char, value⟩ := digit_of_char digits.1
    rw [Nat.ofDigitChars_cons, value, ← ih (by omega) digits.2,
      ← Nat.toDigits_append_toDigits (by decide) positive small, Nat.toDigits_of_lt_base small,
      ← char, List.append_assoc, List.singleton_append]

theorem toDigits_ofDigitChars {text : List Char} (nonempty : text ≠ [])
    (digits : text.all Char.isDigit = true) (canonical : text.head? = some '0' → text = ['0']) :
    Nat.toDigits 10 (Nat.ofDigitChars 10 text 0) = text := by
  cases text with
  | nil => exact absurd rfl nonempty
  | cons c text =>
    rw [List.all_cons, Bool.and_eq_true] at digits
    obtain ⟨d, small, char, value⟩ := digit_of_char digits.1
    by_cases zero : d = 0
    · subst zero
      rw [canonical (by rw [char]; rfl)]
      rfl
    · rw [Nat.ofDigitChars_cons, value, Nat.mul_zero, Nat.zero_add,
        ← toDigits_append (Nat.pos_of_ne_zero zero) digits.2, Nat.toDigits_of_lt_base small,
        ← char, List.singleton_append]

theorem head_toDigits {n : ℕ} (zero : (Nat.toDigits 10 n).head? = some '0') :
    Nat.toDigits 10 n = ['0'] := by
  induction n using Nat.strongRecOn with
  | ind n ih =>
    rw [Nat.toDigits_eq_if (by decide)] at zero ⊢
    split at zero
    · rename_i small
      rw [if_pos small]
      rw [List.head?_cons, Option.some.injEq] at zero
      rw [zero]
    · rename_i large
      rw [List.head?_append, Option.or_of_isSome
        (List.isSome_head?.mpr Nat.toDigits_ne_nil)] at zero
      -- a number whose first digit is zero is zero, and n / 10 is not
      have leading := congrArg (Nat.ofDigitChars 10 · 0) (ih (n / 10) (by omega) zero)
      rw [Nat.ofDigitChars_ten_toDigits] at leading
      have nothing : Nat.ofDigitChars 10 ['0'] 0 = 0 := rfl
      omega

theorem octet_iff {text : List Char} {n : ℕ} :
    octet text = some n ↔ n ≤ 255 ∧ text = Nat.toDigits 10 n := by
  unfold octet
  rw [Option.ite_none_right_eq_some, Option.some.injEq]
  constructor
  · rintro ⟨⟨nonempty, digits, canonical, small⟩, rfl⟩
    exact ⟨small, (toDigits_ofDigitChars nonempty digits canonical).symm⟩
  · rintro ⟨small, rfl⟩
    rw [Nat.ofDigitChars_ten_toDigits]
    refine ⟨⟨Nat.toDigits_ne_nil, ?_, head_toDigits, small⟩, rfl⟩
    rw [List.all_eq_true]
    exact fun c member => isDigit_of_mem member

end Digits

def dotted (a b c d : ℕ) : List Char :=
  ['.'].intercalate [Nat.toDigits 10 a, Nat.toDigits 10 b, Nat.toDigits 10 c, Nat.toDigits 10 d]

theorem dot_not_digit (n : ℕ) : '.' ∉ Nat.toDigits 10 n := by
  intro member
  have digit := isDigit_of_mem member
  revert digit
  decide

theorem splitOn_dotted (a b c d : ℕ) : (dotted a b c d).splitOn '.' =
    [Nat.toDigits 10 a, Nat.toDigits 10 b, Nat.toDigits 10 c, Nat.toDigits 10 d] := by
  apply List.splitOn_intercalate
  · simp [dot_not_digit]
  · exact List.cons_ne_nil _ _

theorem parseIPv4_iff {text : List Char} {bytes : List ℕ} :
    parseIPv4 text = some bytes ↔
      ∃ a b c d, bytes = [a, b, c, d] ∧ (∀ n ∈ bytes, n ≤ 255) ∧ text = dotted a b c d := by
  constructor
  · intro parsed
    unfold parseIPv4 at parsed
    split at parsed
    · rename_i p q r t parts
      simp only [bind, pure, Option.bind_eq_some_iff, Option.some.injEq] at parsed
      obtain ⟨a, first, b, second, c, third, d, fourth, rfl⟩ := parsed
      obtain ⟨smallA, rfl⟩ := octet_iff.mp first
      obtain ⟨smallB, rfl⟩ := octet_iff.mp second
      obtain ⟨smallC, rfl⟩ := octet_iff.mp third
      obtain ⟨smallD, rfl⟩ := octet_iff.mp fourth
      refine ⟨a, b, c, d, rfl, by simp [*], ?_⟩
      have whole : ['.'].intercalate (text.splitOn '.') = text := List.intercalate_splitOn '.'
      rw [← whole, parts, dotted]
    · cases parsed
  · rintro ⟨a, b, c, d, rfl, small, rfl⟩
    have read (n : ℕ) (member : n ∈ [a, b, c, d]) : octet (Nat.toDigits 10 n) = some n :=
      octet_iff.mpr ⟨small n member, rfl⟩
    simp [parseIPv4, splitOn_dotted, read]

theorem parseIP_plain {text : List Char} {a b c d : ℕ} (plain : ':' ∉ text)
    (parsed : parseIP text = some (mapped [a, b, c, d])) : text = dotted a b c d := by
  unfold parseIP at parsed
  split at parsed
  · obtain ⟨bytes, read, same⟩ := Option.map_eq_some_iff.mp parsed
    obtain ⟨p, q, r, t, rfl, _, rfl⟩ := parseIPv4_iff.mp read
    cases same
    rfl
  · rename_i found
    exact absurd (List.mem_of_find?_eq_some found) plain
  · cases parsed

end IpText
