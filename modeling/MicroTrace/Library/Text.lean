import Mathlib.Algebra.Ring.Nat
import Mathlib.Data.List.TakeWhile
import MicroTrace.Library.Utf8

/- Text files read line by line, the words of a line and the decimal numbers in them. -/
namespace Text

def newline : UInt8 := 0x0A

def carriageReturn : UInt8 := 0x0D

/- Every line ends with a newline but the last, which may go without. -/
def rawLines (content : List UInt8) : List (List UInt8) :=
  let pieces := content.splitOn newline
  if pieces.getLast? = some [] then pieces.dropLast else pieces

def dropCR (line : List UInt8) : List UInt8 :=
  if line.getLast? = some carriageReturn then line.dropLast else line

def decodeLine (line : List UInt8) : List Char := Utf8.decode (dropCR line)

/- The bytes read before the end or before a read that failed. -/
inductive File where
  | missing
  | opened (content : List UInt8) (failed : Bool)
  deriving DecidableEq

inductive FileError where
  | notOpened
  | notRead
  | tooLong
  deriving DecidableEq

structure Scanned where
  lines : List (List Char)
  err : Option FileError
  deriving DecidableEq

def maxTokenSize : Nat := 64 * 1024

/- The scanner stops at the first line that does not fit its buffer. After a failed read the
   lines before it are still delivered. -/
def scan (content : List UInt8) (failed : Bool) : Scanned where
  lines := ((rawLines content).takeWhile (·.length < maxTokenSize)).map decodeLine
  err :=
    if (rawLines content).all (·.length < maxTokenSize) then
      if failed then some .notRead else none
    else some .tooLong

def Short (content : List UInt8) : Prop := ∀ line ∈ rawLines content, line.length < maxTokenSize

theorem short_of_lengths {content : List UInt8} {lengths : List Nat}
    (all : (rawLines content).map List.length = lengths) (small : ∀ n ∈ lengths, n < maxTokenSize) :
    Short content := by
  intro line member
  apply small
  rw [← all]
  exact List.mem_map_of_mem member

def linesOf (content : List UInt8) : List (List Char) := (rawLines content).map decodeLine

theorem scan_short {content : List UInt8} (short : Short content) (failed : Bool) :
    scan content failed = ⟨linesOf content, if failed then some .notRead else none⟩ := by
  have all : (rawLines content).all (·.length < maxTokenSize) = true := by
    rw [List.all_eq_true]
    exact fun line member => decide_eq_true (short line member)
  have whole : (rawLines content).takeWhile (·.length < maxTokenSize) = rawLines content := by
    rw [List.takeWhile_eq_self_iff]
    exact fun line member => decide_eq_true (short line member)
  rw [scan, if_pos all, whole, linesOf]

/- unicode.IsSpace -/
def isSpace (c : Char) : Bool :=
  let n := c.toNat
  (9 ≤ n && n ≤ 13) || n == 0x20 || n == 0x85 || n == 0xA0 || n == 0x1680 ||
    (0x2000 ≤ n && n ≤ 0x200A) || n == 0x2028 || n == 0x2029 || n == 0x202F || n == 0x205F ||
    n == 0x3000

def fields (text : List Char) : List (List Char) :=
  (text.splitOnP isSpace).filter fun word => !word.isEmpty

def trimSpace (text : List Char) : List Char :=
  ((text.dropWhile isSpace).reverse.dropWhile isSpace).reverse

theorem fields_cons (c : Char) (text : List Char) :
    fields (c :: text) = [] ↔ isSpace c = true ∧ fields text = [] := by
  unfold fields
  rw [List.splitOnP_cons_eq_if_modifyHead]
  split
  · rename_i blank
    simp [blank]
  · rename_i letter
    cases pieces : text.splitOnP isSpace with
    | nil => exact absurd pieces (List.splitOnP_ne_nil isSpace text)
    | cons word words => simp [letter]

theorem fields_nil_iff {text : List Char} : fields text = [] ↔ ∀ c ∈ text, isSpace c = true := by
  induction text with
  | nil => simp [fields]
  | cons c text ih => rw [fields_cons, ih, List.forall_mem_cons]

def trimPrefix (start text : List Char) : List Char :=
  if start.isPrefixOf text then text.drop start.length else text

def cutAt (sep : Char) : List Char → Option (List Char × List Char)
  | [] => none
  | c :: rest =>
      if c = sep then some ([], rest)
      else (cutAt sep rest).map fun parts => (c :: parts.1, parts.2)

theorem cutAt_some {sep : Char} {text key value : List Char}
    (cut : cutAt sep text = some (key, value)) : text = key ++ sep :: value := by
  induction text generalizing key with
  | nil => cases cut
  | cons c rest ih =>
    unfold cutAt at cut
    split at cut
    · rename_i found
      cases cut
      rw [found, List.nil_append]
    · obtain ⟨⟨before, after⟩, inner, same⟩ := Option.map_eq_some_iff.mp cut
      cases same
      rw [ih inner, List.cons_append]

theorem cutAt_join {key : List Char} {sep : Char} (free : sep ∉ key) (value : List Char) :
    cutAt sep (key ++ sep :: value) = some (key, value) := by
  induction key with
  | nil => rw [List.nil_append, cutAt, if_pos rfl]
  | cons c key ih =>
    rw [List.mem_cons, not_or] at free
    rw [List.cons_append, cutAt, if_neg fun same => free.1 same.symm, ih free.2]
    rfl

/- A number that is too large is told apart from a text that is none. -/
inductive Parsed where
  | value (n : Nat)
  | malformed
  | outOfRange
  deriving DecidableEq

def parseDigits (n : Nat) : List Char → Parsed
  | [] => .value n
  | c :: rest =>
      if c.isDigit then
        let next := n * 10 + (c.toNat - '0'.toNat)
        if next < 2 ^ 64 then parseDigits next rest else .outOfRange
      else .malformed

def parseUint : List Char → Parsed
  | [] => .malformed
  | c :: rest => parseDigits 0 (c :: rest)

def decimal (text : List Char) : Option Nat :=
  if text ≠ [] ∧ text.all Char.isDigit ∧ Nat.ofDigitChars 10 text 0 < 2 ^ 64 then
    some (Nat.ofDigitChars 10 text 0)
  else none

theorem le_ofDigitChars (text : List Char) (n : Nat) : n ≤ Nat.ofDigitChars 10 text n := by
  have power : 0 < 10 ^ text.length := Nat.pow_pos (by decide)
  rw [Nat.ofDigitChars_eq_ofDigitChars_zero]
  exact Nat.le_add_right_of_le (Nat.le_mul_of_pos_left n power)

theorem parseDigits_value_iff {text : List Char} {n m : Nat} (small : n < 2 ^ 64) :
    parseDigits n text = .value m ↔
      text.all Char.isDigit ∧ Nat.ofDigitChars 10 text n = m ∧ m < 2 ^ 64 := by
  induction text generalizing n with
  | nil =>
    simp only [parseDigits, Parsed.value.injEq, List.all_nil, Nat.ofDigitChars_nil, true_and]
    exact ⟨fun same => ⟨same, same ▸ small⟩, fun both => both.1⟩
  | cons c text ih =>
    simp only [parseDigits, List.all_cons, Nat.ofDigitChars_cons, Bool.and_eq_true]
    rw [Nat.mul_comm n 10]
    have grows := le_ofDigitChars text (10 * n + (c.toNat - '0'.toNat))
    split
    · rename_i digit
      split
      · rename_i next
        rw [ih next, and_assoc]
        exact ⟨fun rest => ⟨digit, rest⟩, fun all => all.2⟩
      · rename_i next
        constructor
        · exact Parsed.noConfusion
        · rintro ⟨_, rfl, bound⟩
          exact absurd (grows.trans_lt bound) next
    · rename_i other
      constructor
      · exact Parsed.noConfusion
      · rintro ⟨⟨digit, _⟩, _⟩
        exact absurd digit other

theorem parseUint_value_iff {text : List Char} {n : Nat} :
    parseUint text = .value n ↔ decimal text = some n := by
  unfold decimal
  cases text with
  | nil => simp [parseUint]
  | cons c rest =>
    rw [parseUint, parseDigits_value_iff (Nat.two_pow_pos 64), Option.ite_none_right_eq_some,
      Option.some.injEq]
    constructor
    · rintro ⟨digits, rfl, small⟩
      exact ⟨⟨List.cons_ne_nil c rest, digits, small⟩, rfl⟩
    · rintro ⟨⟨_, digits, small⟩, rfl⟩
      exact ⟨digits, rfl, small⟩

def Parsed.toOption : Parsed → Option Nat
  | .value n => some n
  | .malformed => none
  | .outOfRange => none

theorem decimal_eq (text : List Char) : decimal text = (parseUint text).toOption := by
  apply Option.ext
  intro n
  rw [← parseUint_value_iff]
  cases parseUint text with
  | value m => simp [Parsed.toOption]
  | malformed => simp [Parsed.toOption]
  | outOfRange => simp [Parsed.toOption]

example : fields (Utf8.decode (Utf8.ascii "8:0 rbytes=10\t wbytes=7 ".toList)) =
    ["8:0".toList, "rbytes=10".toList, "wbytes=7".toList] := by decide

example : parseUint "18446744073709551616".toList = .outOfRange := by decide

example : scan (Utf8.ascii "a 1\r\n\nb".toList) false =
    ⟨["a 1".toList, [], "b".toList], none⟩ := by decide

end Text
