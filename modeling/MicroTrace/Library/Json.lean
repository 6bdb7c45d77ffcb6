import Mathlib.Tactic.IntervalCases

/- JSON texts, read by a scanner that takes one character at a time and keeps the objects and
   arrays it is inside of on a stack. It builds the value as it goes; the text of a number is
   kept for the reader to interpret. -/
namespace Json

inductive Value where
  | null
  | bool (b : Bool)
  | number (text : List Char)
  | string (text : List Char)
  | array (items : List Value)
  | object (members : List (List Char × Value))

/- An array, an object before the colon of a member and an object behind it. -/
inductive Frame where
  | array (items : List Value)
  | key (members : List (List Char × Value))
  | member (members : List (List Char × Value)) (key : List Char)

inductive Escape where
  | plain
  | escaped
  | hex (left : Nat)

inductive Digits where
  | neg
  | zero
  | int
  | dot
  | frac
  | exp
  | expSign
  | expInt
  deriving DecidableEq

inductive Mode where
  | beginValue
  | beginValueOrEmpty
  | beginKey
  | beginKeyOrEmpty
  | string (text : List Char) (escape : Escape)
  | number (text : List Char) (digits : Digits)
  | word (next : Char) (rest : List Char) (value : Value)
  | endValue (value : Value)

structure Scanner where
  stack : List Frame
  mode : Mode

def isSpace (c : Char) : Bool := c = ' ' || c = '\t' || c = '\r' || c = '\n'

def maxNestingDepth : Nat := 10000

def push (stack : List Frame) (frame : Frame) (mode : Mode) : Option Scanner :=
  if stack.length < maxNestingDepth then some ⟨frame :: stack, mode⟩ else none

def beginValue (stack : List Frame) (c : Char) : Option Scanner :=
  if isSpace c then some ⟨stack, .beginValue⟩
  else if c = '\x7b' then push stack (.key []) .beginKeyOrEmpty
  else if c = '[' then push stack (.array []) .beginValueOrEmpty
  else if c = '"' then some ⟨stack, .string [] .plain⟩
  else if c = '-' then some ⟨stack, .number [c] .neg⟩
  else if c = '0' then some ⟨stack, .number [c] .zero⟩
  else if c.isDigit then some ⟨stack, .number [c] .int⟩
  else if c = 't' then some ⟨stack, .word 'r' ['u', 'e'] (.bool true)⟩
  else if c = 'f' then some ⟨stack, .word 'a' ['l', 's', 'e'] (.bool false)⟩
  else if c = 'n' then some ⟨stack, .word 'u' ['l', 'l'] .null⟩
  else none

def beginKey (stack : List Frame) (c : Char) : Option Scanner :=
  if isSpace c then some ⟨stack, .beginKey⟩
  else if c = '"' then some ⟨stack, .string [] .plain⟩
  else none

def endValue (stack : List Frame) (v : Value) (c : Char) : Option Scanner :=
  if isSpace c then some ⟨stack, .endValue v⟩
  else match stack with
    | [] => none
    | .array items :: rest =>
        if c = ',' then some ⟨.array (items ++ [v]) :: rest, .beginValue⟩
        else if c = ']' then some ⟨rest, .endValue (.array (items ++ [v]))⟩
        else none
    | .key members :: rest =>
        match v with
        | .string key => if c = ':' then some ⟨.member members key :: rest, .beginValue⟩ else none
        | _ => none
    | .member members key :: rest =>
        if c = ',' then some ⟨.key (members ++ [(key, v)]) :: rest, .beginKey⟩
        else if c = '\x7d' then some ⟨rest, .endValue (.object (members ++ [(key, v)]))⟩
        else none

def Digits.next (c : Char) : Digits → Option Digits
  | .neg => if c = '0' then some .zero else if c.isDigit then some .int else none
  | .zero => if c = '.' then some .dot else if c = 'e' || c = 'E' then some .exp else none
  | .int =>
      if c.isDigit then some .int
      else if c = '.' then some .dot
      else if c = 'e' || c = 'E' then some .exp
      else none
  | .dot => if c.isDigit then some .frac else none
  | .frac => if c.isDigit then some .frac else if c = 'e' || c = 'E' then some .exp else none
  | .exp =>
      if c = '+' || c = '-' then some .expSign else if c.isDigit then some .expInt else none
  | .expSign => if c.isDigit then some .expInt else none
  | .expInt => if c.isDigit then some .expInt else none

def Digits.whole : Digits → Bool
  | .zero => true
  | .int => true
  | .frac => true
  | .expInt => true
  | _ => false

def hexDigit (c : Char) : Option Nat :=
  if c.isDigit then some (c.toNat - '0'.toNat)
  else if 'a' ≤ c ∧ c ≤ 'f' then some (c.toNat - 'a'.toNat + 10)
  else if 'A' ≤ c ∧ c ≤ 'F' then some (c.toNat - 'A'.toNat + 10)
  else none

def hex4 (a b c d : Char) : Nat :=
  [a, b, c, d].foldl (fun n x => 16 * n + (hexDigit x).getD 0) 0

def replacement : Char := Char.ofNat 0xFFFD

def escaped (c : Char) : Char :=
  if c = 'b' then '\x08'
  else if c = 'f' then '\x0c'
  else if c = 'n' then '\n'
  else if c = 'r' then '\r'
  else if c = 't' then '\t'
  else c

/-- The text of a literal whose escapes have been checked. Half a surrogate pair is a
    replacement character. -/
def unquote : List Char → List Char
  | [] => []
  | '\\' :: 'u' :: a :: b :: c :: d :: '\\' :: 'u' :: e :: f :: g :: h :: rest =>
      let high := hex4 a b c d
      let low := hex4 e f g h
      if 0xD800 ≤ high ∧ high < 0xDC00 ∧ 0xDC00 ≤ low ∧ low < 0xE000 then
        Char.ofNat (0x10000 + (high - 0xD800) * 0x400 + (low - 0xDC00)) :: unquote rest
      else
        (if 0xD800 ≤ high ∧ high < 0xE000 then replacement else Char.ofNat high) ::
          unquote ('\\' :: 'u' :: e :: f :: g :: h :: rest)
  | '\\' :: 'u' :: a :: b :: c :: d :: rest =>
      (if 0xD800 ≤ hex4 a b c d ∧ hex4 a b c d < 0xE000 then replacement
        else Char.ofNat (hex4 a b c d)) :: unquote rest
  | '\\' :: c :: rest => escaped c :: unquote rest
  | c :: rest => c :: unquote rest

def inString (stack : List Frame) (text : List Char) (c : Char) : Escape → Option Scanner
  | .plain =>
      if c = '"' then some ⟨stack, .endValue (.string (unquote text))⟩
      else if c = '\\' then some ⟨stack, .string (text ++ [c]) .escaped⟩
      else if c.toNat < 0x20 then none
      else some ⟨stack, .string (text ++ [c]) .plain⟩
  | .escaped =>
      if c ∈ ['b', 'f', 'n', 'r', 't', '\\', '/', '"'] then
        some ⟨stack, .string (text ++ [c]) .plain⟩
      else if c = 'u' then some ⟨stack, .string (text ++ [c]) (.hex 4)⟩
      else none
  | .hex left =>
      if (hexDigit c).isSome then
        some ⟨stack, .string (text ++ [c]) (if left ≤ 1 then .plain else .hex (left - 1))⟩
      else none

def step (s : Scanner) (c : Char) : Option Scanner :=
  match s.mode with
  | .beginValue => beginValue s.stack c
  | .beginValueOrEmpty =>
      match s.stack with
      | .array items :: rest =>
          if isSpace c then some s
          else if c = ']' then some ⟨rest, .endValue (.array items)⟩
          else beginValue s.stack c
      | _ => none
  | .beginKey => beginKey s.stack c
  | .beginKeyOrEmpty =>
      match s.stack with
      | .key members :: rest =>
          if isSpace c then some s
          else if c = '\x7d' then some ⟨rest, .endValue (.object members)⟩
          else beginKey s.stack c
      | _ => none
  | .string text escape => inString s.stack text c escape
  | .number text digits =>
      match digits.next c with
      | some next => some ⟨s.stack, .number (text ++ [c]) next⟩
      | none => if digits.whole then endValue s.stack (.number text) c else none
  | .word next rest v =>
      if c = next then
        match rest with
        | [] => some ⟨s.stack, .endValue v⟩
        | next :: rest => some ⟨s.stack, .word next rest v⟩
      else none
  | .endValue v => endValue s.stack v c

def run (s : Scanner) (text : List Char) : Option Scanner := text.foldlM step s

def finish (s : Scanner) : Option Value :=
  match step s ' ' with
  | some ⟨[], .endValue v⟩ => some v
  | _ => none

def parse (text : List Char) : Option Value := (run ⟨[], .beginValue⟩ text).bind finish

inductive Scalar where
  | text (t : List Char)
  | nat (n : Nat)

def quoted (t : List Char) : List Char := '"' :: (t ++ ['"'])

def Scalar.print : Scalar → List Char
  | .text t => quoted t
  | .nat n => Nat.toDigits 10 n

def Scalar.value : Scalar → Value
  | .text t => .string t
  | .nat n => .number (Nat.toDigits 10 n)

def printMember (m : List Char × Scalar) : List Char := quoted m.1 ++ ':' :: m.2.print

def printObject (m : List Char × Scalar) (ms : List (List Char × Scalar)) : List Char :=
  '\x7b' :: (printMember m ++ ms.flatMap (fun m => ',' :: printMember m) ++ ['\x7d'])

def Plain (t : List Char) : Prop := ∀ c ∈ t, c ≠ '"' ∧ c ≠ '\\' ∧ 0x20 ≤ c.toNat ∧ c.toNat < 128

instance (t : List Char) : Decidable (Plain t) := List.decidableBAll _ t

def Scalar.Plain : Scalar → Prop
  | .text t => Json.Plain t
  | .nat _ => True

theorem run_cons (s : Scanner) (c : Char) (t : List Char) :
    run s (c :: t) = (step s c).bind fun s' => run s' t := rfl

theorem run_append (s : Scanner) (a b : List Char) :
    run s (a ++ b) = (run s a).bind fun s' => run s' b := List.foldlM_append

theorem run_single (s : Scanner) (c : Char) : run s [c] = step s c := by
  rw [run_cons]
  cases step s c <;> rfl

theorem unquote_plain {t : List Char} (plain : Plain t) : unquote t = t := by
  induction t with
  | nil => rfl
  | cons c t ih =>
    have first := (plain c List.mem_cons_self).2.1
    have rest := ih fun d member => plain d (List.mem_cons_of_mem _ member)
    rw [unquote, rest] <;> simp [first]

theorem run_plain {t : List Char} (plain : Plain t) (stack : List Frame) (acc : List Char) :
    run ⟨stack, .string acc .plain⟩ t = some ⟨stack, .string (acc ++ t) .plain⟩ := by
  induction t generalizing acc with
  | nil =>
    rw [List.append_nil]
    rfl
  | cons c t ih =>
    obtain ⟨quote, backslash, printable, _⟩ := plain c List.mem_cons_self
    have taken : step ⟨stack, .string acc .plain⟩ c =
        some ⟨stack, .string (acc ++ [c]) .plain⟩ := by
      simp only [step, inString, if_neg quote, if_neg backslash, if_neg (Nat.not_lt.mpr printable)]
    rw [run_cons, taken, Option.bind_some,
      ih (fun d member => plain d (List.mem_cons_of_mem _ member)), List.append_assoc]
    rfl

theorem run_quoted {s : Scanner} {stack : List Frame} {t : List Char} (plain : Plain t)
    (begins : step s '"' = some ⟨stack, .string [] .plain⟩) :
    run s (quoted t) = some ⟨stack, .endValue (.string t)⟩ := by
  have ended : step ⟨stack, .string t .plain⟩ '"' = some ⟨stack, .endValue (.string t)⟩ := by
    simp only [step, inString, if_pos, unquote_plain plain]
  rw [quoted, run_cons, begins, Option.bind_some, run_append, run_plain plain, List.nil_append,
    Option.bind_some, run_single, ended]

theorem step_int (stack : List Frame) (text : List Char) {d : Nat} (small : d < 10) :
    step ⟨stack, .number text .int⟩ d.digitChar =
      some ⟨stack, .number (text ++ [d.digitChar]) .int⟩ := by
  simp only [step, Digits.next, Nat.isDigit_digitChar, small, decide_true, if_true]

/- The induction is on the number, whose digits but the last are those of its tenth. -/
theorem run_digits (stack : List Frame) (n : Nat) : run ⟨stack, .beginValue⟩ (Nat.toDigits 10 n) =
    some ⟨stack, .number (Nat.toDigits 10 n) (if n = 0 then .zero else .int)⟩ := by
  induction n using Nat.strongRecOn with
  | ind n ih =>
    by_cases small : n < 10
    · rw [Nat.toDigits_of_lt_base small, run_single]
      interval_cases n <;> rfl
    · have positive : n / 10 ≠ 0 := by omega
      rw [Nat.toDigits_of_base_le (by decide) (by omega), run_append, ih (n / 10) (by omega),
        if_neg positive, if_neg (by omega), Option.bind_some, run_single,
        step_int stack _ (Nat.mod_lt n (by decide))]

def Closes (stack : List Frame) (v : Value) (s : Scanner) : Prop :=
  ∀ c, c = ',' ∨ c = '\x7d' → step s c = endValue stack v c

theorem run_scalar (stack : List Frame) {v : Scalar} (plain : v.Plain) :
    ∃ s, run ⟨stack, .beginValue⟩ v.print = some s ∧ Closes stack v.value s := by
  cases v with
  | text t =>
    refine ⟨⟨stack, .endValue (.string t)⟩, run_quoted plain rfl, ?_⟩
    intro c _
    rfl
  | nat n =>
    refine ⟨_, run_digits stack n, ?_⟩
    intro c behind
    by_cases zero : n = 0
    · rcases behind with rfl | rfl <;> simp [step, zero, Digits.next, Digits.whole, Scalar.value]
    · rcases behind with rfl | rfl <;> simp [step, zero, Digits.next, Digits.whole, Scalar.value]

theorem run_member {s : Scanner} {members : List (List Char × Value)} {stack : List Frame}
    {m : List Char × Scalar} (key : Plain m.1) (plain : m.2.Plain)
    (begins : step s '"' = some ⟨.key members :: stack, .string [] .plain⟩) :
    ∃ s', run s (printMember m) = some s' ∧ Closes (.member members m.1 :: stack) m.2.value s' := by
  obtain ⟨s', read, closes⟩ := run_scalar (.member members m.1 :: stack) plain
  have colon : step ⟨.key members :: stack, .endValue (.string m.1)⟩ ':' =
      some ⟨.member members m.1 :: stack, .beginValue⟩ := rfl
  refine ⟨s', ?_, closes⟩
  rw [printMember, run_append, run_quoted key begins, Option.bind_some, run_cons, colon,
    Option.bind_some, read]

def memberValue (m : List Char × Scalar) : List Char × Value := (m.1, m.2.value)

theorem run_members {s : Scanner} {members : List (List Char × Value)} {stack : List Frame}
    (m : List Char × Scalar) (ms : List (List Char × Scalar))
    (plain : ∀ n ∈ m :: ms, Plain n.1 ∧ n.2.Plain)
    (begins : step s '"' = some ⟨.key members :: stack, .string [] .plain⟩) :
    run s (printMember m ++ ms.flatMap (fun m => ',' :: printMember m) ++ ['\x7d']) =
      some ⟨stack, .endValue (.object (members ++ (m :: ms).map memberValue))⟩ := by
  induction ms generalizing s m members with
  | nil =>
    obtain ⟨key, scalar⟩ := plain m List.mem_cons_self
    obtain ⟨s', read, closes⟩ := run_member key scalar begins
    rw [List.flatMap_nil, List.append_nil, run_append, read, Option.bind_some, run_single,
      closes '\x7d' (.inr rfl)]
    rfl
  | cons n ms ih =>
    obtain ⟨key, scalar⟩ := plain m List.mem_cons_self
    obtain ⟨s', read, closes⟩ := run_member key scalar begins
    have comma : step s' ',' =
        some ⟨.key (members ++ [memberValue m]) :: stack, .beginKey⟩ := closes ',' (.inl rfl)
    have rest := ih n (fun k member => plain k (List.mem_cons_of_mem _ member))
      (s := ⟨.key (members ++ [memberValue m]) :: stack, .beginKey⟩) rfl
    rw [List.flatMap_cons, List.append_assoc, List.append_assoc, run_append, read,
      Option.bind_some, List.cons_append, run_cons, comma, Option.bind_some,
      ← List.append_assoc, rest, List.append_assoc]
    rfl

/-- Reading back the text of an object of plain strings and natural numbers. -/
theorem parse_printObject (m : List Char × Scalar) (ms : List (List Char × Scalar))
    (plain : ∀ n ∈ m :: ms, Plain n.1 ∧ n.2.Plain) :
    parse (printObject m ms) = some (.object ((m :: ms).map memberValue)) := by
  have opened : step ⟨[], .beginValue⟩ '\x7b' = some ⟨[.key []], .beginKeyOrEmpty⟩ := rfl
  have begins : step ⟨[.key []], .beginKeyOrEmpty⟩ '"' = some ⟨[.key []], .string [] .plain⟩ := rfl
  rw [parse, printObject, run_cons, opened, Option.bind_some, run_members m ms plain begins]
  rfl

def Printable (t : List Char) : Prop := ∀ c ∈ t, 0x20 ≤ c.toNat ∧ c.toNat < 128

theorem printable_digits (n : Nat) : Printable (Nat.toDigits 10 n) := by
  intro c member
  have digit := Nat.isDigit_of_mem_toDigits (by decide) (by decide) member
  rw [Char.isDigit, Bool.and_eq_true, decide_eq_true_eq, decide_eq_true_eq] at digit
  have low : 48 ≤ c.toNat := digit.1
  have high : c.toNat ≤ 57 := digit.2
  omega

theorem plain_digits (n : Nat) : Plain (Nat.toDigits 10 n) := by
  intro c member
  have digit := Nat.isDigit_of_mem_toDigits (by decide) (by decide) member
  refine ⟨?_, ?_, printable_digits n c member⟩
  · rintro rfl
    cases digit
  · rintro rfl
    cases digit

theorem plain_append {a b : List Char} (left : Plain a) (right : Plain b) : Plain (a ++ b) :=
  List.forall_mem_append.mpr ⟨left, right⟩

theorem printable_quoted {t : List Char} (plain : Plain t) : Printable (quoted t) := by
  intro c member
  rcases List.mem_cons.mp member with rfl | inside
  · decide
  · rcases List.mem_append.mp inside with text | last
    · exact (plain c text).2.2
    · rw [List.mem_singleton.mp last]
      decide

theorem printable_scalar {v : Scalar} (plain : v.Plain) : Printable v.print := by
  cases v with
  | text t => exact printable_quoted plain
  | nat n => exact printable_digits n

theorem printable_member {m : List Char × Scalar} (key : Plain m.1) (scalar : m.2.Plain) :
    Printable (printMember m) := by
  intro c member
  rcases List.mem_append.mp member with left | right
  · exact printable_quoted key c left
  · rcases List.mem_cons.mp right with rfl | right
    · decide
    · exact printable_scalar scalar c right

theorem printable_object {m : List Char × Scalar} {ms : List (List Char × Scalar)}
    (plain : ∀ n ∈ m :: ms, Plain n.1 ∧ n.2.Plain) :
    Printable (printObject m ms) := by
  intro c member
  rcases List.mem_cons.mp member with rfl | inside
  · decide
  · rcases List.mem_append.mp inside with members | last
    · rcases List.mem_append.mp members with first | later
      · obtain ⟨key, scalar⟩ := plain m List.mem_cons_self
        exact printable_member key scalar c first
      · obtain ⟨n, there, part⟩ := List.mem_flatMap.mp later
        obtain ⟨key, scalar⟩ := plain n (List.mem_cons_of_mem _ there)
        rcases List.mem_cons.mp part with rfl | part
        · decide
        · exact printable_member key scalar c part
    · rw [List.mem_singleton.mp last]
      decide

end Json
