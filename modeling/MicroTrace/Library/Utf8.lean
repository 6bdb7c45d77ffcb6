import Mathlib.Data.List.Basic

/- Bytes read as UTF-8 text. A byte that begins no well-formed sequence is one replacement
   character. -/
namespace Utf8

def replacement : Char := Char.ofNat 0xFFFD

def within (low high : Nat) (b : UInt8) : Bool := low ≤ b.toNat && b.toNat ≤ high

def trail (b : UInt8) : Bool := within 0x80 0xBF b

def second (first b : UInt8) : Bool :=
  if first = 0xE0 then within 0xA0 0xBF b
  else if first = 0xED then within 0x80 0x9F b
  else if first = 0xF0 then within 0x90 0xBF b
  else if first = 0xF4 then within 0x80 0x8F b
  else trail b

def bits (b : UInt8) : Nat := b.toNat % 64

/-- The first character of a text and the number of further bytes it takes. -/
def decodeRune (first : UInt8) (rest : List UInt8) : Char × Nat :=
  if first < 0x80 then (Char.ofNat first.toNat, 0)
  else match rest with
    | b :: more =>
        if within 0xC2 0xDF first && trail b then
          (Char.ofNat (first.toNat % 32 * 64 + bits b), 1)
        else match more with
          | c :: more =>
              if within 0xE0 0xEF first && second first b && trail c then
                (Char.ofNat (first.toNat % 16 * 4096 + bits b * 64 + bits c), 2)
              else match more with
                | d :: _ =>
                    if within 0xF0 0xF4 first && second first b && trail c && trail d then
                      (Char.ofNat (first.toNat % 8 * 262144 + bits b * 4096 + bits c * 64 + bits d),
                        3)
                    else (replacement, 0)
                | [] => (replacement, 0)
          | [] => (replacement, 0)
    | [] => (replacement, 0)

/- `skip` bytes belong to the character before. -/
def decodeFrom : Nat → List UInt8 → List Char
  | _, [] => []
  | skip + 1, _ :: rest => decodeFrom skip rest
  | 0, b :: rest =>
      let rune := decodeRune b rest
      rune.1 :: decodeFrom rune.2 rest

def decode (bytes : List UInt8) : List Char := decodeFrom 0 bytes

example : decode [0x61, 0xE2, 0x86, 0x92, 0xFF, 0xE2, 0x86] =
    ['a', '→', replacement, replacement, replacement] := by decide

def Ascii (text : List Char) : Prop := ∀ c ∈ text, c.toNat < 128

def ascii (text : List Char) : List UInt8 := text.map fun c => UInt8.ofNat c.toNat

theorem ascii_append (a b : List Char) : ascii (a ++ b) = ascii a ++ ascii b := List.map_append

theorem decode_ascii {text : List Char} (plain : Ascii text) : decode (ascii text) = text := by
  induction text with
  | nil => rfl
  | cons c text ih =>
    have small : c.toNat < 128 := plain c List.mem_cons_self
    have byte : (UInt8.ofNat c.toNat).toNat = c.toNat := by
      rw [UInt8.toNat_ofNat']
      omega
    have first : UInt8.ofNat c.toNat < 0x80 := by
      rw [UInt8.lt_iff_toNat_lt, byte]
      exact small
    have rune (rest : List UInt8) : decodeRune (UInt8.ofNat c.toNat) rest = (c, 0) := by
      unfold decodeRune
      rw [if_pos first, byte, Char.ofNat_toNat]
    have rest := ih fun d member => plain d (List.mem_cons_of_mem _ member)
    rw [decode, ascii, List.map_cons, decodeFrom, rune]
    exact congrArg (c :: ·) rest

def encodeChar (c : Char) : List UInt8 :=
  let n := c.toNat
  if n < 0x80 then [.ofNat n]
  else if n < 0x800 then [.ofNat (0xC0 + n / 64), .ofNat (0x80 + n % 64)]
  else if n < 0x10000 then
    [.ofNat (0xE0 + n / 4096), .ofNat (0x80 + n / 64 % 64), .ofNat (0x80 + n % 64)]
  else
    [.ofNat (0xF0 + n / 262144), .ofNat (0x80 + n / 4096 % 64), .ofNat (0x80 + n / 64 % 64),
      .ofNat (0x80 + n % 64)]

def encode (text : List Char) : List UInt8 := text.flatMap encodeChar

theorem toNat_byte {n : Nat} (small : n < 256) : (UInt8.ofNat n).toNat = n := by
  rw [UInt8.toNat_ofNat']
  exact Nat.mod_eq_of_lt small

theorem byte_eq_iff {n : Nat} {b : UInt8} (small : n < 256) :
    UInt8.ofNat n = b ↔ n = b.toNat := by
  rw [← UInt8.toNat_inj, toNat_byte small]

theorem within_byte {low high n : Nat} (small : n < 256) (least : low ≤ n) (most : n ≤ high) :
    within low high (.ofNat n) = true := by
  simp [within, toNat_byte small, least, most]

theorem bits_byte {n : Nat} (small : n < 64) : bits (.ofNat (0x80 + n)) = n := by
  rw [bits, toNat_byte (by omega)]
  omega

theorem trail_byte {n : Nat} (small : n < 64) : trail (.ofNat (0x80 + n)) = true :=
  within_byte (by omega) (by omega) (by omega)

theorem rune_two {n : Nat} (low : 0x80 ≤ n) (high : n < 0x800) (rest : List UInt8) :
    decodeRune (.ofNat (0xC0 + n / 64)) (.ofNat (0x80 + n % 64) :: rest) = (Char.ofNat n, 1) := by
  have first : ¬ UInt8.ofNat (0xC0 + n / 64) < 0x80 := by
    rw [UInt8.lt_iff_toNat_lt, toNat_byte (by omega)]
    show ¬ _ < 128
    omega
  have lead : within 0xC2 0xDF (.ofNat (0xC0 + n / 64)) = true :=
    within_byte (by omega) (by omega) (by omega)
  have number : (0xC0 + n / 64) % 32 * 64 + n % 64 = n := by omega
  simp only [decodeRune, if_neg first, lead, trail_byte (Nat.mod_lt n (by decide)), Bool.and_self,
    if_true, bits_byte (Nat.mod_lt n (by decide)), toNat_byte (show 0xC0 + n / 64 < 256 by omega),
    number]

theorem second_three {n : Nat} (low : 0x800 ≤ n) (high : n < 0x10000)
    (whole : n < 0xD800 ∨ 0xDFFF < n) :
    second (.ofNat (0xE0 + n / 4096)) (.ofNat (0x80 + n / 64 % 64)) = true := by
  have lead {b : UInt8} : UInt8.ofNat (0xE0 + n / 4096) = b ↔ 0xE0 + n / 4096 = b.toNat :=
    byte_eq_iff (by omega)
  unfold second
  split
  · rename_i same
    have zero : 0xE0 + n / 4096 = 0xE0 := lead.mp same
    exact within_byte (by omega) (by omega) (by omega)
  · split
    · rename_i same
      have thirteen : 0xE0 + n / 4096 = 0xED := lead.mp same
      exact within_byte (by omega) (by omega) (by omega)
    · have four : UInt8.ofNat (0xE0 + n / 4096) ≠ 0xF0 := by
        rw [Ne, lead]
        show _ ≠ 240
        omega
      have last : UInt8.ofNat (0xE0 + n / 4096) ≠ 0xF4 := by
        rw [Ne, lead]
        show _ ≠ 244
        omega
      rw [if_neg four, if_neg last]
      exact trail_byte (Nat.mod_lt _ (by decide))

theorem second_four {n : Nat} (low : 0x10000 ≤ n) (high : n < 0x110000) :
    second (.ofNat (0xF0 + n / 262144)) (.ofNat (0x80 + n / 4096 % 64)) = true := by
  have lead {b : UInt8} : UInt8.ofNat (0xF0 + n / 262144) = b ↔ 0xF0 + n / 262144 = b.toNat :=
    byte_eq_iff (by omega)
  have three : UInt8.ofNat (0xF0 + n / 262144) ≠ 0xE0 := by
    rw [Ne, lead]
    show _ ≠ 224
    omega
  have thirteen : UInt8.ofNat (0xF0 + n / 262144) ≠ 0xED := by
    rw [Ne, lead]
    show _ ≠ 237
    omega
  unfold second
  rw [if_neg three, if_neg thirteen]
  split
  · rename_i same
    have zero : 0xF0 + n / 262144 = 0xF0 := lead.mp same
    exact within_byte (by omega) (by omega) (by omega)
  · split
    · rename_i same
      have four : 0xF0 + n / 262144 = 0xF4 := lead.mp same
      exact within_byte (by omega) (by omega) (by omega)
    · exact trail_byte (Nat.mod_lt _ (by decide))

theorem rune_three {n : Nat} (low : 0x800 ≤ n) (high : n < 0x10000)
    (whole : n < 0xD800 ∨ 0xDFFF < n) (rest : List UInt8) :
    decodeRune (.ofNat (0xE0 + n / 4096))
      (.ofNat (0x80 + n / 64 % 64) :: .ofNat (0x80 + n % 64) :: rest) = (Char.ofNat n, 2) := by
  have first : ¬ UInt8.ofNat (0xE0 + n / 4096) < 0x80 := by
    rw [UInt8.lt_iff_toNat_lt, toNat_byte (by omega)]
    show ¬ _ < 128
    omega
  have two : within 0xC2 0xDF (.ofNat (0xE0 + n / 4096)) = false := by
    rw [within, toNat_byte (by omega), Bool.and_eq_false_iff, decide_eq_false_iff_not,
      decide_eq_false_iff_not]
    omega
  have three : within 0xE0 0xEF (.ofNat (0xE0 + n / 4096)) = true :=
    within_byte (by omega) (by omega) (by omega)
  have number : (0xE0 + n / 4096) % 16 * 4096 + n / 64 % 64 * 64 + n % 64 = n := by omega
  simp only [decodeRune, if_neg first, two, three, second_three low high whole,
    trail_byte (Nat.mod_lt n (show 0 < 64 by decide)), Bool.and_self, Bool.false_and,
    Bool.false_eq_true, if_true, if_false, bits_byte (Nat.mod_lt _ (show 0 < 64 by decide)),
    toNat_byte (show 0xE0 + n / 4096 < 256 by omega), number]

theorem rune_four {n : Nat} (low : 0x10000 ≤ n) (high : n < 0x110000) (rest : List UInt8) :
    decodeRune (.ofNat (0xF0 + n / 262144))
      (.ofNat (0x80 + n / 4096 % 64) :: .ofNat (0x80 + n / 64 % 64) :: .ofNat (0x80 + n % 64) ::
        rest) = (Char.ofNat n, 3) := by
  have first : ¬ UInt8.ofNat (0xF0 + n / 262144) < 0x80 := by
    rw [UInt8.lt_iff_toNat_lt, toNat_byte (by omega)]
    show ¬ _ < 128
    omega
  have two : within 0xC2 0xDF (.ofNat (0xF0 + n / 262144)) = false := by
    rw [within, toNat_byte (by omega), Bool.and_eq_false_iff, decide_eq_false_iff_not,
      decide_eq_false_iff_not]
    omega
  have three : within 0xE0 0xEF (.ofNat (0xF0 + n / 262144)) = false := by
    rw [within, toNat_byte (by omega), Bool.and_eq_false_iff, decide_eq_false_iff_not,
      decide_eq_false_iff_not]
    omega
  have four : within 0xF0 0xF4 (.ofNat (0xF0 + n / 262144)) = true :=
    within_byte (by omega) (by omega) (by omega)
  have number : (0xF0 + n / 262144) % 8 * 262144 + n / 4096 % 64 * 4096 + n / 64 % 64 * 64 +
      n % 64 = n := by omega
  simp only [decodeRune, if_neg first, two, three, four, second_four low high,
    trail_byte (Nat.mod_lt _ (show 0 < 64 by decide)), Bool.and_self, Bool.false_and,
    Bool.false_eq_true, if_true, if_false, bits_byte (Nat.mod_lt _ (show 0 < 64 by decide)),
    toNat_byte (show 0xF0 + n / 262144 < 256 by omega), number]

theorem decode_char (c : Char) (rest : List UInt8) :
    decodeFrom 0 (encodeChar c ++ rest) = c :: decodeFrom 0 rest := by
  have scalar : c.toNat < 0xD800 ∨ 0xDFFF < c.toNat ∧ c.toNat < 0x110000 := c.valid
  have same : Char.ofNat c.toNat = c := Char.ofNat_toNat c
  simp only [encodeChar]
  split
  · rename_i small
    have first : UInt8.ofNat c.toNat < 0x80 := by
      rw [UInt8.lt_iff_toNat_lt, toNat_byte (by omega)]
      exact small
    have rune : decodeRune (.ofNat c.toNat) rest = (c, 0) := by
      unfold decodeRune
      rw [if_pos first, toNat_byte (by omega), same]
    rw [List.singleton_append, decodeFrom, rune]
  · split
    · rename_i low high
      simp only [List.cons_append, List.nil_append]
      rw [decodeFrom, rune_two (by omega) high, same]
      rfl
    · split
      · rename_i low high
        simp only [List.cons_append, List.nil_append]
        rw [decodeFrom, rune_three (by omega) high (by omega), same]
        rfl
      · rename_i low
        simp only [List.cons_append, List.nil_append]
        rw [decodeFrom, rune_four (by omega) (by omega), same]
        rfl

/-- Every text is read back from its bytes. -/
theorem decode_encode (text : List Char) : decode (encode text) = text := by
  induction text with
  | nil => rfl
  | cons c text ih =>
    rw [encode, List.flatMap_cons, decode, decode_char]
    exact congrArg (c :: ·) ih

section Stubs

variable {b c d : UInt8}

theorem rune_alone (high : ¬ b < 0x80) : decodeRune b [] = (replacement, 0) := by
  rw [decodeRune, if_neg high]

theorem rune_pair (high : ¬ b < 0x80) (two : within 0xC2 0xDF b = false) :
    decodeRune b [c] = (replacement, 0) := by
  simp only [decodeRune, if_neg high, two, Bool.false_and, Bool.false_eq_true, if_false]

theorem rune_triple (high : ¬ b < 0x80) (two : within 0xC2 0xDF b = false)
    (three : within 0xE0 0xEF b = false) : decodeRune b [c, d] = (replacement, 0) := by
  simp only [decodeRune, if_neg high, two, three, Bool.false_and, Bool.false_eq_true, if_false]

theorem byte_high {n : Nat} (low : 0x80 ≤ n) (small : n < 256) : ¬ UInt8.ofNat n < 0x80 := by
  rw [UInt8.lt_iff_toNat_lt, toNat_byte small]
  show ¬ _ < 128
  omega

theorem byte_outside {low high n : Nat} (small : n < 256) (apart : n < low ∨ high < n) :
    within low high (.ofNat n) = false := by
  rw [within, toNat_byte small, Bool.and_eq_false_iff, decide_eq_false_iff_not,
    decide_eq_false_iff_not]
  omega

theorem decode_one {n : Nat} (low : 0x80 ≤ n) (small : n < 256) :
    decode [.ofNat n] = [replacement] := by
  rw [decode, decodeFrom, rune_alone (byte_high low small)]
  rfl

theorem decode_two {n m : Nat} (low : 0x80 ≤ n) (small : n < 256) (lead : n < 0xC2 ∨ 0xDF < n)
    (low' : 0x80 ≤ m) (small' : m < 256) :
    decode [.ofNat n, .ofNat m] = [replacement, replacement] := by
  rw [decode, decodeFrom, rune_pair (byte_high low small) (byte_outside small lead)]
  exact congrArg (replacement :: ·) (decode_one low' small')

end Stubs

theorem decode_stub (c : Char) {n : Nat} (begun : 0 < n) (cut : n < (encodeChar c).length) :
    decode ((encodeChar c).take n) = List.replicate n replacement := by
  have scalar : c.toNat < 0xD800 ∨ 0xDFFF < c.toNat ∧ c.toNat < 0x110000 := c.valid
  simp only [encodeChar] at cut ⊢
  split
  · rename_i small
    simp only [small, if_true, List.length_singleton] at cut
    omega
  · rename_i low
    simp only [low, if_false] at cut
    split
    · rename_i two
      simp only [two, if_true, List.length_cons, List.length_nil] at cut
      obtain rfl : n = 1 := by omega
      exact decode_one (by omega) (by omega)
    · rename_i wide
      simp only [wide, if_false] at cut
      split
      · rename_i three
        simp only [three, if_true, List.length_cons, List.length_nil] at cut
        obtain rfl | rfl : n = 1 ∨ n = 2 := by omega
        · exact decode_one (by omega) (by omega)
        · exact decode_two (by omega) (by omega) (by omega) (by omega) (by omega)
      · rename_i wider
        simp only [wider, if_false, List.length_cons, List.length_nil] at cut
        obtain rfl | rfl | rfl : n = 1 ∨ n = 2 ∨ n = 3 := by omega
        · exact decode_one (by omega) (by omega)
        · exact decode_two (by omega) (by omega) (by omega) (by omega) (by omega)
        · have first : decodeRune (.ofNat (0xF0 + c.toNat / 262144))
              [.ofNat (0x80 + c.toNat / 4096 % 64), .ofNat (0x80 + c.toNat / 64 % 64)] =
                (replacement, 0) :=
            rune_triple (byte_high (by omega) (by omega)) (byte_outside (by omega) (by omega))
              (byte_outside (by omega) (by omega))
          rw [List.take_succ_cons, List.take_succ_cons, List.take_succ_cons, List.take_zero, decode,
            decodeFrom, first]
          exact congrArg (replacement :: ·)
            (decode_two (by omega) (by omega) (by omega) (by omega) (by omega))

/-- A text whose bytes have been cut off is read as a part of it, and the bytes of a character
    that has been cut apart as replacement characters. -/
theorem decode_take (text : List Char) {n : Nat} (cut : n < (encode text).length) :
    ∃ j m, j < text.length ∧ decode ((encode text).take n) =
      text.take j ++ List.replicate m replacement ∧ (0 < n → 0 < j + m) := by
  induction text generalizing n with
  | nil => cases cut
  | cons c text ih =>
    rw [encode, List.flatMap_cons] at cut ⊢
    by_cases inside : n < (encodeChar c).length
    · rw [List.take_append_of_le_length (Nat.le_of_lt inside)]
      rcases Nat.eq_zero_or_pos n with rfl | begun
      · exact ⟨0, 0, Nat.zero_lt_succ _, rfl, id⟩
      · exact ⟨0, n, Nat.zero_lt_succ _, decode_stub c begun inside, by omega⟩
    · obtain ⟨k, rfl⟩ : ∃ k, n = (encodeChar c).length + k := ⟨n - (encodeChar c).length, by omega⟩
      rw [List.length_append, Nat.add_lt_add_iff_left] at cut
      obtain ⟨j, m, less, read, _⟩ := ih cut
      refine ⟨j + 1, m, Nat.succ_lt_succ less, ?_, by omega⟩
      rw [List.take_length_add_append, decode, decode_char]
      exact congrArg (c :: ·) read

theorem mem_encode {b : UInt8} (plain : b < 0x80) {text : List Char} (member : b ∈ encode text) :
    Char.ofNat b.toNat ∈ text := by
  obtain ⟨c, inside, part⟩ := List.mem_flatMap.mp member
  have low : b.toNat < 128 := plain
  have scalar : c.toNat < 0xD800 ∨ 0xDFFF < c.toNat ∧ c.toNat < 0x110000 := c.valid
  have wide {n : Nat} (big : 0x80 ≤ n) (small : n < 256) : b ≠ .ofNat n := by
    rintro rfl
    rw [toNat_byte small] at low
    omega
  simp only [encodeChar] at part
  split at part
  · rename_i small
    have same := List.mem_singleton.mp part
    rw [same, toNat_byte (by omega), Char.ofNat_toNat]
    exact inside
  · exfalso
    split at part
    · simp only [List.mem_cons, List.not_mem_nil, or_false] at part
      rcases part with same | same <;> exact wide (by omega) (by omega) same
    · split at part
      · simp only [List.mem_cons, List.not_mem_nil, or_false] at part
        rcases part with same | same | same <;> exact wide (by omega) (by omega) same
      · simp only [List.mem_cons, List.not_mem_nil, or_false] at part
        rcases part with same | same | same | same <;> exact wide (by omega) (by omega) same

end Utf8
