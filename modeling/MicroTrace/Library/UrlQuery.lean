import Mathlib.Data.List.TakeWhile
import MicroTrace.Library.Utf8

/- The query of a URL. A page encodes the texts that it puts there, the browser encodes what a
   query may not hold, and the server splits the query into pairs and unescapes them. -/
namespace UrlQuery
open Utf8

def hexDigit (n : Nat) : UInt8 := .ofNat (if n < 10 then 0x30 + n else 0x37 + n)

def percent (b : UInt8) : List UInt8 := [0x25, hexDigit (b.toNat / 16), hexDigit (b.toNat % 16)]

def escapeBytes (kept : UInt8 → Bool) (bytes : List UInt8) : List UInt8 :=
  bytes.flatMap fun b => if kept b then [b] else percent b

def unreserved (b : UInt8) : Bool :=
  within 0x30 0x39 b || within 0x41 0x5A b || within 0x61 0x7A b ||
    [0x21, 0x27, 0x28, 0x29, 0x2A, 0x2D, 0x2E, 0x5F, 0x7E].contains b

def encodeURIComponent (text : List Char) : List UInt8 := escapeBytes unreserved (encode text)

/- Not the blank, a control, a quote of either kind, a hash, an angle bracket or a byte that is
   not ASCII. -/
def queryByte (b : UInt8) : Bool :=
  within 0x21 0x7E b && !([0x22, 0x23, 0x27, 0x3C, 0x3E].contains b)

/-- What a browser sends of the text behind the question mark. The fragment is not sent. -/
def sentQuery (text : List UInt8) : List UInt8 :=
  escapeBytes queryByte (text.takeWhile fun b => b != 0x23)

def queryPair (p : List Char × List Char) : List UInt8 :=
  encodeURIComponent p.1 ++ 0x3D :: encodeURIComponent p.2

def queryText (pairs : List (List Char × List Char)) : List UInt8 :=
  [0x26].intercalate (pairs.map queryPair)

def unhex (b : UInt8) : Option Nat :=
  if within 0x30 0x39 b then some (b.toNat - 0x30)
  else if within 0x61 0x66 b then some (b.toNat - 0x57)
  else if within 0x41 0x46 b then some (b.toNat - 0x37)
  else none

def queryUnescape : List UInt8 → Option (List UInt8)
  | [] => some []
  | b :: rest =>
      if b = 0x25 then
        match rest with
        | high :: low :: rest => do
            let h ← unhex high
            let l ← unhex low
            (queryUnescape rest).map (.ofNat (16 * h + l) :: ·)
        | _ => none
      else (queryUnescape rest).map ((if b = 0x2B then 0x20 else b) :: ·)

def cut (sep : UInt8) (text : List UInt8) : List UInt8 × List UInt8 :=
  (text.takeWhile (· != sep), (text.dropWhile (· != sep)).tail)

/- A pair that is empty, holds a semicolon or cannot be unescaped is passed over. -/
def readPair (piece : List UInt8) : Option (List UInt8 × List UInt8) :=
  if piece = [] ∨ 0x3B ∈ piece then none
  else do
    let key ← queryUnescape (cut 0x3D piece).1
    let value ← queryUnescape (cut 0x3D piece).2
    some (key, value)

def parseQuery (query : List UInt8) : List (List UInt8 × List UInt8) :=
  (query.splitOn 0x26).filterMap readPair

def Values.get (values : List (List UInt8 × List UInt8)) (key : List UInt8) : List UInt8 :=
  ((values.find? fun p => p.1 = key).map Prod.snd).getD []

example : queryUnescape [0x25, 0x37, 0x65, 0x2B, 0x78] = some [0x7E, 0x20, 0x78] := by decide

example : queryUnescape [0x64, 0x25, 0x47, 0x30] = none := by decide

theorem unhex_digit : ∀ n < 16, unhex (hexDigit n) = some n := by decide

def percentByte (b : UInt8) : Bool := b == 0x25 || within 0x30 0x39 b || within 0x41 0x46 b

theorem percent_digit : ∀ n < 16, percentByte (hexDigit n) = true := by decide

theorem percentByte_of_mem {b d : UInt8} (inside : d ∈ percent b) : percentByte d = true := by
  have small := b.toNat_lt
  simp only [percent, List.mem_cons, List.not_mem_nil, or_false] at inside
  rcases inside with rfl | rfl | rfl
  · rfl
  · exact percent_digit _ (by omega)
  · exact percent_digit _ (by omega)

theorem unescape_percent (b : UInt8) (rest : List UInt8) :
    queryUnescape (percent b ++ rest) = (queryUnescape rest).map (b :: ·) := by
  have small := b.toNat_lt
  have byte : UInt8.ofNat (16 * (b.toNat / 16) + b.toNat % 16) = b := by
    rw [Nat.div_add_mod, UInt8.ofNat_toNat]
  simp only [percent, List.cons_append, List.nil_append, queryUnescape, if_true,
    unhex_digit (b.toNat / 16) (by omega), unhex_digit (b.toNat % 16) (by omega),
    Option.bind_eq_bind, Option.bind_some, byte]

theorem unescape_plain {b : UInt8} (percents : b ≠ 0x25) (pluses : b ≠ 0x2B) (rest : List UInt8) :
    queryUnescape (b :: rest) = (queryUnescape rest).map (b :: ·) := by
  rw [queryUnescape.eq_def]
  simp only [if_neg percents, if_neg pluses]

section Escaping

variable {kept : UInt8 → Bool}

theorem escape_cons (b : UInt8) (bytes : List UInt8) : escapeBytes kept (b :: bytes) =
    (if kept b then [b] else percent b) ++ escapeBytes kept bytes := List.flatMap_cons

theorem escape_append (a b : List UInt8) :
    escapeBytes kept (a ++ b) = escapeBytes kept a ++ escapeBytes kept b := List.flatMap_append

/-- Escaping is undone where neither the percent sign nor the plus sign is kept. -/
theorem unescape_escape (percents : kept 0x25 = false) (pluses : kept 0x2B = false)
    (bytes : List UInt8) : queryUnescape (escapeBytes kept bytes) = some bytes := by
  induction bytes with
  | nil => rfl
  | cons b bytes ih =>
    rw [escape_cons]
    split
    · rename_i plain
      have noPercent : b ≠ 0x25 := by
        rintro rfl
        simp [percents] at plain
      have noPlus : b ≠ 0x2B := by
        rintro rfl
        simp [pluses] at plain
      rw [List.singleton_append, unescape_plain noPercent noPlus, ih, Option.map_some]
    · rw [unescape_percent, ih, Option.map_some]

theorem mem_escape {b : UInt8} {bytes : List UInt8} (inside : b ∈ escapeBytes kept bytes) :
    kept b = true ∨ percentByte b = true := by
  obtain ⟨c, _, from_c⟩ := List.mem_flatMap.mp inside
  split at from_c
  · rename_i plain
    rw [List.mem_singleton.mp from_c]
    exact .inl plain
  · exact .inr (percentByte_of_mem from_c)

theorem escape_kept {bytes : List UInt8} (all : ∀ b ∈ bytes, kept b = true) :
    escapeBytes kept bytes = bytes := by
  induction bytes with
  | nil => rfl
  | cons b bytes ih =>
    obtain ⟨first, later⟩ := List.forall_mem_cons.mp all
    rw [escape_cons, if_pos first, ih later, List.singleton_append]

theorem escape_escape {outer : UInt8 → Bool} (stable : ∀ b, percentByte b = true → outer b = true)
    (bytes : List UInt8) : escapeBytes outer (escapeBytes kept bytes) =
      escapeBytes (fun b => kept b && outer b) bytes := by
  induction bytes with
  | nil => rfl
  | cons b bytes ih =>
    rw [escape_cons, escape_cons, escape_append, ih]
    cases plain : kept b with
    | true => simp [escapeBytes]
    | false => simp [escape_kept fun d inside => stable d (percentByte_of_mem inside)]

theorem escape_intercalate (sep : UInt8) (separates : kept sep = true)
    (pieces : List (List UInt8)) : escapeBytes kept ([sep].intercalate pieces) =
      [sep].intercalate (pieces.map (escapeBytes kept)) := by
  induction pieces with
  | nil => rfl
  | cons first pieces ih =>
    cases pieces with
    | nil => simp
    | cons second pieces =>
      have self : escapeBytes kept [sep] = [sep] := escape_kept (by simpa using separates)
      simp only [List.intercalate_cons_cons, List.map_cons, escape_append, self] at ih ⊢
      rw [ih]

end Escaping

theorem cut_append {sep : UInt8} {a : List UInt8} (apart : sep ∉ a) (b : List UInt8) :
    cut sep (a ++ sep :: b) = (a, b) := by
  have before : ∀ c ∈ a, (c != sep) = true := by
    intro c member
    exact bne_iff_ne.mpr fun same => apart (same ▸ member)
  rw [cut, List.takeWhile_append_of_pos before, List.dropWhile_append_of_pos before]
  simp

/- What the server reads of a text: the browser has encoded the apostrophe. -/
def sentByte (b : UInt8) : Bool := unreserved b && queryByte b

def sent (text : List Char) : List UInt8 := escapeBytes sentByte (encode text)

theorem query_of_percent {b : UInt8} (escape : percentByte b = true) : queryByte b = true := by
  simp only [percentByte, queryByte, within, Bool.or_eq_true, Bool.and_eq_true, beq_iff_eq,
    decide_eq_true_eq] at escape ⊢
  rcases escape with (rfl | range) | range
  · decide
  all_goals
    refine ⟨by omega, ?_⟩
    simp only [List.contains_cons, ← UInt8.toNat_inj, beq_eq_decide]
    simp
    omega

theorem not_mem_sent {sep : UInt8} (reserved : sentByte sep = false)
    (other : percentByte sep = false) (text : List Char) : sep ∉ sent text := by
  intro inside
  rcases mem_escape inside with kept | escape
  · simp [reserved] at kept
  · simp [other] at escape

theorem unescape_sent (text : List Char) : queryUnescape (sent text) = some (encode text) :=
  unescape_escape rfl rfl (encode text)

def sentPair (p : List Char × List Char) : List UInt8 := sent p.1 ++ 0x3D :: sent p.2

theorem escape_pair (p : List Char × List Char) :
    escapeBytes queryByte (queryPair p) = sentPair p := by
  have escaped (text : List Char) : escapeBytes queryByte (encodeURIComponent text) = sent text :=
    escape_escape (fun _ escape => query_of_percent escape) (encode text)
  rw [queryPair, escape_append, escape_cons, if_pos (by decide), escaped, escaped]
  rfl

theorem not_mem_sentPair {sep : UInt8} (reserved : sentByte sep = false)
    (other : percentByte sep = false) (equals : sep ≠ 0x3D) (p : List Char × List Char) :
    sep ∉ sentPair p := by
  intro inside
  rcases List.mem_append.mp inside with key | behind
  · exact not_mem_sent reserved other p.1 key
  · rcases List.mem_cons.mp behind with rfl | value
    · exact equals rfl
    · exact not_mem_sent reserved other p.2 value

theorem read_sentPair (p : List Char × List Char) :
    readPair (sentPair p) = some (encode p.1, encode p.2) := by
  have noSemicolon : (0x3B : UInt8) ∉ sentPair p :=
    not_mem_sentPair (by decide) (by decide) (by decide) p
  have present : sentPair p ≠ [] := by simp [sentPair]
  have pieces : cut 0x3D (sentPair p) = (sent p.1, sent p.2) :=
    cut_append (not_mem_sent (by decide) (by decide) p.1) (sent p.2)
  simp [readPair, present, noSemicolon, pieces, unescape_sent]

theorem mem_intercalate {sep b : UInt8} {pieces : List (List UInt8)}
    (inside : b ∈ [sep].intercalate pieces) : b = sep ∨ ∃ piece ∈ pieces, b ∈ piece := by
  induction pieces with
  | nil => cases inside
  | cons first pieces ih =>
    cases pieces with
    | nil => exact .inr ⟨first, List.mem_cons_self, by simpa using inside⟩
    | cons second pieces =>
      rw [List.intercalate_cons_cons, List.mem_append, List.mem_append,
        List.mem_singleton] at inside
      rcases inside with (here | same) | later
      · exact .inr ⟨first, List.mem_cons_self, here⟩
      · exact .inl same
      · exact (ih later).imp_right fun ⟨piece, listed, there⟩ =>
          ⟨piece, List.mem_cons_of_mem first listed, there⟩

theorem hash_not_mem (pairs : List (List Char × List Char)) : (0x23 : UInt8) ∉ queryText pairs := by
  have component (text : List Char) : (0x23 : UInt8) ∉ encodeURIComponent text := by
    intro inside
    rcases mem_escape inside with kept | escape
    · cases kept
    · cases escape
  intro inside
  rcases mem_intercalate inside with same | ⟨piece, listed, there⟩
  · cases same
  · obtain ⟨p, _, rfl⟩ := List.mem_map.mp listed
    rcases List.mem_append.mp there with key | behind
    · exact component p.1 key
    · rcases List.mem_cons.mp behind with same | value
      · cases same
      · exact component p.2 value

/-- The server reads the pairs that the page has written, whatever their texts. -/
theorem parse_queryText (pairs : List (List Char × List Char)) :
    parseQuery (sentQuery (queryText pairs)) = pairs.map fun p => (encode p.1, encode p.2) := by
  have all : (queryText pairs).takeWhile (fun b => b != 0x23) = queryText pairs := by
    refine List.takeWhile_eq_self_iff.mpr ?_
    intro b member
    exact bne_iff_ne.mpr fun same => hash_not_mem pairs (same ▸ member)
  have arrives : sentQuery (queryText pairs) = [0x26].intercalate (pairs.map sentPair) := by
    rw [sentQuery, all, queryText, escape_intercalate 0x26 (by decide), List.map_map]
    congr 1
    exact List.map_congr_left fun p _ => escape_pair p
  rw [parseQuery, arrives]
  by_cases empty : pairs = []
  · rw [empty]
    rfl
  · rw [List.splitOn_intercalate 0x26 ?_ (by simpa using empty)]
    · have read : readPair ∘ sentPair = fun p => some (encode p.1, encode p.2) :=
        funext read_sentPair
      rw [List.filterMap_map, read, List.filterMap_eq_map']
    · intro piece listed
      obtain ⟨p, _, rfl⟩ := List.mem_map.mp listed
      exact not_mem_sentPair (by decide) (by decide) (by decide) p

end UrlQuery
