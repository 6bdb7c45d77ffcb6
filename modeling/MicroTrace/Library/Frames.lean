import Mathlib.Algebra.Ring.Nat
import Mathlib.Data.List.Basic

/- Records on a byte stream, each after its length in four bytes, least significant first.
   The specification of a reader is `whole`: the records that lie whole in front of the
   position at which the stream ends. -/
namespace Frames

def le32 (n : Nat) : List UInt8 :=
  [UInt8.ofNat n, UInt8.ofNat (n / 2 ^ 8), UInt8.ofNat (n / 2 ^ 16), UInt8.ofNat (n / 2 ^ 24)]

def ofLE32 (bytes : List UInt8) : Nat :=
  bytes.foldr (fun b n => b.toNat + 2 ^ 8 * n) 0

theorem le32_length (n : Nat) : (le32 n).length = 4 := rfl

theorem ofLE32_le32 {n : Nat} (small : n < 2 ^ 32) : ofLE32 (le32 n) = n := by
  simp only [ofLE32, le32, List.foldr_cons, List.foldr_nil, UInt8.toNat_ofNat']
  omega

def frame (body : List UInt8) : List UInt8 := le32 body.length ++ body

theorem frame_length (body : List UInt8) : (frame body).length = 4 + body.length := by
  rw [frame, List.length_append, le32_length]

def stream (bodies : List (List UInt8)) : List UInt8 := bodies.flatMap frame

def whole : List (List UInt8) → Nat → List (List UInt8)
  | [], _ => []
  | body :: bodies, cut =>
      if 4 + body.length ≤ cut then body :: whole bodies (cut - (4 + body.length)) else []

/- Bytes between the last whole record and the cut. -/
def leftover : List (List UInt8) → Nat → Nat
  | [], _ => 0
  | body :: bodies, cut =>
      if 4 + body.length ≤ cut then leftover bodies (cut - (4 + body.length)) else cut

theorem take_stream_short (body : List UInt8) (bodies : List (List UInt8)) {cut : Nat}
    (short : cut ≤ 4 + body.length) :
    (stream (body :: bodies)).take cut = (frame body).take cut := by
  rw [stream, List.flatMap_cons, List.take_append_of_le_length]
  rw [frame_length]
  exact short

theorem take_stream_long (body : List UInt8) (bodies : List (List UInt8)) {cut : Nat}
    (long : 4 + body.length ≤ cut) : (stream (body :: bodies)).take cut =
      frame body ++ (stream bodies).take (cut - (4 + body.length)) := by
  rw [stream, List.flatMap_cons, List.take_append, frame_length, List.take_of_length_le]
  · rfl
  · rw [frame_length]
    exact long

theorem whole_all (bodies : List (List UInt8)) {cut : Nat} (all : (stream bodies).length ≤ cut) :
    whole bodies cut = bodies := by
  induction bodies generalizing cut with
  | nil => rfl
  | cons body bodies ih =>
    have size : (stream (body :: bodies)).length = 4 + body.length + (stream bodies).length := by
      rw [stream, List.flatMap_cons, List.length_append, frame_length]
      rfl
    rw [whole, if_pos (by omega), ih (by omega)]

theorem whole_prefix (bodies : List (List UInt8)) (cut : Nat) : whole bodies cut <+: bodies := by
  induction bodies generalizing cut with
  | nil => exact List.nil_prefix
  | cons body bodies ih =>
    unfold whole
    split
    · exact List.cons_prefix_cons.mpr ⟨rfl, ih _⟩
    · exact List.nil_prefix

end Frames
