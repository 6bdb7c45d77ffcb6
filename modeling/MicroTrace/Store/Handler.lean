import MicroTrace.Collector.Outbound
import MicroTrace.Library.UrlQuery
import MicroTrace.Store.History

/- GET /api/history. The database is what QueryHistory returns, or nothing if it could not be
   opened at the start. -/
namespace CollectorStore
open CollectorModel Json UrlQuery
open Utf8 (encode)

structure Response where
  status : Nat
  body : List UInt8
  deriving DecidableEq

structure Lookup where
  src : List UInt8
  dst : List UInt8
  since : Time
  deriving DecidableEq

def hour : Time := 3600 * 1000000000

def rangeMap : List (String × Time) :=
  [("1h", hour), ("6h", 6 * hour), ("24h", 24 * hour), ("7d", 7 * 24 * hour)]

/- A range that is none of these is an hour. -/
def rangeStart (range : List UInt8) (now : Time) : Time :=
  if range = encode "all".toList then zeroTime
  else now - ((rangeMap.find? fun r => encode r.1.toList = range).map Prod.snd).getD hour

def historyLookup (rawQuery : List UInt8) (now : Time) : Option Lookup :=
  let values := parseQuery rawQuery
  let src := Values.get values (encode "src".toList)
  let dst := Values.get values (encode "dst".toList)
  if src = [] ∨ dst = [] then none
  else some ⟨src, dst, rangeStart (Values.get values (encode "range".toList)) now⟩

def HistoryRow.fields (r : HistoryRow) : List (String × Entry) :=
  [("ts", intEntry r.ts), ("p50_us", intEntry r.p50Us), ("p95_us", intEntry r.p95Us),
    ("p99_us", intEntry r.p99Us), ("avg_us", intEntry r.avgUs), ("jitter_us", intEntry r.jitterUs),
    ("is_spike", boolEntry r.isSpike), ("cause_kind", textEntry r.causeKind.text),
    ("cause_signal", textEntry r.causeSignal.text)]

def rowsValue (rows : List HistoryRow) : Value := .array (rows.map fun r => object r.fields)

/- http.Error and Encoder.Encode both end the body with a newline. -/
def line (text : List Char) : List UInt8 := encode (text ++ ['\n'])

def httpError (text : String) (status : Nat) : Response := ⟨status, line text.toList⟩

/-- The handler. No rows are encoded as an empty list and not as null. -/
def historyHandler (db : Option (Lookup → Option (List HistoryRow))) (rawQuery : List UInt8)
    (now : Time) : Response :=
  match db with
  | none => ⟨200, encode "[]".toList⟩
  | some queryHistory =>
      match historyLookup rawQuery now with
      | none => httpError "\x7b\"error\":\"src and dst required\"\x7d" 400
      | some l =>
          match queryHistory l with
          | none => httpError "\x7b\"error\":\"query failed\"\x7d" 500
          | some rows => ⟨200, line (rowsValue rows).print⟩

theorem encode_inj {a b : List Char} : encode a = encode b ↔ a = b :=
  ⟨fun same => by rw [← Utf8.decode_encode a, same, Utf8.decode_encode], congrArg encode⟩

theorem historyLookup_queryText (src dst range : String) (now : Time) :
    historyLookup (sentQuery (queryText [("src".toList, src.toList), ("dst".toList, dst.toList),
        ("range".toList, range.toList)])) now =
      if src = "" ∨ dst = "" then none
      else some ⟨encode src.toList, encode dst.toList, rangeStart (encode range.toList) now⟩ := by
  have empty (t : String) : encode t.toList = [] ↔ t = "" :=
    (encode_inj (b := [])).trans String.toList_eq_nil_iff
  simp only [historyLookup, parse_queryText]
  simp [Values.get, encode_inj, empty]

end CollectorStore
