import MicroTrace.Dashboard.DetailPanel
import MicroTrace.Dashboard.Reading
import MicroTrace.Store.Handler

/- The history panel together with the store that it asks. A request goes to the handler as a
   URL and its response comes back as a text; meanwhile the store goes on, the panel is used,
   other requests are answered and any of them may be lost. -/
namespace Dashboard
open CollectorModel CollectorStore Json Runs UrlQuery
open Utf8 (encode decode)

def RangeKey.text : RangeKey → String
  | .hour => "1h"
  | .sixHours => "6h"
  | .day => "24h"
  | .week => "7d"
  | .all => "all"

/- The query of the URL in fetchHistory. -/
def HistoryRequest.query (q : HistoryRequest) : List UInt8 :=
  encode "src=".toList ++ encodeURIComponent q.src.toList ++ encode "&dst=".toList ++
    encodeURIComponent q.dst.toList ++ encode "&range=".toList ++ encode q.range.text.toList

def readRow (v : Value) : Option HistoryRow := do
  let ts ← intField v "ts"
  let p50Us ← intField v "p50_us"
  let p95Us ← intField v "p95_us"
  let p99Us ← intField v "p99_us"
  let avgUs ← intField v "avg_us"
  let jitterUs ← intField v "jitter_us"
  let isSpike ← boolField v "is_spike"
  let causeKind ← readCauseKind (← textField v "cause_kind")
  let causeSignal ← readCauseSignal (← textField v "cause_signal")
  some ⟨ts, p50Us, p95Us, p99Us, avgUs, jitterUs, isSpike, causeKind, causeSignal⟩

/- A body that is no list throws, whatever its status. -/
def readRows (body : List UInt8) : Option (List HistoryRow) :=
  (parse (decode body)).bind (readItems readRow)

structure Api where
  store : Store
  panel : Panel
  requests : List (HistoryRequest × Option Response)

def Api.start : Api := ⟨.new [] [], .new, []⟩

inductive ApiLabel where
  | call (call : Call)
  | select (snap : Option (String × String))
  | clickRange (r : RangeKey)
  | clickLive
  | serve (i : Nat) (now : Time) (rows : Option (List ConnRow))
  | deliver (i : Nat)
  | lose (i : Nat)

def Api.act (s : Api) (l : PanelAction) : Option (Api × List Answered) :=
  (panelStep s.panel l).map fun r => ({ s with panel := r.1 }, r.2)

def Api.settle (s : Api) (i : Nat) (rows : Option (List HistoryRow)) :
    Option (Api × List Answered) :=
  ({ s with requests := s.requests.eraseIdx i }).act (.respond i rows)

def Panel.asks (p : Panel) (r : RangeKey) : List HistoryRequest :=
  match p.snap with
  | none => []
  | some (src, dst) => [⟨src, dst, r⟩]

def name (bytes : List UInt8) : String := String.ofList (decode bytes)

/- What the SELECT may find. Of a query that fails, and where nothing is looked up, nothing is
   said. -/
structure Finds (s : Store) (l : Option Lookup) (rows : Option (List ConnRow)) : Prop where
  selects : ∀ lookup ∈ l, ∀ found ∈ rows,
    Selects s.connTable (name lookup.src) (name lookup.dst) lookup.since found

instance (table : List ConnRow) (src dst : String) (since : Time) (rows : List ConnRow) :
    Decidable (Selects table src dst since rows) :=
  decidable_of_iff (rows.Perm (table.filter fun r =>
      decide (r.src = src ∧ r.dst = dst ∧ unixMilli since ≤ r.ts)) ∧
      rows.Pairwise fun r r' => r.ts ≤ r'.ts)
    ⟨fun both => ⟨both.1, both.2⟩, fun selects => ⟨selects.matching, selects.ordered⟩⟩

instance (s : Store) (l : Option Lookup) (rows : Option (List ConnRow)) :
    Decidable (Finds s l rows) :=
  decidable_of_iff (∀ lookup ∈ l, ∀ found ∈ rows,
      Selects s.connTable (name lookup.src) (name lookup.dst) lookup.since found)
    ⟨Finds.mk, Finds.selects⟩

/- The handler on a request. Without a database nothing is looked up. -/
def serveRequest (opened : Bool) (q : HistoryRequest) (now : Time)
    (rows : Option (List ConnRow)) : Response :=
  historyHandler (if opened then some fun _ => rows.map queryHistory else none)
    (sentQuery q.query) now

def apiStep (rt : Runtime) (opened : Bool) : Stepper Api ApiLabel Answered
  | s, .call c =>
      if opened then (perform rt s.store c).map fun r => ({ s with store := r.1 }, []) else none
  | s, .select snap => s.act (.select snap)
  | s, .clickRange r =>
      ({ s with requests := s.requests ++ (s.panel.asks r).map fun q => (q, none) }).act
        (.clickRange r)
  | s, .clickLive => s.act .clickLive
  | s, .serve i now rows =>
      match s.requests[i]? with
      | some (q, none) =>
          if Finds s.store (historyLookup (sentQuery q.query) now) rows then
            some ({ s with
              requests := s.requests.set i (q, some (serveRequest opened q now rows)) }, [])
          else none
      | _ => none
  | s, .deliver i =>
      match s.requests[i]? with
      | some (_, some response) => s.settle i (readRows response.body)
      | _ => none
  | s, .lose i => s.settle i none

def storeCalls (ls : List ApiLabel) : List Call :=
  ls.filterMap fun l => match l with
    | .call c => some c
    | _ => none

def RangeKey.since (now : Time) : RangeKey → Time
  | .hour => now - CollectorStore.hour
  | .sixHours => now - 6 * CollectorStore.hour
  | .day => now - 24 * CollectorStore.hour
  | .week => now - 7 * 24 * CollectorStore.hour
  | .all => zeroTime

/-- The history of the pair over the range: what has been flushed by these calls and not been
    deleted, each snapshot once and in order of time. -/
structure TrueHistory (calls : List Call) (q : HistoryRequest) (now : Time)
    (rows : List HistoryRow) : Prop where
  recorded : rows.Perm (((expected calls).filter fun c =>
    c.ofPair q.src q.dst && decide (unixMilli (q.range.since now) ≤ c.tsMs)).map historyOf)
  ordered : rows.Pairwise fun r r' => r.ts ≤ r'.ts

theorem query_eq (q : HistoryRequest) : q.query = queryText [("src".toList, q.src.toList),
    ("dst".toList, q.dst.toList), ("range".toList, q.range.text.toList)] := by
  have src : encode "src=".toList = encodeURIComponent "src".toList ++ [0x3D] := by decide
  have dst : encode "&dst=".toList = 0x26 :: encodeURIComponent "dst".toList ++ [0x3D] := by decide
  have range : encode "&range=".toList = 0x26 :: encodeURIComponent "range".toList ++ [0x3D] := by
    decide
  have key : encode q.range.text.toList = encodeURIComponent q.range.text.toList := by
    cases q.range <;> decide
  rw [HistoryRequest.query, src, dst, range, key]
  simp [queryText, queryPair]

theorem rangeStart_text (r : RangeKey) (now : Time) :
    rangeStart (encode r.text.toList) now = r.since now := by
  cases r <;> rfl

theorem read_row (r : HistoryRow) : readRow (object r.fields) = some r := by
  have apart : (r.fields.map Prod.fst).Nodup := by simp [HistoryRow.fields]
  simp only [readRow, intField, boolField, textField, field_object apart]
  simp [HistoryRow.fields, List.lookup_cons, read_causeKind, read_causeSignal]

theorem fits_rows (rows : List HistoryRow) : (rowsValue rows).Fits 2 := by
  refine fits_array ?_
  intro v member
  obtain ⟨r, _, rfl⟩ := List.mem_map.mp member
  exact fits_object (by simp [HistoryRow.fields])

theorem read_line {v : Value} {depth : Nat} (fits : v.Fits depth)
    (shallow : depth ≤ maxNestingDepth) :
    (parse (decode (line v.print))).bind (readItems readRow) = readItems readRow v := by
  rw [line, Utf8.decode_encode, parse_print_newline fits shallow, Option.bind_some]

theorem read_reply (rows : List HistoryRow) :
    readRows (line (rowsValue rows).print) = some rows := by
  rw [readRows, read_line (fits_rows rows) (by decide), rowsValue, read_items read_row]

theorem read_error {text : String} {status : Nat} (message : String)
    (written : text.toList = (object [("error", textEntry message)]).print) :
    readRows (httpError text status).body = none := by
  have fits : (object [("error", textEntry message)]).Fits 1 := fits_object (by simp)
  rw [readRows, httpError, written, read_line fits (by decide)]
  rfl

theorem read_empty : readRows (encode "[]".toList) = some [] := by
  rw [readRows, Utf8.decode_encode]
  rfl

theorem lookup_query (q : HistoryRequest) (now : Time) :
    historyLookup (sentQuery q.query) now = if q.src = "" ∨ q.dst = "" then none
      else some ⟨encode q.src.toList, encode q.dst.toList, q.range.since now⟩ := by
  rw [query_eq, historyLookup_queryText, rangeStart_text]

theorem name_encode (t : String) : name (encode t.toList) = t := by
  rw [name, Utf8.decode_encode, String.ofList_toList]

theorem served_true {opened : Bool} {calls : List Call} {s : Store} {q : HistoryRequest}
    {now : Time} {selected : Option (List ConnRow)} {rows : List HistoryRow}
    (stored : Stored calls s) (closed : opened = false → calls = [])
    (finds : Finds s (historyLookup (sentQuery q.query) now) selected)
    (read : readRows (serveRequest opened q now selected).body = some rows) :
    TrueHistory calls q now rows := by
  unfold serveRequest historyHandler at read
  cases opened with
  | false =>
    rw [closed rfl]
    obtain rfl : [] = rows := Option.some.inj (read_empty.symm.trans read)
    exact ⟨.refl [], .nil⟩
  | true =>
    rw [lookup_query] at finds read
    by_cases unnamed : q.src = "" ∨ q.dst = ""
    · rw [if_pos unnamed] at read
      cases (read_error "src and dst required" (by rfl)).symm.trans read
    · rw [if_neg unnamed] at finds read
      cases selected with
      | none =>
        cases (read_error "query failed" (by rfl)).symm.trans read
      | some selected =>
        have replied := read_reply (queryHistory selected)
        obtain rfl : queryHistory selected = rows := Option.some.inj (replied.symm.trans read)
        have selects := finds.selects _ rfl selected rfl
        simp only [name_encode] at selects
        exact ⟨query_of_stored stored selects, List.pairwise_map.mpr selects.ordered⟩

structure Asked (ls : List ApiLabel) (q : HistoryRequest) : Prop where
  selected : .select (some (q.src, q.dst)) ∈ ls
  clicked : .clickRange q.range ∈ ls

/-- Rows that were the history of a request at a moment of the run, behind its click. -/
def Moment (ls : List ApiLabel) (q : HistoryRequest) (rows : List HistoryRow) : Prop :=
  ∃ before i now found after, ls = before ++ .serve i now found :: after ∧ Asked before q ∧
    TrueHistory (storeCalls before) q now rows

structure Truthful (opened : Bool) (ls : List ApiLabel) (s : Api) : Prop where
  stored : Stored (storeCalls ls) s.store
  closed : opened = false → storeCalls ls = []
  selected : ∀ src dst, s.panel.snap = some (src, dst) → .select (some (src, dst)) ∈ ls
  fetching : s.panel.fetching = s.requests.map Prod.fst
  asked : ∀ r ∈ s.requests, Asked ls r.1
  replied : ∀ r ∈ s.requests, ∀ response ∈ r.2, ∀ rows,
    readRows response.body = some rows → Moment ls r.1 rows
  shown : ∀ points, s.panel.dbHistory = some points →
    ∃ q rows, Moment ls q rows ∧ points = rows.map chartPoint

section Step

variable {rt : Runtime} {opened : Bool} {ls : List ApiLabel} {s t : Api} {l : ApiLabel}
  {q : HistoryRequest} {rows : List HistoryRow} {o : List Answered}

theorem Asked.later (asked : Asked ls q) (l : ApiLabel) : Asked (ls ++ [l]) q :=
  ⟨List.mem_append_left [l] asked.selected, List.mem_append_left [l] asked.clicked⟩

theorem Moment.later (moment : Moment ls q rows) (l : ApiLabel) : Moment (ls ++ [l]) q rows := by
  obtain ⟨before, i, now, found, after, rfl, more⟩ := moment
  exact ⟨before, i, now, found, after ++ [l], by simp, more⟩

theorem storeCalls_call (ls : List ApiLabel) (c : Call) :
    storeCalls (ls ++ [.call c]) = storeCalls ls ++ [c] := List.filterMap_append

theorem truthful_start : Truthful opened [] .start where
  stored := stored_new
  closed _ := rfl
  selected _ _ same := by cases same
  fetching := rfl
  asked _ member := by cases member
  replied _ member := by cases member
  shown _ same := by cases same

theorem truthful_panel (held : Truthful opened ls s) {p : Panel} (l : ApiLabel)
    (silent : storeCalls (ls ++ [l]) = storeCalls ls)
    (selected : ∀ src dst, p.snap = some (src, dst) → .select (some (src, dst)) ∈ ls ++ [l])
    (fetching : p.fetching = s.panel.fetching)
    (shown : ∀ points, p.dbHistory = some points → s.panel.dbHistory = some points) :
    Truthful opened (ls ++ [l]) { s with panel := p } where
  stored := by rw [silent]; exact held.stored
  closed := by rw [silent]; exact held.closed
  selected := selected
  fetching := fetching.trans held.fetching
  asked r member := (held.asked r member).later l
  replied r member response there rows read :=
    (held.replied r member response there rows read).later l
  shown points same := by
    obtain ⟨q, rows, moment, made⟩ := held.shown points (shown points same)
    exact ⟨q, rows, moment.later l, made⟩

theorem truthful_settle (held : Truthful opened ls s) {i : Nat} (l : ApiLabel)
    (silent : storeCalls (ls ++ [l]) = storeCalls ls) {reply : Option (List HistoryRow)}
    (moment : ∀ rows ∈ reply, ∃ q, Moment ls q rows) (settled : s.settle i reply = some (t, o)) :
    Truthful opened (ls ++ [l]) t := by
  obtain ⟨⟨p, o'⟩, taken, made⟩ := Option.map_eq_some_iff.mp settled
  cases made
  have fetching : p.fetching = s.panel.fetching.eraseIdx i ∧ p.snap = s.panel.snap ∧
      ∀ points, p.dbHistory = some points → s.panel.dbHistory = some points ∨
        ∃ rows ∈ reply, points = rows.map chartPoint := by
    simp only [panelStep] at taken
    split at taken
    · cases taken
    · cases taken
      exact ⟨rfl, rfl, fun _ same => .inl same⟩
    · cases taken
      exact ⟨rfl, rfl, fun _ same => .inr ⟨_, rfl, (Option.some.inj same).symm⟩⟩
  obtain ⟨fetching, snap, shown⟩ := fetching
  exact {
    stored := by rw [silent]; exact held.stored
    closed := by rw [silent]; exact held.closed
    selected := fun src dst same =>
      List.mem_append_left [l] (held.selected src dst (snap.symm.trans same))
    fetching := by
      rw [fetching, held.fetching]
      exact List.eraseIdx_map _ _ _
    asked := fun r member => (held.asked r (List.mem_of_mem_eraseIdx member)).later l
    replied := fun r member response there rows read =>
      (held.replied r (List.mem_of_mem_eraseIdx member) response there rows read).later l
    shown := by
      intro points same
      rcases shown points same with before | ⟨rows, answered, made⟩
      · obtain ⟨q, rows, moment, made⟩ := held.shown points before
        exact ⟨q, rows, moment.later l, made⟩
      · obtain ⟨q, moment⟩ := moment rows answered
        exact ⟨q, rows, moment.later l, made⟩ }

theorem truthful_call (held : Truthful opened ls s) (proper : ∀ c ∈ storeCalls ls, c.Proper)
    {c : Call} (taken : apiStep rt opened s (.call c) = some (t, o)) :
    Truthful opened (ls ++ [.call c]) t := by
  obtain ⟨opens, performed⟩ := Option.ite_none_right_eq_some.mp taken
  obtain ⟨⟨store, rows⟩, done, made⟩ := Option.map_eq_some_iff.mp performed
  cases made
  obtain ⟨store', rows', done', stored⟩ := stored_step rt held.stored proper c
  obtain ⟨rfl, rfl⟩ := Prod.mk.inj (Option.some.inj (done.symm.trans done'))
  exact {
    stored := by rw [storeCalls_call]; exact stored
    closed := fun shut => by simp [shut] at opens
    selected := fun src dst same => List.mem_append_left _ (held.selected src dst same)
    fetching := held.fetching
    asked := fun r member => (held.asked r member).later _
    replied := fun r member response there rows read =>
      (held.replied r member response there rows read).later _
    shown := by
      intro points same
      obtain ⟨q, rows, moment, made⟩ := held.shown points same
      exact ⟨q, rows, moment.later _, made⟩ }

theorem handleRange_eq (p : Panel) (r : RangeKey) : (p.handleRange r).snap = p.snap ∧
    (p.handleRange r).dbHistory = p.dbHistory ∧
    (p.handleRange r).fetching = p.fetching ++ p.asks r := by
  cases chosen : p.snap <;> simp [Panel.handleRange, Panel.asks, chosen]

theorem truthful_click (held : Truthful opened ls s) {r : RangeKey}
    (taken : apiStep rt opened s (.clickRange r) = some (t, o)) :
    Truthful opened (ls ++ [.clickRange r]) t := by
  cases taken
  obtain ⟨snap, dbHistory, fetching⟩ := handleRange_eq s.panel r
  have silent : storeCalls (ls ++ [.clickRange r]) = storeCalls ls := by simp [storeCalls]
  exact {
    stored := by rw [silent]; exact held.stored
    closed := by rw [silent]; exact held.closed
    selected := fun src dst same =>
      List.mem_append_left _ (held.selected src dst (snap.symm.trans same))
    fetching := by simp [fetching, held.fetching, Function.comp_def]
    asked := by
      intro request listed
      rcases List.mem_append.mp listed with before | added
      · exact (held.asked request before).later _
      · obtain ⟨q, asks, rfl⟩ := List.mem_map.mp added
        unfold Panel.asks at asks
        split at asks
        · cases asks
        · rename_i src dst chosen
          rw [List.mem_singleton.mp asks]
          exact ⟨List.mem_append_left _ (held.selected src dst chosen), by simp⟩
    replied := by
      intro request listed response told rows read
      rcases List.mem_append.mp listed with before | added
      · exact (held.replied request before response told rows read).later _
      · obtain ⟨q, _, rfl⟩ := List.mem_map.mp added
        cases told
    shown := by
      intro points same
      obtain ⟨q, rows, moment, made⟩ := held.shown points (dbHistory.symm.trans same)
      exact ⟨q, rows, moment.later _, made⟩ }

theorem set_same {A : Type} {l : List A} {i : Nat} {a : A} (there : l[i]? = some a) :
    l.set i a = l := by
  obtain ⟨inside, rfl⟩ := List.getElem?_eq_some_iff.mp there
  exact List.set_getElem_self inside

theorem truthful_serve (held : Truthful opened ls s) {i : Nat} {now : Time}
    {found : Option (List ConnRow)}
    (taken : apiStep rt opened s (.serve i now found) = some (t, o)) :
    Truthful opened (ls ++ [.serve i now found]) t := by
  simp only [apiStep] at taken
  split at taken
  · rename_i q there
    obtain ⟨finds, made⟩ := Option.ite_none_right_eq_some.mp taken
    cases made
    have member : (q, none) ∈ s.requests := List.mem_of_getElem? there
    have silent : storeCalls (ls ++ [.serve i now found]) = storeCalls ls := by simp [storeCalls]
    have cases_of {r : HistoryRequest × Option Response}
        (listed : r ∈ s.requests.set i (q, some (serveRequest opened q now found))) :
        r ∈ s.requests ∨ r = (q, some (serveRequest opened q now found)) :=
      List.mem_or_eq_of_mem_set listed
    exact {
      stored := by rw [silent]; exact held.stored
      closed := by rw [silent]; exact held.closed
      selected := fun src dst same => List.mem_append_left _ (held.selected src dst same)
      fetching := by
        have first : (s.requests.map Prod.fst)[i]? = some q := by
          rw [List.getElem?_map, there]
          rfl
        rw [held.fetching, List.map_set, set_same first]
      asked := by
        intro r listed
        rcases cases_of listed with before | rfl
        · exact (held.asked r before).later _
        · exact (held.asked (q, none) member).later _
      replied := by
        intro r listed response told rows read
        rcases cases_of listed with before | rfl
        · exact (held.replied r before response told rows read).later _
        · cases told
          exact ⟨ls, i, now, found, [], rfl, held.asked (q, none) member,
            served_true held.stored held.closed finds read⟩
      shown := by
        intro points same
        obtain ⟨q, rows, moment, made⟩ := held.shown points same
        exact ⟨q, rows, moment.later _, made⟩ }
  · cases taken

theorem truthful_step (held : Truthful opened ls s) (proper : ∀ c ∈ storeCalls ls, c.Proper)
    (taken : apiStep rt opened s l = some (t, o)) : Truthful opened (ls ++ [l]) t := by
  cases l with
  | call c => exact truthful_call held proper taken
  | select snap =>
    have moved : s.act (.select snap) = some (t, o) := taken
    cases moved
    split
    · exact truthful_panel held _ (by simp [storeCalls])
        (fun src dst same => List.mem_append_left _ (held.selected src dst same)) rfl fun _ => id
    · refine truthful_panel held _ (by simp [storeCalls]) ?_ rfl nofun
      rintro src dst rfl
      simp
  | clickRange r => exact truthful_click held taken
  | clickLive =>
    cases taken
    exact truthful_panel held _ (by simp [storeCalls])
      (fun src dst same => List.mem_append_left _ (held.selected src dst same)) rfl nofun
  | serve i now found => exact truthful_serve held taken
  | deliver i =>
    simp only [apiStep] at taken
    split at taken
    · rename_i q response there
      refine truthful_settle held _ (by simp [storeCalls]) ?_ taken
      intro rows read
      exact ⟨q, held.replied _ (List.mem_of_getElem? there) response rfl rows read⟩
    · cases taken
  | lose i => exact truthful_settle held _ (by simp [storeCalls]) (by simp) taken

theorem truthful_run {out : List Answered}
    (run : exec (apiStep rt opened) .start ls = some (s, out))
    (proper : ∀ c ∈ storeCalls ls, c.Proper) : Truthful opened ls s := by
  refine exec_history (I := fun ls s _ => (∀ c ∈ storeCalls ls, c.Proper) → Truthful opened ls s)
    (fun _ => truthful_start) ?_ run proper
  intro before _ _ l _ _ _ held taken proper
  have earlier : ∀ c ∈ storeCalls before, c.Proper := by
    intro c member
    exact proper c (by simp [storeCalls, List.filterMap_append] at member ⊢; exact .inl member)
  exact truthful_step (held earlier) earlier taken

end Step

/-- Whatever happens to the requests meanwhile: the panel displays the live history, or what the
    store held for a pair that was selected and a range that was clicked, at a moment behind
    the click. -/
theorem displayed_history_true {rt : Runtime} {opened : Bool} {ls : List ApiLabel} {s : Api}
    {out : List Answered} (run : exec (apiStep rt opened) .start ls = some (s, out))
    (proper : ∀ c ∈ storeCalls ls, c.Proper) (live : List ChartPoint) :
    s.panel.displayHistory live = live ∨ ∃ q rows, Moment ls q rows ∧
      s.panel.displayHistory live = rows.map chartPoint := by
  unfold Panel.displayHistory
  split
  · rename_i points _ stored
    obtain ⟨q, rows, moment, made⟩ := (truthful_run run proper).shown points stored
    exact .inr ⟨q, rows, moment, made⟩
  · exact .inl rfl

/- Names that a URL cannot hold as they are. -/
def paidOrder : BufferedConn :=
  ⟨{ pairSnapshot 100 with srcService := "café & bar", dstService := "bob's 100%" }, 1000⟩

def paidOrderRow : ConnRow := ownConnRow paidOrder

def orderRequest : HistoryRequest := ⟨"café & bar", "bob's 100%", .all⟩

def askedAfterFlush : List ApiLabel :=
  [.call (.writeConn paidOrder.snap 1000), .call (.flush 2000),
    .select (some ("café & bar", "bob's 100%")), .clickRange .all,
    .serve 0 3000 (some [paidOrderRow]), .deliver 0]

theorem paid_order_displayed : ∃ s out,
    exec (apiStep doubling true) .start askedAfterFlush = some (s, out) ∧
      s.panel.displayHistory [] = [chartPoint (historyOf paidOrder)] ∧
      (s.panel.displayHistory [] = [] ∨ ∃ q rows, Moment askedAfterFlush q rows ∧
        s.panel.displayHistory [] = rows.map chartPoint) := by
  obtain ⟨s, run, request, table, panel⟩ : ∃ s, exec (apiStep doubling true) .start
      (askedAfterFlush.take 4) = some (s, []) ∧ s.requests = [(orderRequest, none)] ∧
      s.store.connTable = [paidOrderRow] ∧ s.panel.fetching = [orderRequest] ∧
        s.panel.range = some .all := ⟨_, rfl, rfl, rfl, rfl, rfl⟩
  have looked : historyLookup (sentQuery orderRequest.query) 3000 =
      some ⟨encode "café & bar".toList, encode "bob's 100%".toList, zeroTime⟩ :=
    (lookup_query orderRequest 3000).trans (if_neg (by decide))
  have selects : Selects s.store.connTable "café & bar" "bob's 100%" zeroTime [paidOrderRow] := by
    rw [table]
    decide
  have finds : Finds s.store (historyLookup (sentQuery orderRequest.query) 3000)
      (some [paidOrderRow]) := by
    rw [looked]
    refine ⟨fun l there found selected => ?_⟩
    obtain rfl := Option.some.inj there
    obtain rfl := Option.some.inj selected
    simpa only [name_encode] using selects
  have replied : serveRequest true orderRequest 3000 (some [paidOrderRow]) =
      ⟨200, line (rowsValue [historyOf paidOrder]).print⟩ := by
    simp only [serveRequest, historyHandler, looked]
    rfl
  have served : apiStep doubling true s (.serve 0 3000 (some [paidOrderRow])) = some ({ s with
      requests :=
        [(orderRequest, some ⟨200, line (rowsValue [historyOf paidOrder]).print⟩)] }, []) := by
    simp only [apiStep, request, List.getElem?_cons_zero, if_pos finds, replied, List.set_cons_zero]
  obtain ⟨u, delivered, shown⟩ : ∃ u, apiStep doubling true { s with
      requests := [(orderRequest, some ⟨200, line (rowsValue [historyOf paidOrder]).print⟩)] }
      (.deliver 0) = some (u, [⟨orderRequest, [historyOf paidOrder]⟩]) ∧
      u.panel.displayHistory [] = [chartPoint (historyOf paidOrder)] := by
    simp only [apiStep, List.getElem?_cons_zero, read_reply, Api.settle, Api.act, panelStep,
      panel.1]
    refine ⟨_, rfl, ?_⟩
    simp only [Panel.displayHistory, panel.2, List.map_cons, List.map_nil]
  have whole : exec (apiStep doubling true) .start askedAfterFlush =
      some (u, [⟨orderRequest, [historyOf paidOrder]⟩]) := by
    have split : askedAfterFlush =
        askedAfterFlush.take 4 ++ [.serve 0 3000 (some [paidOrderRow]), .deliver 0] := rfl
    have last := exec_cons_iff.mpr ⟨_, _, _, served, exec_single_iff.mpr delivered, rfl⟩
    rw [split]
    exact exec_append_iff.mpr ⟨_, _, _, run, last, rfl⟩
  exact ⟨u, _, whole, shown, displayed_history_true whole (by decide) []⟩

end Dashboard
