import MicroTrace.Dashboard.Client
import MicroTrace.Store.History

/- The history panel (DetailPanel.tsx). Its state is what useState holds, the connection of its
   props and the requests whose response is still to come; a response to any of them may come
   next. A response that is an error, or no list, is none. The effect that resets the panel
   runs with the change of the connection. -/
namespace Dashboard
open Runs CollectorStore

inductive RangeKey where
  | hour
  | sixHours
  | day
  | week
  | all
  deriving DecidableEq

structure HistoryRequest where
  src : String
  dst : String
  range : RangeKey
  deriving DecidableEq

structure ChartPoint where
  time : Int
  latestSRTTUs : Int
  avgUs : Int
  p50Us : Int
  p95Us : Int
  p99Us : Int
  jitterUs : Int
  deriving DecidableEq

def chartPoint (row : HistoryRow) : ChartPoint where
  time := jsInt row.ts
  latestSRTTUs := jsInt row.p99Us
  avgUs := jsInt row.avgUs
  p50Us := jsInt row.p50Us
  p95Us := jsInt row.p95Us
  p99Us := jsInt row.p99Us
  jitterUs := jsInt row.jitterUs

structure Panel where
  snap : Option (String × String)
  range : Option RangeKey
  dbHistory : Option (List ChartPoint)
  fetching : List HistoryRequest
  deriving DecidableEq

/- Live is no range. -/
def Panel.new : Panel := ⟨none, none, none, []⟩

inductive PanelAction where
  | select (snap : Option (String × String))
  | clickRange (r : RangeKey)
  | clickLive
  | respond (i : Nat) (rows : Option (List HistoryRow))
  deriving DecidableEq

structure Answered where
  request : HistoryRequest
  rows : List HistoryRow
  deriving DecidableEq

def Panel.reset (p : Panel) : Panel := { p with range := none, dbHistory := none }

def Panel.handleRange (p : Panel) (r : RangeKey) : Panel :=
  match p.snap with
  | none => p
  | some (src, dst) => { p with range := some r, fetching := p.fetching ++ [⟨src, dst, r⟩] }

def Panel.handleLive (p : Panel) : Panel := p.reset

def panelStep : Stepper Panel PanelAction Answered
  | p, .select snap => some (if snap = p.snap then p else { p.reset with snap := snap }, [])
  | p, .clickRange r => some (p.handleRange r, [])
  | p, .clickLive => some (p.handleLive, [])
  | p, .respond i rows =>
      match p.fetching[i]?, rows with
      | none, _ => none
      | some _, none => some ({ p with fetching := p.fetching.eraseIdx i }, [])
      | some request, some rows =>
          some ({ p with
            dbHistory := some (rows.map chartPoint)
            fetching := p.fetching.eraseIdx i }, [⟨request, rows⟩])

def Panel.displayHistory (p : Panel) (history : List ChartPoint) : List ChartPoint :=
  match p.range, p.dbHistory with
  | some _, some rows => rows
  | _, _ => history

def PanelAction.succeeds : PanelAction → Bool
  | .respond _ none => false
  | _ => true

def PanelAction.inOrder : PanelAction → Bool
  | .respond i _ => i = 0
  | _ => true

/-- With no request outstanding and a range active, what is displayed is the last response
    stored, and its request was for the selected connection and that range. -/
def Panel.Shows (p : Panel) (out : List Answered) : Prop :=
  p.fetching = [] → ∀ src dst r, p.snap = some (src, dst) → p.range = some r →
    ∃ a, out.getLast? = some a ∧ a.request = ⟨src, dst, r⟩ ∧
      ∀ history, p.displayHistory history = a.rows.map chartPoint

/-- The last response that was outstanding, if a range is active, is the one for the selected
    connection and that range. -/
def PanelAction.Fits (p : Panel) : PanelAction → Prop
  | .respond _ _ => ∀ request, p.fetching = [request] → ∀ src dst r,
      p.snap = some (src, dst) → p.range = some r → request = ⟨src, dst, r⟩
  | _ => True

section Step

variable {p p' : Panel} {l : PanelAction} {out o : List Answered}

theorem respond_cases {i : Nat} {rows : List HistoryRow}
    (taken : panelStep p (.respond i (some rows)) = some (p', o)) :
    ∃ request, p.fetching[i]? = some request ∧ o = [⟨request, rows⟩] ∧
      p' = { p with
        dbHistory := some (rows.map chartPoint)
        fetching := p.fetching.eraseIdx i } := by
  simp only [panelStep] at taken
  split at taken
  · cases taken
  · rename_i none
    cases none
  · rename_i request rows' found same
    cases same
    cases taken
    exact ⟨request, found, rfl, rfl⟩

theorem last_of_erased {A : Type} {l : List A} {i : Nat} {a : A} (found : l[i]? = some a)
    (empty : l.eraseIdx i = []) : l = [a] := by
  obtain ⟨inside, rfl⟩ := List.getElem?_eq_some_iff.mp found
  have one := List.length_eraseIdx_add_one inside
  rw [empty] at one
  obtain ⟨b, rfl⟩ := List.length_eq_one_iff.mp one.symm
  have first : i = 0 := by simpa using inside
  subst first
  rfl

theorem shows_live (live : p.range = none) : p.Shows out := by
  intro _ src dst r _ active
  rw [live] at active
  cases active

theorem shows_fetching (waiting : p.fetching ≠ []) : p.Shows out :=
  fun quiet => absurd quiet waiting

theorem shows_respond {i : Nat} {rows : List HistoryRow}
    (fits : (PanelAction.respond i (some rows)).Fits p)
    (taken : panelStep p (.respond i (some rows)) = some (p', o)) : p'.Shows (out ++ o) := by
  obtain ⟨request, found, rfl, rfl⟩ := respond_cases taken
  intro quiet src dst r selected active
  have asked := fits request (last_of_erased found quiet) src dst r selected active
  have ranged : p.range = some r := active
  refine ⟨⟨request, rows⟩, List.getLast?_concat, asked, ?_⟩
  intro history
  simp only [Panel.displayHistory, ranged]

theorem shows_step (held : p.Shows out) (fits : l.Fits p) (ok : l.succeeds = true)
    (taken : panelStep p l = some (p', o)) : p'.Shows (out ++ o) := by
  cases l with
  | select snap =>
    cases taken
    rw [List.append_nil]
    split
    · exact held
    · exact shows_live rfl
  | clickRange r =>
    cases taken
    rw [List.append_nil, Panel.handleRange]
    split
    · exact held
    · exact shows_fetching (by simp)
  | clickLive =>
    cases taken
    exact shows_live rfl
  | respond i rows =>
    cases rows with
    | none => cases ok
    | some rows => exact shows_respond fits taken

theorem fits_of_shows (ok : l.succeeds = true) (taken : panelStep p l = some (p', o))
    (shown : p'.Shows (out ++ o)) : l.Fits p := by
  cases l with
  | respond i rows =>
    cases rows with
    | none => cases ok
    | some rows =>
      intro request alone src dst r selected active
      obtain ⟨request', found, rfl, rfl⟩ := respond_cases taken
      have first : i = 0 := by
        obtain ⟨inside, _⟩ := List.getElem?_eq_some_iff.mp found
        simpa [alone] using inside
      subst first
      obtain ⟨a, last, asked, _⟩ := shown (by simp [alone]) src dst r selected active
      rw [List.getLast?_concat, Option.some.injEq] at last
      subst last
      rw [alone] at found
      cases found
      exact asked
  | _ => trivial

/- While a request is outstanding the newest one is that of the active range. -/
def Panel.Awaits (p : Panel) : Prop :=
  ∀ src dst r, p.snap = some (src, dst) → p.range = some r → p.fetching ≠ [] →
    p.fetching.getLast? = some ⟨src, dst, r⟩

theorem awaits_live (live : p.range = none) : p.Awaits := by
  intro src dst r _ active
  rw [live] at active
  cases active

theorem awaits_step (held : p.Awaits) (ordered : l.inOrder = true)
    (taken : panelStep p l = some (p', o)) : p'.Awaits := by
  cases l with
  | select snap =>
    cases taken
    split
    · exact held
    · exact awaits_live rfl
  | clickRange r =>
    cases taken
    unfold Panel.handleRange
    split
    · exact held
    · rename_i src dst selected
      intro src' dst' r' same active _
      rw [selected] at same
      cases same
      cases active
      exact List.getLast?_concat
  | clickLive =>
    cases taken
    exact awaits_live rfl
  | respond i rows =>
    obtain rfl : i = 0 := of_decide_eq_true ordered
    have kept : p'.snap = p.snap ∧ p'.range = p.range ∧ p'.fetching = p.fetching.eraseIdx 0 := by
      simp only [panelStep] at taken
      split at taken
      · cases taken
      · cases taken
        exact ⟨rfl, rfl, rfl⟩
      · cases taken
        exact ⟨rfl, rfl, rfl⟩
    obtain ⟨snap, range, fetching⟩ := kept
    intro src dst r selected active waiting
    rw [snap] at selected
    rw [range] at active
    rw [fetching, List.eraseIdx_zero] at waiting ⊢
    cases all : p.fetching with
    | nil => simp [all] at waiting
    | cons first rest =>
      have newest := held src dst r selected active (by simp [all])
      rw [all] at newest waiting
      cases rest with
      | nil => exact absurd rfl waiting
      | cons second rest => rwa [List.getLast?_cons_cons] at newest

theorem fits_of_awaits (awaits : p.Awaits) : l.Fits p := by
  cases l with
  | respond i rows =>
    intro request alone src dst r selected active
    have newest := awaits src dst r selected active (by simp [alone])
    rw [alone] at newest
    exact Option.some.inj newest
  | _ => trivial

end Step

/-- In a run whose responses succeed the panel shows what was asked for in every state
    exactly when no other response than the one asked for is the last to come; it does so if
    the responses come in the order of their requests. -/
theorem panel_shows_asked_iff {ls : List PanelAction} {p : Panel} {out : List Answered}
    (run : exec panelStep .new ls = some (p, out)) (ok : ∀ l ∈ ls, l.succeeds = true) :
    (Always panelStep .new ls Panel.Shows ↔ EachStep panelStep .new ls fun p l => l.Fits p) ∧
      ((∀ l ∈ ls, l.inOrder = true) → Always panelStep .new ls Panel.Shows) := by
  have enough (each : EachStep panelStep .new ls fun p l => l.Fits p) :
      Always panelStep .new ls Panel.Shows :=
    always_of_steps (shows_live rfl)
      (fun member held fits taken => shows_step held fits (ok _ member) taken) each
  refine ⟨⟨?_, enough⟩, ?_⟩
  · intro shown as l bs q o split first
    obtain ⟨q', now, taken, last⟩ := step_of_run run split first
    have member : l ∈ ls := split ▸ List.mem_append_right as List.mem_cons_self
    have after : ls = as ++ [l] ++ bs := by rw [split, List.append_assoc, List.singleton_append]
    exact fits_of_shows (ok l member) taken (shown _ _ _ _ after last)
  · intro ordered
    apply enough
    intro as l bs q o split first
    have awaits : Always panelStep .new ls fun p _ => p.Awaits :=
      always_of_steps (Q := fun _ _ => True) (awaits_live rfl)
        (fun member held _ taken => awaits_step held (ordered _ member) taken)
        (fun _ _ _ _ _ _ _ => trivial)
    exact fits_of_awaits (awaits as (l :: bs) q o split first)

def storedRow (ts : Int) : HistoryRow := ⟨ts, 100, 200, 900, 150, 5, false, .empty, .empty⟩

def inTurn : List PanelAction :=
  [.select (some ("gateway", "orders")), .clickRange .week, .clickRange .hour,
    .respond 0 (some [storedRow 1, storedRow 2]), .respond 0 (some [storedRow 2])]

theorem in_turn_shown : ∃ p out, exec panelStep .new inTurn = some (p, out) ∧ p.fetching = [] ∧
    p.range = some .hour ∧ p.Shows out ∧ p.displayHistory [] = [chartPoint (storedRow 2)] := by
  refine ⟨_, _, rfl, rfl, rfl, ?_, rfl⟩
  have always := (@panel_shows_asked_iff inTurn _ _ rfl (by decide)).2 (by decide)
  exact always inTurn [] _ _ (List.append_nil _).symm rfl

def overtaken : List PanelAction :=
  [.select (some ("gateway", "orders")), .clickRange .week, .clickRange .hour,
    .respond 1 (some [storedRow 2]), .respond 0 (some [storedRow 1, storedRow 2])]

/-- The hour is active, and the week is displayed. -/
theorem overtaken_week_displayed :
    ¬ ∀ (ls : List PanelAction) (p : Panel) (out : List Answered) (history : List ChartPoint)
        (src dst : String) (r : RangeKey),
      exec panelStep .new ls = some (p, out) → (∀ l ∈ ls, l.succeeds = true) →
      p.fetching = [] → p.snap = some (src, dst) → p.range = some r →
      ∃ a ∈ out, a.request = ⟨src, dst, r⟩ ∧
        p.displayHistory history = a.rows.map chartPoint := by
  intro claim
  have displayed := claim overtaken _ _ [] "gateway" "orders" .hour rfl (by decide) rfl rfl rfl
  revert displayed
  decide

end Dashboard
