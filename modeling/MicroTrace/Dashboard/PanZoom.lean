import Mathlib.Algebra.Order.Field.Basic
import Mathlib.Tactic.Linarith
import Mathlib.Tactic.Ring
import MicroTrace.Library.Clamping
import MicroTrace.Library.Runs

/- Zoom and pan of the charts (chartShared.ts), over exact rationals. uPlot is a parameter: the
   x range it takes for new data, and whether a setScale makes it call the hook. What is set
   with setScale is the x range from then on. -/
namespace Dashboard
open Clamping Runs

def minZoomSec : ℚ := 10

structure Range where
  min : ℚ
  max : ℚ
  deriving DecidableEq

def Range.width (r : Range) : ℚ := r.max - r.min

structure Series where
  xs : List ℚ
  nonempty : xs ≠ []
  sorted : xs.Pairwise (· ≤ ·)

def dataBounds : List ℚ → Range
  | [] => ⟨0, 1⟩
  | min :: rest =>
      let max := rest.getLastD min
      if min < max then ⟨min, max⟩ else ⟨min, min + 1⟩

structure UPlot where
  autoScale : List ℚ → Range
  fires : Range → Range → Bool

structure Drag where
  startX : ℚ
  start : Range

structure Chart where
  data : Series
  x : Range
  userZoomed : Bool
  drag : Option Drag

def Chart.bounds (u : Chart) : Range := dataBounds u.data.xs

def Chart.isFullRange (u : Chart) : Bool :=
  u.bounds.width - u.bounds.width * (1 / 1000) ≤ u.x.width

/- getBoundingClientRect of a chart that is on the screen. -/
structure Rect where
  left : ℚ
  width : ℚ
  positive : 0 < width

inductive Gesture where
  | wheel (clientX deltaY : ℚ) (rect : Rect)
  | mousedown (button : ℕ) (clientX : ℚ)
  | mousemove (clientX : ℚ) (rect : Rect)
  | mouseup
  | applyData (data : Series)

def mouseRatio (clientX : ℚ) (rect : Rect) : ℚ := (clientX - rect.left) / rect.width

def Chart.minRange (u : Chart) : ℚ := min minZoomSec u.bounds.width

def Chart.newRange (u : Chart) (deltaY : ℚ) : ℚ :=
  clamp (u.x.width * if deltaY > 0 then 5 / 4 else 4 / 5) u.minRange u.bounds.width

def Range.under (r : Range) (ratio : ℚ) : ℚ := r.min + ratio * r.width

def Chart.anchored (u : Chart) (ratio deltaY : ℚ) : ℚ :=
  u.x.under ratio - ratio * u.newRange deltaY

def Chart.zoom (u : Chart) (ratio deltaY : ℚ) : Range :=
  let newXMin := clamp (u.anchored ratio deltaY) u.bounds.min (u.bounds.max - u.newRange deltaY)
  ⟨newXMin, newXMin + u.newRange deltaY⟩

def Chart.pan (u : Chart) (d : Drag) (clientX : ℚ) (rect : Rect) : Range :=
  let shift := -((clientX - d.startX) / rect.width) * d.start.width
  let newXMin := clamp (d.start.min + shift) u.bounds.min (u.bounds.max - d.start.width)
  ⟨newXMin, newXMin + d.start.width⟩

variable (lib : UPlot)

def Chart.setScale (u : Chart) (x : Range) : Chart :=
  let next := { u with x := x }
  { next with userZoomed := if lib.fires u.x x then !next.isFullRange else u.userZoomed }

def Chart.applyData (u : Chart) (data : Series) : Chart :=
  let next := { u with data := data }
  if u.userZoomed then next.setScale lib u.x else next.setScale lib (lib.autoScale data.xs)

def chartStep : Stepper Chart Gesture Unit
  | u, .wheel clientX deltaY rect =>
      some (u.setScale lib (u.zoom (mouseRatio clientX rect) deltaY), [])
  | u, .mousedown button clientX =>
      some (if button ≠ 0 then u else { u with drag := some ⟨clientX, u.x⟩ }, [])
  | u, .mousemove clientX rect =>
      match u.drag with
      | none => some (u, [])
      | some d => some (u.setScale lib (u.pan d clientX rect), [])
  | u, .mouseup => some ({ u with drag := none }, [])
  | u, .applyData data => some (u.applyData lib data, [])

/-- A new chart has the range uPlot takes for its data, which calls the hook. -/
def Chart.mount (data : Series) : Chart :=
  let u : Chart := ⟨data, lib.autoScale data.xs, false, none⟩
  { u with userZoomed := !u.isFullRange }

theorem step_total (u : Chart) (g : Gesture) : ∃ u' o, chartStep lib u g = some (u', o) := by
  cases g with
  | mousemove clientX rect => cases dragging : u.drag <;> simp [chartStep, dragging]
  | _ => exact ⟨_, _, rfl⟩

/-- The view is inside the data and neither too narrow nor wider than it. -/
structure Chart.Inside (u : Chart) : Prop where
  left : u.bounds.min ≤ u.x.min
  proper : u.x.min < u.x.max
  right : u.x.max ≤ u.bounds.max
  wide : u.minRange ≤ u.x.max - u.x.min
  narrow : u.x.max - u.x.min ≤ u.bounds.max - u.bounds.min

/- What a wheel step and a drag move are to leave behind. -/
def Gesture.Good (u : Chart) (g : Gesture) (u' : Chart) : Prop :=
  match g with
  | .wheel clientX deltaY rect =>
      u'.Inside ∧ (u.bounds.min ≤ u.anchored (mouseRatio clientX rect) deltaY →
        u.anchored (mouseRatio clientX rect) deltaY ≤ u.bounds.max - u.newRange deltaY →
          u'.x.under (mouseRatio clientX rect) = u.x.under (mouseRatio clientX rect))
  | .mousemove _ _ => u.drag ≠ none → u'.Inside
  | _ => True

/-- The view that is dragged is not wider than the data of now, and not too narrow for it. -/
def Gesture.Fits (u : Chart) : Gesture → Prop
  | .mousemove _ _ => ∀ d, u.drag = some d →
      u.minRange ≤ d.start.width ∧ d.start.width ≤ u.bounds.width
  | _ => True

def UPlot.Snug : Prop := ∀ first rest, first < rest.getLastD first →
  lib.autoScale (first :: rest) = ⟨first, rest.getLastD first⟩

def Gesture.Widens (u : Chart) : Gesture → Prop
  | .applyData data => u.bounds.width ≤ (dataBounds data.xs).width
  | _ => True

section Step

variable {lib} {u u' : Chart} {g : Gesture} {o : List Unit}

theorem bounds_positive (xs : List ℚ) : 0 < (dataBounds xs).width := by
  cases xs with
  | nil => norm_num [dataBounds, Range.width]
  | cons min rest =>
    simp only [dataBounds]
    split
    · rename_i rising
      exact sub_pos.mpr rising
    · norm_num [Range.width]

theorem minRange_le (u : Chart) : u.minRange ≤ u.bounds.width := min_le_right _ _

theorem minRange_positive (u : Chart) : 0 < u.minRange :=
  lt_min (by norm_num [minZoomSec]) (bounds_positive u.data.xs)

theorem newRange_mem (u : Chart) (deltaY : ℚ) :
    u.minRange ≤ u.newRange deltaY ∧ u.newRange deltaY ≤ u.bounds.width :=
  ⟨le_clamp, clamp_le (minRange_le u)⟩

theorem inside_iff (u : Chart) (v width : ℚ)
    (placed : u.x = ⟨clamp v u.bounds.min (u.bounds.max - width),
      clamp v u.bounds.min (u.bounds.max - width) + width⟩) :
    u.Inside ↔ u.minRange ≤ width ∧ width ≤ u.bounds.width := by
  have across : u.x.max - u.x.min = width := by
    rw [placed]
    ring
  constructor
  · intro inside
    exact ⟨across ▸ inside.wide, across ▸ inside.narrow⟩
  · rintro ⟨wide, narrow⟩
    have positive := minRange_positive u
    have left : u.bounds.min ≤ u.x.min := by
      rw [placed]
      exact le_clamp
    have right : u.x.max ≤ u.bounds.max := by
      rw [placed]
      exact (placed_iff v u.bounds.min u.bounds.max width).mpr narrow
    exact ⟨left, by linarith, right, across.symm ▸ wide, across.symm ▸ narrow⟩

theorem zoom_inside (clientX deltaY : ℚ) (rect : Rect)
    (taken : chartStep lib u (.wheel clientX deltaY rect) = some (u', o)) : u'.Inside := by
  cases taken
  exact (inside_iff _ _ (u.newRange deltaY) rfl).mpr (newRange_mem u deltaY)

theorem zoom_anchored (clientX deltaY : ℚ) (rect : Rect)
    (taken : chartStep lib u (.wheel clientX deltaY rect) = some (u', o))
    (low : u.bounds.min ≤ u.anchored (mouseRatio clientX rect) deltaY)
    (high : u.anchored (mouseRatio clientX rect) deltaY ≤ u.bounds.max - u.newRange deltaY) :
    u'.x.under (mouseRatio clientX rect) = u.x.under (mouseRatio clientX rect) := by
  cases taken
  show (u.zoom (mouseRatio clientX rect) deltaY).under (mouseRatio clientX rect) = _
  rw [Chart.zoom, clamp_of_mem low high]
  simp only [Range.under, Range.width, Chart.anchored]
  ring

theorem good_iff_fits (taken : chartStep lib u g = some (u', o)) : g.Good u u' ↔ g.Fits u := by
  cases g with
  | wheel clientX deltaY rect =>
    exact ⟨fun _ => trivial,
      fun _ => ⟨zoom_inside clientX deltaY rect taken, zoom_anchored clientX deltaY rect taken⟩⟩
  | mousemove clientX rect =>
    cases dragging : u.drag with
    | none => simp [Gesture.Good, Gesture.Fits, dragging]
    | some d =>
      simp only [chartStep, dragging] at taken
      cases taken
      simp only [Gesture.Good, Gesture.Fits, dragging, Option.some.injEq, forall_eq']
      exact (imp_iff_right nofun).trans (inside_iff _ _ d.start.width rfl)
  | mousedown button clientX => exact Iff.rfl
  | mouseup => exact Iff.rfl
  | applyData data => exact Iff.rfl

/- In data of ten seconds or more that never gets shorter, every view fits. -/
structure Chart.Fitted (u : Chart) : Prop where
  long : minZoomSec ≤ u.bounds.width
  view : minZoomSec ≤ u.x.width ∧ u.x.width ≤ u.bounds.width
  drag : ∀ d, u.drag = some d → minZoomSec ≤ d.start.width ∧ d.start.width ≤ u.bounds.width

theorem width_from (left width : ℚ) : (Range.mk left (left + width)).width = width :=
  add_sub_cancel_left left width

theorem minRange_long (long : minZoomSec ≤ u.bounds.width) : u.minRange = minZoomSec :=
  min_eq_left long

theorem auto_width (snug : lib.Snug) (data : Series)
    (long : minZoomSec ≤ (dataBounds data.xs).width) :
    (lib.autoScale data.xs).width = (dataBounds data.xs).width := by
  obtain ⟨xs, nonempty, sorted⟩ := data
  cases xs with
  | nil => exact absurd rfl nonempty
  | cons first rest =>
    simp only [dataBounds] at long ⊢
    split at long
    · rename_i rising
      rw [if_pos rising, snug first rest rising]
    · norm_num [Range.width, minZoomSec] at long

theorem fitted_step (snug : lib.Snug) (held : u.Fitted) (widens : g.Widens u)
    (taken : chartStep lib u g = some (u', o)) : u'.Fitted := by
  cases g with
  | wheel clientX deltaY rect =>
    cases taken
    refine ⟨held.long, ?_, held.drag⟩
    have mem := newRange_mem u deltaY
    rw [minRange_long held.long] at mem
    have across : (u.zoom (mouseRatio clientX rect) deltaY).width = u.newRange deltaY :=
      width_from _ _
    exact across.symm ▸ mem
  | mousedown button clientX =>
    cases taken
    split
    · exact held
    · refine ⟨held.long, held.view, ?_⟩
      rintro d ⟨⟩
      exact held.view
  | mousemove clientX rect =>
    cases dragging : u.drag with
    | none =>
      simp only [chartStep, dragging] at taken
      cases taken
      exact held
    | some d =>
      simp only [chartStep, dragging] at taken
      cases taken
      have across : (u.pan d clientX rect).width = d.start.width := width_from _ _
      exact ⟨held.long, across.symm ▸ held.drag d dragging, held.drag⟩
  | mouseup =>
    cases taken
    exact ⟨held.long, held.view, nofun⟩
  | applyData data =>
    cases taken
    have longer : u.bounds.width ≤ (dataBounds data.xs).width := widens
    have long : minZoomSec ≤ (dataBounds data.xs).width := held.long.trans longer
    have drag (d : Drag) (dragging : u.drag = some d) :
        minZoomSec ≤ d.start.width ∧ d.start.width ≤ (dataBounds data.xs).width :=
      ⟨(held.drag d dragging).1, (held.drag d dragging).2.trans longer⟩
    unfold Chart.applyData
    split
    · exact ⟨long, ⟨held.view.1, held.view.2.trans longer⟩, drag⟩
    · have across := auto_width snug data long
      exact ⟨long, ⟨across.symm ▸ long, across.le⟩, drag⟩

theorem fits_of_fitted (fitted : u.Fitted) : g.Fits u := by
  cases g with
  | mousemove clientX rect =>
    intro d dragging
    rw [minRange_long fitted.long]
    exact fitted.drag d dragging
  | _ => trivial

end Step

theorem fitted_mount {data : Series} (snug : lib.Snug)
    (long : minZoomSec ≤ (dataBounds data.xs).width) : (Chart.mount lib data).Fitted := by
  have across := auto_width snug data long
  exact ⟨long, ⟨across.symm ▸ long, across.le⟩, nofun⟩

/-- In every run of gestures and new data each wheel step and each drag move does what it
    should exactly when each view that is dragged fits the data of the moment; and so it is
    if the data spans ten seconds and is never replaced by data that spans less. -/
theorem pan_zoom_inside_iff (data : Series) (gestures : List Gesture) :
    ((∀ before g after u o u' o', gestures = before ++ g :: after →
          exec (chartStep lib) (.mount lib data) before = some (u, o) →
          chartStep lib u g = some (u', o') → g.Good u u') ↔
        EachStep (chartStep lib) (.mount lib data) gestures fun u g => g.Fits u) ∧
      (lib.Snug → minZoomSec ≤ (dataBounds data.xs).width →
        EachStep (chartStep lib) (.mount lib data) gestures (fun u g => g.Widens u) →
        EachStep (chartStep lib) (.mount lib data) gestures fun u g => g.Fits u) := by
  refine ⟨⟨?_, ?_⟩, ?_⟩
  · intro good before g after u o split run
    obtain ⟨u', o', taken⟩ := step_total lib u g
    exact (good_iff_fits taken).mp (good before g after u o u' o' split run taken)
  · intro fits before g after u o u' o' split run taken
    exact (good_iff_fits taken).mpr (fits before g after u o split run)
  · intro snug long widens before g after u o split run
    have fitted : Always (chartStep lib) (.mount lib data) gestures fun u _ => u.Fitted :=
      always_of_steps (fitted_mount lib snug long)
        (fun _ held widens taken => fitted_step snug held widens taken) widens
    exact fits_of_fitted (fitted before (g :: after) u o split run)

/- uPlot on a time scale, for data with two different values. The hook is called when the
   range has changed. -/
def timeScale : UPlot where
  autoScale xs := dataBounds xs
  fires old new := old ≠ new

theorem snug_timeScale : timeScale.Snug := by
  intro first rest rising
  show dataBounds (first :: rest) = _
  simp only [dataBounds]
  rw [if_pos rising]

def upTo (last : ℚ) (positive : 0 < last) : Series where
  xs := [0, last]
  nonempty := by simp
  sorted := by simp [positive.le]

theorem bounds_upTo (last : ℚ) (positive : 0 < last) :
    dataBounds (upTo last positive).xs = ⟨0, last⟩ := if_pos positive

def longer : Series := upTo 120 (by norm_num)

def shorter : Series := upTo 50 (by norm_num)

def unitRect : Rect := ⟨0, 1, by norm_num⟩

def hundred : Chart := .mount timeScale (upTo 100 (by norm_num))

def grabbed (data : Series) : List Gesture :=
  [.wheel (1 / 2) (-1) unitRect, .mousedown 0 (1 / 2), .applyData data]

def moved : Gesture := .mousemove (1 / 2) unitRect

theorem bounds_hundred : hundred.bounds = ⟨0, 100⟩ := bounds_upTo 100 (by norm_num)

theorem zoomed_hundred : hundred.zoom (mouseRatio (1 / 2) unitRect) (-1) = ⟨10, 90⟩ := by
  have full : hundred.x = ⟨0, 100⟩ := bounds_upTo 100 (by norm_num)
  norm_num [Chart.zoom, Chart.anchored, Chart.newRange, Chart.minRange, minZoomSec, clamp,
    Range.under, Range.width, mouseRatio, unitRect, full, bounds_hundred]

theorem applyData_drag (u : Chart) (data : Series) : (u.applyData lib data).drag = u.drag := by
  unfold Chart.applyData
  split <;> rfl

theorem applyData_data (u : Chart) (data : Series) : (u.applyData lib data).data = data := by
  unfold Chart.applyData
  split <;> rfl

theorem grabbed_run (data : Series) :
    ∃ u o, exec (chartStep timeScale) hundred (grabbed data) = some (u, o) ∧
      u.drag = some ⟨1 / 2, ⟨10, 90⟩⟩ ∧ u.bounds = dataBounds data.xs := by
  refine ⟨_, _, rfl, ?_, ?_⟩
  · rw [applyData_drag]
    exact congrArg (fun x => some (Drag.mk (1 / 2) x)) zoomed_hundred
  · rw [Chart.bounds, applyData_data]

theorem longer_data_inside : ∃ u o u' o',
    exec (chartStep timeScale) hundred (grabbed longer) = some (u, o) ∧
      u.drag ≠ none ∧ chartStep timeScale u moved = some (u', o') ∧ u'.Inside := by
  obtain ⟨iff, fits⟩ := pan_zoom_inside_iff timeScale (upTo 100 (by norm_num))
    (grabbed longer ++ [moved])
  have long : minZoomSec ≤ hundred.bounds.width := by
    norm_num [bounds_hundred, Range.width, minZoomSec]
  have no_less : hundred.bounds.width ≤ (dataBounds longer.xs).width := by
    norm_num [bounds_hundred, longer, bounds_upTo, Range.width]
  have widens : EachStep (chartStep timeScale) hundred (grabbed longer ++ [moved])
      fun u g => g.Widens u := by
    refine eachStep_cons trivial rfl (eachStep_cons trivial rfl (eachStep_cons no_less rfl ?_))
    obtain ⟨u', o', taken⟩ := step_total timeScale _ moved
    exact eachStep_cons trivial taken eachStep_nil
  obtain ⟨u, o, run, dragging, _⟩ := grabbed_run longer
  obtain ⟨u', o', taken⟩ := step_total timeScale u moved
  have held : u.drag ≠ none := dragging ▸ nofun
  exact ⟨u, o, u', o', run, held, taken,
    iff.mpr (fits snug_timeScale long widens) _ moved [] u o u' o' rfl run taken held⟩

theorem shorter_data_left : ∃ u o u' o',
    exec (chartStep timeScale) hundred (grabbed shorter) = some (u, o) ∧
      chartStep timeScale u moved = some (u', o') ∧
      u'.bounds = ⟨0, 50⟩ ∧ u'.x = ⟨0, 80⟩ ∧ ¬ moved.Good u u' := by
  obtain ⟨u, o, run, dragging, data⟩ := grabbed_run shorter
  have bounds : u.bounds = ⟨0, 50⟩ := data.trans (bounds_upTo 50 (by norm_num))
  have taken : chartStep timeScale u moved
      = some (u.setScale timeScale (u.pan ⟨1 / 2, ⟨10, 90⟩⟩ (1 / 2) unitRect), []) := by
    simp only [chartStep, moved, dragging]
  refine ⟨u, o, _, _, run, taken, bounds, ?_, ?_⟩
  · show u.pan ⟨1 / 2, ⟨10, 90⟩⟩ (1 / 2) unitRect = _
    norm_num [Chart.pan, Range.width, clamp, bounds]
  · intro good
    have fits := ((good_iff_fits taken).mp good _ dragging).2
    norm_num [Range.width, bounds] at fits

end Dashboard
