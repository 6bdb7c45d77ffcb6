import Mathlib.Data.List.Basic
import MicroTrace.Dashboard.Joining
import MicroTrace.Dashboard.Session

/- A dashboard that lost its socket comes back with the edges it showed before. An edge whose
   connection was removed while it was away is erased only if something about that edge still
   reaches it. -/
namespace Dashboard
open CollectorModel CollectorStats RangeLoops Runs Lives

def arrowFree (k : ConnKey) : Bool := decide ('→' ∉ k.src.toList ∧ '→' ∉ k.dst.toList)

theorem arrow_free_distinct : Distinct arrowFree := by
  intro j k left _ same
  obtain ⟨noSrc, noDst⟩ := of_decide_eq_true left
  have arrow : "→".toList = ['→'] := by decide
  have chars := congrArg String.toList same
  simp only [ConnKey.text, String.toList_append, arrow, List.append_assoc,
    List.singleton_append] at chars
  obtain ⟨src, _, dst⟩ := (List.append_cons_inj_of_notMem noSrc noDst).mp chars
  cases j
  cases k
  simp only [ConnKey.mk.injEq]
  exact ⟨String.toList_inj.mp src, String.toList_inj.mp dst⟩

/-- The edges on screen are the tracked connections exactly when each edge kept from an
    earlier socket was tracked once more or spoken of after the dashboard came back. -/
theorem reconnect_repairs_view_iff (v : Session (restrict (Smooth arrowFree fun _ => true) step)) :
    (∀ key, key ∈ v.shown.client.snapshots ↔ ∃ k ∈ v.publishing.conns, k.text = key) ↔
      ∀ key ∈ v.joining.client.snapshots, words key (inFlight v.joining) ≠ [] ∨
        Passes (restrict (Smooth arrowFree fun _ => true) step) v.joined v.between
          fun u => ∃ k ∈ u.conns, k.text = key := by
  constructor
  · intro mirrored key kept
    apply (v.heard_iff arrow_free_distinct key).mp
    by_cases tracked : ∃ k ∈ v.publishing.conns, k.text = key
    · exact .inr tracked
    · left
      intro quiet
      have still := (v.shown_iff arrow_free_distinct key).mpr (.inr ⟨kept, quiet⟩)
      exact tracked ((mirrored key).mp still)
  · intro repaired key
    rw [v.shown_iff arrow_free_distinct key]
    constructor
    · rintro (tracked | ⟨kept, quiet⟩)
      · exact tracked
      · rcases (v.heard_iff arrow_free_distinct key).mpr (repaired key kept) with said | tracked
        · exact absurd quiet said
        · exact tracked
    · intro tracked
      exact .inl tracked

def stock : ConnKey := ⟨"shop", "stock"⟩

def stockSeen (now : Time) : Label :=
  .input (.event ⟨"stock", "shop", true, true⟩ now
    ⟨.connect, 40002, "", "10.0.0.1", "10.0.0.3", 80, 250, 0⟩)

/- The dashboard shows the checkout edge and loses its socket. Another edge appears while it is
   away, and it is back before the first one expires. -/
def appearedWhileAway : List Label :=
  checkoutTracked ++ .register [checkout] :: .input (.tick 2 [checkout]) :: deliverOne ++
    .disconnect :: stockSeen 20000000000 :: deliverOne ++ [.runOp]

theorem reconnected_view_repaired :
    ∃ v : Session (restrict (Smooth arrowFree fun _ => true) step),
      v.before = appearedWhileAway ∧ checkout.text ∈ v.joining.client.snapshots ∧
      v.publishing.conns.keys = {checkout, stock} ∧
      ∀ key, key ∈ v.shown.client.snapshots ↔ ∃ k ∈ v.publishing.conns, k.text = key := by
  have session : ∃ v : Session (restrict (Smooth arrowFree fun _ => true) step),
      v.before = appearedWhileAway ∧ v.joining.client.snapshots.keys = {checkout.text} ∧
      checkout ∈ v.joined.conns ∧ v.publishing.conns.keys = {checkout, stock} :=
    ⟨⟨false, 0, appearedWhileAway, _, _, rfl, [checkout, stock], _, rfl, [], _, _, rfl,
      21000000000, [checkout, stock], .tick 21000000000 [checkout, stock], .inl rfl, _, rfl,
      [.runOp, .runOp], _, _, rfl, by decide, rfl,
      [.receive, .write ⟨8, 8, 8⟩, .receive, .write ⟨9, 9, 9⟩], _, _, rfl, rfl, by decide⟩,
      rfl, by decide, by decide, by decide⟩
  obtain ⟨v, before, kept, still, tracked⟩ := session
  refine ⟨v, before, ?_, tracked, (reconnect_repairs_view_iff v).mpr ?_⟩
  · rw [← Finmap.mem_keys, kept]
    exact Finset.mem_singleton_self checkout.text
  · intro key member
    rw [← Finmap.mem_keys, kept] at member
    obtain rfl := Finset.mem_singleton.mp member
    exact .inr (passes_first ⟨checkout, still, rfl⟩)

/- The dashboard shows the checkout edge and loses its socket. The edge expires and is
   removed while it is away. -/
def removedWhileAway : List Label :=
  checkoutTracked ++ .register [checkout] :: .input (.tick 2 [checkout]) :: deliverOne ++
    .disconnect :: stockSeen 20000000000 :: deliverOne ++
    .runOp :: .input (.sweep 31000000000 [checkout, stock]
      [⟨40001, "10.0.0.1", "10.0.0.2", 80⟩, ⟨40002, "10.0.0.1", "10.0.0.3", 80⟩]) :: deliverOne

theorem removed_edge_stays_on_screen :
    ∃ v : Session (restrict (Smooth arrowFree fun _ => true) step),
      v.before = removedWhileAway ∧ v.between = [] ∧
      checkout.text ∈ v.shown.client.snapshots ∧ v.publishing.conns.keys = {stock} ∧
      ¬ ∀ key, key ∈ v.shown.client.snapshots ↔ ∃ k ∈ v.publishing.conns, k.text = key := by
  have session : ∃ v : Session (restrict (Smooth arrowFree fun _ => true) step),
      v.before = removedWhileAway ∧ v.between = [] ∧
      checkout.text ∈ v.shown.client.snapshots ∧ v.publishing.conns.keys = {stock} :=
    ⟨⟨false, 0, removedWhileAway, _, _, rfl, [stock], _, rfl, [], _, _, rfl, 32000000000, [stock],
      .tick 32000000000 [stock], .inl rfl, _, rfl, [.runOp], _, _, rfl, by decide, rfl,
      [.receive, .write ⟨8, 8, 8⟩], _, _, rfl, rfl, by decide⟩, rfl, rfl, by decide, by decide⟩
  obtain ⟨v, before, between, kept, tracked⟩ := session
  refine ⟨v, before, between, kept, tracked, ?_⟩
  intro mirrored
  obtain ⟨k, member, same⟩ := (mirrored checkout.text).mp kept
  have only := Finmap.mem_keys.mpr member
  rw [tracked, Finset.mem_singleton] at only
  subst only
  exact absurd same (by decide)

end Dashboard
