import MicroTrace.Collector.Flows
import MicroTrace.Collector.Isolation

/- Two sockets that use one 4-tuple, one after the other. updateFlowMdev treats the connect
   event of the second like a further sample of the first while the flow is still tracked, so
   what a new socket reports depends on the entry its predecessor has left. -/
namespace CollectorStats
open Averages CollectorModel RangeLoops Runs

def returned (f : FlowKey) (m : Machine) : Input → List ℕ
  | .event _ now e =>
      if Event.sampled e ∧ Event.flowKey e = f then
        [(updateFlowMdev m.proc f e.latencyUs.toNat now).2]
      else []
  | .sweep _ _ _ => []
  | .tick _ _ => []
  | .closed _ _ => []
  | .resource _ => []

/- A new TCP socket on the key. -/
def Input.connects (f : FlowKey) : Input → Prop
  | .event _ _ e => e.type = .connect ∧ 0 < e.latencyUs.toNat ∧ Event.flowKey e = f
  | .sweep _ _ _ => False
  | .tick _ _ => False
  | .closed _ _ => False
  | .resource _ => False

/-- From a new connection on the key on, the deviations returned for it come out alike in both
    runs, whatever follows. Iteration orders may differ. -/
def SameJitter (f : FlowKey) (m n : Machine) : Prop :=
  ∀ (i j : Input) (is js : List Input) (m' n' : Machine) (jitters jitters' : List ℕ),
    i.connects f → (i :: is).map Input.unordered = (j :: js).map Input.unordered →
    exec (watch (returned f) step) m (i :: is) = some (m', jitters) →
    exec (watch (returned f) step) n (j :: js) = some (n', jitters') → jitters = jitters'

def entry (f : FlowKey) (m : Machine) : Option (Tracker ℕ) :=
  (m.proc.flows.lookup f).map FlowState.tracker

section Suffix

variable {f : FlowKey} {m n m' n' : Machine} {i j : Input} {is js : List Input}
  {jitters jitters' : List ℕ}

theorem flowAfter_unordered (flow : Option FlowState) (i : Input) :
    flowAfter f flow i.unordered = flowAfter f flow i := by
  cases i <;> rfl

theorem returned_of_flow (flow : m.proc.flows.lookup f = n.proc.flows.lookup f)
    (same : i.unordered = j.unordered) : returned f m i = returned f n j := by
  have own : returned f m i = returned f n i := by
    cases i with
    | event a now e => simp only [returned, updateFlowMdev, getOrCreateFlow, flow]
    | _ => rfl
  have other : returned f n i.unordered = returned f n j.unordered := by rw [same]
  rw [own]
  cases i <;> cases j <;> simp_all [Input.unordered, returned]

theorem same_suffix (flow : m.proc.flows.lookup f = n.proc.flows.lookup f)
    (same : is.map Input.unordered = js.map Input.unordered)
    (run : exec (watch (returned f) step) m is = some (m', jitters))
    (run' : exec (watch (returned f) step) n js = some (n', jitters')) : jitters = jitters' := by
  induction is generalizing m n js jitters jitters' with
  | nil =>
    obtain rfl : js = [] := by simpa using same.symm
    obtain ⟨_, rfl⟩ := exec_nil_iff.mp run
    obtain ⟨_, rfl⟩ := exec_nil_iff.mp run'
    rfl
  | cons i is ih =>
    cases js with
    | nil => simp at same
    | cons j js =>
      obtain ⟨head, tail⟩ := List.cons.inj same
      obtain ⟨u, now, later, first, rest, rfl⟩ := exec_cons_iff.mp run
      obtain ⟨v, now', later', first', rest', rfl⟩ := exec_cons_iff.mp run'
      obtain ⟨⟨out, taken⟩, rfl⟩ := watch_iff.mp first
      obtain ⟨⟨out', taken'⟩, rfl⟩ := watch_iff.mp first'
      have after : u.proc.flows.lookup f = v.proc.flows.lookup f := by
        rw [flow_after_step taken, flow_after_step taken', flow, ← flowAfter_unordered _ i, head,
          flowAfter_unordered]
      rw [returned_of_flow flow head, ih after tail rest rest']

/- A flow that is tracked has had a sample. -/
def Begun (m : Machine) : Prop :=
  ∀ f fs, m.proc.flows.lookup f = some fs →
    fs.initialized = true ∧ fs.srttUs < 2 ^ 64 ∧ fs.mdevUs < 2 ^ 62

theorem observe_begun (fs : FlowState) (r : UInt64) (now : Time) :
    (fs.observe r.toNat now).initialized = true ∧ (fs.observe r.toNat now).srttUs < 2 ^ 64 ∧
      (fs.observe r.toNat now).mdevUs < 2 ^ 62 := by
  have small := r.toNat_lt
  refine ⟨observe_initialized _ _ _, ?_⟩
  unfold FlowState.observe wrap64
  split
  · constructor <;> dsimp only <;> omega
  · exact ⟨small, Nat.two_pow_pos 62⟩

theorem begun_step {out : List Emission} (begun : Begun m) (taken : step m i = some (m', out)) :
    Begun m' := by
  intro f fs tracked
  rw [flow_after_step taken] at tracked
  cases i with
  | event a now e =>
    simp only [flowAfter] at tracked
    split at tracked
    · cases tracked
      exact observe_begun _ _ _
    · exact begun f fs tracked
  | sweep now order flowOrder =>
    exact begun f fs (Option.filter_eq_some_iff.mp tracked).1
  | tick now order => exact begun f fs tracked
  | closed now order => exact begun f fs tracked
  | resource s => exact begun f fs tracked

theorem begun_run {storing : Bool} {clock : Time} {ls : List Input} {out : List Emission}
    (run : exec step (Machine.start storing clock) ls = some (m, out)) : Begun m := by
  apply exec_keeps (I := Begun) begun_step _ run
  intro f fs tracked
  simp [Machine.start, Processor.new] at tracked

end Suffix

theorem eq_of_quarters {a b : ℕ} (one : (a + 1) / 4 = (b + 1) / 4)
    (two : (a + 2) / 4 = (b + 2) / 4) (three : (a + 3) / 4 = (b + 3) / 4)
    (four : (a + 4) / 4 = (b + 4) / 4) : a = b := by
  have digit : a % 4 = 0 ∨ a % 4 = 1 ∨ a % 4 = 2 ∨ a % 4 = 3 := by omega
  have digit' : b % 4 = 0 ∨ b % 4 = 1 ∨ b % 4 = 2 ∨ b % 4 = 3 := by omega
  rcases digit with h | h | h | h <;> rcases digit' with h' | h' | h' | h' <;> omega

theorem no_rise {a y : ℕ} (big : 4 ≤ y) (first : a = y % 2 ^ 64 / 4)
    (second : a + 1 = (y - 4) % 2 ^ 64 / 4) : False := by
  by_cases low : y % 2 ^ 64 < 4
  · have wrapped : (y - 4) % 2 ^ 64 = y % 2 ^ 64 + 2 ^ 64 - 4 := by omega
    omega
  · have lower : (y - 4) % 2 ^ 64 = y % 2 ^ 64 - 4 := by omega
    omega

def deviationAt (s m r : ℕ) : ℕ := wrap64 (3 * m + absDiff r s) / 4

theorem deviationAt_eq {s m r d : ℕ} (error : (r - s) + (s - r) = d) :
    deviationAt s m r = (3 * m + d) % 2 ^ 64 / 4 := by
  rw [deviationAt, absDiff_eq_dist, Nat.dist, error, wrap64]

theorem deviationAt_near {s m r d : ℕ} (small : m < 2 ^ 62) (error : (r - s) + (s - r) = d)
    (near : d ≤ 12) : deviationAt s m r = (3 * m + d) / 4 := by
  rw [deviationAt_eq error, Nat.mod_eq_of_lt (by omega)]

/- Two sockets in different states are told apart by one further sample. -/
section Distinguish

variable {s m s' m' : ℕ} (room : s < 2 ^ 64) (room' : s' < 2 ^ 64) (small : m < 2 ^ 62)
  (small' : m' < 2 ^ 62)
  (same : ∀ r, 0 < r → r < 2 ^ 64 → deviationAt s m r = deviationAt s' m' r)

include small small' same in
theorem same_near (r d e : ℕ) (positive : 0 < r) (inside : r < 2 ^ 64)
    (error : (r - s) + (s - r) = d) (error' : (r - s') + (s' - r) = e) (near : d ≤ 12)
    (near' : e ≤ 12) : (3 * m + d) / 4 = (3 * m' + e) / 4 := by
  have equal := same r positive inside
  rwa [deviationAt_near small error near, deviationAt_near small' error' near'] at equal

include room small small' same in
theorem same_mdev (equal : s = s') : m = m' := by
  subst equal
  have near (r d : ℕ) := same_near small small' same r d d
  have triple : 3 * m = 3 * m' := by
    by_cases high : s + 4 < 2 ^ 64
    · apply eq_of_quarters
      · exact near (s + 1) 1 (by omega) (by omega) (by omega) (by omega) (by omega) (by omega)
      · exact near (s + 2) 2 (by omega) (by omega) (by omega) (by omega) (by omega) (by omega)
      · exact near (s + 3) 3 (by omega) (by omega) (by omega) (by omega) (by omega) (by omega)
      · exact near (s + 4) 4 (by omega) (by omega) (by omega) (by omega) (by omega) (by omega)
    · apply eq_of_quarters
      · exact near (s - 1) 1 (by omega) (by omega) (by omega) (by omega) (by omega) (by omega)
      · exact near (s - 2) 2 (by omega) (by omega) (by omega) (by omega) (by omega) (by omega)
      · exact near (s - 3) 3 (by omega) (by omega) (by omega) (by omega) (by omega) (by omega)
      · exact near (s - 4) 4 (by omega) (by omega) (by omega) (by omega) (by omega) (by omega)
  omega

include room' small same in
theorem same_close : s' < s + 5 := by
  by_contra far
  have first := same (s + 1) (by omega) (by omega)
  have second := same (s + 5) (by omega) (by omega)
  rw [@deviationAt_near s m (s + 1) 1 small (by omega) (by omega),
    @deviationAt_eq s' m' (s + 1) (s' - s - 1) (by omega)] at first
  rw [@deviationAt_near s m (s + 5) 5 small (by omega) (by omega),
    @deviationAt_eq s' m' (s + 5) (s' - s - 5) (by omega)] at second
  have next : (3 * m + 5) / 4 = (3 * m + 1) / 4 + 1 := by omega
  have lower : 3 * m' + (s' - s - 5) = 3 * m' + (s' - s - 1) - 4 := by omega
  rw [next, lower] at second
  exact no_rise (by omega) first second

include room room' small small' same in
theorem same_srtt (order : s ≤ s') : s = s' := by
  by_contra different
  have less : s < s' := by omega
  obtain ⟨g, rfl⟩ : ∃ g, s' = s + g := ⟨s' - s, by omega⟩
  have close := same_close room' small same
  have near := same_near small small' same
  have first := near (s + 1) 1 (g - 1) (by omega) (by omega) (by omega) (by omega) (by omega)
    (by omega)
  by_cases high : s + g + 4 < 2 ^ 64
  · have sum : 3 * m + g = 3 * m' := by
      have up (t : ℕ) (one : 1 ≤ t) (four : t ≤ 4) :
          (3 * m + g + t) / 4 = (3 * m' + t) / 4 := by
        rw [Nat.add_assoc]
        exact near (s + g + t) (g + t) t (by omega) (by omega) (by omega) (by omega) (by omega)
          (by omega)
      exact eq_of_quarters (up 1 (by omega) (by omega)) (up 2 (by omega) (by omega))
        (up 3 (by omega) (by omega)) (up 4 (by omega) (by omega))
    omega
  · have last := near (s + g - 1) (g - 1) 1 (by omega) (by omega) (by omega) (by omega) (by omega)
      (by omega)
    have sum : 3 * m = 3 * m' + g := by
      have down (t : ℕ) (one : 1 ≤ t) (four : t ≤ 4) :
          (3 * m + t) / 4 = (3 * m' + g + t) / 4 := by
        rw [Nat.add_assoc (3 * m') g t]
        exact near (s - t) t (g + t) (by omega) (by omega) (by omega) (by omega) (by omega)
          (by omega)
      exact eq_of_quarters (down 1 (by omega) (by omega)) (down 2 (by omega) (by omega))
        (down 3 (by omega) (by omega)) (down 4 (by omega) (by omega))
    omega

include room room' small small' same in
theorem same_tracker : s = s' ∧ m = m' := by
  have back : ∀ r, 0 < r → r < 2 ^ 64 → deviationAt s' m' r = deviationAt s m r :=
    fun r positive inside => (same r positive inside).symm
  have equal : s = s' := by
    rcases Nat.le_total s s' with order | order
    · exact same_srtt room room' small small' same order
    · exact (same_srtt room' room small' small back order).symm
  exact ⟨equal, same_mdev room small small' same equal⟩

include room small in
theorem some_deviation : ∃ r, 0 < r ∧ r < 2 ^ 64 ∧ deviationAt s m r ≠ 0 := by
  by_cases high : s + 4 < 2 ^ 64
  · refine ⟨s + 4, by omega, by omega, ?_⟩
    rw [@deviationAt_near s m (s + 4) 4 small (by omega) (by omega)]
    omega
  · refine ⟨s - 4, by omega, by omega, ?_⟩
    rw [@deviationAt_near s m (s - 4) 4 small (by omega) (by omega)]
    omega

end Distinguish

section Entries

variable {f : FlowKey} {m n : Machine} {i : Input}

theorem begun_deviation {fs : FlowState} (r : ℕ) (now : Time) (known : fs.initialized = true)
    (tracked : m.proc.flows.lookup f = some fs) :
    (updateFlowMdev m.proc f r now).2 = deviationAt fs.srttUs fs.mdevUs r := by
  rw [updateFlowMdev, getOrCreateFlow, tracked, Option.getD_some, FlowState.observe, if_pos known]
  rfl

theorem new_deviation (r : ℕ) (now : Time) (unknown : m.proc.flows.lookup f = none) :
    (updateFlowMdev m.proc f r now).2 = 0 := by
  rw [updateFlowMdev, getOrCreateFlow, unknown]
  rfl

theorem observe_of_tracker {fs gs : FlowState} (known : fs.initialized = true)
    (known' : gs.initialized = true) (same : fs.tracker = gs.tracker) (rttUs : ℕ) (now : Time) :
    fs.observe rttUs now = gs.observe rttUs now := by
  obtain ⟨srtt, mdev, _, _⟩ := fs
  obtain ⟨srtt', mdev', _, _⟩ := gs
  cases same
  subst known known'
  rfl

theorem entries_connect (begun : Begun m) (begun' : Begun n) (same : entry f m = entry f n)
    (opens : i.connects f) :
    returned f m i = returned f n i ∧
      flowAfter f (m.proc.flows.lookup f) i = flowAfter f (n.proc.flows.lookup f) i := by
  cases i with
  | event a now e =>
    obtain ⟨type, positive, own⟩ := opens
    have sampled : Event.sampled e ∧ Event.flowKey e = f := ⟨⟨.inl type, positive⟩, own⟩
    have first := begun f
    have second := begun' f
    simp only [returned, flowAfter, if_pos sampled, updateFlowMdev, getOrCreateFlow]
    unfold entry at same
    cases known : m.proc.flows.lookup f with
    | none =>
      rw [known, Option.map_none] at same
      rw [Option.map_eq_none_iff.mp same.symm]
      exact ⟨rfl, rfl⟩
    | some fs =>
      rw [known, Option.map_some] at same
      obtain ⟨gs, known', tracker⟩ := Option.map_eq_some_iff.mp same.symm
      have equal := observe_of_tracker (first fs known).1 (second gs known').1 tracker.symm
        e.latencyUs.toNat now
      rw [known', Option.getD_some, Option.getD_some, equal]
      exact ⟨rfl, rfl⟩
  | tick now order => cases opens
  | sweep now order flowOrder => cases opens
  | closed now order => cases opens
  | resource s => cases opens

theorem jitter_of_entries (begun : Begun m) (begun' : Begun n) (same : entry f m = entry f n) :
    SameJitter f m n := by
  intro i j is js m' n' jitters jitters' opens suffix run run'
  obtain ⟨head, tail⟩ := List.cons.inj suffix
  obtain ⟨u, now, later, first, rest, rfl⟩ := exec_cons_iff.mp run
  obtain ⟨v, now', later', first', rest', rfl⟩ := exec_cons_iff.mp run'
  obtain ⟨⟨out, taken⟩, rfl⟩ := watch_iff.mp first
  obtain ⟨⟨out', taken'⟩, rfl⟩ := watch_iff.mp first'
  obtain ⟨jitter, flow⟩ := entries_connect begun begun' same opens
  have input : returned f n i = returned f n j := returned_of_flow rfl head
  have after : u.proc.flows.lookup f = v.proc.flows.lookup f := by
    rw [flow_after_step taken, flow_after_step taken', flow, ← flowAfter_unordered _ i, head,
      flowAfter_unordered]
  rw [jitter, input, same_suffix after tail rest rest']

def connectEvent (f : FlowKey) (r : ℕ) : Event :=
  ⟨.connect, f.sockID, "", f.sAddr, f.dAddr, f.dPort, UInt64.ofNat r, 0⟩

theorem connect_run {r : ℕ} {now : Time} (loop : m.running = true) (time : m.clock ≤ now)
    (positive : 0 < r) (small : r < 2 ^ 64) :
    (Input.event ⟨f.dAddr, f.sAddr, false, false⟩ now (connectEvent f r)).connects f ∧
      ∃ m', exec (watch (returned f) step) m
        [.event ⟨f.dAddr, f.sAddr, false, false⟩ now (connectEvent f r)] =
          some (m', [(updateFlowMdev m.proc f r now).2]) := by
  have latency : (connectEvent f r).latencyUs.toNat = r := by
    rw [connectEvent, UInt64.toNat_ofNat']
    exact Nat.mod_eq_of_lt small
  have opens : (Input.event ⟨f.dAddr, f.sAddr, false, false⟩ now (connectEvent f r)).connects f :=
    ⟨rfl, by rwa [latency], rfl⟩
  refine ⟨opens, _, exec_single_iff.mpr (watch_iff.mpr ⟨⟨_, step_event loop time⟩, ?_⟩)⟩
  rw [returned, if_pos ⟨⟨.inl rfl, opens.2.1⟩, rfl⟩, latency]

theorem jitter_equal (same : SameJitter f m n) (loop : m.running = true)
    (loop' : n.running = true) {r : ℕ} (positive : 0 < r) (small : r < 2 ^ 64) (now : Time)
    (time : m.clock ≤ now) (time' : n.clock ≤ now) :
    (updateFlowMdev m.proc f r now).2 = (updateFlowMdev n.proc f r now).2 := by
  obtain ⟨opens, m', run⟩ := @connect_run f m r now loop time positive small
  obtain ⟨_, n', run'⟩ := @connect_run f n r now loop' time' positive small
  exact List.singleton_inj.mp (same _ _ [] [] m' n' _ _ opens rfl run run')

theorem known_in_both (begun : Begun m) (loop : m.running = true) (loop' : n.running = true)
    (same : SameJitter f m n) {fs : FlowState} (tracked : m.proc.flows.lookup f = some fs) :
    ∃ gs, n.proc.flows.lookup f = some gs := by
  obtain ⟨known, room, small⟩ := begun f fs tracked
  obtain ⟨r, positive, inside, moved⟩ := some_deviation room small
  cases unknown : n.proc.flows.lookup f with
  | some gs => exact ⟨gs, rfl⟩
  | none =>
    have equal := jitter_equal same loop loop' positive inside (max m.clock n.clock)
      (le_max_left _ _) (le_max_right _ _)
    rw [begun_deviation r _ known tracked, new_deviation r _ unknown] at equal
    exact absurd equal moved

theorem sameJitter_symm (same : SameJitter f m n) : SameJitter f n m := by
  have connects (i : Input) : i.unordered.connects f = i.connects f := by cases i <;> rfl
  intro i j is js m' n' jitters jitters' opens suffix run run'
  have head := (List.cons.inj suffix).1
  rw [← connects i, head, connects] at opens
  exact (same j i js is n' m' jitters' jitters opens suffix.symm run' run).symm

theorem entries_of_jitter (begun : Begun m) (begun' : Begun n) (loop : m.running = true)
    (loop' : n.running = true) (same : SameJitter f m n) : entry f m = entry f n := by
  unfold entry
  cases tracked : m.proc.flows.lookup f with
  | none =>
    cases tracked' : n.proc.flows.lookup f with
    | none => rfl
    | some gs =>
      obtain ⟨fs, known⟩ := known_in_both begun' loop' loop (sameJitter_symm same) tracked'
      rw [tracked] at known
      cases known
  | some fs =>
    obtain ⟨gs, tracked'⟩ := known_in_both begun loop loop' same tracked
    obtain ⟨known, room, small⟩ := begun f fs tracked
    obtain ⟨known', room', small'⟩ := begun' f gs tracked'
    have deviations (r : ℕ) (positive : 0 < r) (inside : r < 2 ^ 64) :
        deviationAt fs.srttUs fs.mdevUs r = deviationAt gs.srttUs gs.mdevUs r := by
      have equal := jitter_equal same loop loop' positive inside (max m.clock n.clock)
        (le_max_left _ _) (le_max_right _ _)
      rwa [begun_deviation r _ known tracked, begun_deviation r _ known' tracked'] at equal
    obtain ⟨srtt, mdev⟩ := same_tracker room room' small small' deviations
    rw [tracked', Option.map_some, Option.map_some, FlowState.tracker, FlowState.tracker, srtt,
      mdev]

end Entries

/-- Two runs that go on return the same deviations for a new connection, whatever follows it,
    exactly when they hold the same entry for its key, or none. -/
theorem jitter_of_one_socket_iff {storing storing' : Bool} {clock clock' : Time}
    {ls ls' : List Input} {m n : Machine} {out out' : List Emission} {f : FlowKey}
    (run : exec step (Machine.start storing clock) ls = some (m, out))
    (run' : exec step (Machine.start storing' clock') ls' = some (n, out'))
    (loop : m.running = true) (loop' : n.running = true) :
    SameJitter f m n ↔ entry f m = entry f n := by
  constructor
  · exact entries_of_jitter (begun_run run) (begun_run run') loop loop'
  · exact jitter_of_entries (begun_run run) (begun_run run')

/- The first socket has been idle for more than connTTL when the sweep comes. -/
def expiredSocket : List Input :=
  [.event bridgePair 1 (bridgeSample .connect 40001 100),
   .event bridgePair 2 (bridgeSample .rtt 40001 900),
   .sweep 40000000000 [bridgePair.connKey] [bridgeSocket]]

theorem expired_socket_forgotten : ∃ m n out,
    exec step (Machine.start true 0) expiredSocket = some (m, out) ∧
      exec step (Machine.start true 0) [] = some (n, []) ∧ SameJitter bridgeSocket m n :=
  ⟨_, _, _, rfl, rfl,
    (@jitter_of_one_socket_iff true true 0 0 expiredSocket [] _ _ _ [] bridgeSocket rfl rfl rfl
      rfl).mpr rfl⟩

/-- The first sample of a new socket returns 225 if its predecessor has had one sample of 100
    and no sweep has come in between, and 0 if it has none. -/
theorem reused_port_inherits_deviation :
    ¬ ∀ (storing storing' : Bool) (clock clock' : Time) (ls ls' : List Input) (m n : Machine)
        (out out' : List Emission) (f : FlowKey),
      exec step (Machine.start storing clock) ls = some (m, out) →
      exec step (Machine.start storing' clock') ls' = some (n, out') →
      SameJitter f m n := by
  intro claim
  have same := claim true true 0 0 [.event bridgePair 1 (bridgeSample .connect 40001 100)] [] _ _
    _ [] bridgeSocket rfl rfl
  have equal := same (.event bridgePair 2 (bridgeSample .connect 40001 1000)) _ [] [] _ _ [225] [0]
    ⟨rfl, by decide, rfl⟩ rfl rfl rfl
  exact absurd equal (by decide)

end CollectorStats
