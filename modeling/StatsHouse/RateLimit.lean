import Mathlib.Data.UInt
import Mathlib.Order.Basic
import Mathlib.Tactic.SplitIfs

/-!
# The weight of a replica

While a replica is healthy the results of its queries are kept for a window of time. Its weight
goes up with the rate of errors and with the duration of the queries, and comes down by steps.
The step is subtracted in `uint64` before the result is compared with one, so that a weight
below the step becomes a huge one. Times are not bounded here, where `now.Sub` saturates.
-/

namespace RateLimit

/-- The two arrays by their roles: the tail array from its index on, and the head array before
its index and from it on. -/
structure DoubleRingBuffer (α : Type) where
  tail : List α := []
  committed : List α := []
  uncommited : List α := []

namespace DoubleRingBuffer

variable {α : Type} (b : DoubleRingBuffer α)

def pushUncommited (item : α) : DoubleRingBuffer α :=
  { b with uncommited := b.uncommited ++ [item] }

/-- The items that are given to `readF`. -/
def readAndCommit : List α × DoubleRingBuffer α :=
  (b.uncommited, ⟨b.tail, b.committed ++ b.uncommited, []⟩)

/-- The arrays change roles only before the loop of `popF`. -/
def swap : DoubleRingBuffer α := if b.tail = [] then { tail := b.committed } else b

/-- The items that `f` accepts, if everything is committed. -/
def popF (f : α → Bool) : Option (List α × DoubleRingBuffer α) :=
  if b.uncommited ≠ [] then none
  else some (b.swap.tail.takeWhile f, ⟨b.swap.tail.dropWhile f, b.swap.committed, []⟩)

end DoubleRingBuffer

inductive Status
  | success
  | error
  deriving DecidableEq

structure Event where
  timestamp : Int
  status : Status
  duration : Int64

structure RateLimitConfig where
  windowDuration : Int
  maxErrorRate : UInt64
  maxInflightWeight : UInt64
  recoverWeightStep : UInt64
  recoverGapDuration : Int

/-- The counters of the window. -/
structure Counts where
  successCnt : UInt64 := 0
  errorCnt : UInt64 := 0
  totalDuration : Int64 := 0

namespace Counts

variable (c : Counts)

def add (item : Event) : Counts :=
  match item.status with
  | .success => ⟨c.successCnt + 1, c.errorCnt, c.totalDuration + item.duration⟩
  | .error => ⟨c.successCnt, c.errorCnt + 1, c.totalDuration + item.duration⟩

def remove (item : Event) : Counts :=
  match item.status with
  | .success => ⟨c.successCnt - 1, c.errorCnt, c.totalDuration - item.duration⟩
  | .error => ⟨c.successCnt, c.errorCnt - 1, c.totalDuration - item.duration⟩

def cnt : UInt64 := c.successCnt + c.errorCnt

def avgDuration : Int64 := if c.cnt > 0 then c.totalDuration / c.cnt.toInt64 else 0

/-- The weight for the counters, between one and the maximum. -/
def weight (cfg : RateLimitConfig) (errorRate : UInt64) (prevAvgDuration : Int64) : UInt64 :=
  let weight := 1 + cfg.maxInflightWeight * errorRate / cfg.maxErrorRate
  let weight := if prevAvgDuration > 0 ∧ prevAvgDuration < c.avgDuration then
      let step := ((c.avgDuration - prevAvgDuration) * 100 / prevAvgDuration).toUInt64
      weight + cfg.maxInflightWeight * step / 100
    else weight
  min cfg.maxInflightWeight (max 1 weight)

lemma remove_foldl_add (x : Event) (l : List Event) :
    (l.foldl add (c.add x)).remove x = l.foldl add c := by
  induction l generalizing c with
  | nil => cases h : x.status <;> simp [add, remove, h]
  | cons y l ih =>
    have hc : (c.add x).add y = (c.add y).add x := by grind [add]
    rw [List.foldl_cons, List.foldl_cons, hc, ih]

lemma foldl_remove_append (l l' : List Event) :
    l.foldl remove ((l ++ l').foldl add c) = l'.foldl add c := by
  induction l generalizing c with
  | nil => rfl
  | cons x l ih => simp [-List.foldl_append, remove_foldl_add, ih]

end Counts

inductive Stage
  | health
  | sleep

structure HealthState where
  counts : Counts := {}
  inflightWeight : UInt64
  weightUpdatedAt : Int := 0
  events : DoubleRingBuffer Event := {}

inductive Action
  | recordEvent (event : Event)
  | recalc (now : Int)
  | reset

namespace HealthState

open DoubleRingBuffer
variable (cfg : RateLimitConfig) (s : HealthState)

/-- The end of `recalc`. -/
def setWeight (now : Int) (weight : UInt64) : Stage × HealthState :=
  if s.inflightWeight < weight then
    -- then the weight is not above the new one
    (if weight = cfg.maxInflightWeight then .sleep else .health,
      { s with weightUpdatedAt := now, inflightWeight := weight })
  else if s.inflightWeight > weight ∧ now - s.weightUpdatedAt > cfg.recoverGapDuration then
    (.health, { s with
      weightUpdatedAt := now
      inflightWeight := max 1 (s.inflightWeight - cfg.recoverWeightStep) })
  else (.health, s)

/-- The counters when everything is committed. -/
def counted : Counts := s.events.readAndCommit.1.foldl Counts.add s.counts

/-- The events that leave the window. -/
def expired (now : Int) : List Event × DoubleRingBuffer Event :=
  let events := s.events.readAndCommit.2
  (events.popF fun item => item.timestamp ≤ now - cfg.windowDuration).getD ([], events)

def recalc (now : Int) : Stage × HealthState :=
  let (popped, events) := s.expired cfg now
  let counts := popped.foldl Counts.remove s.counted
  let s' := { s with events, counts }
  if counts.cnt = 0 then (.health, s')
  else
    let errorRate := counts.errorCnt * 100 / counts.cnt
    if errorRate ≥ cfg.maxErrorRate then (.sleep, s')
    else s'.setWeight cfg now (counts.weight cfg errorRate s.counts.avgDuration)

def reset : HealthState :=
  { s with counts := {}, inflightWeight := cfg.maxInflightWeight, events := {} }

def step : Action → HealthState
  | .recordEvent event => { s with events := s.events.pushUncommited event }
  | .recalc now => (s.recalc cfg now).2
  | .reset => s.reset cfg

def run (actions : List Action) : HealthState := actions.foldl (step cfg) s

def InRange : Prop := 1 ≤ s.inflightWeight ∧ s.inflightWeight ≤ cfg.maxInflightWeight

variable {cfg s}

@[grind =] lemma max_eq (a b : UInt64) : max a b = if a ≤ b then b else a := rfl

@[grind =] lemma min_eq (a b : UInt64) : min a b = if a ≤ b then a else b := rfl

section Bounds

variable (bound : 1 ≤ cfg.maxInflightWeight)
  (allowed : cfg.recoverWeightStep ≤ 2 ∨ cfg.maxInflightWeight = -1) (h : s.InRange cfg)
include bound allowed h

/-- A weight that is lowered is at least two. -/
lemma setWeight_inRange {weight : UInt64} (hpos : 1 ≤ weight)
    (hle : weight ≤ cfg.maxInflightWeight) (now : Int) :
    (s.setWeight cfg now weight).2.InRange cfg := by
  obtain ⟨hlo, hhi⟩ := h
  unfold setWeight
  split
  · exact ⟨hpos, hle⟩
  split
  · next hl =>
    have hs : s.inflightWeight - cfg.recoverWeightStep ≤ cfg.maxInflightWeight := by
      rcases allowed with allowed | allowed
      · exact UInt64.le_trans (UInt64.sub_le (by grind)) hhi
      · rw [allowed]
        grind
    simp only [InRange]
    grind
  · exact ⟨hlo, hhi⟩

lemma recalc_inRange (now : Int) : (s.recalc cfg now).2.InRange cfg := by
  unfold recalc
  dsimp only
  split
  · exact h
  split
  · exact h
  · apply setWeight_inRange bound allowed
    · exact h
    · exact Std.le_min_iff.2 ⟨bound, by grind⟩
    · exact Std.min_le_left

lemma run_inRange (actions : List Action) : (s.run cfg actions).InRange cfg := by
  induction actions generalizing s with
  | nil => exact h
  | cons a actions ih =>
    apply ih
    cases a with
    | recordEvent event => exact h
    | recalc now => exact recalc_inRange bound allowed h now
    | reset => exact ⟨bound, UInt64.le_refl _⟩

end Bounds

/-- A success just inside the window, and a weight just below the step is lowered. -/
lemma lowered_weight (big : 3 ≤ cfg.recoverWeightStep) (bound : 1 ≤ cfg.maxInflightWeight)
    (her : 1 ≤ cfg.maxErrorRate) : ∃ actions,
      (run cfg { inflightWeight := cfg.recoverWeightStep - 1 } actions).inflightWeight = -1 := by
  let now := cfg.recoverGapDuration + 1
  use [.recordEvent ⟨now - cfg.windowDuration + 1, .success, 0⟩, .recalc now]
  have h0 : ¬0 ≥ cfg.maxErrorRate := by grind
  have hm : min cfg.maxInflightWeight (max 1 1) = 1 := by grind
  have hlo : ¬cfg.recoverWeightStep - 1 < 1 := by grind
  have hhi : cfg.recoverWeightStep - 1 > 1 := by grind
  simp [run, step, recalc, counted, expired, setWeight, Counts.weight, Counts.add, Counts.cnt,
    Counts.avgDuration, pushUncommited, readAndCommit, popF, swap, h0, hm, hlo, hhi, now]
  rfl

/-- Only a weight above one is lowered, so that steps of at most two keep it in its range. -/
theorem run_inRange_iff (big : 1 ≤ cfg.recoverWeightStep)
    (bounded : cfg.recoverWeightStep ≤ cfg.maxInflightWeight) (her : 1 ≤ cfg.maxErrorRate) :
    (∀ (s : HealthState) (actions : List Action), s.InRange cfg → (s.run cfg actions).InRange cfg)
      ↔ cfg.recoverWeightStep ≤ 2 ∨ cfg.maxInflightWeight = -1 := by
  have bound := UInt64.le_trans big bounded
  constructor
  · intro h
    by_contra! hn
    have h3 : 3 ≤ cfg.recoverWeightStep := by grind
    obtain ⟨actions, ha⟩ := lowered_weight h3 bound her
    have hin := (h ⟨{}, cfg.recoverWeightStep - 1, 0, {}⟩ actions ⟨by grind, by grind⟩).2
    rw [ha] at hin
    grind
  · intro allowed s actions h
    exact run_inRange bound allowed h actions

theorem run_inRange_step_one :
    let cfg : RateLimitConfig := ⟨60, 50, 10, 1, 5⟩
    1 ≤ cfg.maxErrorRate ∧ ∀ (s : HealthState) (actions : List Action),
      s.InRange cfg → (s.run cfg actions).InRange cfg :=
  ⟨by decide, (run_inRange_iff (by decide) (by decide) (by decide)).2 (.inl (by decide))⟩

/-- From two, by a step of five. -/
theorem lowered_below_zero :
    let s : HealthState := { inflightWeight := 2 }
    let cfg : RateLimitConfig := ⟨60, 50, 10, 5, 0⟩
    s.InRange cfg ∧
      ¬(s.run cfg [.recordEvent ⟨1, .success, 0⟩, .recalc 1]).InRange cfg := by
  unfold InRange
  decide

/-- The events since the last reset. -/
def recorded (l : List Event) : Action → List Event
  | .recordEvent event => l ++ [event]
  | .recalc _ => l
  | .reset => []

def held (b : DoubleRingBuffer Event) : List Event := b.tail ++ b.committed

/-- The buffer holds the last of the events `l` and the counters count the committed ones. -/
def Tracks (s : HealthState) (l : List Event) : Prop :=
  held s.events ++ s.events.uncommited <:+ l ∧ s.counts = (held s.events).foldl Counts.add {}

variable (cfg s) in
/-- Events leave the buffer in their order. -/
lemma expired_append (now : Int) :
    (s.expired cfg now).2.uncommited = [] ∧ (s.expired cfg now).1 ++ held (s.expired cfg now).2 =
      held s.events ++ s.events.uncommited := by
  by_cases ht : s.events.tail = [] <;> simp [expired, popF, readAndCommit, swap, held, ht]
  rw [← List.append_assoc, List.takeWhile_append_dropWhile]

variable (cfg s) in
lemma recalc_window (now : Int) : (s.recalc cfg now).2.events = (s.expired cfg now).2 ∧
    (s.recalc cfg now).2.counts = (s.expired cfg now).1.foldl Counts.remove s.counted := by
  simp only [recalc, setWeight]
  split_ifs <;> exact ⟨rfl, rfl⟩

lemma Tracks.step {l : List Event} (h : s.Tracks l) (a : Action) :
    (s.step cfg a).Tracks (recorded l a) := by
  obtain ⟨hl, hc⟩ := h
  cases a with
  | recordEvent event =>
    obtain ⟨old, rfl⟩ := hl
    exact ⟨⟨old, by simp [HealthState.step, pushUncommited, recorded, held]⟩, hc⟩
  | recalc now =>
    obtain ⟨he, hn⟩ := recalc_window cfg s now
    obtain ⟨hu, hp⟩ := expired_append cfg s now
    rw [Tracks, HealthState.step, hn, he, hu, List.append_nil, counted, hc, ← List.foldl_append,
      readAndCommit, ← hp, Counts.foldl_remove_append]
    exact ⟨.trans ⟨_, hp⟩ hl, rfl⟩
  | reset => exact ⟨List.nil_suffix, rfl⟩

/-- After any run the buffer holds the last of the events recorded since the last reset, and the
counters count exactly those of them that are committed. -/
theorem run_tracks (cfg : RateLimitConfig) (weight : UInt64) (actions : List Action) :
    (run cfg { inflightWeight := weight } actions).Tracks (actions.foldl recorded []) := by
  induction actions using List.reverseRecOn with
  | nil => exact ⟨List.nil_suffix, rfl⟩
  | append_singleton actions a ih =>
    rw [run, List.foldl_append, List.foldl_append]
    exact ih.step a

end HealthState
end RateLimit
