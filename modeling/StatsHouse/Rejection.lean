import StatsHouse.Transfer

/-!
# Received items that are rejected

`MergeWithTL2` checks the counter before it changes anything, but the numbers of the value
and the centroids only after the counter and the uniques have been added. The error that
leaves the receiver as it was is therefore the one of the counter.
-/

namespace Rejection

open Sampling ChUniqueSet TLMultiValue MultiValue Transfer Option
variable {t : TLMultiValue} (s : MultiValue)

/-- What a receiver knows: count, values, unique items and digest. -/
structure Unchanged (s s' : MultiValue) : Prop where
  count : s'.value.counter = s.value.counter
  valueSet : s'.value.valueSet = s.value.valueSet
  valueMin : s'.value.valueMin = s.value.valueMin
  valueMax : s'.value.valueMax = s.value.valueMax
  valueSum : s'.value.valueSum = s.value.valueSum
  valueSumSquare : s'.value.valueSumSquare = s.value.valueSumSquare
  uniques : stored s'.hll = stored s.hll
  digest : s'.valueTDigest = s.valueTDigest

lemma Unchanged.refl : Unchanged s s := ⟨rfl, rfl, rfl, rfl, rfl, rfl, rfl, rfl⟩

/-- A centroid without weight is skipped before it is checked. -/
def CentroidAccepted (c : ℚ × ℚ) : Prop :=
  c.2 = 0 ∨ validateCounter c.2 = none ∧ validateValue c.1 = none

/-- Nothing behind the counter is rejected. -/
def BodyAccepted (t : TLMultiValue) : Prop :=
  t.isSetValueSet = false ∨ validateValue t.valueMin = none ∧ validateValue t.valueMax = none ∧
      validateValue t.valueSum = none ∧ ∀ c ∈ t.centroids, CentroidAccepted c

/-- The receiver stops at the counter: there is none, or it is rejected. -/
def StopsAtCounter (t : TLMultiValue) : Prop :=
  t.restoreCounter.counter = 0 ∨ validateCounter t.restoreCounter.counter ≠ none

lemma mergeCentroids_accepted_iff (d cs : List (ℚ × ℚ)) :
    (mergeCentroids d cs).2 = none ↔ ∀ c ∈ cs, CentroidAccepted c := by
  induction cs generalizing d with
  | nil => simp [mergeCentroids]
  | cons c cs ih =>
    rw [List.forall_mem_cons]
    by_cases hz : c.2 = 0
    · rw [mergeCentroids, if_pos hz, ih]
      exact ⟨fun h => ⟨.inl hz, h⟩, fun h => h.2⟩
    · rw [mergeCentroids, if_neg hz]
      cases hc : validateCounter c.2 with
      | some e => simp [CentroidAccepted, hz, hc]
      | none =>
        cases hv : validateValue c.1 with
        | some e => simp [CentroidAccepted, hz, hv]
        | none => simp [CentroidAccepted, hc, hv, ih]

lemma mergeDigest_accepted_iff (t : TLMultiValue) :
    (s.mergeDigest t).2 = none ↔ ∀ c ∈ t.centroids, CentroidAccepted c := by
  rw [← mergeCentroids_accepted_iff (s.valueTDigest.getD [])]
  cases hc : t.centroids with
  | nil =>
    simp only [mergeDigest, hc, List.length_nil, ne_eq, not_true_eq_false, if_false,
      mergeCentroids, iff_true]
    split <;> rfl
  | cons c cs =>
    simp only [mergeDigest, hc, List.length_cons, ne_eq, Nat.add_eq_zero_iff, one_ne_zero,
      and_false, not_false_eq_true, if_true]
    cases (mergeCentroids (s.valueTDigest.getD []) (c :: cs)).2 with
    | some e => rfl
    | none =>
      simp only [iff_true]
      split <;> rfl

lemma mergeValue_accepted_iff (t : TLMultiValue) : (s.mergeValue t).2 = none ↔ BodyAccepted t := by
  cases hs : t.isSetValueSet with
  | false => simp [mergeValue, BodyAccepted, hs]
  | true =>
    simp only [mergeValue, BodyAccepted, hs, Bool.true_eq_false, if_false, false_or]
    cases hm : validateValue t.valueMin with
    | some e => simp
    | none =>
      cases hx : validateValue t.valueMax with
      | some e => simp
      | none =>
        cases ha : validateValue t.valueSum with
        | some e => simp
        | none => simp [mergeDigest_accepted_iff]

/-- The value is added behind the counter and does not touch it. -/
lemma mergeValue_counter (t : TLMultiValue) :
    (s.mergeValue t).1.value.counter = s.value.counter := by
  rw [mergeValue]
  split
  · rfl
  split
  · rfl
  split
  · rfl
  split
  · rfl
  · rw [mergeDigest_value]
    rfl

lemma mergeUniques_counter {s s' : MultiValue} (h : s.mergeUniques t = some s') :
    s'.value.counter = s.value.counter := by
  rw [mergeUniques] at h
  split at h
  · obtain ⟨d, -, rfl⟩ := map_eq_some_iff.1 h
    rfl
  · exact congrArg (fun s => s.value.counter) (some.inj h).symm

/-- A positive count is never lost, whatever the counter was before. -/
lemma addCounterHost_ne (rng : Rng) (s : MultiValue) {count : ℚ} (hpos : 0 < count)
    (hostTag : TagUnion) :
    (s.addCounterHost rng count hostTag).1.value.counter ≠ s.value.counter := by
  have had : (s.addCounterHost rng count hostTag).1.value.counter = count ∧ s.value.counter ≤ 0 ∨
      (s.addCounterHost rng count hostTag).1.value.counter = s.value.counter + count := by
    change (ItemCounter.addHost rng s.value.toItemCounter count hostTag).1.counter = count ∧ _ ∨
      (ItemCounter.addHost rng s.value.toItemCounter count hostTag).1.counter = _
    rw [ItemCounter.addHost, if_neg (not_le.2 hpos)]
    split
    · rename_i hle
      exact .inl ⟨rfl, hle⟩
    · split <;> exact .inr rfl
  rcases had with ⟨heq, hle⟩ | heq
  · rw [heq]
    exact ne_of_gt (hle.trans_lt hpos)
  · rw [heq]
    exact ne_of_gt (lt_add_of_pos_right _ hpos)

lemma bodyAccepted_restoreHosts (t : TLMultiValue) (g : TagUnion) :
    BodyAccepted (t.restoreHosts g) ↔ BodyAccepted t := by
  have ha := restoreHosts_agree t g
  have hs : (t.restoreHosts g).isSetValueSet = t.isSetValueSet := ha.marks 2 (by decide)
  obtain ⟨hm, hb, -⟩ := ha.values (by decide)
  rw [BodyAccepted, BodyAccepted, hs, ha.valueMin (by decide), hm, hb,
    ha.centroids (by decide)]

lemma bodyAccepted_restoreCounter (t : TLMultiValue) :
    BodyAccepted t.restoreCounter ↔ BodyAccepted t := by
  rw [restoreCounter]
  split <;> exact .rfl

variable {e : Option IngestionError}

/-- What the call does once it has accepted the counter. -/
lemma mergeWithTL2_counted {rng rng' : Rng} {s s' : MultiValue} {g : TagUnion}
    (h : s.mergeWithTL2 rng t g = some (s', rng', e))
    (goes : ¬ StopsAtCounter t) :
    s'.value.counter ≠ s.value.counter ∧ (e = none ↔ BodyAccepted t) := by
  rw [StopsAtCounter, not_or, not_ne_iff] at goes
  obtain ⟨hne, hv⟩ := goes
  have hp := lt_of_le_of_ne (validateCounter_eq_none.1 hv).1 (Ne.symm hne)
  have hr := (restoreHosts_agree t.restoreCounter g).counter (by decide)
  simp only [mergeWithTL2, if_neg hne, hv] at h
  obtain ⟨s1, hu, hl⟩ := map_eq_some_iff.1 h
  have hc := mergeUniques_counter hu
  obtain ⟨rfl, -, rfl⟩ := hl
  constructor
  · rw [mergeValue_counter, hc]
    exact addCounterHost_ne rng s (hr.symm ▸ hp) _
  · rw [mergeValue_accepted_iff, bodyAccepted_restoreHosts, bodyAccepted_restoreCounter]

lemma mergeWithTL2_stops {rng rng' : Rng} {s s' : MultiValue} {g : TagUnion}
    (h : s.mergeWithTL2 rng t g = some (s', rng', e))
    (stops : StopsAtCounter t) : s' = s := by
  rw [mergeWithTL2] at h
  by_cases hz : t.restoreCounter.counter = 0
  · rw [if_pos hz] at h
    simp only [some.injEq, Prod.mk.injEq] at h
    exact h.1.symm
  · rw [if_neg hz] at h
    cases hv : validateCounter t.restoreCounter.counter with
    | none => exact absurd hv (stops.resolve_left hz)
    | some e' =>
      simp only [hv, some.injEq, Prod.mk.injEq] at h
      exact h.1.symm

/-- An error leaves the receiver as it was exactly if no later check than the one of the
counter can fail. -/
theorem mergeWithTL2_atomic_iff {rng rng' : Rng} {s s' : MultiValue} {t : TLMultiValue}
    {g : TagUnion}
    (h : s.mergeWithTL2 rng t g = some (s', rng', e)) :
    (e ≠ none → Unchanged s s') ↔ StopsAtCounter t ∨ BodyAccepted t := by
  by_cases stops : StopsAtCounter t
  · obtain rfl := mergeWithTL2_stops h stops
    exact ⟨fun _ => .inl stops, fun _ _ => Unchanged.refl s'⟩
  · obtain ⟨hc, ha⟩ := mergeWithTL2_counted h stops
    rw [← ha, or_iff_right stops]
    constructor
    · intro hu
      by_contra her
      exact hc (hu her).count
    · intro hn her
      exact absurd hn her

/-- One event with the value `2 ^ 129`. -/
def hugeValue : TLMultiValue :=
  (({} : TLMultiValue).setCounterEq1.setValueSet).setValueMin (2 ^ 129)

/-- The count of the rejected item stays. -/
theorem mergeWithTL2_atomic_counterexample :
    ¬ ∀ s' rng' e, mergeWithTL2 ⟨fun _ => 0⟩ {} hugeValue {} = some (s', rng', e) →
      e ≠ none → Unchanged {} s' := by
  intro atomic
  have hr : (mergeWithTL2 ⟨fun _ => 0⟩ {} hugeValue {}).map
      (fun r => (r.1.value.counter, r.2.2)) = some (1, some .tooBigValue) := by
    decide +kernel
  obtain ⟨⟨s', rng', e⟩, hm, hl⟩ := map_eq_some_iff.1 hr
  simp only [Prod.mk.injEq] at hl
  obtain ⟨hc, rfl⟩ := hl
  have hs := (atomic s' rng' _ hm (by simp)).count
  rw [hc] at hs
  exact absurd hs (by decide)

/-- One event less than none. -/
def negativeCounter : TLMultiValue := ({} : TLMultiValue).setCounter (-1)

def twoEvents : MultiValue := { value := { counter := 2 } }

theorem mergeWithTL2_atomic_iff_negative :
    mergeWithTL2 ⟨fun _ => 0⟩ twoEvents negativeCounter {} =
        some (twoEvents, ⟨fun _ => 0⟩, some .negativeCounter) ∧
      (some IngestionError.negativeCounter ≠ none → Unchanged twoEvents twoEvents) := by
  have hr : mergeWithTL2 ⟨fun _ => 0⟩ twoEvents negativeCounter {} =
      some (twoEvents, ⟨fun _ => 0⟩, some .negativeCounter) := rfl
  refine ⟨hr, (mergeWithTL2_atomic_iff hr).2 (.inl (.inr ?_))⟩
  decide

end Rejection
