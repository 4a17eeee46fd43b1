import StatsHouse.ChUniqueMerge
import StatsHouse.ItemValue

/-!
# Values with percentiles and uniques

A digest is the list of the centroids given to it, before any compression. Insertion into
the set of uniques and merging of two sets may loop on a malformed table, so whatever does
that returns an option.

Everything that is ever added to a value is an event, and an event adds to the totals.
-/

open Sampling ChUniqueSet ChUniqueMerge ItemValue

structure MultiValue where
  value : ItemValue := {}
  valueTDigest : Option (List (ℚ × ℚ)) := none
  hll : ChUnique := ChUnique.zeroValue

namespace MultiValue

variable {s : MultiValue} {count : ℚ} (rng : Rng)

/-- The digest is the list of the centroids given to it, as the library's compression is not
modelled; a centroid without weight is ignored. -/
def tdigestAdd (d : List (ℚ × ℚ)) (c : ℚ × ℚ) : List (ℚ × ℚ) :=
  if c.2 ≤ 0 then d else d ++ [c]

def addCounterHost (rng : Rng) (s : MultiValue) (count : ℚ) (hostTag : TagUnion) :
    MultiValue × Rng :=
  let (v, rng) := s.value.addCounterHost rng count hostTag
  ({ s with value := v }, rng)

def addValueCounterHost (rng : Rng) (s : MultiValue) (value count : ℚ) (hostTag : TagUnion) :
    MultiValue × Rng :=
  let (v, rng) := s.value.addValueCounterHost rng value count hostTag
  ({ s with value := v }, rng)

/-- The end of `addValueCounterHostPercentile` and `applyValues`: the digest is created when
the second distinct value is seen, and then takes the value seen before as one centroid. -/
def addCentroids (s : MultiValue) (was : ItemValue) (samples : List (ℚ × ℚ)) : MultiValue :=
  if s.value.valueMin = s.value.valueMax then s
  else
    let d := match s.valueTDigest with
      | some d => d
      | none => if was.valueSet then tdigestAdd [] (was.valueMax, was.counter) else []
    { s with valueTDigest := some (samples.foldl tdigestAdd d) }

def addValueCounterHostPercentile (rng : Rng) (s : MultiValue) (value count : ℚ)
    (hostTag : TagUnion) : MultiValue × Rng :=
  let (v, rng) := s.value.addValueCounterHost rng value count hostTag
  (addCentroids { s with value := v } s.value [(value, count)], rng)

/-- `values` count once each. -/
def samples (histogram : List (ℚ × ℚ)) (values : List ℚ) : List (ℚ × ℚ) :=
  values.map (fun fv => (fv, 1)) ++ histogram

/-- The samples as an item of the weight `count`. -/
def spread (samples : List (ℚ × ℚ)) (count totalCount : ℚ) (hostTag : TagUnion) : ItemValue :=
  ((simpleItemCounter count hostTag).addOnlyValues samples hostTag).rescale count totalCount

def mult (count totalCount : ℚ) : ℚ := if count ≠ totalCount then count / totalCount else 1

def centroids (samples : List (ℚ × ℚ)) (count totalCount : ℚ) : List (ℚ × ℚ) :=
  samples.map fun s => (s.1, mult count totalCount * s.2)

def applyValues (rng : Rng) (s : MultiValue) (histogram : List (ℚ × ℚ)) (values : List ℚ)
    (count totalCount : ℚ) (hostTag : TagUnion) (hasPercentiles : Bool) : MultiValue × Rng :=
  if totalCount ≤ 0 then (s, rng)
  else
    let tmp := spread (samples histogram values) count totalCount hostTag
    let (v, rng) := s.value.merge rng tmp
    let s' := { s with value := v }
    if hasPercentiles = false then (s', rng)
    else
      (addCentroids s' s.value (centroids (samples histogram values) count totalCount), rng)

def applyValuesLegacy (rng : Rng) (s : MultiValue) (histogram : List (ℚ × ℚ))
    (values : List ℚ) (count totalCount : ℚ) (hostTag : TagUnion) (hasPercentiles : Bool) :
    MultiValue × Rng :=
  if totalCount ≤ 0 then (s, rng)
  else
    let tmp := spread (samples histogram values) count totalCount hostTag
    let (v, rng) := s.value.merge rng tmp
    let s' := { s with value := v }
    if hasPercentiles = false then (s', rng)
    else
      ({ s' with
        valueTDigest := some ((centroids (samples histogram values) count totalCount).foldl
          tdigestAdd (s.valueTDigest.getD [])) }, rng)

/-- The hashes are also values. -/
def hashSamples (hashes : List (BitVec 64)) : List (ℚ × ℚ) :=
  hashes.map fun hash => ((hash.toInt : ℚ), 1)

def applyUnique (rng : Rng) (s : MultiValue) (hashes : List (BitVec 64)) (count : ℚ)
    (hostTag : TagUnion) : Option (MultiValue × Rng) :=
  let totalCount : ℚ := hashes.length
  if totalCount ≤ 0 then some (s, rng)
  else
    (insertAll s.hll hashes).map fun hll =>
      let (v, rng) := s.value.merge rng (spread (hashSamples hashes) count totalCount hostTag)
      ({ s with value := v, hll := hll }, rng)

def mergeTDigest : Option (List (ℚ × ℚ)) → Option (List (ℚ × ℚ)) → Option (List (ℚ × ℚ))
  | d, none => d
  | none, some d2 => some d2
  | some d, some d2 => some (d2.foldl tdigestAdd d)

def merge (rng : Rng) (s s2 : MultiValue) : Option (MultiValue × Rng) :=
  (s.hll.merge s2.hll).map fun hll =>
    let (v, rng) := s.value.merge rng s2.value
    (⟨v, mergeTDigest s.valueTDigest s2.valueTDigest, hll⟩, rng)

/-- What is added to a value. -/
inductive Event where
  | counter (count : ℚ)
  | value (value count : ℚ)
  | percentile (value count : ℚ)
  | values (histogram : List (ℚ × ℚ)) (values : List ℚ) (count totalCount : ℚ)
      (hasPercentiles : Bool)
  | valuesLegacy (histogram : List (ℚ × ℚ)) (values : List ℚ) (count totalCount : ℚ)
      (hasPercentiles : Bool)
  | unique (hashes : List (BitVec 64)) (count : ℚ)
  | merge (other : MultiValue)

def apply (rng : Rng) (s : MultiValue) (hostTag : TagUnion) : Event → Option (MultiValue × Rng)
  | .counter count => some (s.addCounterHost rng count hostTag)
  | .value value count => some (s.addValueCounterHost rng value count hostTag)
  | .percentile value count => some (s.addValueCounterHostPercentile rng value count hostTag)
  | .values histogram values count totalCount hasPercentiles =>
    some (s.applyValues rng histogram values count totalCount hostTag hasPercentiles)
  | .valuesLegacy histogram values count totalCount hasPercentiles =>
    some (s.applyValuesLegacy rng histogram values count totalCount hostTag hasPercentiles)
  | .unique hashes count => s.applyUnique rng hashes count hostTag
  | .merge other => s.merge rng other

structure Good (s : MultiValue) : Prop where
  sane : s.value.Sane
  rest : Rest s.hll

lemma good_zero : Good {} := ⟨sane_zero, .inl rfl⟩

/-- Samples whose weights, `totalCount` in sum, are brought to the sum `count`. -/
def spreadTotals (samples : List (ℚ × ℚ)) (count totalCount : ℚ) : Totals :=
  if totalCount ≤ 0 then 0 else weight count + (spots samples).scale (count / totalCount)

namespace Event

def added : Event → Totals
  | .counter count => weight count
  | .value x count => weight count + spot x count
  | .percentile x count => weight count + spot x count
  | .values histogram xs count totalCount _ =>
    spreadTotals (samples histogram xs) count totalCount
  | .valuesLegacy histogram xs count totalCount _ =>
    spreadTotals (samples histogram xs) count totalCount
  | .unique hashes count => spreadTotals (hashSamples hashes) count hashes.length
  | .merge other => other.value.totals

/-- Counts are not negative, and a merged value is itself well formed. -/
def Proper : Event → Prop
  | .counter count => 0 ≤ count
  | .value _ count => 0 ≤ count
  | .percentile _ count => 0 ≤ count
  | .values _ _ count _ _ => 0 ≤ count
  | .valuesLegacy _ _ count _ _ => 0 ≤ count
  | .unique _ count => 0 ≤ count
  | .merge other => Good other

end Event

lemma spread_totals (samples : List (ℚ × ℚ)) (count : ℚ) {totalCount : ℚ}
    (ht : 0 < totalCount) (hostTag : TagUnion) :
    (spread samples count totalCount hostTag).totals = spreadTotals samples count totalCount := by
  have hs : (simpleItemCounter count hostTag).totals = weight count := rfl
  rw [spread, rescale_totals _ _ _ ht, addOnlyValues_totals, hs,
    scale_weight_add, spreadTotals, if_neg (not_le.2 ht)]

lemma spread_sane (samples : List (ℚ × ℚ)) (hc : 0 ≤ count) (totalCount : ℚ) (hostTag : TagUnion) :
    (spread samples count totalCount hostTag).Sane :=
  rescale_sane (addOnlyValues_sane ⟨hc, fun _ => ⟨rfl, rfl⟩⟩ samples hostTag) count totalCount

lemma addCentroids_value (s : MultiValue) (was : ItemValue) (samples : List (ℚ × ℚ)) :
    (s.addCentroids was samples).value = s.value ∧ (s.addCentroids was samples).hll = s.hll := by
  rw [addCentroids]
  split <;> exact ⟨rfl, rfl⟩

lemma insertAll_keeps_rest {start : ChUnique} (rest : Rest start) (vals : List (BitVec 64)) :
    ∃ ch, insertAll start vals = some ch ∧ Rest ch := by
  obtain ⟨ch, hn, hr, -⟩ := insertHash_rest_refines.foldlM rest (vals.map ChUnique.uintHash32)
  exact ⟨ch, (insertAll_eq start vals).trans hn, hr⟩

/-- A step that adds the totals `t`, and whose result is well formed. -/
def Adds (s s' : MultiValue) (t : Totals) : Prop := Good s' ∧ s'.value.totals = s.value.totals + t

section

variable (good : Good s)
include good

lemma adds_value {s' : MultiValue} {value : ℚ} (hc : 0 ≤ count) (hostTag : TagUnion)
    (hvalue : s'.value = (s.value.addValueCounterHost rng value count hostTag).1)
    (sameHll : s'.hll = s.hll) : Adds s s' (weight count + spot value count) := by
  have hs := addCounterHost_sane rng good.sane hc hostTag
  constructor
  · constructor
    · rw [hvalue]
      exact addOnlyValue_sane hs.counter_nonneg value count hostTag
    · rw [sameHll]
      exact good.rest
  · rw [hvalue, ← add_assoc, ← addCounterHost_totals rng good.sane hc hostTag]
    exact addOnlyValue_totals _ value count hostTag

lemma adds_merge {s' : MultiValue} {v : ItemValue} (sane : v.Sane)
    (hvalue : s'.value = (s.value.merge rng v).1) (hr : Rest s'.hll) : Adds s s' v.totals := by
  constructor
  · constructor
    · rw [hvalue]
      exact merge_sane rng good.sane sane
    · exact hr
  · rw [hvalue]
    exact merge_totals rng good.sane sane

lemma adds_nothing : Adds s s 0 := ⟨good, (add_zero _).symm⟩

/-- The spread values are merged, whatever becomes of the digest. -/
lemma adds_spread {s' : MultiValue} (l : List (ℚ × ℚ)) (hc : 0 ≤ count) (hostTag : TagUnion)
    (hs : if totalCount ≤ 0 then s' = s else s'.hll = s.hll ∧
      s'.value = (s.value.merge rng (spread l count totalCount hostTag)).1) :
    Adds s s' (spreadTotals l count totalCount) := by
  split_ifs at hs with ht
  · rw [hs, spreadTotals, if_pos ht]
    exact adds_nothing good
  · rw [← spread_totals _ count (not_le.1 ht) hostTag]
    exact adds_merge rng good (spread_sane l hc totalCount hostTag) hs.2 (hs.1 ▸ good.rest)

lemma applyUnique_adds (hashes : List (BitVec 64)) (hc : 0 ≤ count) (hostTag : TagUnion) :
    ∃ s' rng', s.applyUnique rng hashes count hostTag = some (s', rng') ∧
      Adds s s' (spreadTotals (hashSamples hashes) count hashes.length) := by
  by_cases ht : (hashes.length : ℚ) ≤ 0
  · simp only [applyUnique, spreadTotals, if_pos ht]
    exact ⟨s, rng, rfl, adds_nothing good⟩
  · obtain ⟨hll, hin, hr⟩ := insertAll_keeps_rest good.rest hashes
    simp only [applyUnique, if_neg ht, hin, Option.map_some]
    rw [← spread_totals _ count (not_le.1 ht) hostTag]
    exact ⟨_, _, rfl, adds_merge rng good (spread_sane _ hc _ hostTag) rfl hr⟩

lemma merge_adds {s2 : MultiValue} (good2 : Good s2) :
    ∃ s' rng', s.merge rng s2 = some (s', rng') ∧ Adds s s' s2.value.totals := by
  obtain ⟨hll, hm, hr, -⟩ := merge_spec good.rest good2.rest
  simp only [merge, hm, Option.map_some]
  exact ⟨_, _, rfl, adds_merge rng good good2.sane rfl hr⟩

variable (histogram : List (ℚ × ℚ)) (values : List ℚ) (hc : 0 ≤ count) (totalCount : ℚ)
  (hostTag : TagUnion) (hasPercentiles : Bool)
include hc

lemma applyValues_adds :
    Adds s (s.applyValues rng histogram values count totalCount hostTag hasPercentiles).1
      (spreadTotals (samples histogram values) count totalCount) := by
  apply adds_spread rng good _ hc hostTag
  rw [applyValues]
  split_ifs <;> simp [addCentroids_value]

lemma applyValuesLegacy_adds :
    Adds s (s.applyValuesLegacy rng histogram values count totalCount hostTag hasPercentiles).1
      (spreadTotals (samples histogram values) count totalCount) := by
  apply adds_spread rng good _ hc hostTag
  rw [applyValuesLegacy]
  split_ifs <;> simp

end

lemma merge_fields {rng rng' : Rng} {s2 s' : MultiValue} (h : s.merge rng s2 = some (s', rng')) :
    s'.value = (s.value.merge rng s2.value).1 ∧
      s'.valueTDigest = mergeTDigest s.valueTDigest s2.valueTDigest := by
  obtain ⟨hll, -, heq⟩ := Option.map_eq_some_iff.1 h
  have hs : (⟨(s.value.merge rng s2.value).1, mergeTDigest s.valueTDigest s2.valueTDigest,
    hll⟩ : MultiValue) = s' := congrArg Prod.fst heq
  rw [← hs]
  exact ⟨rfl, rfl⟩

/-- Every event returns and adds what it carries. -/
theorem apply_adds (good : Good s) (hostTag : TagUnion) {e : Event} (proper : e.Proper) :
    ∃ s' rng', s.apply rng hostTag e = some (s', rng') ∧ Adds s s' e.added := by
  cases e with
  | counter count =>
    have hs := addCounterHost_sane rng good.sane proper hostTag
    have ht := addCounterHost_totals rng good.sane proper hostTag
    exact ⟨(s.addCounterHost rng count hostTag).1, _, rfl, ⟨hs, good.rest⟩, ht⟩
  | value x count =>
    exact ⟨(s.addValueCounterHost rng x count hostTag).1, _, rfl,
      adds_value rng good proper hostTag rfl rfl⟩
  | percentile x count =>
    obtain ⟨hv, hh⟩ := addCentroids_value
      { s with value := (s.value.addValueCounterHost rng x count hostTag).1 } s.value
      [(x, count)]
    exact ⟨(s.addValueCounterHostPercentile rng x count hostTag).1, _, rfl,
      adds_value rng good proper hostTag hv hh⟩
  | values histogram xs count totalCount hasPercentiles =>
    exact ⟨(s.applyValues rng histogram xs count totalCount hostTag hasPercentiles).1, _, rfl,
      applyValues_adds rng good histogram xs proper totalCount hostTag hasPercentiles⟩
  | valuesLegacy histogram xs count totalCount hasPercentiles =>
    exact ⟨(s.applyValuesLegacy rng histogram xs count totalCount hostTag hasPercentiles).1, _,
      rfl, applyValuesLegacy_adds rng good histogram xs proper totalCount hostTag hasPercentiles⟩
  | unique hashes count => exact applyUnique_adds rng good hashes proper hostTag
  | merge other => exact merge_adds rng good proper

end MultiValue
