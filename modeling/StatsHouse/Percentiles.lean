import StatsHouse.MultiValue

/-!
# Percentile digests

A value of a percentile metric has no digest until it has seen two distinct values. Until
then its only centroid is implicit: the value with the whole count as its weight. Additions
turn the implicit centroid into an explicit one when they create the digest. `Merge` does
not, so it is right only when both sides are in the same form or one of them has no value.
-/

open Sampling List MultiValue Or ItemValue

namespace Percentiles

variable {histogram l m : List (ℚ × ℚ)} {s : MultiValue} {x : ℚ} {l2 : List (ℚ × ℚ)}
  {s' s1 s2 : MultiValue}

/-- The centroids that are sent for a value. -/
def represented (s : MultiValue) : List (ℚ × ℚ) :=
  match s.valueTDigest with
  | some d => d
  | none => if s.value.valueSet then [(s.value.valueMin, s.value.counter)] else []

/-- The weight of all samples, as the callers of `ApplyValues` compute it. -/
def totalCount (histogram : List (ℚ × ℚ)) (values : List ℚ) : ℚ :=
  values.length + (histogram.map Prod.snd).sum

/-- A way to build a value. The second value of a merge is not used again: the source shares its
digest. -/
inductive Build where
  | empty
  | percentile (b : Build) (value count : ℚ) (hostTag : TagUnion)
  | values (b : Build) (histogram : List (ℚ × ℚ)) (values : List ℚ) (count : ℚ)
      (hostTag : TagUnion)
  | merge (b b2 : Build)

namespace Build

def build (rng : Rng) : Build → Option (MultiValue × Rng)
  | empty => some ({}, rng)
  | percentile b x count hostTag =>
    (b.build rng).map fun r => r.1.addValueCounterHostPercentile r.2 x count hostTag
  | values b histogram xs count hostTag =>
    (b.build rng).map fun r =>
      r.1.applyValues r.2 histogram xs count (totalCount histogram xs) hostTag true
  | merge b b2 =>
    (b.build rng).bind fun r => (b2.build r.2).bind fun r2 => r.1.merge r2.2 r2.1

/-- The values added, with their weights. The count of a list of values is divided among
them. -/
def samples : Build → List (ℚ × ℚ)
  | empty => []
  | percentile b x count _ => b.samples ++ [(x, count)]
  | values b histogram xs count _ =>
    if totalCount histogram xs ≤ 0 then b.samples
    else
      b.samples ++ MultiValue.centroids (MultiValue.samples histogram xs) count
        (totalCount histogram xs)
  | merge b b2 => b.samples ++ b2.samples

/-- The count of the value events. -/
def count : Build → ℚ
  | empty => 0
  | percentile b _ count _ => b.count + count
  | values b histogram xs count _ =>
    if totalCount histogram xs ≤ 0 then b.count else b.count + count
  | merge b b2 => b.count + b2.count

def Proper : Build → Prop
  | empty => True
  | percentile b _ count _ => b.Proper ∧ 0 ≤ count
  | values b histogram _ count _ => b.Proper ∧ 0 ≤ count ∧ ∀ c ∈ histogram, 0 ≤ c.2
  | merge b b2 => b.Proper ∧ b2.Proper

end Build

/-- Two values that `Merge` puts together rightly: one has no samples, or both have seen two
distinct values, or both have seen the same single one. -/
def Mergeable (l l2 : List (ℚ × ℚ)) : Prop :=
  l = [] ∨ l2 = [] ∨ (Varied l ∧ Varied l2) ∨ ¬ Varied (l ++ l2)

/-- Every merge puts together what it may. -/
def Build.Mergeable : Build → Prop
  | .empty => True
  | .percentile b _ _ _ => b.Mergeable
  | .values b _ _ _ _ => b.Mergeable
  | .merge b b2 => b.Mergeable ∧ b2.Mergeable ∧ Percentiles.Mergeable b.samples b2.samples

/-- What a value without wrong merges has made of the samples added to it. -/
inductive Holds (s : MultiValue) (l : List (ℚ × ℚ)) : Prop
  | unset (samples : l = []) (digest : s.valueTDigest = none) (set : s.value.valueSet = false)
      (count : s.value.counter = 0)
  | single (x : ℚ) (some_sample : l ≠ []) (same : ∀ c ∈ l, c.1 = x)
      (digest : s.valueTDigest = none) (set : s.value.valueSet = true)
      (min_eq : s.value.valueMin = x) (max_eq : s.value.valueMax = x)
      (count : s.value.counter = mass 1 l)
  | many (d : List (ℚ × ℚ)) (varied : Varied l) (digest : s.valueTDigest = some d)
      (set : s.value.valueSet = true) (min_lt : s.value.valueMin < s.value.valueMax)
      (nonneg : ∀ c ∈ d, 0 ≤ c.2) (weights : SameWeights d l)

lemma Holds.represented (h : Holds s l) : SameWeights (represented s) l := by
  intro f
  cases h with
  | unset samples digest set count => simp [Percentiles.represented, digest, set, samples]
  | single x some_sample same digest set min_eq max_eq count =>
    rw [mass_of_same same f]
    simp [Percentiles.represented, digest, set, min_eq, count, mass_cons, mass_nil]
  | many d varied digest set min_lt nonneg weights =>
    simpa [Percentiles.represented, digest] using weights f

lemma mass_tdigestAdd (f : ℚ → ℚ) (d : List (ℚ × ℚ)) {c : ℚ × ℚ} (hc : 0 ≤ c.2) :
    mass f (tdigestAdd d c) = mass f d + f c.1 * c.2 := by
  rw [tdigestAdd]
  split
  · rename_i h
    have : c.2 = 0 := le_antisymm h hc
    simp [this]
  · simp [mass_append, mass_cons, mass_nil]

lemma mass_addAll (f : ℚ → ℚ) (d : List (ℚ × ℚ)) (hm : ∀ c ∈ m, 0 ≤ c.2) :
    mass f (m.foldl tdigestAdd d) = mass f d + mass f m := by
  induction m generalizing d with
  | nil => simp [mass_nil]
  | cons c m ih =>
    rw [foldl_cons, ih _ (fun c' hc => hm c' (mem_cons_of_mem c hc)),
      mass_tdigestAdd f d (hm c (.head _)), mass_cons, add_assoc]

lemma nonneg_addAll {d : List (ℚ × ℚ)} (hd : ∀ c ∈ d, 0 ≤ c.2) :
    ∀ c ∈ m.foldl tdigestAdd d, 0 ≤ c.2 := by
  induction m generalizing d with
  | nil => exact hd
  | cons x m ih =>
    apply ih
    intro c hc
    rw [tdigestAdd] at hc
    split at hc
    · exact hd c hc
    · rename_i hp
      rcases mem_append.1 hc with h | h
      · exact hd c h
      · rcases mem_singleton.1 h with rfl
        exact (not_le.1 hp).le

/-- An item after samples between `lo` and `hi` were added to it. -/
structure Absorbs (v v' : ItemValue) (m : List (ℚ × ℚ)) (lo hi : ℚ) : Prop where
  set : v'.valueSet = true
  min_eq : v'.valueMin = if v.valueSet then min v.valueMin lo else lo
  max_eq : v'.valueMax = if v.valueSet then max v.valueMax hi else hi
  count_eq : v'.counter = v.counter + mass 1 m
  nonneg : ∀ c ∈ m, 0 ≤ c.2
  bounds : ∀ c ∈ m, lo ≤ c.1 ∧ c.1 ≤ hi
  low : ∃ c ∈ m, c.1 = lo
  high : ∃ c ∈ m, c.1 = hi

variable {lo hi : ℚ} {v v' : ItemValue}

lemma Absorbs.some_sample (h : Absorbs v v' m lo hi) : m ≠ [] := by
  obtain ⟨c, hc, -⟩ := h.low
  exact ne_nil_of_mem hc

lemma Absorbs.lo_le_hi (h : Absorbs v v' m lo hi) : lo ≤ hi := by
  obtain ⟨c, hc, hlo⟩ := h.low
  rw [← hlo]
  exact (h.bounds c hc).2

lemma Absorbs.same (h : Absorbs v v' m x x) : ∀ c ∈ m, c.1 = x :=
  fun c hc => le_antisymm (h.bounds c hc).2 (h.bounds c hc).1

/-- All values are still the same: there is no digest yet. -/
lemma addCentroids_same (was : ItemValue) (m : List (ℚ × ℚ)) (some_sample : l ≠ [])
    (same : ∀ c ∈ l, c.1 = x) (valueTDigest : s1.valueTDigest = s.valueTDigest)
    (digest : s.valueTDigest = none) (set : s1.value.valueSet = true)
    (least : s1.value.valueMin = x)
    (greatest : s1.value.valueMax = x) (hcount : s1.value.counter = mass 1 l) :
    Holds (s1.addCentroids was m) l := by
  rw [addCentroids, if_pos (least.trans greatest.symm)]
  exact .single x some_sample same (valueTDigest.trans digest) set least greatest hcount

/-- The centroids that a new digest starts with. -/
def firstCentroids (s : MultiValue) (was : ItemValue) : List (ℚ × ℚ) :=
  match s.valueTDigest with
  | some d => d
  | none => if was.valueSet then tdigestAdd [] (was.valueMax, was.counter) else []

/-- Two distinct values: the digest has them all. -/
lemma addCentroids_varied (was : ItemValue) (varied : Varied (l ++ m))
    (valueTDigest : s1.valueTDigest = s.valueTDigest) (set : s1.value.valueSet = true)
    (hlt : s1.value.valueMin < s1.value.valueMax) (nonneg : ∀ c ∈ firstCentroids s was, 0 ≤ c.2)
    (weights : SameWeights (firstCentroids s was) l) (hm : ∀ c ∈ m, 0 ≤ c.2) :
    Holds (s1.addCentroids was m) (l ++ m) := by
  rw [addCentroids, if_neg hlt.ne, valueTDigest]
  refine .many _ varied rfl set hlt (nonneg_addAll nonneg) fun f => ?_
  rw [mass_addAll f _ hm, mass_append, ← weights f]
  rfl

/-- More samples after a single value. -/
lemma addCentroids_single (counter_nonneg : 0 ≤ s.value.counter) (some_sample : l ≠ [])
    (same : ∀ c ∈ l, c.1 = x) (digest : s.valueTDigest = none) (set : s.value.valueSet = true)
    (min_eq : s.value.valueMin = x) (max_eq : s.value.valueMax = x)
    (count : s.value.counter = mass 1 l) (valueTDigest : s1.valueTDigest = s.valueTDigest)
    (h : Absorbs s.value s1.value m lo hi) : Holds (s1.addCentroids s.value m) (l ++ m) := by
  have hm : s1.value.valueMin = min x lo := by simpa [set, min_eq] using h.min_eq
  have hx : s1.value.valueMax = max x hi := by simpa [set, max_eq] using h.max_eq
  obtain ⟨a, ha, hl⟩ := h.low
  obtain ⟨b, hb, hh⟩ := h.high
  obtain ⟨c, hc⟩ := exists_mem_of_ne_nil l some_sample
  by_cases hll : ∀ e ∈ l ++ m, e.1 = x
  · have hlo : lo = x := hl ▸ hll a (mem_append_right l ha)
    have hhi : hi = x := hh ▸ hll b (mem_append_right l hb)
    rw [hlo, min_self] at hm
    rw [hhi, max_self] at hx
    apply addCentroids_same s.value m (by simp [some_sample]) hll valueTDigest digest h.set hm hx
    rw [h.count_eq, count, mass_append]
  · simp only [not_forall] at hll
    obtain ⟨e, he, hex⟩ := hll
    have varied : Varied (l ++ m) := ⟨e, he, c, mem_append_left m hc, by rwa [same c hc]⟩
    have hlt : s1.value.valueMin < s1.value.valueMax := by
      rw [hm, hx]
      rcases mem_append.1 he with hg | hd
      · exact absurd (same e hg) hex
      · rcases lt_or_gt_of_ne hex with hlt | hgt
        · exact (min_le_right x lo).trans_lt (((h.bounds e hd).1.trans_lt hlt).trans_le
            (le_max_left x hi))
        · exact (min_le_left x lo).trans_lt ((hgt.trans_le (h.bounds e hd).2).trans_le
            (le_max_right x hi))
    have hf : firstCentroids s s.value = tdigestAdd [] (s.value.valueMax, s.value.counter) := by
      simp [firstCentroids, digest, set]
    refine addCentroids_varied s.value varied valueTDigest h.set hlt ?_ ?_ h.nonneg
    · rw [hf]
      exact nonneg_addAll (m := [(_, _)]) (by simp)
    · intro f
      rw [hf, mass_tdigestAdd f [] counter_nonneg, mass_nil, zero_add, mass_of_same same f,
        max_eq, count]

/-- The digest after samples were added, for each form the value had before. -/
lemma addCentroids_holds (holds : Holds s l) (counter_nonneg : 0 ≤ s.value.counter)
    (valueTDigest : s1.valueTDigest = s.valueTDigest) (h : Absorbs s.value s1.value m lo hi) :
    Holds (s1.addCentroids s.value m) (l ++ m) := by
  cases holds with
  | unset samples digest set count =>
    rw [samples, nil_append]
    have hm : s1.value.valueMin = lo := by simpa [set] using h.min_eq
    have hx : s1.value.valueMax = hi := by simpa [set] using h.max_eq
    have hc : s1.value.counter = mass 1 m := by simpa [count] using h.count_eq
    by_cases heq : lo = hi
    · subst heq
      exact addCentroids_same s.value m h.some_sample h.same valueTDigest digest h.set hm hx hc
    · have hf : firstCentroids s s.value = [] := by simp [firstCentroids, digest, set]
      have hlt : s1.value.valueMin < s1.value.valueMax := by
        rw [hm, hx]
        exact lt_of_le_of_ne h.lo_le_hi heq
      obtain ⟨a, ha, hl⟩ := h.low
      obtain ⟨b, hb, hh⟩ := h.high
      have varied : Varied ([] ++ m) := ⟨a, ha, b, hb, by rwa [hl, hh]⟩
      refine addCentroids_varied s.value varied valueTDigest h.set hlt ?_ ?_ h.nonneg
      · rw [hf]
        simp
      · rw [hf]
        exact fun _ => rfl
  | single x some_sample same digest set min_eq max_eq count =>
    exact addCentroids_single counter_nonneg some_sample same digest set min_eq max_eq count
      valueTDigest h
  | many d varied digest set min_lt nonneg weights =>
    have hm : s1.value.valueMin ≤ s.value.valueMin := by
      rw [h.min_eq, if_pos set]
      exact min_le_left _ _
    have hx : s.value.valueMax ≤ s1.value.valueMax := by
      rw [h.max_eq, if_pos set]
      exact le_max_left _ _
    have hf : firstCentroids s s.value = d := by simp [firstCentroids, digest]
    exact addCentroids_varied s.value (varied.append_left m) valueTDigest h.set
      (hm.trans_lt (min_lt.trans_le hx)) (by rwa [hf]) (by rwa [hf]) h.nonneg

variable {count : ℚ}

lemma value_absorbs (hc : 0 ≤ count)
    (h : MultiValue.Adds s s' (weight count + spot x count)) :
    Absorbs s.value s'.value [(x, count)] x x := by
  obtain ⟨set, hm, hx⟩ := extremes_of_add h.2
    (top_inf_eq _)
    (bot_sup_eq _)
  have hn := congrArg Totals.count h.2
  constructor
  · exact set
  · exact hm
  · exact hx
  · simpa [totals, weight, spot, mass_cons, mass_nil] using hn
  · simpa using hc
  · simp
  · simp
  · simp

lemma mass_samples (histogram : List (ℚ × ℚ)) (values : List ℚ) :
    mass 1 (MultiValue.samples histogram values) = totalCount histogram values := by
  simp [mass, samples, totalCount, Function.comp_def]

lemma mass_centroids (histogram : List (ℚ × ℚ)) (values : List ℚ) (count : ℚ)
    (ht : 0 < totalCount histogram values) :
    mass 1 (MultiValue.centroids (MultiValue.samples histogram values) count
      (totalCount histogram values)) = count := by
  rw [centroids, mass_map_mul, mass_samples, mult]
  split
  · exact div_mul_cancel₀ count ht.ne'
  · rename_i h
    rw [one_mul]
    exact (not_not.1 h).symm

lemma values_absorbs {values : List ℚ} (hc : 0 ≤ count)
    (hist : ∀ c ∈ histogram, 0 ≤ c.2) (ht : 0 < totalCount histogram values)
    (h : MultiValue.Adds s s' (spreadTotals (MultiValue.samples histogram values)
      count (totalCount histogram values))) :
    ∃ lo hi, Absorbs s.value s'.value (MultiValue.centroids
      (MultiValue.samples histogram values) count (totalCount histogram values)) lo hi := by
  have hne : samples histogram values ≠ [] := by
    intro hn
    have hz := mass_samples histogram values
    rw [hn, mass_nil] at hz
    exact ht.ne hz
  obtain ⟨lo, hi, hd, hx, hf, ⟨a, ha, hl⟩, ⟨b, hb, hh⟩⟩ := spots_bounds hne
  have ho := h.2
  rw [spreadTotals, if_neg (not_le.2 ht)] at ho
  obtain ⟨set, hmn', hmx'⟩ := extremes_of_add ho
    ((top_inf_eq _).trans hd) ((bot_sup_eq _).trans hx)
  have hg := congrArg Totals.count ho
  have hm : ∀ c ∈ samples histogram values,
      (c.1, mult count (totalCount histogram values) * c.2) ∈ centroids
        (samples histogram values) count (totalCount histogram values) :=
    fun c hc => mem_map_of_mem hc
  refine ⟨lo, hi, set, hmn', hmx', ?_, ?_, ?_, ⟨_, hm a ha, hl⟩, ⟨_, hm b hb, hh⟩⟩
  · rw [mass_centroids histogram values count ht]
    simpa [totals, weight, Totals.scale, spots_count] using hg
  · intro c hc'
    obtain ⟨e, he, rfl⟩ := mem_map.1 hc'
    apply mul_nonneg
    · rw [mult]
      split
      · exact div_nonneg hc ht.le
      · exact zero_le_one
    · rcases mem_append.1 he with h | h
      · obtain ⟨x, -, rfl⟩ := mem_map.1 h
        exact zero_le_one
      · exact hist e h
  · intro c hc'
    obtain ⟨e, he, rfl⟩ := mem_map.1 hc'
    exact hf e he

/-- The item after a merge, when the merged one has a value. -/
lemma merge_extremes (h : MultiValue.Adds s s' s2.value.totals) (set : s2.value.valueSet = true) :
    s'.value.valueSet = true ∧ s'.value.valueMin =
        (if s.value.valueSet then min s.value.valueMin s2.value.valueMin else s2.value.valueMin) ∧
      s'.value.valueMax =
        (if s.value.valueSet then max s.value.valueMax s2.value.valueMax else s2.value.valueMax) :=
  extremes_of_add h.2 (by simp [totals, set]) (by simp [totals, set])

/-- A merge as the lemmas below use it. -/
structure Merges (s s2 s' : MultiValue) : Prop where
  adds : MultiValue.Adds s s' s2.value.totals
  digest : s'.valueTDigest = mergeTDigest s.valueTDigest s2.valueTDigest
  unset : s2.value.valueSet = false → s'.value.valueSet = s.value.valueSet ∧
    s'.value.valueMin = s.value.valueMin ∧ s'.value.valueMax = s.value.valueMax

lemma merge_merges (rng : Rng) (good : s.Good) (good2 : s2.Good) :
    ∃ s' rng', s.merge rng s2 = some (s', rng') ∧ Merges s s2 s' := by
  obtain ⟨s', rng', hm, had⟩ := merge_adds rng good good2
  obtain ⟨hv, hd⟩ := merge_fields hm
  refine ⟨s', rng', hm, had, hd, fun hs => ?_⟩
  simp [hv, ItemValue.merge, hs]

lemma Merges.counter (h : Merges s s2 s') :
    s'.value.counter = s.value.counter + s2.value.counter := congrArg Totals.count h.adds.2

lemma Merges.digest_of (h : Merges s s2 s') {d d2 : Option (List (ℚ × ℚ))} (hd : s.valueTDigest = d)
    (hd2 : s2.valueTDigest = d2) : s'.valueTDigest = mergeTDigest d d2 := by
  rw [h.digest, hd, hd2]

/-- Nothing is lost when the merged value has no samples. -/
lemma Holds.congr (holds : Holds s l) (valueTDigest : s'.valueTDigest = s.valueTDigest)
    (hset : s'.value.valueSet = s.value.valueSet) (hcount : s'.value.counter = s.value.counter)
    (hx : s.value.valueSet = true →
      s'.value.valueMin = s.value.valueMin ∧ s'.value.valueMax = s.value.valueMax) :
    Holds s' l := by
  cases holds with
  | unset samples digest set count =>
    exact .unset samples (valueTDigest.trans digest) (hset.trans set) (hcount.trans count)
  | single x some_sample same digest set min_eq max_eq count =>
    exact .single x some_sample same (valueTDigest.trans digest) (hset.trans set)
      ((hx set).1.trans min_eq) ((hx set).2.trans max_eq) (hcount.trans count)
  | many d varied digest set min_lt nonneg weights =>
    refine .many d varied (valueTDigest.trans digest) (hset.trans set) ?_ nonneg weights
    rwa [(hx set).1, (hx set).2]

lemma Merges.holds_left (h : Merges s s2 s') (holds : Holds s l) (digest2 : s2.valueTDigest = none)
    (set2 : s2.value.valueSet = false) (count2 : s2.value.counter = 0) : Holds s' l := by
  obtain ⟨hs, hm, hx⟩ := h.unset set2
  refine holds.congr ?_ hs (by rw [h.counter, count2, add_zero]) fun _ => ⟨hm, hx⟩
  rw [h.digest, digest2]
  cases s.valueTDigest <;> rfl

/-- Nothing is lost when the target has no samples. -/
lemma Merges.holds_right (h : Merges s s2 s') (holds2 : Holds s2 l2)
    (digest : s.valueTDigest = none) (set : s.value.valueSet = false)
    (count : s.value.counter = 0) :
    Holds s' l2 := by
  have hs : s'.value.valueSet = s2.value.valueSet := by
    cases set2 : s2.value.valueSet with
    | false => exact (h.unset set2).1.trans set
    | true => exact (merge_extremes h.adds set2).1
  refine holds2.congr ?_ hs (by rw [h.counter, count, zero_add]) fun set2 => ?_
  · rw [h.digest, digest]
    cases s2.valueTDigest <;> rfl
  · simpa [set] using (merge_extremes h.adds set2).2

/-- A single value and a digest are not put together. -/
lemma not_mergeable (hl : l ≠ []) (same : ∀ c ∈ l, c.1 = x) (varied : Varied l2) :
    ¬ Mergeable l l2 ∧ ¬ Mergeable l2 l := by
  have hs := not_varied_of_same same
  constructor
  · rintro (h | h | h | h)
    · exact hl h
    · exact varied.ne_nil h
    · exact hs h.1
    · exact h (varied.append_right l)
  · rintro (h | h | h | h)
    · exact varied.ne_nil h
    · exact hl h
    · exact hs h.2
    · exact h (varied.append_left l)

/-- `Merge` keeps all samples of two values that it may put together. -/
lemma merge_holds (h : Merges s s2 s') (holds : Holds s l) (holds2 : Holds s2 l2)
    (mergeable : Mergeable l l2) : Holds s' (l ++ l2) := by
  cases holds with
  | unset samples digest set count =>
    rw [samples, nil_append]
    exact h.holds_right holds2 digest set count
  | single x some_sample same digest set min_eq max_eq count =>
    cases holds2 with
    | unset samples2 digest2 set2 count2 =>
      rw [samples2, append_nil]
      exact h.holds_left (.single x some_sample same digest set min_eq max_eq count)
        digest2 set2 count2
    | single y some_sample2 same2 digest2 set2 min_eq2 max_eq2 count2 =>
      have hv : ¬Varied (l ++ l2) := by
        rcases mergeable with h | h | h | h
        · exact absurd h some_sample
        · exact absurd h some_sample2
        · exact absurd h.1 (not_varied_of_same same)
        · exact h
      obtain rfl : x = y := by
        obtain ⟨a, ha⟩ := exists_mem_of_ne_nil l some_sample
        obtain ⟨b, hb⟩ := exists_mem_of_ne_nil l2 some_sample2
        by_contra hne
        refine hv ⟨a, mem_append_left l2 ha, b, mem_append_right l hb, ?_⟩
        rwa [same a ha, same2 b hb]
      obtain ⟨hs, hm, hx⟩ := merge_extremes h.adds set2
      rw [if_pos set, min_eq, min_eq2, min_self] at hm
      rw [if_pos set, max_eq, max_eq2, max_self] at hx
      refine .single x (by simp [some_sample])
        (fun c hc => (mem_append.1 hc).elim (same c) (same2 c)) (h.digest_of digest digest2)
        hs hm hx ?_
      rw [h.counter, count, count2, mass_append]
    | many d2 varied2 digest2 set2 min_lt2 nonneg2 weights2 =>
      exact absurd mergeable (not_mergeable some_sample same varied2).1
  | many d varied digest set min_lt nonneg weights =>
    cases holds2 with
    | unset samples2 digest2 set2 count2 =>
      rw [samples2, append_nil]
      exact h.holds_left (.many d varied digest set min_lt nonneg weights) digest2 set2 count2
    | single y some_sample2 same2 digest2 set2 min_eq2 max_eq2 count2 =>
      exact absurd mergeable (not_mergeable some_sample2 same2 varied).2
    | many d2 varied2 digest2 set2 min_lt2 nonneg2 weights2 =>
      obtain ⟨hs, hm, hx⟩ := merge_extremes h.adds set2
      rw [if_pos set] at hm hx
      have hlt : s'.value.valueMin < s'.value.valueMax := by
        rw [hm, hx]
        exact (min_le_left _ _).trans_lt (min_lt.trans_le (le_max_left _ _))
      refine .many _ (varied.append_left l2) (h.digest_of digest digest2) hs hlt
        (nonneg_addAll nonneg) ?_
      intro f
      rw [mass_addAll f d nonneg2, weights f, weights2 f, mass_append]

/-- Two single values under one implicit centroid: the larger one is lost. -/
lemma single_single_wrong {y w : ℚ} (differ : x ≠ y) (same : ∀ c ∈ l, c.1 = x)
    (same2 : ∀ c ∈ l2, c.1 = y) (hl : 0 < mass 1 l) (hl2 : 0 < mass 1 l2) :
    ¬ SameWeights [(min x y, w)] (l ++ l2) := by
  intro h
  have hm := h fun z => if z = max x y then 1 else 0
  have hne : min x y ≠ max x y := fun heq => differ (inf_eq_sup.1 heq)
  rw [mass_append, mass_of_same same, mass_of_same same2, mass_cons, mass_nil, if_neg hne] at hm
  rcases le_total x y with hle | hle
  · rw [max_eq_right hle, if_neg differ, if_pos rfl] at hm
    linarith
  · rw [max_eq_left hle, if_neg differ.symm, if_pos rfl] at hm
    linarith

/-- `Merge` loses samples of two values that it may not put together. -/
lemma merge_wrong (h : Merges s s2 s') (holds : Holds s l) (holds2 : Holds s2 l2)
    (pos : ∀ c ∈ l, 0 < c.2) (pos2 : ∀ c ∈ l2, 0 < c.2)
    (sameWeights : SameWeights (represented s') (l ++ l2)) : Mergeable l l2 := by
  cases holds with
  | unset samples digest set count => exact inl samples
  | single x some_sample same digest set min_eq max_eq count =>
    have hl := mass_one_pos some_sample pos
    cases holds2 with
    | unset samples2 digest2 set2 count2 => exact inr (inl samples2)
    | single y some_sample2 same2 digest2 set2 min_eq2 max_eq2 count2 =>
      obtain ⟨hs, hm, -⟩ := merge_extremes h.adds set2
      rw [if_pos set, min_eq, min_eq2] at hm
      have hd := h.digest_of digest digest2
      simp only [represented, hd, hs, if_true, hm] at sameWeights
      by_cases hx : x = y
      · subst hx
        right; right; right
        refine not_varied_of_same (x := x) fun c hc => ?_
        rcases mem_append.1 hc with hc | hc
        · exact same c hc
        · exact same2 c hc
      · exact absurd sameWeights (single_single_wrong hx same same2 hl
        (mass_one_pos some_sample2 pos2))
    | many d2 varied2 digest2 set2 min_lt2 nonneg2 weights2 =>
      have hd : s'.valueTDigest = some d2 := h.digest_of digest digest2
      have ho := sameWeights 1
      simp only [represented, hd] at ho
      rw [weights2 1, mass_append] at ho
      linarith
  | many d varied digest set min_lt nonneg weights =>
    cases holds2 with
    | unset samples2 digest2 set2 count2 => exact inr (inl samples2)
    | single y some_sample2 same2 digest2 set2 min_eq2 max_eq2 count2 =>
      have hl2 := mass_one_pos some_sample2 pos2
      have hd : s'.valueTDigest = some d := h.digest_of digest digest2
      have ho := sameWeights 1
      simp only [represented, hd] at ho
      rw [weights 1, mass_append] at ho
      linarith
    | many d2 varied2 digest2 set2 min_lt2 nonneg2 weights2 =>
      exact inr (inr (inl ⟨varied, varied2⟩))

lemma percentile_holds (rng : Rng) (good : s.Good) (x : ℚ) (hc : 0 ≤ count)
    (hostTag : TagUnion) : (s.addValueCounterHostPercentile rng x count hostTag).1.Good ∧
      (Holds s l → Holds (s.addValueCounterHostPercentile rng x count hostTag).1
        (l ++ [(x, count)])) := by
  let s1 : MultiValue := { s with value := (s.value.addValueCounterHost rng x count hostTag).1 }
  obtain ⟨hv, hhll⟩ := addCentroids_value s1 s.value [(x, count)]
  have had1 : MultiValue.Adds s s1 (weight count + spot x count) :=
    adds_value rng good hc hostTag rfl rfl
  constructor
  · exact (adds_value rng good hc hostTag hv hhll).1
  · intro holds
    have h : Holds (s1.addCentroids s.value [(x, count)]) (l ++ [(x, count)]) :=
      addCentroids_holds holds good.sane.counter_nonneg rfl (value_absorbs hc had1)
    exact h

lemma values_holds (rng : Rng) (good : s.Good) (hist : ∀ c ∈ histogram, 0 ≤ c.2) (values : List ℚ)
    (hc : 0 ≤ count) (ht : 0 < totalCount histogram values) (hostTag : TagUnion)
    (holds : Holds s l) :
    Holds (s.applyValues rng histogram values count (totalCount histogram values) hostTag true).1
      (l ++ MultiValue.centroids (MultiValue.samples histogram values) count
        (totalCount histogram values)) := by
  let tmp := spread (samples histogram values) count (totalCount histogram values) hostTag
  let s1 : MultiValue := { s with value := (s.value.merge rng tmp).1 }
  have had1 : MultiValue.Adds s s1 (spreadTotals
      (samples histogram values) count (totalCount histogram values)) := by
    rw [← spread_totals _ count ht hostTag]
    exact adds_merge rng good (spread_sane _ hc _ hostTag) rfl good.rest
  obtain ⟨lo, hi, hab⟩ := values_absorbs hc hist ht had1
  have h : Holds (s1.addCentroids s.value _) _ :=
    addCentroids_holds holds good.sane.counter_nonneg rfl hab
  simpa [applyValues, not_le.2 ht] using h

lemma build_holds (b : Build) (proper : b.Proper) (rng : Rng) :
    ∃ s rng', b.build rng = some (s, rng') ∧ s.Good ∧ (b.Mergeable → Holds s b.samples) := by
  induction b generalizing rng with
  | empty =>
    exact ⟨{}, rng, rfl, good_zero, fun _ => .unset rfl rfl rfl rfl⟩
  | percentile b x count hostTag ih =>
    obtain ⟨s, rng1, hb, hg, hh⟩ := ih proper.1 rng
    obtain ⟨hg', hhl'⟩ := percentile_holds rng1 hg x proper.2 hostTag
    refine ⟨(s.addValueCounterHostPercentile rng1 x count hostTag).1,
      (s.addValueCounterHostPercentile rng1 x count hostTag).2, ?_, hg',
      fun hm => hhl' (hh hm)⟩
    rw [Build.build, hb]
    rfl
  | values b histogram xs count hostTag ih =>
    obtain ⟨s, rng1, hb, hg, hh⟩ := ih proper.1 rng
    obtain ⟨-, hc, hist⟩ := proper
    refine ⟨(s.applyValues rng1 histogram xs count (totalCount histogram xs) hostTag true).1,
      (s.applyValues rng1 histogram xs count (totalCount histogram xs) hostTag true).2, ?_,
      (applyValues_adds rng1 hg histogram xs hc _ hostTag true).1, ?_⟩
    · rw [Build.build, hb]
      rfl
    · intro hm
      by_cases ht : totalCount histogram xs ≤ 0
      · simpa [Build.samples, ht, applyValues] using hh hm
      · rw [Build.samples, if_neg ht]
        exact values_holds rng1 hg hist xs hc (not_le.1 ht) hostTag (hh hm)
  | merge b b2 ih ih2 =>
    obtain ⟨s, rng1, hb, hg, hh⟩ := ih proper.1 rng
    obtain ⟨s2, rng2, hbl2, hg2, hhl2⟩ := ih2 proper.2 rng1
    obtain ⟨s', rng', hr, he⟩ := merge_merges rng2 hg hg2
    refine ⟨s', rng', ?_, he.adds.1, ?_⟩
    · simp [Build.build, hb, hbl2, hr]
    · rintro ⟨hm, hm2, hl⟩
      exact merge_holds he (hh hm) (hhl2 hm2) hl

lemma mass_build_samples (b : Build) : mass 1 b.samples = b.count := by
  induction b with
  | empty => rfl
  | percentile b x count hostTag ih =>
    rw [Build.samples, mass_append, ih, mass_cons, mass_nil, Pi.one_apply, one_mul, add_zero]
    rfl
  | values b histogram xs count hostTag ih =>
    rw [Build.samples, Build.count]
    split
    · exact ih
    · rename_i ht
      rw [mass_append, ih, mass_centroids histogram xs count (not_le.1 ht)]
  | merge b b2 ih ih2 =>
    rw [Build.samples, mass_append, ih, ih2]
    rfl

/-- The centroids of a value are those of everything added to it if every merge put together
values it may. When the merges before were of that kind, the last one must be, too. -/
theorem build_represents (b : Build) (proper : b.Proper) (rng : Rng) :
    ∃ s rng', b.build rng = some (s, rng') ∧
      (b.Mergeable → SameWeights (represented s) b.samples ∧ mass 1 (represented s) = b.count) ∧
      ∀ l r, b = .merge l r → l.Mergeable → r.Mergeable → (∀ c ∈ b.samples, 0 < c.2) →
        (SameWeights (represented s) b.samples ↔ Mergeable l.samples r.samples) := by
  obtain ⟨s, rng', hb, -, hh⟩ := build_holds b proper rng
  refine ⟨s, rng', hb, ?_, ?_⟩
  · intro hm
    have hs := (hh hm).represented
    exact ⟨hs, (hs 1).trans (mass_build_samples b)⟩
  · rintro l r rfl hl hr hp
    constructor
    · intro hs
      obtain ⟨s1, rng1, hbl1, hg1, hhl1⟩ := build_holds l proper.1 rng
      obtain ⟨s2, rng2, hbl2, hg2, hhl2⟩ := build_holds r proper.2 rng1
      obtain ⟨s3, rng3, ha, he⟩ := merge_merges rng2 hg1 hg2
      have heq : some (s, rng') = some (s3, rng3) := by
        rw [← hb, ← ha]
        simp [Build.build, hbl1, hbl2]
      cases heq
      exact merge_wrong he (hhl1 hl) (hhl2 hr) (fun c hc => hp c (mem_append_left _ hc))
        (fun c hc => hp c (mem_append_right _ hc)) hs
    · intro hd
      exact (hh ⟨hl, hr, hd⟩).represented

/-- Both sides have seen two values. -/
def twoDigests : Build :=
  .merge (.values .empty [] [1, 2] 2 {}) (.percentile (.percentile .empty 2 3 {}) 4 1 {})

theorem build_represents_twoDigests : ∃ s rng', twoDigests.build ⟨fun _ => 0⟩ = some (s, rng') ∧
      SameWeights (represented s) twoDigests.samples ∧ mass 1 (represented s) = 6 := by
  have proper : twoDigests.Proper := by
    simp [twoDigests, Build.Proper]
  have mergeable : twoDigests.Mergeable := by
    refine ⟨trivial, trivial, inr (inr (inl ⟨?_, ?_⟩))⟩
    · exact ⟨(1, 1), by decide +kernel, (2, 1), by decide +kernel, by decide⟩
    · exact ⟨(2, 3), by decide +kernel, (4, 1), by decide +kernel, by decide⟩
  have count : twoDigests.count = 6 := by decide +kernel
  obtain ⟨s, rng', hb, hs, -⟩ := build_represents twoDigests proper ⟨fun _ => 0⟩
  exact ⟨s, rng', hb, (hs mergeable).1, (hs mergeable).2.trans count⟩

/-- A value without a digest merged into one with a digest: its weight is lost. -/
def lostValue : Build := .merge (.values .empty [] [1, 2] 2 {}) (.percentile .empty 3 5 {})

theorem build_represents_counterexample :
    lostValue.Proper ∧ ∃ s rng', lostValue.build ⟨fun _ => 0⟩ = some (s, rng') ∧
      mass 1 (represented s) = 2 ∧ lostValue.count = 7 ∧
      ¬ SameWeights (represented s) lostValue.samples := by
  have count : lostValue.count = 7 := by decide +kernel
  have samples : mass 1 lostValue.samples = 7 := by decide +kernel
  refine ⟨by simp [lostValue, Build.Proper], _, _, rfl, by decide +kernel, count, fun h => ?_⟩
  have ho := (h 1).trans samples
  exact absurd ho (by decide +kernel)

end Percentiles
