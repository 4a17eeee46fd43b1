import StatsHouse.Percentiles
import StatsHouse.Transfer

/-!
# What survives the transfer

The counts and values of an item are restored exactly unless all its values are one and the
same, different from zero, and it also counted events without a value: the receiver takes
the whole count for the weight of that value.

Hosts are restored unless a host is empty while the host of the maximum is not: the receiver
fills it in from the host of the maximum, not from the sender.
-/

namespace RoundTrip

open Sampling ChUniqueSet MultiValue Transfer List ItemValue
variable {v : ItemValue} {l : List (ℚ × ℚ)} {sf : ℚ}

/-- The host a receiver should keep: the sender stands in for an empty one. -/
def attributed (host g : TagUnion) : TagUnion := if host.empty then g else host

structure HostsSurvive (v v' : ItemValue) (g : TagUnion) : Prop where
  min_eq : v'.minHostTag = attributed v.minHostTag g
  max_eq : v'.maxHostTag = attributed v.maxHostTag g
  maxCounter_eq : v'.maxCounterHostTag = attributed v.maxCounterHostTag g

/-- The receiver takes the counter. -/
def CounterAccepted (v : ItemValue) (sf : ℚ) : Prop :=
  0 < v.counter * sf ∧ v.counter * sf ≤ maxFloat32

/-- An empty host is only right when the host of the maximum is empty, too, or the sender. -/
def Attributable (host max g : TagUnion) : Prop :=
  host ≠ {} ∨ max = {} ∨ max = g

lemma attributed_empty (g : TagUnion) : attributed {} g = g := rfl

lemma attributed_of_ne {host : TagUnion} (h : host ≠ {}) (g : TagUnion) :
    attributed host g = host := by
  rw [attributed, if_neg (fun he => h ((TagUnion.empty_iff host).1 he))]

lemma attributed_eq_empty {host g : TagUnion} : attributed host g = {} ↔ host = {} ∧ g = {} := by
  by_cases h : host = {}
  · subst h
    exact ⟨fun hg => ⟨rfl, hg⟩, fun hg => hg.2⟩
  · rw [attributed_of_ne h]
    exact ⟨fun he => absurd he h, fun he => he.1⟩

/-- A host beside the host of the maximum, as it arrives. -/
lemma arrives_iff {host max g : TagUnion} (normal : host.normalize = host)
    (hmax : max.normalize = max) : ((if host ≠ max ∧ host.empty = false then host.normalize
      else if max.empty then g else max.normalize) = attributed host g) ↔
      Attributable host max g := by
  rw [normal, hmax, Attributable]
  change (if host ≠ max ∧ host.empty = false then host else attributed max g) = _ ↔ _
  by_cases h : host = {}
  · subst h
    rw [if_neg (fun hc => Bool.noConfusion hc.2), attributed_empty]
    by_cases hm : max = {}
    · subst hm
      exact ⟨fun _ => .inr (.inl rfl), fun _ => rfl⟩
    · rw [attributed_of_ne hm]
      constructor
      · exact fun heq => .inr (.inr heq)
      · rintro (h | h | h)
        · exact absurd rfl h
        · exact absurd h hm
        · exact h
  · rw [attributed_of_ne h]
    refine ⟨fun _ => .inl h, fun _ => ?_⟩
    split
    · rfl
    · rename_i hc
      have he : host.empty = false := by
        rw [← Bool.not_eq_true, TagUnion.empty_iff]
        exact h
      have heq : host = max := by
        by_contra hne
        exact hc ⟨hne, he⟩
      rw [← heq, attributed_of_ne h]

/-- A value that is accepted. -/
lemma accepted_hosts (set : v.valueSet = true) (counter : CounterAccepted v sf)
    (value : ValueInRange v sf) (hmin : v.minHostTag.normalize = v.minHostTag)
    (hmax : v.maxHostTag.normalize = v.maxHostTag)
    (hcounter : v.maxCounterHostTag.normalize = v.maxCounterHostTag) (g : TagUnion) :
    HostsSurvive v (received v sf g) g ↔ Attributable v.minHostTag v.maxHostTag g ∧
        Attributable v.maxCounterHostTag v.maxHostTag g := by
  have hr : (received v sf g).minHostTag = arrived v g .min ∧
      (received v sf g).maxHostTag = arrived v g .max ∧
      (received v sf g).maxCounterHostTag = arrived v g .maxCounter := by
    rw [received, if_neg (not_or.2 ⟨not_le.2 counter.1, not_lt.2 counter.2⟩),
      if_neg (by rw [set]; exact fun h => h.elim (fun h => Bool.noConfusion h) (fun h => h value))]
    exact ⟨rfl, rfl, rfl⟩
  have hm : arrived v g .max = attributed v.maxHostTag g := by
    rw [arrived, hmax, attributed]
  rw [← arrives_iff hmin hmax, ← arrives_iff hcounter hmax]
  constructor
  · intro h
    exact ⟨hr.1.symm.trans h.min_eq, hr.2.2.symm.trans h.maxCounter_eq⟩
  · rintro ⟨h, h'⟩
    exact ⟨hr.1.trans h, hr.2.1.trans hm, hr.2.2.trans h'⟩

/-- A value that is rejected leaves no hosts, or only that of the counter. -/
lemma rejected_hosts (h : ¬ (CounterAccepted v sf ∧ ValueInRange v sf))
    (hcounter : v.maxCounterHostTag.normalize = v.maxCounterHostTag) (g : TagUnion) :
    HostsSurvive v (received v sf g) g ↔ g = {} ∧ v.minHostTag = {} ∧ v.maxHostTag = {} ∧
        (CounterAccepted v sf ∨ v.maxCounterHostTag = {}) := by
  have ho : (received v sf g).minHostTag = {} ∧ (received v sf g).maxHostTag = {} ∧
      (CounterAccepted v sf →
        (received v sf g).maxCounterHostTag = arrived v g .maxCounter) ∧
      (¬CounterAccepted v sf → (received v sf g).maxCounterHostTag = {}) := by
    rw [received]
    split
    · rename_i hc
      refine ⟨rfl, rfl, fun ha => ?_, fun _ => rfl⟩
      exact absurd hc (not_or.2 ⟨not_le.2 ha.1, not_lt.2 ha.2⟩)
    · rename_i hc
      have ha : CounterAccepted v sf := ⟨not_le.1 (not_or.1 hc).1, not_lt.1 (not_or.1 hc).2⟩
      rw [if_pos (.inr fun hv => h ⟨ha, hv⟩)]
      exact ⟨rfl, rfl, fun _ => rfl, fun hn => absurd ha hn⟩
  obtain ⟨hmin, hmax, hb, hr⟩ := ho
  constructor
  · intro hs
    obtain ⟨hm, hg⟩ := attributed_eq_empty.1 (hs.min_eq.symm.trans hmin)
    obtain ⟨hM, -⟩ := attributed_eq_empty.1 (hs.max_eq.symm.trans hmax)
    refine ⟨hg, hm, hM, ?_⟩
    by_cases ha : CounterAccepted v sf
    · exact .inl ha
    · exact .inr (attributed_eq_empty.1 (hs.maxCounter_eq.symm.trans (hr ha))).1
  · rintro ⟨rfl, hm, hM, hc⟩
    refine ⟨?_, ?_, ?_⟩
    · rw [hmin, hm, attributed_empty]
    · rw [hmax, hM, attributed_empty]
    · by_cases ha : CounterAccepted v sf
      · rw [hb ha]
        have hd : v.maxHostTag.normalize = v.maxHostTag := by rw [hM]; rfl
        exact (arrives_iff hcounter hd).2 (.inr (.inl hM))
      · rw [hr ha, hc.resolve_left ha, attributed_empty]

/-- Hosts are attributed rightly exactly when no host is left empty beside another host of
the maximum than the sender, or when nothing is delivered and there is no host at all. -/
theorem roundTrip_hosts_iff (hasPercentiles : Bool) (rng : Rng) (v : MultiValue)
    (rest : Rest v.hll) (set : v.value.valueSet = true)
    (hmin : v.value.minHostTag.normalize = v.value.minHostTag)
    (hmax : v.value.maxHostTag.normalize = v.value.maxHostTag)
    (hcounter : v.value.maxCounterHostTag.normalize = v.value.maxCounterHostTag)
    (sf : ℚ) (g : TagUnion) :
    ∃ v' rng' e, roundTrip hasPercentiles rng v sf g = some (v', rng', e) ∧
      (HostsSurvive v.value v'.value g ↔
        (CounterAccepted v.value sf ∧ ValueInRange v.value sf ∧
          Attributable v.value.minHostTag v.value.maxHostTag g ∧
          Attributable v.value.maxCounterHostTag v.value.maxHostTag g) ∨
        (¬ (CounterAccepted v.value sf ∧ ValueInRange v.value sf) ∧ g = {} ∧
          v.value.minHostTag = {} ∧ v.value.maxHostTag = {} ∧
          (CounterAccepted v.value sf ∨ v.value.maxCounterHostTag = {}))) := by
  obtain ⟨v', rng', e, hr, hv⟩ := roundTrip_received hasPercentiles rng rest sf g
  refine ⟨v', rng', e, hr, ?_⟩
  rw [hv]
  by_cases ha : CounterAccepted v.value sf ∧ ValueInRange v.value sf
  · rw [accepted_hosts set ha.1 ha.2 hmin hmax hcounter g]
    constructor
    · exact fun h => .inl ⟨ha.1, ha.2, h⟩
    · rintro (h | h)
      · exact h.2.2
      · exact absurd ha h.1
  · rw [rejected_hosts ha hcounter g]
    constructor
    · exact fun h => .inr ⟨ha, h⟩
    · rintro (h | h)
      · exact absurd ⟨h.1, h.2.1⟩ ha
      · exact h.2

/-- A value of each kind of host, sent by the host 9. -/
def threeHosts : MultiValue where
  value :=
    { counter := 2, valueMin := 1, valueMax := 2, valueSum := 3, valueSumSquare := 5
      minHostTag := ⟨[65], 0⟩, maxHostTag := ⟨[], 7⟩, maxCounterHostTag := ⟨[], 8⟩
      valueSet := true }

theorem roundTrip_hosts_iff_threeHosts :
    ∃ v' rng' e, roundTrip false ⟨fun _ => 0⟩ threeHosts 1 ⟨[], 9⟩ = some (v', rng', e) ∧
      HostsSurvive threeHosts.value v'.value ⟨[], 9⟩ := by
  obtain ⟨v', rng', e, hr, hi⟩ := roundTrip_hosts_iff false ⟨fun _ => 0⟩ threeHosts
    (.inl rfl) rfl rfl rfl rfl 1 ⟨[], 9⟩
  refine ⟨v', rng', e, hr, hi.2 (.inl ⟨?_, ?_, .inl (by decide), .inl (by decide)⟩)⟩
  · exact ⟨by decide +kernel, by decide +kernel⟩
  · exact (by decide +kernel : ValueInRange threeHosts.value 1)

/-- A value without a host, then a larger one from the host 7. -/
def mixedHosts : MultiValue where
  value :=
    { counter := 2, valueMin := 1, valueMax := 2, valueSum := 3, valueSumSquare := 5
      minHostTag := {}, maxHostTag := ⟨[], 7⟩, maxCounterHostTag := {}, valueSet := true }

theorem roundTrip_hosts_counterexample :
    (∃ s rng, MultiValue.apply ⟨fun _ => 0⟩ {} {} (.value 1 1) = some (s, rng) ∧
      (s.apply rng ⟨[], 7⟩ (.value 2 1)).map (fun r => r.1.value) = some mixedHosts.value) ∧
    ∃ v' rng', roundTrip false ⟨fun _ => 0⟩ mixedHosts 1 ⟨[], 9⟩ = some (v', rng', none) ∧
      v'.value.minHostTag = ⟨[], 7⟩ ∧ v'.value.maxCounterHostTag = ⟨[], 7⟩ ∧
      ¬ HostsSurvive mixedHosts.value v'.value ⟨[], 9⟩ := by
  have hr : (roundTrip false ⟨fun _ => 0⟩ mixedHosts 1 ⟨[], 9⟩).map
      (fun r => (r.1.value.minHostTag, r.1.value.maxCounterHostTag, r.2.2)) =
      some (⟨[], 7⟩, ⟨[], 7⟩, none) := by decide +kernel
  obtain ⟨⟨v', rng', e⟩, hv, heq⟩ := Option.map_eq_some_iff.1 hr
  obtain ⟨hmin, hcounter, rfl⟩ : v'.value.minHostTag = ⟨[], 7⟩ ∧
      v'.value.maxCounterHostTag = ⟨[], 7⟩ ∧ e = none := by
    simpa only [Prod.mk.injEq] using heq
  refine ⟨⟨_, _, rfl, by decide +kernel⟩, v', rng', hv, hmin, hcounter, fun h => ?_⟩
  exact absurd (hmin.symm.trans h.min_eq) (by decide)

/-- The count of an event that has no value. -/
def plain : Event → ℚ
  | .counter count => count
  | _ => 0

/-- The values of an event, with the weights they get. -/
def points : Event → List (ℚ × ℚ)
  | .value x count => [(x, count)]
  | .percentile x count => [(x, count)]
  | .values histogram xs count totalCount _ =>
    if totalCount ≤ 0 then [] else centroids (samples histogram xs) count totalCount
  | .valuesLegacy histogram xs count totalCount _ =>
    if totalCount ≤ 0 then [] else centroids (samples histogram xs) count totalCount
  | .unique hashes count =>
    if (hashes.length : ℚ) ≤ 0 then [] else centroids (hashSamples hashes) count hashes.length
  | _ => []

/-- Counter, value and unique events as an agent makes them: counts are not negative, and
`totalCount` is the weight of all the values. -/
def Direct : Event → Prop
  | .values histogram xs count totalCount _ =>
    0 ≤ count ∧ totalCount = mass 1 (samples histogram xs)
  | .valuesLegacy histogram xs count totalCount _ =>
    0 ≤ count ∧ totalCount = mass 1 (samples histogram xs)
  | .merge _ => False
  | e => e.Proper

lemma Direct.proper {e : Event} (h : Direct e) : e.Proper := by
  cases e with
  | values | valuesLegacy => exact h.1
  | merge => exact h.elim
  | _ => exact h

lemma mult_eq {count totalCount : ℚ} (ht : 0 < totalCount) :
    mult count totalCount = count / totalCount := by
  rw [mult]
  split
  · rfl
  · rename_i h
    rw [not_not.1 h, div_self ht.ne']

lemma spreadTotals_eq (l : List (ℚ × ℚ)) (count : ℚ) {totalCount : ℚ}
    (total : totalCount = mass 1 l) : spreadTotals l count totalCount =
      weight (mass 1 (if totalCount ≤ 0 then [] else centroids l count totalCount)) +
        spots (if totalCount ≤ 0 then [] else centroids l count totalCount) := by
  rw [spreadTotals]
  split
  · exact (add_zero 0).symm
  · rename_i ht
    have hp := not_le.1 ht
    rw [centroids, mass_map_mul, ← total, ← scale_spots, mult_eq hp,
      div_mul_cancel₀ count hp.ne']

lemma mass_hashSamples (hashes : List (BitVec 64)) :
    (hashes.length : ℚ) = mass 1 (hashSamples hashes) := by
  simp [mass, hashSamples, Function.comp_def]

/-- An event adds its count, and its values with their weights. -/
lemma added_eq {e : Event} (direct : Direct e) :
    e.added = weight (plain e + mass 1 (points e)) + spots (points e) := by
  cases e with
  | counter count =>
    change weight count = weight (count + 0) + 0
    rw [add_zero, add_zero]
  | value x count | percentile x count =>
    simp [Event.added, plain, points, mass_cons, mass_nil, spots]
  | values histogram xs count totalCount hasPercentiles =>
    change spreadTotals _ _ _ = weight (0 + _) + _
    rw [zero_add]
    exact spreadTotals_eq _ count direct.2
  | valuesLegacy histogram xs count totalCount hasPercentiles =>
    change spreadTotals _ _ _ = weight (0 + _) + _
    rw [zero_add]
    exact spreadTotals_eq _ count direct.2
  | unique hashes count =>
    change spreadTotals _ _ _ = weight (0 + _) + _
    rw [zero_add]
    exact spreadTotals_eq _ count (mass_hashSamples hashes)
  | merge other => exact direct.elim

/-- Events with their hosts, added to an empty value. -/
def run (rng : Rng) (es : List (TagUnion × Event)) : Option (MultiValue × Rng) :=
  es.foldlM (fun st e => st.1.apply st.2 e.1 e.2) ({}, rng)

def plainCount (es : List (TagUnion × Event)) : ℚ := (es.map fun e => plain e.2).sum

def allPoints (es : List (TagUnion × Event)) : List (ℚ × ℚ) := es.flatMap fun e => points e.2

lemma run_adds (es : List (TagUnion × Event)) (direct : ∀ e ∈ es, Direct e.2) {s : MultiValue}
    (good : s.Good) (rng : Rng) :
    ∃ v rng', es.foldlM (fun (st : MultiValue × Rng) e => st.1.apply st.2 e.1 e.2) (s, rng) =
        some (v, rng') ∧
      Adds s v (weight (plainCount es + mass 1 (allPoints es)) + spots (allPoints es)) := by
  induction es generalizing s rng with
  | nil =>
    refine ⟨s, rng, rfl, good, ?_⟩
    simp [plainCount, allPoints, mass_nil, weight_zero, spots]
  | cons e es ih =>
    have hd := direct e (.head _)
    obtain ⟨s1, rng1, ha, hg, hb⟩ :=
      MultiValue.apply_adds rng good e.1 hd.proper
    obtain ⟨v, rng', hr, hgd', hdd'⟩ :=
      ih (fun x hx => direct x (mem_cons_of_mem e hx)) hg rng1
    refine ⟨v, rng', ?_, hgd', ?_⟩
    · rw [foldlM_cons, ha]
      exact hr
    · rw [hdd', hb, added_eq hd]
      simp only [plainCount, allPoints, map_cons, sum_cons, flatMap_cons,
        mass_append, spots_append, weight_add]
      abel

/-- The sums of equal values are the ones that the receiver computes from the counter. -/
def SumsImplied (v : ItemValue) : Prop :=
  v.valueSum = v.valueMin * v.counter ∧ v.valueSumSquare = v.valueMin * v.counter * v.valueMin

lemma received_rejected (h : ¬ CounterAccepted v sf) (g : TagUnion) : received v sf g = {} := by
  rw [received, if_pos]
  by_contra hc
  exact h ⟨not_le.1 (not_or.1 hc).1, not_lt.1 (not_or.1 hc).2⟩

lemma received_counter (h : CounterAccepted v sf) (hv : v.valueSet = false ∨ ¬ ValueInRange v sf)
    (g : TagUnion) : (received v sf g).totals = weight (v.counter * sf) := by
  rw [received, if_neg (not_or.2 ⟨not_le.2 h.1, not_lt.2 h.2⟩), if_pos hv]
  rfl

/-- When an item arrives with all its totals. -/
lemma received_totals_iff (sane : v.Sane) (hpos : 0 < sf) (g : TagUnion) :
    (received v sf g).totals = v.totals.times sf ↔ (v.counter = 0 ∧ v.valueSet = false) ∨
      (CounterAccepted v sf ∧ (v.valueSet = false ∨
        (ValueInRange v sf ∧ (v.valueMin ≠ v.valueMax ∨ SumsImplied v)))) := by
  have hne := hpos.ne'
  by_cases hc : CounterAccepted v sf
  · have hcounter : v.counter ≠ 0 := by
      intro hz
      have hp := hc.1
      rw [hz, zero_mul] at hp
      exact lt_irrefl _ hp
    simp only [hcounter, false_and, false_or, hc, true_and]
    cases hs : v.valueSet with
    | false =>
      obtain ⟨hu, hq⟩ := sane.unset hs
      rw [received_counter hc (.inl hs) g]
      simp [weight, Totals.times, totals, hs, hu, hq]
    | true =>
      simp only [Bool.true_eq_false, false_or]
      by_cases hv : ValueInRange v sf
      · rw [received, if_neg (not_or.2 ⟨not_le.2 hc.1, not_lt.2 hc.2⟩), if_neg (by simp [hs, hv])]
        simp only [Totals.times, totals, hs, if_true, Totals.mk.injEq, true_and,
          and_true, hv]
        by_cases ha : v.valueMin = v.valueMax
        · simp only [ha, ne_eq, not_true_eq_false, if_false, false_or, SumsImplied,
            ← mul_assoc, mul_right_comm _ sf _]
          rw [mul_left_inj' hne, mul_left_inj' hne]
          exact and_congr eq_comm eq_comm
        · simp [ha]
      · rw [received_counter hc (.inr hv) g]
        simp [weight, Totals.times, totals, hs, hv]
  · rw [received_rejected hc g]
    simp only [hc, false_and, or_false]
    constructor
    · intro h
      have hn := congrArg Totals.count h
      have hmin : (⊤ : WithTop ℚ) = if v.valueSet then (v.valueMin : WithTop ℚ) else ⊤ :=
        congrArg Totals.min h
      refine ⟨(mul_eq_zero.1 hn.symm).resolve_right hne, ?_⟩
      cases hs : v.valueSet with
      | false => rfl
      | true =>
        rw [hs, if_pos rfl] at hmin
        cases hmin
    · rintro ⟨hz, hs⟩
      obtain ⟨hu, hq⟩ := sane.unset hs
      simp [totals, Totals.times, hz, hs, hu, hq]

/-- The events of an item arrive with all their totals when they stay within the limits of
the receiver and are not one value, other than zero, beside events without a value. -/
def Lossless (p : ℚ) (l : List (ℚ × ℚ)) (sf : ℚ) : Prop :=
  (p + mass 1 l = 0 ∧ l = []) ∨
  (0 < (p + mass 1 l) * sf ∧ (p + mass 1 l) * sf ≤ maxFloat32 ∧
    (∀ c ∈ l, |c.1| ≤ maxFloat32) ∧ (Varied l → |mass id l * sf| ≤ maxFloat32) ∧
    (Varied l ∨ p = 0 ∨ ∀ c ∈ l, c.1 = 0))

/-- An item in terms of the values added to it. -/
structure Describes (v : ItemValue) (n : ℚ) (l : List (ℚ × ℚ)) (lo hi : ℚ) : Prop where
  counter_eq : v.counter = n
  sum_eq : v.valueSum = mass id l
  sumSquare_eq : v.valueSumSquare = mass (fun x => x * x) l
  set : v.valueSet = true
  min_eq : v.valueMin = lo
  max_eq : v.valueMax = hi
  bounds : ∀ c ∈ l, lo ≤ c.1 ∧ c.1 ≤ hi
  low : ∃ c ∈ l, c.1 = lo
  high : ∃ c ∈ l, c.1 = hi

lemma describes_of_totals {n : ℚ} (h : v.totals = weight n + spots l) (hl : l ≠ []) :
    ∃ lo hi, Describes v n l lo hi := by
  obtain ⟨lo, hi, hlo, hhi, hb, hw, hh⟩ := spots_bounds hl
  have ht : v.totals = totals {} + (weight n + spots l) := by
    rw [h, totals_zero, zero_add]
  obtain ⟨ha, hmin, hmax⟩ := extremes_of_add ht
    ((top_inf_eq _).trans hlo) ((bot_sup_eq _).trans hhi)
  have hc : v.counter = n + (spots l).count := congrArg Totals.count h
  have hs : v.valueSum = 0 + (spots l).sum := congrArg Totals.sum h
  have hq : v.valueSumSquare = 0 + (spots l).sumSquare := congrArg Totals.sumSquare h
  rw [spots_count, add_zero] at hc
  rw [zero_add, spots_sum] at hs
  rw [zero_add, spots_sumSquare] at hq
  exact ⟨lo, hi, hc, hs, hq, ha, hmin, hmax, hb, hw, hh⟩

lemma Describes.varied_iff {n : ℚ} {lo hi : ℚ} (h : Describes v n l lo hi) :
    v.valueMin ≠ v.valueMax ↔ Varied l := by
  rw [h.min_eq, h.max_eq]
  constructor
  · intro hne
    obtain ⟨a, ha, rfl⟩ := h.low
    obtain ⟨b, hb, rfl⟩ := h.high
    exact ⟨a, ha, b, hb, hne⟩
  · rintro ⟨a, ha, b, hb, hne⟩ rfl
    exact hne ((le_antisymm (h.bounds a ha).2 (h.bounds a ha).1).trans
      (le_antisymm (h.bounds b hb).1 (h.bounds b hb).2))

lemma Describes.inRange_iff {n : ℚ} {lo hi : ℚ} (h : Describes v n l lo hi) (sf : ℚ) :
    ValueInRange v sf ↔
      (∀ c ∈ l, |c.1| ≤ maxFloat32) ∧ (Varied l → |mass id l * sf| ≤ maxFloat32) := by
  rw [ValueInRange, h.varied_iff, h.sum_eq, h.min_eq, h.max_eq, ← and_assoc]
  refine and_congr_left fun _ => ?_
  constructor
  · rintro ⟨hlo, hhi⟩ c hc
    rw [abs_le] at hlo hhi ⊢
    exact ⟨hlo.1.trans (h.bounds c hc).1, (h.bounds c hc).2.trans hhi.2⟩
  · intro hl
    obtain ⟨a, ha, ho⟩ := h.low
    obtain ⟨b, hb, hh⟩ := h.high
    exact ⟨ho ▸ hl a ha, hh ▸ hl b hb⟩

/-- With one value only, the receiver is right when nothing else was counted. -/
lemma Describes.sumsImplied_iff {p : ℚ} {lo hi : ℚ} (h : Describes v (p + mass 1 l) l lo hi)
    (notVaried : ¬ Varied l) : SumsImplied v ↔ p = 0 ∨ ∀ c ∈ l, c.1 = 0 := by
  obtain ⟨a, ha, ho⟩ := h.low
  have hl : ∀ c ∈ l, c.1 = lo := by
    intro c hc
    by_contra hne
    exact notVaried ⟨c, hc, a, ha, ho ▸ hne⟩
  have hz : (∀ c ∈ l, c.1 = 0) ↔ lo = 0 := by
    constructor
    · exact fun h0 => ho.symm.trans (h0 a ha)
    · exact fun h0 c hc => (hl c hc).trans h0
  rw [SumsImplied, h.sum_eq, h.sumSquare_eq, h.counter_eq, h.min_eq, hz,
    mass_of_same hl id, mass_of_same hl (fun x => x * x), id]
  constructor
  · rintro ⟨hs, -⟩
    have hp : p * lo = 0 := by linarith
    exact mul_eq_zero.1 hp
  · rintro (h0 | h0)
    · rw [h0]
      exact ⟨by ring, by ring⟩
    · rw [h0]
      exact ⟨by ring, by ring⟩

lemma received_lossless_iff (sane : v.Sane) {p : ℚ} (h : v.totals = weight (p + mass 1 l) + spots l)
    (hpos : 0 < sf) (g : TagUnion) :
    (received v sf g).totals = v.totals.times sf ↔ Lossless p l sf := by
  rw [received_totals_iff sane hpos g, Lossless, CounterAccepted]
  by_cases hl : l = []
  · subst hl
    have hc : v.counter = p + mass 1 [] := (congrArg Totals.count h).trans (add_zero _)
    have hs : v.valueSet = false := by
      have hmin : (if v.valueSet then (v.valueMin : WithTop ℚ) else ⊤) = ⊤ :=
        congrArg Totals.min h
      cases hs : v.valueSet with
      | false => rfl
      | true =>
        rw [hs, if_pos rfl] at hmin
        cases hmin
    have hv : ¬Varied [] := not_varied_of_same (x := 0) (by simp)
    simp [hs, hc, hv]
  · obtain ⟨lo, hi, hd⟩ := describes_of_totals h hl
    simp only [hd.set, Bool.true_eq_false, and_false, false_or, hl, hd.inRange_iff,
      hd.varied_iff, hd.counter_eq, and_assoc]
    have hm : (Varied l ∨ SumsImplied v) ↔ (Varied l ∨ p = 0 ∨ ∀ c ∈ l, c.1 = 0) := by
      by_cases hv : Varied l
      · simp [hv]
      · simp only [hv, false_or]
        exact hd.sumsImplied_iff hv
    rw [hm]

/-- Counter, value and unique events of one item, in any order, are restored from what an
agent sends of them with all their totals, times the sample factor, exactly when they are
lossless. -/
theorem roundTrip_totals_iff (hasPercentiles : Bool) (es : List (TagUnion × Event))
    (direct : ∀ e ∈ es, Direct e.2) (rng rng2 : Rng) (sf : ℚ) (hpos : 1 ≤ sf) (g : TagUnion) :
    ∃ v rng', run rng es = some (v, rng') ∧
      ∃ v' rng2' err, roundTrip hasPercentiles rng2 v sf g = some (v', rng2', err) ∧
        (v'.value.totals = v.value.totals.times sf ↔
          Lossless (plainCount es) (allPoints es) sf) := by
  obtain ⟨v, rng', hr, hg, had⟩ := run_adds es direct MultiValue.good_zero rng
  obtain ⟨v', rng2', err, ht, hv⟩ :=
    roundTrip_received hasPercentiles rng2 hg.rest sf g
  refine ⟨v, rng', hr, v', rng2', err, ht, ?_⟩
  have ho := had.trans (zero_add _)
  rw [hv]
  exact received_lossless_iff hg.sane ho (zero_lt_one.trans_le hpos) g

/-- Two values beside an event without a value. -/
def twoValues : List (TagUnion × Event) :=
  [({}, .counter 3), ({}, .value 5 1), ({}, .values [(7, 2)] [5] 3 3 false)]

theorem roundTrip_totals_iff_twoValues :
    ∃ v rng', run ⟨fun _ => 0⟩ twoValues = some (v, rng') ∧
      ∃ v' rng2' err, roundTrip false ⟨fun _ => 0⟩ v 2 ⟨[], 9⟩ = some (v', rng2', err) ∧
        v'.value.totals = v.value.totals.times 2 := by
  have direct : ∀ e ∈ twoValues, Direct e.2 := by
    intro e he
    simp only [twoValues, mem_cons, not_mem_nil, or_false] at he
    rcases he with rfl | rfl | rfl
    · exact (by decide +kernel : (0 : ℚ) ≤ 3)
    · exact (by decide +kernel : (0 : ℚ) ≤ 1)
    · exact ⟨by decide +kernel, by decide +kernel⟩
  have lossless : Lossless (plainCount twoValues) (allPoints twoValues) 2 := by
    have varied : Varied (allPoints twoValues) :=
      ⟨(5, 1), by decide +kernel, (7, 2), by decide +kernel, by decide⟩
    exact .inr ⟨by decide +kernel, by decide +kernel, by decide +kernel,
      fun _ => by decide +kernel, .inl varied⟩
  obtain ⟨v, rng', hr, v', rng2', err, ht, hi⟩ := roundTrip_totals_iff false twoValues
    direct ⟨fun _ => 0⟩ ⟨fun _ => 0⟩ 2 (by decide +kernel) ⟨[], 9⟩
  exact ⟨v, rng', hr, v', rng2', err, ht, hi.2 lossless⟩

/-- One value beside three events without a value: its sum is restored as if it had been
seen four times. -/
def oneValue : List (TagUnion × Event) := [({}, .counter 3), ({}, .value 5 1)]

theorem roundTrip_totals_counterexample :
    ∃ v rng', run ⟨fun _ => 0⟩ oneValue = some (v, rng') ∧
      v.value.valueSum = 5 ∧ v.value.valueSumSquare = 25 ∧
      ∃ v' rng2', roundTrip false ⟨fun _ => 0⟩ v 1 ⟨[], 9⟩ = some (v', rng2', none) ∧
        v'.value.valueSum = 20 ∧ v'.value.valueSumSquare = 100 := by
  have ha : ((run ⟨fun _ => 0⟩ oneValue).bind fun r =>
      (roundTrip false ⟨fun _ => 0⟩ r.1 1 ⟨[], 9⟩).map fun r' =>
        (r.1.value.valueSum, r.1.value.valueSumSquare, r'.1.value.valueSum,
          r'.1.value.valueSumSquare, r'.2.2)) = some (5, 25, 20, 100, none) := by
    decide +kernel
  obtain ⟨⟨v, rng'⟩, hr, ht⟩ := Option.bind_eq_some_iff.1 ha
  obtain ⟨⟨v', rng2', e⟩, hv, heq⟩ := Option.map_eq_some_iff.1 ht
  simp only [Prod.mk.injEq] at heq
  obtain ⟨hs, hq, hsu', hsq', rfl⟩ := heq
  exact ⟨v, rng', hr, hs, hq, v', rng2', hv, hsu', hsq'⟩

end RoundTrip
