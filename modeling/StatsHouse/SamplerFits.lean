import StatsHouse.SamplerRows
import Mathlib.Algebra.BigOperators.Ring.List

/-!
# When everything fits

A level keeps its groups in the order of size per weight as long as each fits into its share.
Without budgets of their own, groups that fit together are all kept: the smallest ratio is at
most the common one. A metric with a budget of its own takes part in that order, and when it is
over its budget the loop stops there, also for the groups behind it.
-/

namespace Sampler

open Sampling List Function Int SamplingRow
variable {budget sumWeight : Int} {groups : List SamplerGroup}
  {items rest : List SamplingMultiItemPair} {rows : List SamplingRow} {cfg : SamplerConfig}
  {g s : SamplerGroup} {p : SamplingMultiItemPair} {fixed : List SamplerGroup}
  {ps : List SamplingMultiItemPair} {added : List SamplingRow} {partFs : Nat}
  {previous : Option SamplingMultiItemPair} {x : SamplingMultiItemPair}

lemma Sorter.sorted_of_key {α β : Type} [LinearOrder β] (sorter : Sorter) {less : α → α → Bool}
    (key : α → β) {xs : List α} (h : ∀ a ∈ xs, ∀ b ∈ xs, less a b = true ↔ key a < key b) :
    (sorter.sortSlice less xs).Pairwise fun a b => key a ≤ key b := by
  have hs := sorter.sorted less xs (fun a ha b hb hab hba =>
      lt_asymm ((h a ha b hb).1 hab) ((h b hb a ha).1 hba))
    (fun a ha b hb c hc hab hd he => by
      rw [h a ha b hb, not_lt] at hab
      rw [h b hb c hc, not_lt] at hd
      exact absurd ((h a ha c hc).1 he) (not_lt.2 (hd.trans hab)))
  apply hs.imp_of_mem
  intro a b ha hb hba
  have ha' := (sorter.perm less xs).mem_iff.1 ha
  have hb' := (sorter.perm less xs).mem_iff.1 hb
  exact not_lt.1 fun hlt => hba ((h b hb' a ha').2 hlt)

/-- The size of a group for each unit of its weight. -/
def ratio (s : SamplerGroup) : ℚ := (s.sumSize : ℚ) / s.weight

lemma groupLess_iff {a b : SamplerGroup} (ha : 0 < a.weight) (hb : 0 < b.weight) :
    groupLess a b = true ↔ ratio a < ratio b := by
  have ha' : (0 : ℚ) < a.weight := cast_pos.2 ha
  have hb' : (0 : ℚ) < b.weight := cast_pos.2 hb
  simp only [groupLess, decide_eq_true_eq, ratio, div_lt_div_iff₀ ha' hb']
  exact_mod_cast Iff.rfl

lemma ratio_le_iff {a b : SamplerGroup} (ha : 0 < a.weight) (hb : 0 < b.weight) :
    ratio a ≤ ratio b ↔ a.sumSize * b.weight ≤ b.sumSize * a.weight := by
  rw [← not_lt, ← groupLess_iff hb ha, groupLess, decide_eq_true_eq, not_lt]

/-- The group with the smallest ratio has at most its share. -/
lemma smallest_fits (positive : 0 < s.weight) (others : ∀ t ∈ groups, 0 < t.weight)
    (smallest : ∀ t ∈ groups, ratio s ≤ ratio t) (fits : (groups.map (·.sumSize)).sum ≤ budget) :
    (groups.map (·.weight)).sum * s.sumSize ≤ budget * s.weight := by
  have hs : (groups.map fun t => t.weight * s.sumSize).sum ≤
      (groups.map fun t => t.sumSize * s.weight).sum := by
    refine sum_le_sum fun t ht => ?_
    have hle := (ratio_le_iff positive (others t ht)).1 (smallest t ht)
    rwa [mul_comm t.weight]
  rw [sum_map_mul_right, sum_map_mul_right] at hs
  exact hs.trans (mul_le_mul_of_nonneg_right fits positive.le)

/-- If the groups that share the budget fit together and come before every group that is over
its own budget, the first loop keeps them all. -/
lemma keepLoop_sharing (h : State) (positive : ∀ s ∈ groups, 0 < s.weight)
    (sorted : groups.Pairwise fun a b => ratio a ≤ ratio b)
    (weights : sharing groups ≠ [] → sumWeight = ((sharing groups).map (·.weight)).sum)
    (fits : ((sharing groups).map (·.sumSize)).sum ≤ budget)
    (behind : ∀ f ∈ groups, f.fixedBudget = true → f.budget < f.budgetDenom * f.sumSize →
      ∀ s ∈ sharing groups, ratio s < ratio f) :
    ∀ s ∈ (keepLoop h budget sumWeight groups).groups, s.fixedBudget = true := by
  obtain ⟨kept, hs⟩ := keepLoop_stops h budget sumWeight groups
  generalize keepLoop h budget sumWeight groups = r at hs
  obtain ⟨state, restBudget, restWeight, left⟩ := r
  obtain ⟨rfl, -, hb, hw, -, hn⟩ := hs
  simp only [sharing_append, map_append, sum_append] at hb hw hn weights fits ⊢
  have hp := fun t ht => positive t (mem_append_right kept ht)
  cases left with
  | nil => exact forall_mem_nil _
  | cons s left =>
    obtain ⟨firstLevel, -⟩ := pairwise_cons.1 (pairwise_append.1 sorted).2.1
    have ho := hn s rfl
    cases hf : s.fixedBudget with
    | true =>
      rw [SamplerGroup.share, if_pos hf] at ho
      rintro t (_ | ⟨_, ht⟩)
      · exact hf
      · by_contra ha
        have hm := mem_sharing.2 ⟨.tail s ht, Bool.eq_false_iff.2 ha⟩
        refine absurd (firstLevel t ht) (not_le.2 (behind s (mem_append_right kept (.head _))
          hf ho t ?_))
        rw [sharing_append]
        exact mem_append_right _ hm
    | false =>
      rw [SamplerGroup.share, if_neg (Bool.eq_false_iff.1 hf)] at ho
      have hm : s ∈ sharing (s :: left) := mem_sharing.2 ⟨.head _, hf⟩
      have hd := weights (append_ne_nil_of_right_ne_nil _ (ne_nil_of_mem hm))
      have hc : ((sharing (s :: left)).map (·.weight)).sum * s.sumSize ≤
          restBudget * s.weight := by
        refine smallest_fits (hp s (.head _)) ?_ ?_ (by omega)
        · exact fun t ht => hp t (mem_sharing.1 ht).1
        · rintro t ht
          obtain _ | ⟨_, ht⟩ := (mem_sharing.1 ht).1
          · exact le_refl _
          · exact firstLevel t ht
      have hr : restWeight = ((sharing (s :: left)).map (·.weight)).sum := by omega
      exact absurd ho (not_lt.2 (hr ▸ hc))

/-- What a caller that sets budgets keeps to: rows of one metric carry one budget and one
metadata. -/
structure PerMetric (cfg : SamplerConfig) (rows : List SamplingRow) : Prop where
  budget : ∀ p ∈ rows, ∀ q ∈ rows, p.metricID = q.metricID → p.budget = q.budget
  metric : ∀ p ∈ rows, ∀ q ∈ rows, p.metricID = q.metricID → metricOf cfg p = metricOf cfg q

/-- A row with its metadata. -/
def dress (cfg : SamplerConfig) (p : SamplingRow) : SamplingMultiItemPair :=
  setFairKey cfg { p.pair with metric := metricOf cfg p }

@[simp] lemma dress_row (cfg : SamplerConfig) (p : SamplingRow) :
    (dress cfg p).toSamplingRow = p := setFairKey_row cfg _

@[simp] lemma dress_metric (cfg : SamplerConfig) (p : SamplingRow) :
    (dress cfg p).metric = metricOf cfg p := by
  unfold dress setFairKey
  split_ifs <;> rfl

lemma length_setFairKeys (tags index keys : List Int) :
    (setFairKeys tags index keys).length = keys.length := by
  induction index generalizing keys with
  | nil => cases keys <;> rfl
  | cons x index ih =>
    cases keys with
    | nil => rfl
    | cons key keys => simp [setFairKeys, ih]

lemma length_fairKey_dress (cfg : SamplerConfig) (p : SamplingRow) :
    (dress cfg p).fairKey.length = maxFairKeyLen := by
  unfold dress setFairKey
  split_ifs
  · exact (length_setFairKeys _ _ _).trans length_replicate
  · exact length_replicate

lemma fairKeyLen_dress {p q : SamplingRow} (h : metricOf cfg p = metricOf cfg q) :
    (dress cfg p).fairKeyLen = (dress cfg q).fairKeyLen := by
  unfold dress setFairKey
  simp only [h]
  split_ifs <;> rfl

/-- The comparison before the fair keys. -/
def metricKey (p : SamplingMultiItemPair) : List Int :=
  [if p.budget = 0 then 1 else 0, p.metric.namespaceID, p.metric.groupID, p.metricID]

def rowKey (p : SamplingMultiItemPair) : List Int := metricKey p ++ p.fairKey.take p.fairKeyLen

lemma fairKeyLess_iff (n : Nat) {as bs : List Int} (h : as.length = bs.length) :
    fairKeyLess n as bs = true ↔ as.take n < bs.take n := by
  induction n generalizing as bs with
  | zero => simp [fairKeyLess]
  | succ n ih =>
    cases as with
    | nil => cases length_eq_zero_iff.1 h.symm; simp [fairKeyLess]
    | cons a as =>
      cases bs with
      | nil => cases h
      | cons b bs =>
        have hl := Nat.succ.inj h
        simp only [fairKeyLess, take_succ_cons, cons_lt_cons_iff]
        split_ifs with hab
        · simp [hab]
        · rw [not_not.1 hab, ih hl]
          simp

variable {a b : SamplingMultiItemPair}

lemma rowLess_iff
    (sameLen : a.metricID = b.metricID → a.fairKeyLen = b.fairKeyLen)
    (hlen : a.fairKey.length = b.fairKey.length) : rowLess a b = true ↔ rowKey a < rowKey b := by
  unfold rowLess rowKey metricKey
  simp only [cons_append, nil_append, cons_lt_cons_iff]
  by_cases hu : (a.budget != 0) = (b.budget != 0)
  · have firstLevel : (if a.budget = 0 then (1 : Int) else 0) = if b.budget = 0 then 1 else 0 := by
      by_cases ha : a.budget = 0 <;> by_cases hb : b.budget = 0 <;> simp_all
    rw [if_neg (by simp [hu]), firstLevel]
    simp only [lt_irrefl, false_or, true_and]
    split_ifs with hn hg hm
    · simp [hn]
    · simp [not_not.1 hn, hg]
    · simp [not_not.1 hn, not_not.1 hg, hm]
    · have hs := not_not.1 hm
      simp only [not_not.1 hn, not_not.1 hg, hs, lt_irrefl, false_or, true_and]
      rw [fairKeyLess_iff _ hlen, ← sameLen hs]
  · rw [if_pos (by simpa using hu)]
    by_cases ha : a.budget = 0
    · by_cases hb : b.budget = 0
      · exact absurd (by rw [ha, hb]) hu
      · simp [ha, hb]
    · by_cases hb : b.budget = 0
      · simp [ha, hb]
      · exact absurd (by rw [bne_iff_ne.2 ha, bne_iff_ne.2 hb]) hu

/-- Rows with a smaller key before the fair keys come first. -/
lemma metricKey_le (h : rowKey a ≤ rowKey b) :
    metricKey a ≤ metricKey b := by
  by_contra hlt
  refine absurd h (not_le.2 ?_)
  rw [not_le] at hlt
  unfold rowKey
  simp only [metricKey, cons_append, nil_append, cons_lt_cons_iff,
    not_lt_nil, and_false, or_false] at hlt ⊢
  obtain hb | ⟨hb, hn | ⟨hn, hg | ⟨hg, hm⟩⟩⟩ := hlt
  · exact .inl hb
  · exact .inr ⟨hb, .inl hn⟩
  · exact .inr ⟨hb, .inr ⟨hn, .inl hg⟩⟩
  · exact .inr ⟨hb, .inr ⟨hn, .inr ⟨hg, .inl hm⟩⟩⟩

section Rows

variable {cfg : SamplerConfig} {rows : List SamplingRow}

lemma queryMetrics_dress (perMetric : PerMetric cfg rows) {xs : List SamplingRow}
    (hadded : ∀ p ∈ xs, p ∈ rows) (dressed : ∀ q ∈ previous, ∃ p ∈ rows, q = dress cfg p) :
    queryMetrics cfg previous (xs.map pair) = xs.map (dress cfg) := by
  induction xs generalizing previous with
  | nil => rfl
  | cons p xs ih =>
    have hp := hadded p (.head _)
    have hm : queriedMetric cfg previous p = metricOf cfg p := by
      cases previous with
      | none => rfl
      | some q =>
        obtain ⟨p', hp', rfl⟩ := dressed q rfl
        simp only [queriedMetric, dress_row, dress_metric]
        split_ifs with hs
        · exact perMetric.metric p' hp' p hp hs.symm
        · rfl
    have hr : p.pair.toSamplingRow = p := rfl
    simp only [map_cons, queryMetrics, hr, hm]
    refine congrArg (dress cfg p :: ·) (ih (fun q hq => hadded q (.tail p hq)) ?_)
    rintro q hq
    cases hq
    exact ⟨p, hp, rfl⟩

/-- The rows in order: those with a budget first, and the rows of one metric together. -/
structure Ordered (cfg : SamplerConfig) (rows : List SamplingRow)
    (items : List SamplingMultiItemPair) : Prop where
  perm : items.Perm (rows.map (dress cfg))
  sorted : items.Pairwise fun a b => metricKey a ≤ metricKey b

lemma prepare_ordered (sorter : Sorter) (perMetric : PerMetric cfg rows) :
    Ordered cfg rows (prepare cfg sorter (rows.map pair)) := by
  unfold prepare
  have hr := sorter.perm (fun a b => decide (a.metricID < b.metricID)) (rows.map pair)
  generalize sorter.sortSlice (fun a b => decide (a.metricID < b.metricID))
    (rows.map pair) = xs at hr
  have hc : xs = (xs.map (·.toSamplingRow)).map pair := by
    rw [map_map]
    refine (map_id xs).symm.trans (map_congr_left fun x hx => ?_)
    obtain ⟨p, _, rfl⟩ := mem_map.1 (hr.mem_iff.1 hx)
    rfl
  have hw : (xs.map (·.toSamplingRow)).Perm rows := by
    simpa [comp_def, pair] using hr.map (·.toSamplingRow)
  have hm : ∀ p ∈ xs.map (·.toSamplingRow), p ∈ rows := fun p hp => hw.mem_iff.1 hp
  rw [hc, queryMetrics_dress perMetric hm fun q hq => by cases hq]
  generalize xs.map (·.toSamplingRow) = ys at hw hm
  refine ⟨(sorter.perm _ _).trans (hw.map _), ?_⟩
  refine (sorter.sorted_of_key rowKey ?_).imp metricKey_le
  intro a ha b hb
  obtain ⟨p, hp, rfl⟩ := mem_map.1 ha
  obtain ⟨q, hq, rfl⟩ := mem_map.1 hb
  apply rowLess_iff
  · intro hs
    rw [dress_row, dress_row] at hs
    exact fairKeyLen_dress (perMetric.metric p (hm p hp) q (hm q hq) hs)
  · rw [length_fairKey_dress, length_fairKey_dress]

lemma Ordered.mem (h : Ordered cfg rows items) (hx : x ∈ items) : ∃ p ∈ rows, x = dress cfg p := by
  obtain ⟨p, hp, rfl⟩ := mem_map.1 (h.perm.mem_iff.1 hx)
  exact ⟨p, hp, rfl⟩

/-- Before the fair keys only the metric counts. -/
lemma Ordered.metricKey_eq_iff (h : Ordered cfg rows items) (perMetric : PerMetric cfg rows)
    (ha : a ∈ items) (hb : b ∈ items) :
    metricKey a = metricKey b ↔ a.metricID = b.metricID := by
  obtain ⟨p, hp, rfl⟩ := h.mem ha
  obtain ⟨q, hq, rfl⟩ := h.mem hb
  unfold metricKey
  simp only [dress_row, dress_metric]
  constructor
  · intro heq
    simp only [cons.injEq] at heq
    exact heq.2.2.2.1
  · intro hs
    rw [perMetric.metric p hp q hq hs, perMetric.budget p hp q hq hs, hs]

end Rows

/-- Where the rows of a metric stand together, they are cut into one group. -/
lemma metricLoop_whole (partFs : Nat) (first : SamplingMultiItemPair)
    (others : List SamplingMultiItemPair) (sumSize : Int) (rest : List SamplingMultiItemPair)
    (same : ∀ p ∈ first :: others, p.metricID = first.metricID)
    (sorted : (first :: others ++ rest).Pairwise fun a b => metricKey a ≤ metricKey b)
    (key : ∀ a ∈ first :: others ++ rest, ∀ b ∈ first :: others ++ rest,
      metricKey a = metricKey b ↔ a.metricID = b.metricID) :
    ∀ s ∈ (partitionLoop (fun a b => a.metricID ≠ b.metricID) (fixedGroup partFs) first
        (first :: others) sumSize rest).1, ∀ x ∈ s.items,
      (first :: others ++ rest).filter (fun q => q.metricID = x.metricID) = s.items := by
  induction rest generalizing first others sumSize with
  | nil =>
    intro s hs x hx
    obtain rfl := mem_singleton.1 hs
    rw [append_nil]
    exact filter_eq_self.2 fun q hq => by simp [same q hq, same x hx]
  | cons p rest ih =>
    rw [partitionLoop]
    split_ifs with hd
    · have hp := pairwise_append.1 sorted
      have hne : ∀ a ∈ first :: others, ∀ q ∈ p :: rest, q.metricID ≠ a.metricID := by
        intro a ha q hq heq
        have hk := (key q (mem_append_right _ hq) first (.head _)).2 (heq.trans (same a ha))
        have hle : metricKey p ≤ metricKey q := by
          rcases mem_cons.1 hq with rfl | hq
          · exact le_rfl
          · exact (pairwise_cons.1 hp.2.1).1 q hq
        have firstLevel := hp.2.2 first (.head _) p (.head _)
        exact of_decide_eq_true hd ((key first (.head _) p
          (mem_append_right _ (.head _))).1 (le_antisymm firstLevel (hk ▸ hle)))
      rintro s (_ | ⟨_, hs⟩) x hx
      · rw [filter_append, filter_eq_self.2 fun q hq => by simp [same q hq, same x hx],
          filter_eq_nil_iff.2 (by simpa using hne x hx), append_nil]
        rfl
      · have hc := ih p [] (0 + p.size) (by simp) hp.2.1
          (fun a ha b hb => key a (mem_append_right _ ha) b (mem_append_right _ hb)) s hs x hx
        have hm : x ∈ p :: rest := (mem_filter.1 (hc.symm ▸ hx)).1
        rw [filter_append, filter_eq_nil_iff.2 fun a ha => by simpa using (hne a ha x hm).symm]
        exact hc
    · have hi : first.metricID = p.metricID := by simpa using hd
      have hr := ih first (others ++ [p]) (sumSize + p.size)
        (by simpa [hi, or_imp, forall_and] using same)
        (by simpa only [cons_append, append_assoc, nil_append] using sorted)
        (by simpa only [cons_append, append_assoc, nil_append] using key)
      simpa only [cons_append, append_assoc, nil_append] using hr

/-- A row without a budget of its own. -/
def ordinary (cfg : SamplerConfig) (p : SamplingRow) : Bool := !(cfg.sampleBudgets && p.budget != 0)

/-- The function that cuts those rows first. -/
def SamplerConfig.topF (cfg : SamplerConfig) : PartitionFunc := cfg.plainF.headD .byMetric

def rowSizes (rows : List SamplingRow) : Int := (rows.map (·.size)).sum

def metricSize (rows : List SamplingRow) (p : SamplingRow) : Int :=
  rowSizes (rows.filter fun q => q.metricID = p.metricID)

/-- The size of the namespace, group or metric of a row on the first level. -/
def topSize (cfg : SamplerConfig) (rows : List SamplingRow) (p : SamplingRow) : Int :=
  rowSizes (rows.filter fun q =>
    ordinary cfg q && cfg.topF.key (dress cfg q) == cfg.topF.key (dress cfg p))

def topWeight (cfg : SamplerConfig) (p : SamplingRow) : Int := cfg.topF.weight cfg (dress cfg p)

/-- The rows that wait for the run. -/
def waiting (added : List SamplingRow) : List SamplingRow := added.filter fun p => 1 ≤ p.size

/-- The rows with budgets of their own do not stop those without one: a metric that is over its
own budget is larger, for each unit of weight, than every group that shares the budget. -/
structure Independent (cfg : SamplerConfig) (added : List SamplingRow) : Prop where
  positive : ∀ p ∈ added, ordinary cfg p = true → 1 ≤ p.size
  weights : ∀ p ∈ added, 0 < (metricOf cfg p).effectiveWeight
  perMetric : cfg.sampleBudgets = true → PerMetric cfg (waiting added)
  behind : ∀ f ∈ waiting added, ordinary cfg f = false → f.budget < metricSize (waiting added) f →
    ∀ p ∈ waiting added, ordinary cfg p = true →
      topSize cfg (waiting added) p < metricSize (waiting added) f * topWeight cfg p

/-- What the first level knows about its groups. -/
structure FirstLevel (cfg : SamplerConfig) (rows : List SamplingRow) (groups : List SamplerGroup)
    (sumWeight : Int) : Prop where
  positive : ∀ s ∈ groups, 0 < s.weight
  weights : sharing groups ≠ [] → sumWeight = ((sharing groups).map (·.weight)).sum
  rows : ((groupItems (sharing groups)).map (·.toSamplingRow)).Perm (rows.filter (ordinary cfg))
  behind : ∀ f ∈ groups, f.fixedBudget = true → f.budget < f.budgetDenom * f.sumSize →
    ∀ s ∈ sharing groups, ratio s < ratio f

lemma FirstLevel.sumSize (h : FirstLevel cfg rows groups sumWeight)
    (partitioned : Partitioned g groups) :
    ((sharing groups).map (·.sumSize)).sum = rowSizes (rows.filter (ordinary cfg)) := by
  have hgrs : ∀ gs : List SamplerGroup, (∀ s ∈ gs, s.sumSize = sizes s.items) →
      (gs.map (·.sumSize)).sum = sizes (groupItems gs) := by
    intro gs hg
    induction gs with
    | nil => rfl
    | cons s gs ih =>
      have hc : groupItems (s :: gs) = s.items ++ groupItems gs := rfl
      rw [map_cons, sum_cons, hc, sizes_append, hg s (.head _), ih fun t ht => hg t (.tail s ht)]
  rw [hgrs _ fun s hs => (partitioned.sound s (mem_sharing.1 hs).1).2]
  simpa [sizes, rowSizes, comp_def] using (h.rows.map (·.size)).sum_eq

lemma plainF_topF (cfg : SamplerConfig) :
    cfg.plainF[0]? = some cfg.topF ∧ cfg.topF ≠ .byBudget := by
  unfold SamplerConfig.topF SamplerConfig.plainF
  split_ifs <;> simp

lemma partition_without_budgets (budgets : cfg.sampleBudgets = false)
    (items : List SamplingMultiItemPair) (budget : Int) : partition cfg (rootGroup items budget) =
      partitionPlain cfg (rootGroup items budget) cfg.topF := by
  obtain ⟨ht, hne⟩ := plainF_topF cfg
  have firstLevel : cfg.partF[(rootGroup items budget).depth]? = some cfg.topF := by
    simpa [SamplerConfig.partF, budgets, rootGroup] using ht
  unfold partition
  rw [firstLevel]
  split
  · contradiction
  · rename_i heq
    exact absurd (Option.some.inj heq) hne
  · rename_i heq
    rw [Option.some.inj heq]

lemma partition_with_budgets (budgets : cfg.sampleBudgets = true)
    (items : List SamplingMultiItemPair) (budget : Int) :
    partition cfg (rootGroup items budget) = partitionByBudget cfg (rootGroup items budget) ∧
      cfg.partF[(rootGroup items budget).depth + 1]? = some cfg.topF := by
  constructor
  · have firstLevel : cfg.partF[(rootGroup items budget).depth]? = some .byBudget := by
      simp [SamplerConfig.partF, budgets, rootGroup]
    unfold partition
    rw [firstLevel]
  · simpa [SamplerConfig.partF, budgets, rootGroup] using (plainF_topF cfg).1

lemma mem_groupItems (hs : s ∈ groups) (hp : p ∈ s.items) : p ∈ groupItems groups :=
  mem_flatten.2 ⟨s.items, mem_map_of_mem hs, hp⟩

/-- Without budgets of their own all groups share. -/
lemma firstLevel_without_budgets (budgets : cfg.sampleBudgets = false)
    (perm : (items.map (·.toSamplingRow)).Perm rows)
    (weights : ∀ x ∈ items, 0 < x.metric.effectiveWeight)
    (parts : partition cfg (rootGroup items budget) = some (groups, sumWeight)) :
    FirstLevel cfg rows groups sumWeight := by
  rw [partition_without_budgets budgets] at parts
  obtain ⟨hl, ha⟩ := partitionPlain_level parts
  have hc : groupItems groups = items := hl.cover
  have hh := sharing_eq_self ha
  refine ⟨?_, hl.weights, ?_, ?_⟩
  · intro s hs
    exact hl.positive s hs fun p hp => weights p (hc ▸ mem_groupItems hs hp)
  · have hb : rows.filter (ordinary cfg) = rows :=
      filter_eq_self.2 fun p _ => by simp [ordinary, budgets]
    rw [hh, hc, hb]
    exact perm
  · intro f hf hx
    rw [ha f hf] at hx
    cases hx

lemma sizes_le_of_sublist {as bs : List SamplingMultiItemPair} (h : as.Sublist bs)
    (hsizes : ∀ p ∈ bs, 1 ≤ p.size) : sizes as ≤ sizes bs := by
  refine List.Sublist.sum_le_sum (h.map _) fun a ha => ?_
  obtain ⟨p, hp, rfl⟩ := mem_map.1 ha
  have := hsizes p hp
  omega

section Budgets

variable {cfg : SamplerConfig} {rows : List SamplingRow} {items before : List SamplingMultiItemPair}

/-- Behind a row without a budget there are only such rows. -/
lemma Ordered.budget_eq_zero (h : Ordered cfg rows items) (joined : before ++ rest = items)
    (hh : ∀ q ∈ rest.head?, q.budget = 0) : ∀ x ∈ rest, x.budget = 0 := by
  have hs := (pairwise_append.1 (joined ▸ h.sorted)).2.1
  cases rest with
  | nil => exact forall_mem_nil _
  | cons q rest =>
    have hq := hh q rfl
    rintro x (_ | ⟨_, hx⟩)
    · exact hq
    · by_contra hb
      have hle := (pairwise_cons.1 hs).1 x hx
      refine absurd hle (not_le.2 ?_)
      simp [metricKey, hq, hb, cons_lt_cons_iff]

/-- The loop divides the rows into those with a budget of their own and the others. -/
lemma budgetLoop_divides (h : Ordered cfg rows items) (perMetric : PerMetric cfg rows)
    (hit : items = p :: ps) (loop : budgetLoop partFs p [p] p.size ps = (fixed, rest)) :
    groupItems fixed ++ rest = items ∧ (∀ x ∈ groupItems fixed, x.budget ≠ 0) ∧
      ∀ x ∈ rest, x.budget = 0 := by
  obtain ⟨hc, hm, hl⟩ := budgetLoop_cuts partFs p ps
  rw [loop] at hc hm hl
  have hp : groupItems fixed ++ rest = items := hit ▸ hc
  refine ⟨hp, ?_, h.budget_eq_zero hp hl⟩
  intro x hx
  obtain ⟨xs, ha, hx⟩ := mem_flatten.1 hx
  obtain ⟨s, hs, rfl⟩ := mem_map.1 ha
  obtain ⟨q, qs, rfl, hb, hd⟩ := hm s hs
  have hin : ∀ y ∈ q :: qs, ∃ r ∈ rows, y = dress cfg r := fun y hy =>
    h.mem (hp ▸ mem_append_left rest (mem_groupItems hs hy))
  obtain ⟨r, hr, rfl⟩ := hin q (.head _)
  obtain ⟨r', hr', rfl⟩ := hin x hx
  have hi : r'.metricID = r.metricID := by
    rcases mem_cons.1 hx with heq | hx
    · simpa using congrArg (·.metricID) heq
    · simpa using hd _ hx
  simp only [dress_row] at hb ⊢
  rw [perMetric.budget r' hr' r hr hi]
  exact hb.ne'

lemma Ordered.sizes_filter (h : Ordered cfg rows items) (keep : SamplingRow → Bool) :
    sizes (items.filter fun x => keep x.toSamplingRow) = rowSizes (rows.filter keep) := by
  have hp := ((h.perm.filter fun x => keep x.toSamplingRow).map (·.size)).sum_eq
  rw [filter_map] at hp
  simpa [sizes, rowSizes, comp_def] using hp

lemma ordinary_iff (budgets : cfg.sampleBudgets = true) (p : SamplingRow) :
    ordinary cfg p = true ↔ p.budget = 0 := by
  simp [ordinary, budgets]

/-- A group that shares the budget has the weight of its rows and at most their size on the
first level. -/
lemma sharing_bounds (budgets : cfg.sampleBudgets = true) (h : Ordered cfg rows items)
    (sizes : ∀ p ∈ rows, 1 ≤ p.size) (joined : before ++ rest = items)
    (unbudgeted : ∀ x ∈ rest, x.budget = 0) (hg : g.items = rest)
    (parts : partitionPlain cfg g cfg.topF = some (groups, sumWeight)) (hs : s ∈ groups) :
    ∃ p ∈ rows, ordinary cfg p = true ∧ s.weight = topWeight cfg p ∧
      s.sumSize ≤ topSize cfg rows p := by
  obtain ⟨partitioned, -, hm⟩ := partitionPlain_partitioned parts
  obtain ⟨-, -, first, firstLevel, hw, hy⟩ := hm s hs
  have hc := partitioned.cover.trans hg
  have hin : ∀ x ∈ s.items, x ∈ rest := fun x hx => hc ▸ mem_groupItems hs hx
  have hi : ∀ x ∈ rest, x ∈ items := fun x hx => joined ▸ mem_append_right before hx
  obtain ⟨p, hp, rfl⟩ := h.mem (hi _ (hin first firstLevel))
  have hb : p.budget = 0 := by simpa using unbudgeted _ (hin _ firstLevel)
  refine ⟨p, hp, (ordinary_iff budgets p).2 hb, hw, ?_⟩
  have hk : s.items.filter (fun x => ordinary cfg x.toSamplingRow &&
      cfg.topF.key (dress cfg x.toSamplingRow) == cfg.topF.key (dress cfg p)) = s.items := by
    refine filter_eq_self.2 fun x hx => ?_
    have hx0 := unbudgeted x (hin x hx)
    have ha := hy x hx
    obtain ⟨q, _, rfl⟩ := h.mem (hi x (hin x hx))
    simp only [dress_row] at hx0 ⊢
    simp [ha, (ordinary_iff budgets q).2 hx0]
  have hd : s.items.Sublist items := by
    have hr : s.items.Sublist rest := by
      rw [← hc]
      exact sublist_flatten_of_mem (mem_map_of_mem hs)
    exact hr.trans (joined ▸ sublist_append_right before rest)
  have hle := sizes_le_of_sublist (hd.filter fun x => ordinary cfg x.toSamplingRow &&
      cfg.topF.key (dress cfg x.toSamplingRow) == cfg.topF.key (dress cfg p)) fun x hx => by
    obtain ⟨q, hq, rfl⟩ := h.mem (mem_filter.1 hx).1
    simpa using sizes q hq
  rw [hk, h.sizes_filter fun q => ordinary cfg q &&
    cfg.topF.key (dress cfg q) == cfg.topF.key (dress cfg p)] at hle
  rw [(partitioned.sound s hs).2]
  exact hle

/-- A group with a budget of its own has the rows of one metric. -/
lemma fixed_bounds (h : Ordered cfg rows items) (perMetric : PerMetric cfg rows)
    (hit : items = p :: ps) (loop : budgetLoop partFs p [p] p.size ps = (fixed, rest))
    {f : SamplerGroup} (hf : f ∈ fixed) : f.fixedBudget = true ∧ f.weight = 1 ∧ f.budgetDenom = 1 ∧
      ∃ q ∈ rows, q.budget ≠ 0 ∧ f.budget = q.budget ∧ f.sumSize = metricSize rows q := by
  obtain ⟨hp, hd, _⟩ := budgetLoop_divides h perMetric hit loop
  obtain ⟨_, hm, _⟩ := budgetLoop_cuts partFs p ps
  have hw := metricLoop_whole partFs p [] p.size ps (by simp) (by simpa [hit] using h.sorted)
    (fun a ha b hb => h.metricKey_eq_iff perMetric (hit ▸ ha) (hit ▸ hb)) f
  rw [loop] at hm
  obtain ⟨rfl, -⟩ := Prod.mk.inj ((budgetLoop_eq ..).symm.trans loop)
  obtain ⟨q, qs, rfl, _, _⟩ := hm f hf
  have hl : items.filter (fun x => x.metricID = q.metricID) = q :: qs :=
    hit ▸ hw (takeWhile_subset _ hf) q (.head _)
  refine ⟨rfl, rfl, rfl, ?_⟩
  have hq := mem_groupItems hf (.head _)
  have hu := hd q hq
  obtain ⟨r, hr, rfl⟩ := h.mem (hp ▸ mem_append_left rest hq)
  refine ⟨r, hr, by simpa using hu, by simp [fixedGroup], ?_⟩
  have hs := h.sizes_filter fun x => x.metricID = r.metricID
  simp only [dress_row] at hl
  rw [hl] at hs
  exact hs

lemma firstLevel_with_budgets (budgets : cfg.sampleBudgets = true) (h : Ordered cfg rows items)
    (perMetric : PerMetric cfg rows) (sizes : ∀ p ∈ rows, 1 ≤ p.size)
    (weights : ∀ p ∈ rows, 0 < (metricOf cfg p).effectiveWeight)
    (behind : ∀ f ∈ rows, ordinary cfg f = false → f.budget < metricSize rows f →
      ∀ p ∈ rows, ordinary cfg p = true → topSize cfg rows p < metricSize rows f * topWeight cfg p)
    (parts : partition cfg (rootGroup items budget) = some (groups, sumWeight)) :
    FirstLevel cfg rows groups sumWeight := by
  have hl := partition_level parts
  obtain ⟨hy, hn⟩ := partition_with_budgets budgets items budget
  rw [hy] at parts
  obtain ⟨hj, rfl⟩ | ⟨p, ps, fixed, rest, others, hit, hb, rfl, hk⟩ :=
    partitionByBudget_cases parts
  · have hw : rows = [] := by
      have hp := h.perm
      rw [show items = [] from hj] at hp
      simpa using hp.symm.eq_nil
    rw [hw]
    exact ⟨forall_mem_nil _, fun hne => absurd rfl hne, List.Perm.nil, (forall_mem_nil _)⟩
  obtain ⟨hc, hm, hd⟩ := budgetLoop_divides h perMetric hit hb
  have he := fun f hf => fixed_bounds h perMetric hit hb (f := f) hf
  have hv : groupItems others = rest ∧ (∀ s ∈ others, s.fixedBudget = false) ∧
      ∀ s ∈ others, ∃ q ∈ rows, ordinary cfg q = true ∧ s.weight = topWeight cfg q ∧
        s.sumSize ≤ topSize cfg rows q := by
    obtain ⟨rfl, rfl⟩ | ⟨f, hf, hg⟩ := hk
    · exact ⟨rfl, forall_mem_nil _, (forall_mem_nil _)⟩
    · obtain rfl : cfg.topF = f := Option.some.inj (hn.symm.trans hf)
      obtain ⟨hrst, hu⟩ := partitionPlain_level hg
      exact ⟨hrst.cover, hu, fun s hs => sharing_bounds budgets h sizes hc hd rfl hg hs⟩
  obtain ⟨ht, hu, hbn⟩ := hv
  have hh : sharing (fixed ++ others) = others := by
    rw [sharing_append, sharing_eq_nil fun f hf => (he f hf).1, sharing_eq_self hu, nil_append]
  have ha : ∀ s ∈ fixed ++ others, 0 < s.weight := by
    intro s hs
    refine hl.positive s hs fun x hx => ?_
    obtain ⟨q, hq, rfl⟩ := h.mem (hl.cover ▸ mem_groupItems hs hx)
    simpa using weights q hq
  refine ⟨ha, hl.weights, ?_, ?_⟩
  · have hz : items.filter (fun x => x.budget = 0) = rest := by
      rw [← hc, filter_append, filter_eq_nil_iff.2 (by simpa using hm),
        filter_eq_self.2 (by simpa using hd), nil_append]
    rw [hh, ht, ← hz]
    have hp := (h.perm.filter fun x => x.budget = 0).map (·.toSamplingRow)
    rw [filter_map] at hp
    have hsa : rows.filter (ordinary cfg) = rows.filter fun q => q.budget = 0 :=
      filter_congr fun q _ => by
        rw [Bool.eq_iff_iff, ordinary_iff budgets, decide_eq_true_eq]
    rw [hsa]
    simpa [comp_def] using hp
  · intro f hf hfx' ho s hs
    rw [hh] at hs
    obtain ⟨q, hq, hor, hwt, hle⟩ := hbn s hs
    rcases mem_append.1 hf with hf | hf
    · obtain ⟨_, hon, hdn, r, hr, hbu, how, hi⟩ := he f hf
      rw [hdn, one_mul, how, hi] at ho
      have hnt := Bool.eq_false_iff.2 fun htr => hbu ((ordinary_iff budgets r).1 htr)
      have hlt := behind r hr hnt ho q hq hor
      refine lt_of_not_ge fun hge => ?_
      have hge := (ratio_le_iff (ha f (mem_append_left _ hf))
        (ha s (mem_append_right _ hs))).1 hge
      rw [hon, hi, hwt] at hge
      omega
    · rw [hu f hf] at hfx'
      cases hfx'

end Budgets

lemma queryMetrics_metric (hx : x ∈ queryMetrics cfg previous items) :
    (∃ q ∈ previous, x.metric = q.metric) ∨
      ∃ p ∈ items, x.metric = metricOf cfg p.toSamplingRow := by
  have hk p : (setFairKey cfg p).metric = p.metric := by
    unfold setFairKey
    split_ifs <;> rfl
  have hr previous p :
      (∃ q ∈ previous, queriedMetric cfg previous p = q.metric) ∨
        queriedMetric cfg previous p = metricOf cfg p := by
    unfold queriedMetric
    split
    · rename_i q
      split_ifs
      · exact .inl ⟨q, rfl, rfl⟩
      · exact .inr rfl
    · exact .inr rfl
  induction items generalizing previous with
  | nil => cases hx
  | cons p items ih =>
    simp only [queryMetrics, mem_cons] at hx
    have firstLevel := hr previous p.toSamplingRow
    rcases hx with rfl | hx
    · rw [hk]
      rcases firstLevel with firstLevel | firstLevel
      · exact .inl firstLevel
      · exact .inr ⟨p, .head _, firstLevel⟩
    · rcases ih hx with ⟨q, hq, hm⟩ | ⟨q, hq, hm⟩
      · rw [hm, ← Option.some.inj hq, hk]
        rcases firstLevel with firstLevel | firstLevel
        · exact .inl firstLevel
        · exact .inr ⟨p, .head _, firstLevel⟩
      · exact .inr ⟨q, .tail p hq, hm⟩

lemma add_items (h : State) (p : SamplingRow) :
    (h.add p).items = h.items ++ (waiting [p]).map pair := by
  unfold State.add waiting
  by_cases hs : p.size < 1
  · have hn : ¬1 ≤ p.size := by omega
    simp [hs, hn]
  · have hw : 1 ≤ p.size := by omega
    simp [hs, hw]

lemma add_all_items (h : State) (added : List SamplingRow) :
    (added.foldl State.add h).items = h.items ++ (waiting added).map pair := by
  induction added generalizing h with
  | nil => simp [waiting]
  | cons p added ih =>
    have hc : waiting (p :: added) = waiting [p] ++ waiting added := by
      simp only [waiting, filter_cons, filter_nil]
      split_ifs <;> rfl
    rw [foldl_cons, ih, add_items, hc, map_append, append_assoc]

/-- The rows in order, cut into groups. -/
lemma prepare_firstLevel (independent : Independent cfg added) (sorter : Sorter)
    (parts : partition cfg (rootGroup (prepare cfg sorter ((waiting added).map pair)) budget) =
        some (groups, sumWeight)) : FirstLevel cfg (waiting added) groups sumWeight := by
  have had : ∀ p ∈ waiting added, p ∈ added := fun p hp => (mem_filter.1 hp).1
  cases hb : cfg.sampleBudgets with
  | true =>
    have perMetric := independent.perMetric hb
    exact firstLevel_with_budgets hb (prepare_ordered sorter perMetric) perMetric
      (fun p hp => of_decide_eq_true (mem_filter.1 hp).2)
      (fun p hp => independent.weights p (had p hp)) independent.behind parts
  | false =>
    refine firstLevel_without_budgets hb ?_ ?_ parts
    · simpa [comp_def, pair] using prepare_rows cfg sorter ((waiting added).map pair)
    · intro x hx
      rcases queryMetrics_metric ((sorter.perm _ _).mem_iff.1 hx) with
        ⟨q, hq, _⟩ | ⟨q, hq, hm⟩
      · cases hq
      · obtain ⟨p, hp, rfl⟩ := mem_map.1 ((sorter.perm _ _).mem_iff.1 hq)
        rw [hm]
        exact independent.weights p (had p hp)

section Keeps

variable (firstLevel : FirstLevel cfg rows groups sumWeight) (partitioned : Partitioned g groups)
  (sorter : Sorter) (h : State) (fits : rowSizes (rows.filter (ordinary cfg)) ≤ budget)
include firstLevel partitioned fits

/-- What the first loop leaves has budgets of its own. -/
lemma FirstLevel.left_fixed :
    ∀ s ∈ (keepLoop h budget sumWeight (sorter.sortSlice groupLess groups)).groups,
      s.fixedBudget = true := by
  have hr := sorter.perm groupLess groups
  have hm : ∀ s ∈ sorter.sortSlice groupLess groups, s ∈ groups := fun s hs => hr.mem_iff.1 hs
  have hh : (sharing (sorter.sortSlice groupLess groups)).Perm (sharing groups) := hr.filter _
  apply keepLoop_sharing
  · exact fun s hs => firstLevel.positive s (hm s hs)
  · exact sorter.sorted_of_key ratio fun a ha b hb =>
      groupLess_iff (firstLevel.positive a ha) (firstLevel.positive b hb)
  · intro hne
    rw [(hh.map (·.weight)).sum_eq]
    exact firstLevel.weights fun hn => hne (List.Perm.eq_nil (hn ▸ hh))
  · rw [(hh.map (·.sumSize)).sum_eq, firstLevel.sumSize partitioned]
    exact fits
  · intro f hf hx ho s hs
    exact firstLevel.behind f (hm f hf) hx ho s (hh.mem_iff.1 hs)

/-- So it keeps the rows that share the budget. -/
lemma FirstLevel.keeps :
    ((rows.filter (ordinary cfg)).map keptWhole).Subperm
      (keepLoop h budget sumWeight (sorter.sortSlice groupLess groups)).state.calls := by
  obtain ⟨kept, hs⟩ := keepLoop_stops h budget sumWeight (sorter.sortSlice groupLess groups)
  have hb : (groupItems (sharing (sorter.sortSlice groupLess groups))).Sublist
      (groupItems kept) := by
    rw [hs.split, sharing_append, sharing_eq_nil (firstLevel.left_fixed partitioned sorter h fits),
      append_nil]
    exact ((filter_sublist).map _).flatten
  have hw : ((rows.filter (ordinary cfg)).map keptWhole).Perm
      ((groupItems (sharing (sorter.sortSlice groupLess groups))).map
        fun p => keptWhole p.toSamplingRow) := by
    have hh := (sorter.perm groupLess groups).filter fun s => !s.fixedBudget
    have hit := ((hh.map (·.items)).flatten.map (·.toSamplingRow)).trans firstLevel.rows
    simpa [groupItems, sharing, comp_def] using (hit.map keptWhole).symm
  rw [hs.calls]
  exact hw.subperm.trans ((hb.map _).trans (sublist_append_right _ _)).subperm

end Keeps

lemma run_keeps_ordinary (independent : Independent cfg added) (sorter : Sorter)
    (fits : rowSizes ((waiting added).filter (ordinary cfg)) ≤ budget) {h : State}
    (hit : h.items = (waiting added).map pair) :
    ∃ h', h.run cfg sorter budget = some h' ∧
      (((waiting added).filter (ordinary cfg)).map keptWhole).Subperm h'.calls := by
  have hk : ∀ p ∈ prepare cfg sorter h.items, p.fairKeyLen ≤ maxFairKeyLen := by
    refine prepare_fairKeyLen fun p hp => ?_
    rw [hit] at hp
    obtain ⟨q, _, rfl⟩ := mem_map.1 hp
    exact Nat.zero_le _
  have hw := prepare_rows cfg sorter h.items
  rcases state_run_cases cfg sorter h budget with ⟨hn, hr⟩ | ⟨start, -, hr⟩ <;> rw [hit] at *
  · rw [hn] at hw
    have ho : waiting added = [] := by simpa using hw.symm.eq_nil
    exact ⟨h, hr, ho ▸ nil_subperm⟩
  · obtain ⟨fuel, hf⟩ : ∃ fuel, cfg.levels = fuel + 1 :=
      ⟨cfg.levels - 1, by have := one_le_length_partF cfg; unfold SamplerConfig.levels; omega⟩
    obtain ⟨groups, sumWeight, ha⟩ := partition_isSome (rootGroup_depth cfg _ budget)
    have partitioned := (partition_level ha).toPartitioned
    have hl := prepare_firstLevel independent sorter ha
    obtain ⟨h', hs, calls, hc, _⟩ := level_handles start ha
      hk fun h t hd hb ht => run_handles sorter h hb
        (show cfg.levels ≤ fuel + t.depth by omega) ht
    refine ⟨h'.finish, by rw [hr, hf, hs, Option.map_some], ?_⟩
    rw [finish_calls, hc]
    exact (hl.keeps partitioned sorter _ fits).trans (sublist_append_left _ _).subperm

/-- The budget and the sizes times the weights of the first level stay in the range of `int64`, so
that its products are exact in the source, too. -/
def ExactProducts (cfg : SamplerConfig) (added : List SamplingRow) (budget : Int) : Prop :=
  max budget (rowSizes (waiting added)) *
    (((waiting added).filter (ordinary cfg)).map (topWeight cfg)).sum < 2 ^ 63

/-- A metric of size 10 with a budget of 1, and two rows of size 50 without one. -/
def stoppedRows : List SamplingRow :=
  [{ item := { address := 0 }, size := 10, metricID := 1, budget := 1 },
   { item := { address := 1 }, size := 50, metricID := 2 },
   { item := { address := 2 }, size := 50, metricID := 2 }]

/-- The factor left in an item that was kept. -/
def Call.factor : Call → Option ℚ
  | .keep _ _ _ sf => some sf
  | .discard _ _ _ => none

lemma stoppedRows_outcome :
    (addAndRun { sampleBudgets := true } Sorter.insertion ⟨fun n => 2 ^ 53 - 1 - n⟩ stoppedRows
        100).map (fun h => h.calls.map fun c => (c.item.address, c.factor)) =
      some [(0, none), (1, some 1), (2, none)] := by
  decide +kernel

end Sampler
