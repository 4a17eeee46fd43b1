import StatsHouse.SamplerFits
import Mathlib.Algebra.BigOperators.Ring.Finset

/-!
# How a level divides its budget

The groups are kept in the order of size per weight while each fits into its share of what is
left. So the share per weight at the end separates the kept groups from the others, and what the
kept ones do not use is divided among the others.
-/

namespace Sampler

open Sampling List Int
variable {budget sumWeight : Int} {groups kept : List SamplerGroup} {cfg : SamplerConfig}
  {g s : SamplerGroup} {h : State} {r : Remaining}

/-- The share of a group, before it is rounded. -/
def SamplerGroup.exactShare (s : SamplerGroup) (budget sumWeight : Int) : ℚ :=
  ((s.share budget sumWeight).budget : ℚ) / (s.share budget sumWeight).budgetDenom

lemma share_unfixed (hs : s.fixedBudget = false) : s.share budget sumWeight =
    { s with budget := budget * s.weight, budgetDenom := sumWeight } :=
  if_neg (Bool.eq_false_iff.1 hs)

lemma exactShare_unfixed (hs : s.fixedBudget = false) :
    s.exactShare budget sumWeight = (budget : ℚ) / sumWeight * s.weight := by
  rw [SamplerGroup.exactShare, share_unfixed hs, cast_mul, mul_div_right_comm]

/-- The share per weight at the end of the first loop separates the groups it keeps from those
it leaves, and the whole budget is used or divided. -/
structure MaxMinFair (budget : Int) (groups kept : List SamplerGroup) (r : Remaining) : Prop where
  split : groups.Perm (kept ++ r.groups)
  small : r.groups ≠ [] → ∀ s ∈ kept, ratio s ≤ (r.budget : ℚ) / r.sumWeight
  large : ∀ s ∈ r.groups, (r.budget : ℚ) / r.sumWeight < ratio s ∧
    s.exactShare r.budget r.sumWeight < s.sumSize
  total : r.groups ≠ [] → (((kept.map (·.sumSize)).sum : Int) : ℚ) +
    (r.groups.map (·.exactShare r.budget r.sumWeight)).sum = budget

section Fair

variable (hstops : Stops h budget sumWeight groups kept r)
  (unfixed : ∀ s ∈ groups, s.fixedBudget = false) (positive : ∀ s ∈ groups, 0 < s.weight)
  (weights : groups ≠ [] → sumWeight = (groups.map (·.weight)).sum)

include hstops unfixed weights

/-- The groups that are left share the weight that is left. -/
lemma Stops.weight_left (hne : r.groups ≠ []) : r.sumWeight = (r.groups.map (·.weight)).sum := by
  have hw := hstops.weight
  rw [hstops.split] at unfixed weights
  rw [sharing_eq_self fun s hs => unfixed s (mem_append_left _ hs),
    weights (append_ne_nil_of_right_ne_nil kept hne), map_append, sum_append] at hw
  omega

include positive

lemma Stops.fair (sorted : groups.Pairwise fun a b => ratio a ≤ ratio b) :
    MaxMinFair budget groups kept r := by
  have hf := hstops.weight_left unfixed weights
  have hb := hstops.budget
  rw [hstops.split] at unfixed positive sorted
  obtain ⟨hd, hlt, -⟩ := pairwise_append.1 sorted
  have hk := fun s hs => unfixed s (mem_append_left r.groups hs)
  have hr := fun s hs => unfixed s (mem_append_right kept hs)
  have hw := fun s hs => positive s (mem_append_right kept hs)
  have hm (hne : r.groups ≠ []) : (0 : ℚ) < r.sumWeight := by
    rw [hf hne]
    exact cast_pos.2 (sum_pos _ (by simpa using hw) (by simpa using hne))
  have ha : ∀ s ∈ r.groups, r.budget / r.sumWeight < ratio s := by
    cases hg : r.groups with
    | nil => exact forall_mem_nil _
    | cons first left =>
      rw [hg] at hlt hw hr hm
      have hp : (0 : ℚ) < first.weight := cast_pos.2 (hw first (.head _))
      have ho := hstops.next first (by rw [hg]; rfl)
      rw [share_unfixed (hr first (.head _))] at ho
      have hc : r.budget / r.sumWeight < ratio first := by
        rw [ratio, div_lt_div_iff₀ (hm (cons_ne_nil _ _)) hp, mul_comm (first.sumSize : ℚ)]
        exact_mod_cast ho
      rintro s (_ | ⟨_, hs⟩)
      · exact hc
      · exact hc.trans_le ((pairwise_cons.1 hlt).1 s hs)
  refine ⟨hstops.split ▸ .refl _, ?_, ?_, ?_⟩
  · intro hne s hs
    obtain rfl | ⟨init, last, rfl⟩ := eq_nil_or_concat kept
    · cases hs
    rw [concat_eq_append] at *
    have hp : (0 : ℚ) < last.weight := cast_pos.2 (positive last (by simp))
    have hl : ratio last ≤ r.budget / r.sumWeight := by
      rw [ratio, div_le_div_iff₀ hp (hm hne), mul_comm (last.sumSize : ℚ)]
      exact_mod_cast hstops.last last (by simp) (hk last (by simp))
    obtain hs | hs := mem_append.1 hs
    · exact ((pairwise_append.1 hd).2.2 s hs last (.head _)).trans hl
    · rwa [mem_singleton.1 hs]
  · intro s hs
    refine ⟨ha s hs, ?_⟩
    rw [exactShare_unfixed (hr s hs), ← lt_div_iff₀ (cast_pos.2 (hw s hs))]
    exact ha s hs
  · intro hne
    rw [sharing_eq_self hk] at hb
    rw [map_congr_left fun s hs => exactShare_unfixed (hr s hs), sum_map_mul_left]
    have he : (r.groups.map fun s => (s.weight : ℚ)).sum = r.sumWeight := by
      rw [hf hne, cast_list_sum, map_map]
      rfl
    rw [he, div_mul_cancel₀ _ (hm hne).ne', ← hb]
    push_cast
    ring

end Fair

/-- A level keeps the groups up to the final share per weight and divides the rest of the budget
among the others; of these an agent keeps those that it is told not to sample. -/
theorem run_max_min_fair (cfg : SamplerConfig) (sorter : Sorter) (fuel : Nat) (h : State)
    (hpartition : partition cfg g = some (groups, sumWeight))
    (unfixed : ∀ s ∈ groups, s.fixedBudget = false) (positive : ∀ s ∈ groups, 0 < s.weight) :
    ∃ kept r, MaxMinFair g.budget groups kept r ∧
      r.state.calls = h.calls ++ (groupItems kept).map (fun p => keptWhole p.toSamplingRow) ∧
      run cfg sorter (fuel + 1) h g =
        sampleLoop cfg sorter (run cfg sorter fuel) r.budget r.sumWeight r.state r.groups ∧
      ∀ s ∈ r.groups, cfg.exempt s = true → ∀ descend h,
        sampleGroup cfg sorter descend h (s.share r.budget r.sumWeight) =
          some ((s.share r.budget r.sumWeight).keep h) := by
  have hr := sorter.perm groupLess groups
  have hm := fun s => (hr.mem_iff (a := s)).1
  have hw := (partition_level hpartition).weights
  rw [sharing_eq_self unfixed, ← (hr.map _).sum_eq] at hw
  obtain ⟨kept, hstops⟩ := keepLoop_stops h g.budget sumWeight (sorter.sortSlice groupLess groups)
  have hf := hstops.fair (fun s hs => unfixed s (hm s hs))
    (fun s hs => positive s (hm s hs))
    (fun hne => hw fun hn => hne (hr.trans (.of_eq hn)).eq_nil)
    (sorter.sorted_of_key ratio fun a ha b hb => groupLess_iff (positive a ha) (positive b hb))
  refine ⟨kept, _, ⟨hr.symm.trans hf.split, hf.small, hf.large, hf.total⟩,
    hstops.calls, ?_, ?_⟩
  · simp [run, hpartition]
  · intro s hs hexempt descend h
    rw [share_unfixed (unfixed s (hm s (hstops.split ▸ mem_append_right _ hs)))]
    exact if_pos hexempt

/-- Two metrics of size 1 and 10 that share a budget of 5. -/
def twoMetrics : SamplerGroup :=
  rootGroup [{ item := { address := 0 }, size := 1, metricID := 1, metric := missingMetricMeta },
    { item := { address := 1 }, size := 10, metricID := 2, metric := missingMetricMeta }] 5

theorem run_max_min_fair_two : ∃ groups kept r, groups.length = 2 ∧ MaxMinFair 5 groups kept r := by
  obtain ⟨kept, r, hf, -⟩ := run_max_min_fair {} Sorter.insertion 0 { rng := ⟨fun _ => 0⟩ }
    (g := twoMetrics) rfl (by decide +kernel) (by decide +kernel)
  exact ⟨_, kept, r, rfl, hf⟩

/-- A row of size 10 that an agent is told not to sample, and a budget of 1. -/
def exemptLevel : SamplerGroup :=
  rootGroup [{ item := { address := 0 }, size := 10, metricID := 1,
               metric := { effectiveWeight := 1, noSampleAgent := true } }] 1

/-- It is kept whole although it is larger than its share. -/
theorem run_keeps_exempt_group :
    ∃ s, partition { modeAgent := true } exemptLevel = some ([s], 1) ∧ s.fixedBudget = false ∧
      (exemptLevel.budget : ℚ) / 1 < ratio s ∧
      (run { modeAgent := true } Sorter.insertion 1 { rng := ⟨fun _ => 0⟩ } exemptLevel).map
        (fun h => h.calls.map fun c => (c.item.address, c.factor)) = some [(0, some 1)] :=
  ⟨_, rfl, rfl, by decide +kernel, by decide +kernel⟩

end Sampler
