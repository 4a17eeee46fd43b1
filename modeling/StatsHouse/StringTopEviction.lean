import StatsHouse.StringTop
import StatsHouse.Transfer

/-!
# When the eviction of string tops ends

Each pass over the map doubles the sample factor and may evict the entries with a smaller count.
The factor is a signed integer of 64 bits: it is `2 ^ k` up to the pass 62, then negative and at
last zero, and no count is below it any more. So an entry with a count above `2 ^ 62 - 1` is never
evicted, and after 62 passes none is, while counts are accepted up to `math.MaxFloat32`.
-/

namespace StringTop

open MultiItem Sampling List AList MultiValue
variable {s : MultiItem} {rng : Rng} {capacity : Int}

/-- The state in which the loop around `resample` can end. -/
def CanEnd (capacity : Int) (s : MultiItem) : Prop :=
  s.top.entries.length < capacity ∨ s.sampleFactorLog2 < 62 ∧ (heavy s).length < capacity

section

variable (valid : Valid s)
include valid

lemma makeRoom_of_canEnd (h : CanEnd capacity s) :
    ∃ n, (makeRoom capacity n (s, steady)).isSome := by
  induction hn : 62 - s.sampleFactorLog2 generalizing s with
  | zero =>
    have hr := h.resolve_right fun h => by omega
    exact ⟨1, by simp [makeRoom, hr]⟩
  | succ n ih =>
    by_cases hr : s.top.entries.length < capacity
    · exact ⟨1, by simp [makeRoom, hr]⟩
    · obtain ⟨hg, hh⟩ := h.resolve_left hr
      obtain ⟨s', rng', hp, hk, hlg', hs, -, ht⟩ := resample_spec valid steady
      obtain ⟨rfl, hl⟩ := ht rfl
      have he : CanEnd capacity s' := by
        rw [← hs] at hh
        by_cases hlt : s'.sampleFactorLog2 < 62
        · exact .inr ⟨hlt, hh⟩
        · rw [hl (by omega)] at hh
          exact .inl hh
      obtain ⟨m, hm⟩ := ih hk.valid he (by omega)
      exact ⟨m + 1, by simpa [makeRoom, not_lt.1 hr, hp] using hm⟩

lemma canEnd_of_makeRoom {n : Nat} (h : (makeRoom capacity n (s, rng)).isSome) :
    CanEnd capacity s := by
  induction n generalizing s rng with
  | zero => cases h
  | succ n ih =>
    by_cases hm : s.top.entries.length < capacity
    · exact .inl hm
    · obtain ⟨s', rng', hp, hk, hg, hs, ho, -⟩ := resample_spec valid rng
      have ha : (makeRoom capacity n (s', rng')).isSome := by
        simpa [makeRoom, not_lt.1 hm, hp] using h
      have hr := ih hk.valid ha
      by_cases hl : 62 < s'.sampleFactorLog2
      · rw [CanEnd, ho hl] at hr
        exact absurd hr (by omega)
      · refine .inr ⟨by omega, ?_⟩
        rw [← hs]
        rcases hr with hr | hr
        · have hle : (heavy s').length ≤ s'.top.entries.length := length_filter_le _ _
          omega
        · exact hr.2

end

/-- The given number of passes, without the condition of the loop. -/
def resamples (n : Nat) (st : MultiItem × Rng) : Option (MultiItem × Rng) :=
  (replicate n ()).foldlM (fun st _ => resample st) st

lemma resamples_isSome (valid : Valid s) (n : Nat) (rng : Rng) : (resamples n (s, rng)).isSome := by
  induction n generalizing s rng with
  | zero => rfl
  | succ n ih =>
    obtain ⟨s', rng', hp, hk, -⟩ := resample_spec valid rng
    have hr := ih hk.valid rng'
    simpa [resamples, replicate_succ, hp] using hr

/-- In every reachable state no pass panics, whatever the random numbers are, and the loop can
make room if and only if there is room, or the factor has not reached `2 ^ 62` and fewer entries
than the capacity have counts above `2 ^ 62 - 1`. -/
theorem eviction_ends_iff (capacity : Int) (hcap : 1 ≤ capacity) (calls : List Call)
    (proper : ∀ c ∈ calls, c.event.Proper) (rng rng' : Rng) (s : MultiItem)
    (hrun : run capacity rng calls = some (s, rng')) :
    (∀ n rng, (resamples n (s, rng)).isSome) ∧
      ((∃ rng n, (makeRoom capacity n (s, rng)).isSome) ↔ CanEnd capacity s) := by
  obtain ⟨valid, -⟩ := run_adds hcap calls proper valid_empty (le_trans (by decide) hcap) hrun
  refine ⟨resamples_isSome valid, ?_, fun h => ⟨steady, makeRoom_of_canEnd valid h⟩⟩
  rintro ⟨rng, n, h⟩
  exact canEnd_of_makeRoom valid h

/-- The entry of the first tag can be evicted. -/
theorem eviction_ends_light : ∃ rng n s rng',
    run 1 ⟨fun _ => 1⟩ (twoTags.take 1) = some (s, rng') ∧ s.top.entries.length = 1 ∧
      (makeRoom 1 n (s, rng)).isSome := by
  have proper : ∀ c ∈ twoTags.take 1, c.event.Proper := by
    intro c hc
    rw [mem_singleton.1 hc]
    exact zero_le_one
  obtain ⟨rng, n, h⟩ := (eviction_ends_iff 1 (by decide) (twoTags.take 1) proper ⟨fun _ => 1⟩ _ _
    rfl).2.2 (.inr (by decide +kernel))
  exact ⟨rng, n, _, _, rfl, rfl, h⟩

/-- A tag with an accepted count of `2 ^ 63` holds the only place for ever. -/
theorem eviction_never_ends : validateCounter (2 ^ 63) = none ∧ ∃ s rng',
    run 1 ⟨fun _ => 1⟩ [⟨false, ⟨[], 1⟩, 2 ^ 63, 4, {}, .counter (2 ^ 63)⟩] = some (s, rng') ∧
      ∀ rng n, makeRoom 1 n (s, rng) = none := by
  have hp : ∀ c ∈ [(⟨false, ⟨[], 1⟩, 2 ^ 63, 4, {}, .counter (2 ^ 63)⟩ : Call)],
      c.event.Proper := by
    intro c hc
    rw [mem_singleton.1 hc]
    exact (by decide +kernel : (0 : ℚ) ≤ 2 ^ 63)
  obtain ⟨valid, -⟩ := run_adds (by decide) _ hp valid_empty (by decide)
    (rfl : run 1 ⟨fun _ => 1⟩ _ = some _)
  refine ⟨by decide +kernel, _, _, rfl, fun rng n => ?_⟩
  rw [← Option.not_isSome_iff_eq_none]
  intro h
  have he := canEnd_of_makeRoom valid h
  revert he
  unfold CanEnd
  decide +kernel

end StringTop
