import Mathlib.Tactic.Linarith
import Mathlib.Tactic.Ring
import StatsHouse.Timescale

/-!
# The grid is a grid

All levels of detail divide the larger ones, so a border that is aligned to one level is
aligned to every level after it. The levels are built in the time of the metric with the
largest offset, the times in the time of the query; both agree because the largest step divides
the offsets.
-/

namespace Timescale

open List Nat Int
variable {lods rest : List TimescaleLOD} {first lod : TimescaleLOD}

lemma level_pos : ∀ step ∈ secondLevels, 0 < step := by decide

lemma level_ne_sec1M : ∀ step ∈ secondLevels, step ≠ sec1M := by decide

lemma level_dvd : ∀ a ∈ secondLevels, ∀ b ∈ secondLevels, b ≤ a → b ∣ a := by decide

variable (loc : Location) {step : Int}

lemma stepForward_level (hstep : step ∈ secondLevels) (t : Int) :
    stepForward loc t step = t + step :=
  if_neg (level_ne_sec1M step hstep)

lemma startOfLOD_level (hstep : step ∈ secondLevels) (t utcOffset : Int) :
    startOfLOD loc t step utcOffset = roundTime t step utcOffset :=
  if_neg (level_ne_sec1M step hstep)

lemma dvd_roundTime (t step utcOffset : Int) : step ∣ roundTime t step utcOffset + utcOffset := by
  rw [roundTime, sub_add_cancel]
  exact Dvd.intro_left _ rfl

lemma roundTime_le (hpos : 0 < step) (t utcOffset : Int) : roundTime t step utcOffset ≤ t := by
  have := Int.ediv_mul_le (t + utcOffset) hpos.ne'
  rw [roundTime]
  omega

lemma lt_roundTime_add (hpos : 0 < step) (t utcOffset : Int) :
    t < roundTime t step utcOffset + step := by
  have := lt_ediv_add_one_mul_self (t + utcOffset) hpos
  rw [roundTime]
  linarith

/-- The grid point before an aligned one. -/
lemma roundTime_sub_one (hpos : 0 < step) {t utcOffset : Int} (h : step ∣ t + utcOffset) :
    roundTime (t - 1) step utcOffset = t - step := by
  obtain ⟨k, hk⟩ := h
  have hd : (t - 1 + utcOffset) / step = k - 1 := by
    rw [show t - 1 + utcOffset = (step - 1) + step * (k - 1) by linarith,
      add_mul_ediv_left _ _ hpos.ne', ediv_eq_zero_of_lt (by omega) (by omega), zero_add]
  rw [roundTime, hd]
  linarith

lemma roundTime_add_of_dvd (hpos : 0 < step) {offset : Int} (h : step ∣ offset)
    (t utcOffset : Int) :
    roundTime (t + offset) step utcOffset = roundTime t step utcOffset + offset := by
  obtain ⟨k, rfl⟩ := h
  rw [roundTime, roundTime, show t + step * k + utcOffset = t + utcOffset + step * k by ring,
    add_mul_ediv_left _ _ hpos.ne']
  ring

/-- Enough turns of the loop reach the end. -/
lemma endLoop_spec (hstep : step ∈ secondLevels) (stop : Int) (fuel : Nat) (start : Int)
    (enough : stop - start ≤ fuel) :
    (endLoop loc step stop false fuel start).1 =
        start + (endLoop loc step stop false fuel start).2 * step ∧
      stop ≤ (endLoop loc step stop false fuel start).1 := by
  have hp := level_pos step hstep
  induction fuel generalizing start with
  | zero =>
    simp only [endLoop]
    constructor
    · simp
    · omega
  | succ fuel ih =>
    simp only [endLoop, Bool.false_eq_true, false_and, if_false, stepForward_level loc hstep]
    split_ifs with hlt
    · obtain ⟨hr, hs⟩ := ih (start + step) (by push_cast at enough; omega)
      refine ⟨?_, hs⟩
      rw [hr]
      push_cast
      ring
    · constructor
      · simp
      · omega

lemma endOfLOD_spec (hstep : step ∈ secondLevels) (start stop : Int) :
    (endOfLOD loc start step stop false).1 = start + (endOfLOD loc start step stop false).2 * step ∧
      stop ≤ (endOfLOD loc start step stop false).1 :=
  endLoop_spec loc hstep stop _ start (by omega)

section Levels

variable (args : GetTimescaleArgs) (minStep : Int) {span : Span}

/-- A level that covers the span up to its edge. -/
structure Reaches (span : Span) (chosen : TimescaleLOD × Int) : Prop where
  level : chosen.1.step ∈ secondLevels
  ends : chosen.2 = span.lodStart loc args chosen.1.step + chosen.1.len * chosen.1.step
  edge : span.edge ≤ chosen.2

lemma pickStep_reaches (edge : span.edge ≤ span.stop) {steps : List Int}
    (hsteps : ∀ step ∈ steps, step ∈ secondLevels) {chosen out : TimescaleLOD × Int}
    (level : chosen.1.step = 0 ∨ chosen.1.step ∈ secondLevels)
    (chosen_reaches : chosen.1.len = 0 ∨ Reaches loc args span chosen)
    (h : pickStep loc args minStep span steps chosen = .ok out) :
    (out.1.len = 0 ∨ Reaches loc args span out) ∧
      (chosen.1.step = 0 ∨ out.1.step ≤ chosen.1.step) := by
  induction steps generalizing chosen with
  | nil =>
    cases h
    exact ⟨chosen_reaches, .inr le_rfl⟩
  | cons step steps ih =>
    have hstep := hsteps step (.head _)
    have hr : ∀ step ∈ steps, step ∈ secondLevels := fun step h => hsteps step (.tail _ h)
    obtain ⟨lod, lodEnd⟩ := chosen
    obtain ⟨he, hb⟩ := endOfLOD_spec loc hstep (span.lodStart loc args step) span.edge
    have ha : ¬(0 < lod.step ∧ lod.step < step) → lod.step = 0 ∨ step ≤ lod.step := by
      intro hg
      rcases level with hz | hlod
      · exact .inl hz
      · have := level_pos lod.step hlod
        exact .inr (by omega)
    simp only [pickStep] at h
    split_ifs at h with hg hc hn hl
    · exact ih hr level chosen_reaches h
    · have hlod := level.resolve_left hn
      obtain ⟨he, hs⟩ := endOfLOD_spec loc hlod (span.lodStart loc args lod.step) span.stop
      cases h
      exact ⟨.inr ⟨hlod, he, edge.trans hs⟩, .inr le_rfl⟩
    · obtain ⟨hm, hs⟩ := endOfLOD_spec loc hstep
        (endOfLOD loc (span.lodStart loc args step) step span.edge false).1 span.stop
      cases h
      refine ⟨.inr ⟨hstep, ?_, edge.trans hs⟩, ha hg⟩
      rw [hm, he]
      push_cast
      ring
    · have hch' : Reaches loc args span
          ({ step, len := (endOfLOD loc (span.lodStart loc args step) step span.edge false).2 },
            (endOfLOD loc (span.lodStart loc args step) step span.edge false).1) :=
        ⟨hstep, he, hb⟩
      obtain ⟨ho, hle⟩ := ih hr (.inr hstep) (.inr hch') h
      refine ⟨ho, (ha hg).imp_right fun hstep' => ?_⟩
      exact (hle.resolve_left (level_pos step hstep).ne').trans hstep'

end Levels

/-- The seconds that levels cover. -/
def total (lods : List TimescaleLOD) : Int := (lods.map fun lod => (lod.len : Int) * lod.step).sum

@[simp] lemma total_nil : total [] = 0 := rfl

@[simp] lemma total_cons (lod : TimescaleLOD) (lods : List TimescaleLOD) :
    total (lod :: lods) = lod.len * lod.step + total lods := sum_cons

@[simp] lemma total_append (lods more : List TimescaleLOD) :
    total (lods ++ more) = total lods + total more := by
  simp [total]

/-- Levels go from large to small. -/
structure Levels (lods : List TimescaleLOD) : Prop where
  level (lod : TimescaleLOD) (h : lod ∈ lods) : lod.step ∈ secondLevels ∧ 0 < lod.len
  shrink : lods.Pairwise fun x y => y.step ≤ x.step

lemma appendLOD_cases (lods : List TimescaleLOD) (lod : TimescaleLOD) :
    appendLOD lods lod = lods ++ [lod] ∨ ∃ init last, lods = init ++ [last] ∧ last.step = lod.step ∧
        appendLOD lods lod = init ++ [{ last with len := last.len + lod.len }] := by
  rcases eq_nil_or_concat lods with rfl | ⟨init, last, rfl⟩
  · exact .inl rfl
  · simp only [appendLOD, concat_eq_append, getLast?_concat, dropLast_concat]
    split_ifs with hstep
    · exact .inr ⟨init, last, rfl, hstep, rfl⟩
    · exact .inl rfl

lemma total_appendLOD (lods : List TimescaleLOD) (lod : TimescaleLOD) :
    total (appendLOD lods lod) = total lods + lod.len * lod.step := by
  rcases appendLOD_cases lods lod with h | ⟨init, last, rfl, hstep, h⟩
  · simp [h]
  · simp only [h, total_append, total_cons, total_nil, hstep]
    push_cast
    ring

/-- The first step is not changed. -/
lemma head?_appendLOD (lods : List TimescaleLOD) (lod : TimescaleLOD) :
    (appendLOD lods lod).head?.map TimescaleLOD.step =
      some ((lods.head?.map TimescaleLOD.step).getD lod.step) := by
  rcases appendLOD_cases lods lod with h | ⟨init, last, rfl, -, h⟩
  · rw [h]
    cases lods <;> rfl
  · rw [h]
    cases init <;> rfl

lemma mem_appendLOD {l : TimescaleLOD} (h : l ∈ appendLOD lods lod) : l ∈ lods ∨ l = lod ∨
      l.step = lod.step ∧ ∃ last ∈ lods, l = { last with len := last.len + lod.len } := by
  rcases appendLOD_cases lods lod with heq | ⟨init, last, rfl, hstep, heq⟩
  · rw [heq, mem_append, mem_singleton] at h
    exact h.imp_right .inl
  · rw [heq, mem_append, mem_singleton] at h
    rcases h with h | rfl
    · exact .inl (mem_append_left _ h)
    · exact .inr (.inr ⟨hstep, last, by simp, rfl⟩)

lemma Levels.appendLOD (h : Levels lods) (hlod : lod.step ∈ secondLevels) (hpos : 0 < lod.len)
    (below : ∀ l ∈ lods, lod.step ≤ l.step) : Levels (appendLOD lods lod) := by
  constructor
  · intro l hl
    rcases mem_appendLOD hl with hl | rfl | ⟨-, last, ha, rfl⟩
    · exact h.level l hl
    · exact ⟨hlod, hpos⟩
    · exact ⟨(h.level last ha).1, Nat.add_pos_right _ hpos⟩
  · rcases appendLOD_cases lods lod with heq | ⟨init, last, rfl, hstep, heq⟩
    · rw [heq, pairwise_append]
      exact ⟨h.shrink, pairwise_singleton _ _, fun x hx y hy => mem_singleton.1 hy ▸ below x hx⟩
    · have hs := pairwise_append.1 h.shrink
      rw [heq, pairwise_append]
      refine ⟨hs.1, pairwise_singleton _ _, fun x hx y hy => ?_⟩
      rw [mem_singleton.1 hy]
      exact hs.2.2 x hx last (.head _)

section Build

variable (args : GetTimescaleArgs) (minStep : Int) {start₀ stop : Int}

/-- The levels so far go from the rounded start to where the next level starts. -/
structure Built (start₀ : Int) (b : Building) : Prop where
  levels : Levels b.lods
  below (lod : TimescaleLOD) (h : lod ∈ b.lods) : b.lod.step ≤ lod.step
  ends (step : Int) (h : b.lods.head?.map TimescaleLOD.step = some step) :
    b.start = roundTime start₀ step args.utcOffset + total b.lods
  chosen : b.lod.step = 0 ∧ b.lods = [] ∧ b.start = start₀ ∨ b.lod.step ∈ secondLevels ∧ b.lods ≠ []

lemma appendLOD_ne_nil (lods : List TimescaleLOD) (lod : TimescaleLOD) :
    appendLOD lods lod ≠ [] := by
  rcases appendLOD_cases lods lod with h | ⟨init, last, -, -, h⟩ <;> simp [h]

lemma Built.append {b : Building} (hb : Built args start₀ b) {span : Span}
    (hstart : span.start = b.start) (hfirst : span.first = decide (b.lods = [])) {lodEnd : Int}
    (reaches : Reaches loc args span (lod, lodEnd))
    (finer : b.lod.step = 0 ∨ lod.step ≤ b.lod.step) (hpos : 0 < lod.len) :
    Built args start₀ {
      start := lodEnd
      lod
      lods := appendLOD b.lods lod
      resLen := b.resLen + lod.len } := by
  have hv := reaches.level
  have he := reaches.ends
  simp only at hv he
  have ha : ∀ l ∈ b.lods, lod.step ≤ l.step := by
    intro l hl
    rcases hb.chosen with ⟨-, hn, -⟩ | ⟨hc, -⟩
    · rw [hn] at hl
      cases hl
    · have := level_pos _ hc
      exact (finer.resolve_left this.ne').trans (hb.below l hl)
  refine ⟨hb.levels.appendLOD hv hpos ha, ?_, ?_, .inr ⟨hv, appendLOD_ne_nil _ _⟩⟩
  · intro l hl
    rcases mem_appendLOD hl with hl | rfl | ⟨hstep, -⟩
    · exact ha l hl
    · exact le_rfl
    · exact hstep.ge
  · intro step hstep
    rw [head?_appendLOD, Option.some.injEq] at hstep
    simp only [total_appendLOD]
    rw [he, Span.lodStart, hfirst, hstart]
    rcases hb.chosen with ⟨-, hn, hsa₀⟩ | ⟨-, hne⟩
    · rw [hn] at hstep ⊢
      simp only [decide_true, if_true, total_nil, startOfLOD_level loc hv, hsa₀]
      rw [show step = lod.step from hstep.symm]
      ring
    · obtain ⟨first, rest, hlo⟩ := exists_cons_of_ne_nil hne
      rw [if_neg (by simpa using hne)]
      rw [hb.ends step (by rw [hlo] at hstep ⊢; exact congrArg some hstep)]
      ring

lemma buildLODs_spec (hmode : isPointQuery args = false) {switches : List LodSwitch}
    (levels : ∀ switch ∈ switches, ∀ step ∈ switch.levels, step ∈ secondLevels)
    {b out : Building} (hb : Built args start₀ b)
    (h : buildLODs loc args minStep stop switches b = .ok out) :
    Built args start₀ out ∧ b.start ≤ out.start ∧
      (∀ switch ∈ switches, min stop (args.timeNow - switch.relSwitch) ≤ out.start) ∧
      (out.lods = [] → b.lods = [] ∧ (b.start < stop →
        ∀ switch ∈ switches, args.timeNow - switch.relSwitch < b.start)) := by
  induction switches generalizing b with
  | nil =>
    cases h
    exact ⟨hb, le_rfl, by simp, fun hn => ⟨hn, by simp⟩⟩
  | cons switch switches ih =>
    have hr : ∀ switch ∈ switches, ∀ step ∈ switch.levels, step ∈ secondLevels :=
      fun s hs => levels s (.tail _ hs)
    simp only [buildLODs] at h
    split_ifs at h with hd hl
    · cases h
      refine ⟨hb, le_rfl, fun s _ => (min_le_left _ _).trans hd, ?_⟩
      exact fun hn => ⟨hn, fun hlt => absurd hlt (not_lt.2 hd)⟩
    · obtain ⟨ho, hle, hc, he⟩ := ih hr hb h
      refine ⟨ho, hle, ?_, ?_⟩
      · intro s hs
        rcases mem_cons.1 hs with rfl | hs
        · exact (min_le_right _ _).trans (hl.le.trans hle)
        · exact hc s hs
      · intro hn
        refine ⟨(he hn).1, fun hlt s hs => ?_⟩
        rcases mem_cons.1 hs with rfl | hs
        · exact hl
        · exact (he hn).2 hlt s hs
    · set span := b.span args stop (args.timeNow - switch.relSwitch) with hp
      have ha : span.edge = min stop (args.timeNow - switch.relSwitch) := by
        simp only [hp, Building.span, hmode, Bool.false_eq_true, or_false]
        split_ifs with hlt
        · exact (min_eq_left hlt.le).symm
        · exact (min_eq_right (not_lt.1 hlt)).symm
      split at h
      · cases h
      · next lod lodEnd hg =>
        split_ifs at h with hrange
        obtain ⟨hh, hi⟩ := pickStep_reaches loc args minStep
          (ha.trans_le (min_le_left _ _)) (levels switch (.head _))
          (hb.chosen.imp And.left And.left) (.inl rfl) hg
        have hf : lod.len ≠ 0 := by
          intro hz
          simp [lodOutOfRange, hz] at hrange
        have hc := hh.resolve_left hf
        have hj : min stop (args.timeNow - switch.relSwitch) ≤ lodEnd := ha ▸ hc.edge
        have hb' := hb.append loc args rfl rfl hc hi (pos_of_ne_zero hf)
        obtain ⟨ho, hle, hr', he⟩ := ih hr hb' h
        simp only at hle he
        refine ⟨ho, by omega, ?_, ?_⟩
        · intro s hs
          rcases mem_cons.1 hs with rfl | hs
          · exact hj.trans hle
          · exact hr' s hs
        · exact fun hn => absurd (he hn).1 (appendLOD_ne_nil _ _)

end Build

/-- Each level has its number of points, one step apart and aligned to the step. -/
def Tiled (utcOffset : Int) : List TimescaleLOD → List Int → Prop
  | [], time => time = []
  | lod :: lods, time =>
    ((time.take lod.len).length = lod.len ∧
      (time.take lod.len).IsChain (fun t t' => t' = t + lod.step) ∧
      ∀ t ∈ time.take lod.len, lod.step ∣ t + utcOffset) ∧
    Tiled utcOffset lods (time.drop lod.len)

lemma Tiled.sum_len {utcOffset : Int} {time : List Int} (h : Tiled utcOffset lods time) :
    (lods.map TimescaleLOD.len).sum = time.length := by
  induction lods generalizing time with
  | nil =>
    cases h
    rfl
  | cons lod lods ih =>
    have hl := h.1.1
    rw [length_take] at hl
    rw [map_cons, sum_cons, ih h.2, length_drop]
    omega

section Times

variable {utcOffset : Int}

/-- The points of one level. -/
def points (step : Int) (len : Nat) (t : Int) : List Int :=
  (List.range len).map fun i => t + (i : Nat) * step

@[simp] lemma length_points (step : Int) (len : Nat) (t : Int) :
    (points step len t).length = len := by
  simp [points]

lemma lodTimes_spec (hstep : step ∈ secondLevels) (len : Nat) (t : Int) :
    lodTimes loc step len t = (points step len t, t + len * step) := by
  induction len generalizing t with
  | zero => simp [lodTimes, points]
  | succ len ih =>
    simp only [points] at ih ⊢
    simp only [lodTimes, stepForward_level loc hstep, ih, range_succ_eq_map, map_cons,
      map_map, Function.comp_def]
    push_cast
    refine Prod.ext ?_ (by ring)
    simp only [zero_mul, add_zero, cons.injEq, true_and]
    exact map_congr_left fun i _ => by ring

lemma points_increasing (hpos : 0 < step) (len : Nat) (t : Int) :
    (points step len t).Pairwise (· < ·) := by
  refine pairwise_map.2 (pairwise_lt_range.imp fun hij => ?_)
  have := mul_lt_mul_of_pos_right (Int.ofNat_lt.2 hij) hpos
  omega

lemma points_chain (step : Int) (len : Nat) (t : Int) :
    (points step len t).IsChain fun x y => y = x + step := by
  refine isChain_iff_getElem.2 fun i hi => ?_
  simp only [points, getElem_map, getElem_range]
  push_cast
  ring

variable {t x : Int}

lemma mem_points {len : Nat} (h : x ∈ points step len t) :
    ∃ i < len, x = t + (i : Nat) * step := by
  obtain ⟨i, hi, rfl⟩ := mem_map.1 h
  exact ⟨i, mem_range.1 hi, rfl⟩

section

variable (h : Levels (lod :: lods))
include h

lemma Levels.tail : Levels lods :=
  ⟨fun l hl => h.level l (.tail _ hl), (pairwise_cons.1 h.shrink).2⟩

lemma Levels.head : lod.step ∈ secondLevels ∧ 0 < lod.len := h.level lod (.head _)

lemma Levels.dvd {l : TimescaleLOD} (hl : l ∈ lods) : l.step ∣ lod.step :=
  level_dvd _ h.head.1 _ (h.level l (.tail _ hl)).1 ((pairwise_cons.1 h.shrink).1 l hl)

lemma gridTimes_cons (t : Int) : gridTimes loc (lod :: lods) t =
      (points lod.step lod.len t ++ (gridTimes loc lods (t + lod.len * lod.step)).1,
        (gridTimes loc lods (t + lod.len * lod.step)).2) := by
  simp only [gridTimes, lodTimes_spec loc h.head.1]

end

/-- Alignment to the first level carries over to all points. -/
lemma gridTimes_tiled (h : Levels lods) {t : Int}
    (aligned : ∀ lod ∈ lods, lod.step ∣ t + utcOffset) :
    Tiled utcOffset lods (gridTimes loc lods t).1 := by
  induction lods generalizing t with
  | nil => rfl
  | cons lod lods ih =>
    have hlod := aligned lod (.head _)
    have hn : ∀ l ∈ lods, l.step ∣ t + lod.len * lod.step + utcOffset := by
      intro l hl
      rw [show t + lod.len * lod.step + utcOffset = t + utcOffset + lod.len * lod.step by ring]
      exact Int.dvd_add (aligned l (.tail _ hl)) ((h.dvd hl).mul_left _)
    rw [gridTimes_cons loc h]
    have ht : (points lod.step lod.len t ++
        (gridTimes loc lods (t + lod.len * lod.step)).1).take lod.len =
          points lod.step lod.len t := take_left' (length_points _ _ _)
    have hd : (points lod.step lod.len t ++
        (gridTimes loc lods (t + lod.len * lod.step)).1).drop lod.len =
          (gridTimes loc lods (t + lod.len * lod.step)).1 := drop_left' (length_points _ _ _)
    simp only [Tiled, ht, hd]
    refine ⟨⟨length_points _ _ _, points_chain _ _ _, ?_⟩, ih h.tail hn⟩
    intro x hx
    obtain ⟨i, -, rfl⟩ := mem_points hx
    rw [show t + i * lod.step + utcOffset = t + utcOffset + i * lod.step by ring]
    exact Int.dvd_add hlod (Dvd.intro_left _ rfl)

lemma total_nonneg (h : Levels lods) : 0 ≤ total lods := by
  induction lods with
  | nil => exact le_rfl
  | cons lod lods ih =>
    have hp := level_pos _ h.head.1
    have := ih h.tail
    rw [total_cons]
    positivity

lemma gridTimes_increasing (h : Levels lods) (t : Int) : (gridTimes loc lods t).1.Pairwise (· < ·) ∧
      ∀ x ∈ (gridTimes loc lods t).1, t ≤ x ∧ x < t + total lods := by
  induction lods generalizing t with
  | nil => exact ⟨.nil, by simp [gridTimes]⟩
  | cons lod lods ih =>
    have hp := level_pos _ h.head.1
    obtain ⟨ht, hrange⟩ := ih h.tail (t + lod.len * lod.step)
    have hr := total_nonneg h.tail
    have hf : ∀ x ∈ points lod.step lod.len t, t ≤ x ∧ x < t + lod.len * lod.step := by
      intro x hx
      obtain ⟨i, hi, rfl⟩ := mem_points hx
      have hlt := mul_lt_mul_of_pos_right (Int.ofNat_lt.2 hi) hp
      have hge : 0 ≤ i * lod.step := by positivity
      exact ⟨by omega, by omega⟩
    have hl : 0 ≤ lod.len * lod.step := by positivity
    rw [gridTimes_cons loc h, total_cons]
    refine ⟨pairwise_append.2 ⟨points_increasing hp _ _, ht, ?_⟩, ?_⟩
    · intro x hx y hy
      exact (hf x hx).2.trans_le (hrange y hy).1
    · intro x hx
      rcases mem_append.1 hx with hx | hx
      · have := hf x hx
        omega
      · have := hrange x hx
        omega

lemma head?_gridTimes (h : Levels lods) (hx : (gridTimes loc lods t).1.head? = some x) :
    x = t := by
  cases lods with
  | nil => cases hx
  | cons lod lods =>
    obtain ⟨len, hl⟩ := exists_eq_succ_of_ne_zero h.head.2.ne'
    rw [gridTimes_cons loc h, hl] at hx
    simpa [points, range_succ_eq_map, eq_comm] using hx

/-- The points up to the border of the first level, the border included. -/
lemma getElem?_gridTimes (h : Levels (lod :: lods)) {i : Nat} (hi : i ≤ lod.len)
    (hx : (gridTimes loc (lod :: lods) t).1[i]? = some x) : x = t + i * lod.step := by
  rw [gridTimes_cons loc h] at hx
  rcases hi.lt_or_eq with hlt | rfl
  · rw [getElem?_append_left (by simpa using hlt)] at hx
    simpa [points, hlt, eq_comm] using hx
  · rw [getElem?_append_right (by simp), length_points, Nat.sub_self, ← head?_eq_getElem?] at hx
    exact head?_gridTimes loc h.tail hx

/-- One step after the last point is where the next would be. -/
lemma getLast?_gridTimes (h : Levels lods) {last : TimescaleLOD}
    (isLast : lods.getLast? = some last) (hx : (gridTimes loc lods t).1.getLast? = some x) :
    x + last.step = t + total lods := by
  induction lods generalizing t with
  | nil => cases isLast
  | cons lod lods ih =>
    rw [gridTimes_cons loc h] at hx
    cases lods with
    | nil =>
      obtain ⟨len, hl⟩ := exists_eq_succ_of_ne_zero h.head.2.ne'
      rw [getLast?_singleton, Option.some.injEq] at isLast
      subst isLast
      simp only [gridTimes, append_nil, points, hl, range_succ, map_append,
        map_cons, map_nil, getLast?_concat, Option.some.injEq] at hx
      rw [total_cons, total_nil, hl, ← hx]
      push_cast
      ring
    | cons lod' lods =>
      have hne : (gridTimes loc (lod' :: lods) (t + lod.len * lod.step)).1 ≠ [] := by
        rw [gridTimes_cons loc h.tail]
        have := h.tail.head.2
        simp [points, this.ne']
      rw [getLast?_append_of_ne_nil _ hne] at hx
      rw [ih h.tail isLast hx, total_cons lod]
      ring

@[simp] lemma map_step_extendLast (lods : List TimescaleLOD) :
    (extendLast lods).map TimescaleLOD.step = lods.map TimescaleLOD.step := by
  fun_induction extendLast lods with
  | case1 => rfl
  | case2 => rfl
  | case3 lod lods _ ih => simp [ih]

lemma total_extendLast (h : Levels lods) : total lods ≤ total (extendLast lods) := by
  fun_induction extendLast lods with
  | case1 => exact le_rfl
  | case2 lod =>
    have hp := level_pos _ h.head.1
    simp only [total_cons, total_nil]
    push_cast
    linarith
  | case3 lod lods _ ih =>
    have := ih h.tail
    simp only [total_cons]
    omega

lemma Levels.extendLast (h : Levels lods) : Levels (Timescale.extendLast lods) := by
  constructor
  · fun_induction Timescale.extendLast lods with
    | case1 => simp
    | case2 lod =>
      intro l hl
      rw [mem_singleton.1 hl]
      exact ⟨h.head.1, succ_pos _⟩
    | case3 lod lods _ ih =>
      intro l hl
      rcases mem_cons.1 hl with rfl | hl
      · exact h.head
      · exact ih h.tail l hl
  · have hs : (lods.map TimescaleLOD.step).Pairwise fun x y => y ≤ x := pairwise_map.2 h.shrink
    rw [← map_step_extendLast] at hs
    exact pairwise_map.1 hs

lemma gridTimes_extendLast (h : Levels lods) (hne : lods ≠ []) (t : Int) :
    (gridTimes loc (extendLast lods) t).1 =
      (gridTimes loc lods t).1 ++ [(gridTimes loc lods t).2] := by
  fun_induction extendLast lods generalizing t with
  | case1 => exact absurd rfl hne
  | case2 lod =>
    rw [gridTimes_cons loc h, gridTimes_cons loc h.extendLast]
    simp [points, gridTimes, range_succ]
  | case3 lod lods hn ih =>
    have hext := h.extendLast
    rw [extendLast.eq_3 lod lods hn] at hext
    rw [gridTimes_cons loc h, gridTimes_cons loc hext, ih h.tail hn]
    simp

end Times

section Range

variable (args : GetTimescaleArgs)

/-- The levels of a grid after points were put in front, and one at the end if asked for. -/
def finalLODs (first : TimescaleLOD) (rest : List TimescaleLOD) (before : Nat) :
    List TimescaleLOD :=
  let lods := { first with len := first.len + before } :: rest
  if args.extend then extendLast lods else lods

lemma Levels.addFront (h : Levels (first :: rest)) (before : Nat) :
    Levels ({ first with len := first.len + before } :: rest) := by
  constructor
  · intro l hl
    rcases mem_cons.1 hl with rfl | hl
    · exact ⟨h.head.1, Nat.add_pos_left h.head.2 _⟩
    · exact h.tail.level l hl
  · exact pairwise_cons.2 (pairwise_cons.1 h.shrink)

/-- One or two points are before the view, or as many more as are put in front. -/
lemma rangeGrid_eq (h : Levels (first :: rest)) :
    let t₀ := roundTime args.start first.step args.utcOffset
    ∃ before viewStartX : Nat, (rangeGrid loc args first rest).viewStartX = viewStartX ∧
      (rangeGrid loc args first rest).lods = finalLODs args first rest before ∧
      (rangeGrid loc args first rest).time =
        (gridTimes loc (finalLODs args first rest before) (t₀ - before * first.step)).1 ∧
      0 < viewStartX ∧ viewStartX ≤ first.len + before ∧
      t₀ - before * first.step + (viewStartX - 1) * first.step < args.start ∧
      args.start ≤ t₀ - before * first.step + viewStartX * first.step := by
  intro t₀
  have hp := level_pos _ h.head.1
  have hle := roundTime_le hp args.start args.utcOffset
  have hlt := lt_roundTime_add hp args.start args.utcOffset
  have ha := dvd_roundTime args.start first.step args.utcOffset
  have ho : startOfLOD loc (t₀ - 1) first.step args.utcOffset = t₀ - first.step := by
    rw [startOfLOD_level loc h.head.1, roundTime_sub_one hp ha]
  have ht : startOfLOD loc (t₀ - first.step - 1) first.step args.utcOffset =
      t₀ - first.step - first.step := by
    rw [startOfLOD_level loc h.head.1, roundTime_sub_one hp]
    rw [show t₀ - first.step + args.utcOffset = t₀ + args.utcOffset - first.step by ring]
    exact Int.dvd_sub ha (Int.dvd_refl _)
  have hr : startOfLOD loc args.start first.step args.utcOffset = t₀ :=
    startOfLOD_level loc h.head.1 _ _
  have hextend before t := gridTimes_extendLast loc (h.addFront before)
    (cons_ne_nil _ _) t
  have hl := h.head.2
  by_cases hv : t₀ < args.start
  · by_cases hext : args.extend = true
    · refine ⟨1, 2, ?_, ?_, ?_, by omega, by omega, by push_cast; linarith, by push_cast; linarith⟩
      all_goals simp [rangeGrid, finalLODs, hr, hv, hext, ho, hextend]
    · refine ⟨0, 1, ?_, ?_, ?_, by omega, by omega, by push_cast; linarith, by push_cast; linarith⟩
      all_goals simp [rangeGrid, finalLODs, hr, hv, hext]
  · by_cases hext : args.extend = true
    · refine ⟨2, 2, ?_, ?_, ?_, by omega, by omega, by push_cast; linarith, by push_cast; linarith⟩
      · simp [rangeGrid, hr, hv, hext]
      · simp [rangeGrid, finalLODs, hr, hv, hext]
      · have hs : t₀ - first.step - first.step = t₀ - 2 * first.step := by
          ring
        simp [rangeGrid, finalLODs, hr, hv, hext, ho, ht, hextend, hs]
    · refine ⟨1, 1, ?_, ?_, ?_, by omega, by omega, by push_cast; linarith, by push_cast; linarith⟩
      all_goals simp [rangeGrid, finalLODs, hr, hv, hext, ho]

lemma finalLODs_levels (h : Levels (first :: rest)) (before : Nat) :
    Levels (finalLODs args first rest before) := by
  simp only [finalLODs]
  split_ifs
  · exact (h.addFront before).extendLast
  · exact h.addFront before

lemma finalLODs_cons (first : TimescaleLOD) (rest : List TimescaleLOD) (before : Nat) :
    ∃ len rest', finalLODs args first rest before = { step := first.step, len } :: rest' ∧
      first.len + before ≤ len := by
  simp only [finalLODs]
  split_ifs
  · cases rest with
    | nil => exact ⟨_, _, rfl, le_succ _⟩
    | cons lod lods => exact ⟨_, _, rfl, le_rfl⟩
  · exact ⟨_, _, rfl, le_rfl⟩

lemma total_finalLODs (h : Levels (first :: rest)) (before : Nat) :
    total (first :: rest) + before * first.step ≤ total (finalLODs args first rest before) := by
  have hf : total ({ first with len := first.len + before } :: rest) =
      total (first :: rest) + before * first.step := by
    simp only [total_cons]
    push_cast
    ring
  simp only [finalLODs]
  split_ifs
  · have := total_extendLast (h.addFront before)
    omega
  · exact hf.ge

/-- The properties of a grid that the code promises. -/
structure WellFormed (args : GetTimescaleArgs) (g : Grid) : Prop where
  increasing : g.time.Pairwise (· < ·)
  lengths : (g.lods.map TimescaleLOD.len).sum = g.time.length
  tiled : Tiled args.utcOffset g.lods g.time
  steps : g.lods.Pairwise fun x y => y.step ≤ x.step ∧ y.step ∣ x.step
  /-- The view starts after at least one point. -/
  view_range : 0 < g.viewStartX ∧ g.viewStartX ≤ g.time.length
  /-- Points before the view are before the start of the query, and no others. -/
  view (i : Nat) (t : Int) (h : g.time[i]? = some t) : t < args.start ↔ i < g.viewStartX
  /-- The step of the last point reaches the end of the query or the present. -/
  reach (lod : TimescaleLOD) (t : Int) (hlod : g.lods.getLast? = some lod)
    (ht : g.time.getLast? = some t) : min args.stop args.timeNow ≤ t + lod.step

lemma Levels.steps (h : Levels lods) :
    lods.Pairwise fun x y => y.step ≤ x.step ∧ y.step ∣ x.step := by
  refine h.shrink.imp_of_mem fun hx hy hle => ⟨hle, ?_⟩
  exact level_dvd _ (h.level _ hx).1 _ (h.level _ hy).1 hle

lemma rangeGrid_wellFormed (h : Levels (first :: rest)) (reaches : min args.stop args.timeNow ≤
      roundTime args.start first.step args.utcOffset + total (first :: rest)) :
    WellFormed args (rangeGrid loc args first rest) := by
  obtain ⟨before, v, hv, hlo, hm, hb, he, hn, hq⟩ := rangeGrid_eq loc args h
  have hs := level_pos _ h.head.1
  have hc := dvd_roundTime args.start first.step args.utcOffset
  have hf := finalLODs_levels args h before
  have hj := total_finalLODs args h before
  obtain ⟨len, rest', ho, hl⟩ := finalLODs_cons args first rest before
  generalize roundTime args.start first.step args.utcOffset = t₀ at *
  generalize ht : t₀ - before * first.step = t at *
  rw [ho] at hlo hm hf hj
  have hg : first.step ∣ t + args.utcOffset := by
    rw [← ht, show t₀ - before * first.step + args.utcOffset =
      t₀ + args.utcOffset - before * first.step by ring]
    exact Int.dvd_sub hc (Dvd.intro_left _ rfl)
  have hd := gridTimes_tiled loc hf fun lod hlod => by
    rcases mem_cons.1 hlod with rfl | hlod
    · exact hg
    · exact (hf.dvd hlod).trans hg
  obtain ⟨hin, -⟩ := gridTimes_increasing loc hf t
  rw [← hm] at hd hin
  rw [← hlo] at hd
  have hp i x (hi : i ≤ len) (hx : (rangeGrid loc args first rest).time[i]? =
      some x) : x = t + i * first.step := by
    rw [hm] at hx
    exact getElem?_gridTimes loc hf hi hx
  have hk : v ≤ (rangeGrid loc args first rest).time.length := by
    rw [← hd.sum_len, hlo, map_cons, sum_cons]
    exact he.trans (hl.trans (le_add_right _ _))
  refine ⟨hin, hd.sum_len, hd, hlo ▸ hf.steps, ⟨hv ▸ hb, hv ▸ hk⟩, ?_, ?_⟩
  · intro i x hx
    rw [hv]
    constructor
    · intro hlt
      by_contra hge
      obtain ⟨hi, hr⟩ := List.getElem?_eq_some_iff.1 hx
      have ha : v < (rangeGrid loc args first rest).time.length := by omega
      have hu := hp v _ (he.trans hl) (getElem?_eq_getElem ha)
      rcases (not_lt.1 hge).lt_or_eq with hlt' | rfl
      · have := pairwise_iff_getElem.1 hin v i ha hi hlt'
        omega
      · omega
    · intro hi
      rw [hp i x (by omega) hx]
      have hstep : i * first.step ≤ (v - 1) * first.step :=
        mul_le_mul_of_nonneg_right (by omega) hs.le
      omega
  · intro lod x hlod hx
    rw [hlo] at hlod
    rw [hm] at hx
    rw [getLast?_gridTimes loc hf hlod hx]
    omega

lemma lodLevels_levels : ∀ switch ∈ lodLevels, ∀ step ∈ switch.levels, step ∈ secondLevels := by
  decide

lemma foldl_max_cases (top : Int) (xs : List Int) :
    xs.foldl max top = top ∨ xs.foldl max top ∈ xs := by
  induction xs generalizing top with
  | nil => exact .inl rfl
  | cons x xs ih =>
    rcases ih (max top x) with h | h
    · rcases max_choice top x with ht | hx
      · exact .inl (h.trans ht)
      · exact .inr (mem_cons.2 (.inl (h.trans hx)))
    · exact .inr (mem_cons_of_mem x h)

lemma maxOffset_nonneg : 0 ≤ maxOffset args := by
  have hle top (xs : List Int) : top ≤ xs.foldl max top := by
    induction xs generalizing top with
    | nil => exact le_rfl
    | cons x xs ih => exact (le_max_left top x).trans (ih (max top x))
  exact hle 0 _

lemma dvd_maxOffset {step : Int}
    (h : args.metricOffset.find? (fun o => o.offset % step ≠ 0) = none) :
    step ∣ maxOffset args := by
  rcases foldl_max_cases 0 (args.metricOffset.map MetricOffset.offset) with hz | hm
  · rw [maxOffset, hz]
    exact dvd_zero step
  · obtain ⟨o, ho, hf⟩ := mem_map.1 hm
    have := find?_eq_none.1 h o ho
    rw [maxOffset, ← hf]
    exact dvd_of_emod_eq_zero (by simpa using this)

/-- A range query with steps of fixed length and times that do not wrap is answered on a grid,
unless it lies in the future. -/
theorem getTimescale_wellFormed (_moderate : args.Moderate)
    (hmode : args.mode ≠ .pointQuery) (hrange : args.start < args.stop)
    (hstep : 0 ≤ args.step) (hmonth : args.step ≠ sec1M) {g : Grid}
    (h : getTimescale loc args = .ok g) :
    g = {} ∧ args.timeNow < args.start - maxOffset args ∨ WellFormed args g := by
  have hp : isPointQuery args = false := by simp [isPointQuery, hmode]
  simp only [getTimescale, hmonth, if_false] at h
  rw [if_neg (by omega)] at h
  generalize (if isPointQuery args = true ∨ args.step < maxMetricRes args then maxMetricRes args
    else args.step) = minStep at h
  split at h
  · cases h
  · next b hd =>
    have hs : Built args (args.start - maxOffset args) { start := args.start - maxOffset args } :=
      ⟨⟨by simp, .nil⟩, by simp, by simp, .inl ⟨rfl, rfl, rfl⟩⟩
    obtain ⟨hb, -, hr, he⟩ := buildLODs_spec loc args minStep hp lodLevels_levels hs hd
    have hn : { relSwitch := 0, levels := secondLevels } ∈ lodLevels :=
      mem_cons_of_mem _ (.tail _ (.head _))
    split at h
    · next hl =>
      cases h
      have ha := (he hl).2 (by simp only; omega) _ hn
      simp only at ha
      exact .inl ⟨rfl, by omega⟩
    · next first rest hlo =>
      split at h
      · cases h
      · next ho =>
        rw [hp] at h
        cases h
        right
        have hv := hb.levels
        have hc := hb.ends first.step (by rw [hlo]; rfl)
        have hr := hr _ hn
        simp only at hr
        rw [hlo] at hv hc
        have hf := level_pos _ hv.head.1
        have hg := roundTime_add_of_dvd hf (dvd_maxOffset args ho)
          (args.start - maxOffset args) args.utcOffset
        rw [sub_add_cancel] at hg
        have ho := maxOffset_nonneg args
        exact rangeGrid_wellFormed loc args hv (by omega)

end Range

/-- Months of equal length. -/
def plainMonths : Location where
  startOfMonth t := roundTime t sec1M 0
  addMonth t := t + sec1M
  lt_addMonth t := by
    simp only [sec1M]
    omega

theorem getTimescale_wellFormed_minute :
    let args : GetTimescaleArgs := { start := 7, stop := 67, step := 5, timeNow := 1000 }
    ∃ g, getTimescale plainMonths args = .ok g ∧ g.time.length = 13 ∧
      (g = {} ∧ args.timeNow < args.start - maxOffset args ∨ WellFormed args g) := by
  intro args
  have ho : (getTimescale plainMonths args).toOption.map (fun g => g.time.length) = some 13 := by
    decide +kernel
  cases hg : getTimescale plainMonths args with
  | error e =>
    rw [hg] at ho
    cases ho
  | ok g =>
    rw [hg] at ho
    refine ⟨g, rfl, ?_, ?_⟩
    · simpa [Except.toOption] using ho
    · exact getTimescale_wellFormed plainMonths args (by unfold GetTimescaleArgs.Moderate; decide)
        (by decide) (by decide) (by decide) (by decide) hg

/-- A query shorter than a step may have no point from its start on, and a query in the future
has no points at all. -/
theorem getTimescale_no_point_in_view :
    getTimescale plainMonths { start := 7, stop := 8, step := 5, timeNow := 8 } =
        .ok { time := [5], lods := [{ step := 5, len := 1 }], startX := 1, viewStartX := 1,
              viewEndX := 1 } ∧
      getTimescale plainMonths { start := 7, stop := 8, step := 5, timeNow := 6 } = .ok {} := by
  decide +kernel

end Timescale
