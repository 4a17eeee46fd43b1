import StatsHouse.Sampler

/-!
# Every row gets one call

The partition functions cut their rows into neighbours, and a group is either kept, cut again or
sampled, where it falls into whales, selected rows and the others. So each level makes one call
for each of its rows, and the levels below are fewer.
-/

namespace Sampler

open Sampling List State Call SamplerConfig List.Perm SamplerGroup
variable {sumWeight : Int} {groups : List SamplerGroup} {items : List SamplingMultiItemPair}
  {cfg : SamplerConfig} {g : SamplerGroup} {sorter : Sorter} {items' : List SamplingMultiItemPair}
  {fuel : Nat} {descend : State → SamplerGroup → Option State}
  {f : State → SamplingMultiItemPair → State} (h : State) (sf : ℚ) (partFs : Nat)

def sizes (items : List SamplingMultiItemPair) : Int := (items.map (·.size)).sum

lemma sizes_append (as bs : List SamplingMultiItemPair) :
    sizes (as ++ bs) = sizes as + sizes bs := by
  simp [sizes]

def groupItems (groups : List SamplerGroup) : List SamplingMultiItemPair :=
  (groups.map (·.items)).flatten

/-- The groups are the rows, cut into neighbours; each group is made of its first row, its rows
and their size, and its rows do not differ from the first. -/
structure Cuts (differ : SamplingMultiItemPair → SamplingMultiItemPair → Bool)
    (newSamplerGroup : SamplingMultiItemPair → List SamplingMultiItemPair → Int → SamplerGroup)
    (items : List SamplingMultiItemPair) (groups : List SamplerGroup) : Prop where
  cover : groupItems groups = items
  made : ∀ s ∈ groups, ∃ first others, s.items = first :: others ∧
    s = newSamplerGroup first (first :: others) (sizes (first :: others)) ∧
    ∀ p ∈ others, differ first p = false

section Partition

variable {differ : SamplingMultiItemPair → SamplingMultiItemPair → Bool}
  {newSamplerGroup : SamplingMultiItemPair → List SamplingMultiItemPair → Int → SamplerGroup}
  (keepsItems : ∀ first items size, (newSamplerGroup first items size).items = items)

include keepsItems

lemma partitionLoop_cuts (first : SamplingMultiItemPair) (others : List SamplingMultiItemPair)
    {sumSize : Int} (rest : List SamplingMultiItemPair) (hsize : sumSize = sizes (first :: others))
    (same : ∀ p ∈ others, differ first p = false) :
    Cuts differ newSamplerGroup (first :: others ++ rest)
        (partitionLoop differ newSamplerGroup first (first :: others) sumSize rest).1 ∧
      (partitionLoop differ newSamplerGroup first (first :: others) sumSize rest).2 =
        ((partitionLoop differ newSamplerGroup first (first :: others) sumSize rest).1.map
          (·.weight)).sum := by
  induction rest generalizing first others sumSize with
  | nil =>
    simp only [partitionLoop]
    refine ⟨⟨?_, ?_⟩, by simp⟩
    · simp [groupItems, keepsItems]
    · intro s hs
      rw [mem_singleton.1 hs, hsize]
      exact ⟨first, others, keepsItems _ _ _, rfl, same⟩
  | cons p rest ih =>
    rw [partitionLoop]
    split_ifs with hd
    · have hf : 0 + p.size = sizes [p] := by simp [sizes]
      obtain ⟨hc, hw⟩ := ih p [] hf (forall_mem_nil _)
      refine ⟨⟨?_, ?_⟩, ?_⟩
      · have hv := hc.cover
        simp only [groupItems, map_cons, flatten_cons, keepsItems] at hv ⊢
        rw [hv]
        rfl
      · rintro s (_ | ⟨_, hs⟩)
        · rw [hsize]
          exact ⟨first, others, keepsItems _ _ _, rfl, same⟩
        · exact hc.made s hs
      · simp only [map_cons, sum_cons, hw]
    · have hsz' : sumSize + p.size = sizes (first :: (others ++ [p])) := by
        have ha := sizes_append (first :: others) [p]
        rw [hsize]
        simpa [sizes] using ha.symm
      have hb : ∀ q ∈ others ++ [p], differ first q = false := by
        intro q hq
        obtain hq | hq := mem_append.1 hq
        · exact same q hq
        · rw [mem_singleton.1 hq]
          exact Bool.eq_false_iff.2 hd
      have hr := ih first (others ++ [p]) hsz' hb
      simpa only [cons_append, append_assoc, singleton_append, nil_append] using hr

lemma partitionBy_cuts (h : partitionBy differ newSamplerGroup items = (groups, sumWeight)) :
    Cuts differ newSamplerGroup items groups ∧ sumWeight = (groups.map (·.weight)).sum := by
  cases items with
  | nil =>
    cases h
    exact ⟨⟨rfl, forall_mem_nil _⟩, rfl⟩
  | cons p rest =>
    have hf : p.size = sizes [p] := by simp [sizes]
    obtain ⟨rfl, rfl⟩ := Prod.mk.inj h.symm
    exact partitionLoop_cuts keepsItems p [] rest hf (forall_mem_nil _)

end Partition

lemma metricLoop_cuts (p : SamplingMultiItemPair) (ps : List SamplingMultiItemPair) :
    Cuts (fun a b => a.metricID ≠ b.metricID) (fixedGroup partFs) (p :: ps)
      (partitionLoop (fun a b => a.metricID ≠ b.metricID) (fixedGroup partFs) p [p] (0 + p.size)
        ps).1 :=
  (partitionLoop_cuts (fun _ _ _ => rfl) p [] ps (by simp [sizes]) (forall_mem_nil _)).1

/-- The metrics are cut apart; those before the first one without a budget get groups of their
own, and the rows behind them are left. -/
lemma budgetLoop_eq (first : SamplingMultiItemPair) (items : List SamplingMultiItemPair)
    (sumSize : Int) (rest : List SamplingMultiItemPair) :
    let groups := (partitionLoop (fun a b => a.metricID ≠ b.metricID) (fixedGroup partFs) first
      items sumSize rest).1
    budgetLoop partFs first items sumSize rest =
      (groups.takeWhile (0 < ·.budget), groupItems (groups.dropWhile (0 < ·.budget))) := by
  induction rest generalizing first items sumSize with
  | nil =>
    rw [budgetLoop]
    split_ifs with hb <;> simp [partitionLoop, groupItems, fixedGroup, hb]
  | cons p rest ih =>
    have hc := (metricLoop_cuts partFs p rest).cover
    simp only [budgetLoop, partitionLoop, decide_eq_true_eq]
    split_ifs with hd hb
    · simp [ih, fixedGroup, hb]
    · have hn : ¬(0 : Int) < first.budget := by omega
      simp only [takeWhile_cons, dropWhile_cons, fixedGroup, hn, decide_false, Bool.false_eq_true,
        if_false, groupItems, map_cons, flatten_cons]
      exact congrArg (fun xs => ([], items ++ xs)) hc.symm
    · exact ih first (items ++ [p]) (sumSize + p.size)

/-- The groups with a budget of their own come first, then the rows that are left. -/
lemma budgetLoop_cuts (p : SamplingMultiItemPair) (ps : List SamplingMultiItemPair) :
    groupItems (budgetLoop partFs p [p] p.size ps).1 ++ (budgetLoop partFs p [p] p.size ps).2 =
        p :: ps ∧
      (∀ s ∈ (budgetLoop partFs p [p] p.size ps).1,
        ∃ q qs, s = fixedGroup partFs q (q :: qs) (sizes (q :: qs)) ∧ 0 < q.budget ∧
          ∀ x ∈ qs, x.metricID = q.metricID) ∧
      ∀ x ∈ (budgetLoop partFs p [p] p.size ps).2.head?, x.budget = 0 := by
  have hc := metricLoop_cuts partFs p ps
  rw [← zero_add p.size, budgetLoop_eq]
  generalize (partitionLoop _ _ p [p] (0 + p.size) ps).1 = groups at hc
  refine ⟨?_, ?_, ?_⟩
  · rw [← hc.cover, groupItems, groupItems, ← flatten_append, ← map_append,
      takeWhile_append_dropWhile, groupItems]
  · intro s hs
    obtain ⟨q, qs, -, rfl, ha⟩ := hc.made s (takeWhile_subset _ hs)
    have hb := all_eq_true.1 all_takeWhile _ hs
    exact ⟨q, qs, rfl, by simpa [fixedGroup] using hb,
      fun x hx => (of_decide_eq_false (ha x hx) |> not_not.1).symm⟩
  · have hf := head?_dropWhile_not (fun s => 0 < s.budget) groups
    have hm : ∀ s ∈ groups.dropWhile (0 < ·.budget), s ∈ groups :=
      fun s hs => dropWhile_subset _ hs
    cases hd : groups.dropWhile (0 < ·.budget) with
    | nil => simp [groupItems]
    | cons s rest =>
      rw [hd] at hf hm
      obtain ⟨q, qs, -, rfl, -⟩ := hc.made s (hm s (.head _))
      simpa [groupItems, fixedGroup] using hf

/-- What every partition function does, at any level. -/
structure Partitioned (g : SamplerGroup) (groups : List SamplerGroup) : Prop where
  cover : groupItems groups = g.items
  sound : ∀ s ∈ groups, s.items ≠ [] ∧ s.sumSize = sizes s.items

lemma Cuts.partitioned {differ : SamplingMultiItemPair → SamplingMultiItemPair → Bool}
    {newSamplerGroup : SamplingMultiItemPair → List SamplingMultiItemPair → Int → SamplerGroup}
    (h : Cuts differ newSamplerGroup g.items groups)
    (keepsSize : ∀ first items size, (newSamplerGroup first items size).sumSize = size) :
    Partitioned g groups := by
  refine ⟨h.cover, ?_⟩
  intro s hs
  obtain ⟨first, others, hit, hs, _⟩ := h.made s hs
  refine ⟨hit ▸ cons_ne_nil first others, ?_⟩
  rw [hit, hs, keepsSize]

/-- What the groups of a partition function have in common. -/
def PartitionFunc.key : PartitionFunc → SamplingMultiItemPair → Int
  | .byNamespace, p => p.metric.namespaceID
  | .byGroup, p => p.metric.groupID
  | .byBudget, p => p.metricID
  | .byMetric, p => p.metricID

def PartitionFunc.weight (cfg : SamplerConfig) : PartitionFunc → SamplingMultiItemPair → Int
  | .byNamespace, p => p.getNamespaceWeight cfg
  | .byGroup, p => p.getGroupWeight cfg
  | .byBudget, _ => 1
  | .byMetric, p => p.metric.effectiveWeight

lemma partitionPlain_partitioned {f : PartitionFunc}
    (h : partitionPlain cfg g f = some (groups, sumWeight)) :
    Partitioned g groups ∧ sumWeight = (groups.map (·.weight)).sum ∧
      ∀ s ∈ groups, s.depth = g.depth + 1 ∧ s.fixedBudget = false ∧ ∃ first ∈ s.items,
        s.weight = f.weight cfg first ∧ ∀ p ∈ s.items, f.key p = f.key first := by
  have ha {differ} {new}
      (hi : ∀ first items size, (new first items size).items = items)
      (hs : ∀ first items size, (new first items size).sumSize = size)
      (hd : ∀ first items size, (new first items size).depth = g.depth + 1 ∧
        (new first items size).fixedBudget = false ∧
        (new first items size).weight = f.weight cfg first)
      (hk : ∀ first p, differ first p = decide (f.key first ≠ f.key p))
      (hp : partitionBy differ new g.items = (groups, sumWeight)) :
      Partitioned g groups ∧ sumWeight = (groups.map (·.weight)).sum ∧
        ∀ s ∈ groups, s.depth = g.depth + 1 ∧ s.fixedBudget = false ∧ ∃ first ∈ s.items,
          s.weight = f.weight cfg first ∧ ∀ p ∈ s.items, f.key p = f.key first := by
    obtain ⟨hc, hb⟩ := partitionBy_cuts hi hp
    refine ⟨hc.partitioned hs, hb, ?_⟩
    intro s hm
    obtain ⟨first, others, hit, heq, he⟩ := hc.made s hm
    obtain ⟨ht, hf, hw⟩ := hd first (first :: others) (sizes (first :: others))
    rw [hit, heq]
    refine ⟨ht, hf, first, .head _, hw, ?_⟩
    rintro p (_ | ⟨_, hp⟩)
    · rfl
    · exact (of_decide_eq_false (hk first p ▸ he p hp) |> not_not.1).symm
  cases f with
  | byBudget => cases h
  | byNamespace | byGroup | byMetric =>
    exact ha (fun _ _ _ => rfl) (fun _ _ _ => rfl) (fun _ _ _ => ⟨rfl, rfl, rfl⟩)
      (fun _ _ => rfl) (Option.some.inj h)

lemma byBudget_not_mem_plainF (cfg : SamplerConfig) : .byBudget ∉ cfg.plainF := by
  unfold plainF
  split_ifs <;> simp

lemma plainF_ne_nil (cfg : SamplerConfig) : cfg.plainF ≠ [] := by
  simp [plainF]

/-- Rows are cut by budget on the first level only, and another function follows. -/
lemma partF_byBudget {depth : Nat} (h : cfg.partF[depth]? = some .byBudget) :
    depth = 0 ∧ cfg.sampleBudgets = true ∧ ∃ f ∈ cfg.plainF, cfg.partF[1]? = some f := by
  unfold partF at h ⊢
  split_ifs at h ⊢ with hb
  · cases depth with
    | zero =>
      obtain ⟨f, fs, hp⟩ := exists_cons_of_ne_nil (plainF_ne_nil cfg)
      exact ⟨rfl, hb, f, by simp [hp], by simp [hp]⟩
    | succ depth =>
      rw [getElem?_cons_succ] at h
      exact absurd (mem_of_getElem? h) (byBudget_not_mem_plainF cfg)
  · exact absurd (mem_of_getElem? h) (byBudget_not_mem_plainF cfg)

lemma one_le_length_partF (cfg : SamplerConfig) : 1 ≤ cfg.partF.length := by
  have hp := length_pos_iff.2 (plainF_ne_nil cfg)
  unfold partF
  split_ifs
  · exact Nat.le_add_left _ _
  · exact hp

lemma partitionPlain_isSome (cfg : SamplerConfig) (g : SamplerGroup) {f : PartitionFunc}
    (hf : f ≠ .byBudget) : ∃ groups w, partitionPlain cfg g f = some (groups, w) := by
  cases f with
  | byBudget => exact absurd rfl hf
  | byNamespace | byGroup | byMetric => exact ⟨_, _, rfl⟩

/-- The groups of the loop, and what the next function makes of the rows that are left. -/
lemma partitionByBudget_cases (h : partitionByBudget cfg g = some (groups, sumWeight)) :
    g.items = [] ∧ groups = [] ∨ ∃ p ps fixed rest others, g.items = p :: ps ∧
      budgetLoop cfg.partF.length p [p] p.size ps = (fixed, rest) ∧ groups = fixed ++ others ∧
      (rest = [] ∧ others = [] ∨ ∃ f, cfg.partF[g.depth + 1]? = some f ∧
        partitionPlain cfg (g.unbudgeted rest) f = some (others, sumWeight)) := by
  unfold partitionByBudget at h
  cases hit : g.items with
  | nil =>
    rw [hit] at h
    cases h
    exact .inl ⟨rfl, rfl⟩
  | cons p ps =>
    rw [hit] at h
    obtain ⟨fixed, rest, hl⟩ :
        ∃ fixed rest, budgetLoop cfg.partF.length p [p] p.size ps = (fixed, rest) := ⟨_, _, rfl⟩
    refine .inr ⟨p, ps, fixed, rest, ?_⟩
    simp only [hl] at h
    cases rest with
    | nil =>
      cases h
      exact ⟨[], rfl, hl, (append_nil _).symm, .inl ⟨rfl, rfl⟩⟩
    | cons q others =>
      simp only [Option.bind_eq_bind, Option.bind_eq_some_iff, Option.some.injEq,
        Prod.mk.injEq] at h
      obtain ⟨f, hf, r, hr, hg, hw⟩ := h
      refine ⟨r.1, rfl, hl, hg.symm, .inr ⟨f, hf, ?_⟩⟩
      rw [hr, ← hw]

/-- The groups without a budget of their own. -/
def sharing (groups : List SamplerGroup) : List SamplerGroup :=
  groups.filter fun s => !s.fixedBudget

lemma mem_sharing {s : SamplerGroup} {groups : List SamplerGroup} :
    s ∈ sharing groups ↔ s ∈ groups ∧ s.fixedBudget = false := by
  simp [sharing]

lemma sharing_append (kept left : List SamplerGroup) :
    sharing (kept ++ left) = sharing kept ++ sharing left :=
  filter_append ..

lemma sharing_eq_self (h : ∀ s ∈ groups, s.fixedBudget = false) : sharing groups = groups :=
  filter_eq_self.2 fun s hs => by simp [h s hs]

lemma sharing_eq_nil (h : ∀ s ∈ groups, s.fixedBudget = true) : sharing groups = [] :=
  filter_eq_nil_iff.2 fun s hs => by simp [h s hs]

lemma PartitionFunc.weight_pos (cfg : SamplerConfig) (f : PartitionFunc) {p : SamplingMultiItemPair}
    (hp : 0 < p.metric.effectiveWeight) : 0 < f.weight cfg p := by
  cases f with
  | byBudget => exact one_pos
  | byNamespace =>
    unfold weight SamplingMultiItemPair.getNamespaceWeight
    simp only
    split_ifs <;> omega
  | byGroup =>
    unfold weight SamplingMultiItemPair.getGroupWeight
    simp only
    split_ifs <;> omega
  | byMetric => exact hp

/-- The groups of a level cover its rows one after the other, and lie deeper. -/
structure Level (g : SamplerGroup) (groups : List SamplerGroup) (sumWeight : Int) : Prop
    extends Partitioned g groups where
  deeper : ∀ s ∈ groups, g.depth < s.depth
  weights : sharing groups ≠ [] → sumWeight = ((sharing groups).map (·.weight)).sum
  budgets : ∀ s ∈ groups, s.fixedBudget = true → ∃ p ∈ s.items, 0 < p.budget
  positive : ∀ s ∈ groups, (∀ p ∈ s.items, 0 < p.metric.effectiveWeight) → 0 < s.weight

lemma level_nil (hit : g.items = []) : Level g [] sumWeight :=
  ⟨⟨hit.symm, forall_mem_nil _⟩, forall_mem_nil _, fun hne => absurd rfl hne, forall_mem_nil _,
    forall_mem_nil _⟩

lemma partitionPlain_level {f : PartitionFunc}
    (h : partitionPlain cfg g f = some (groups, sumWeight)) :
    Level g groups sumWeight ∧ ∀ s ∈ groups, s.fixedBudget = false := by
  obtain ⟨ht, hm, hp⟩ := partitionPlain_partitioned h
  have hu := fun s hs => (hp s hs).2.1
  refine ⟨⟨ht, fun s hs => (hp s hs).1 ▸ Nat.lt_succ_self _, ?_, ?_, ?_⟩, hu⟩
  · rw [sharing_eq_self hu]
    exact fun _ => hm
  · intro s hs hf
    exact absurd hf (by simp [hu s hs])
  · intro s hs ha
    obtain ⟨-, -, first, hb, hw, -⟩ := hp s hs
    exact hw ▸ f.weight_pos cfg (ha first hb)

lemma partition_level (h : partition cfg g = some (groups, sumWeight)) :
    Level g groups sumWeight := by
  unfold partition at h
  split at h
  · unfold partitionByKey at h
    simp only at h
    split_ifs at h
    obtain ⟨hu, ha⟩ := partitionBy_cuts (fun _ _ _ => rfl) (Option.some.inj h)
    have hm : ∀ s ∈ groups, s.depth = g.depth + 1 ∧ s.fixedBudget = false ∧ s.weight = 1 := by
      intro s hs
      obtain ⟨first, others, _, heq, _⟩ := hu.made s hs
      rw [heq]
      exact ⟨rfl, rfl, rfl⟩
    refine ⟨hu.partitioned fun _ _ _ => rfl, fun s hs => (hm s hs).1 ▸ Nat.lt_succ_self _,
      ?_, ?_, fun s hs _ => (hm s hs).2.2 ▸ one_pos⟩
    · rw [sharing_eq_self fun s hs => (hm s hs).2.1]
      exact fun _ => ha
    · intro s hs hf
      exact absurd hf (by simp [(hm s hs).2.1])
  · rename_i hd
    obtain ⟨hz, _, _⟩ := partF_byBudget hd
    obtain ⟨hit, rfl⟩ | ⟨p, ps, fixed, rest, others, hit, hl, rfl, ho⟩ :=
      partitionByBudget_cases h
    · exact level_nil hit
    obtain ⟨hc, hf, -⟩ := budgetLoop_cuts cfg.partF.length p ps
    rw [hl] at hc hf
    have hr : Level (g.unbudgeted rest) others sumWeight ∧
        ∀ s ∈ others, s.fixedBudget = false := by
      obtain ⟨rfl, rfl⟩ | ⟨f, _, hp⟩ := ho
      · exact ⟨level_nil rfl, forall_mem_nil _⟩
      · exact partitionPlain_level hp
    obtain ⟨hr, he⟩ := hr
    refine ⟨⟨?_, ?_⟩, ?_, ?_, ?_, ?_⟩
    · have hcv' := hr.cover
      simp only [groupItems, map_append, flatten_append] at hc hcv' ⊢
      rw [hcv', hit]
      exact hc
    · refine forall_mem_append.2 ⟨fun s hs => ?_, hr.sound⟩
      obtain ⟨p, ps, rfl, _⟩ := hf s hs
      exact ⟨cons_ne_nil p ps, rfl⟩
    · refine forall_mem_append.2 ⟨fun s hs => ?_, fun s hs => ?_⟩
      · obtain ⟨p, ps, rfl, _⟩ := hf s hs
        rw [hz]
        exact one_le_length_partF cfg
      · exact (Nat.lt_succ_self _).trans (hr.deeper s hs)
    · have hn : sharing fixed = [] := by
        refine sharing_eq_nil fun s hs => ?_
        obtain ⟨p, ps, rfl, _⟩ := hf s hs
        rfl
      rw [sharing_append, hn]
      exact hr.weights
    · refine forall_mem_append.2 ⟨fun s hs _ => ?_, hr.budgets⟩
      obtain ⟨p, ps, rfl, hb, _⟩ := hf s hs
      exact ⟨p, .head _, hb⟩
    · refine forall_mem_append.2 ⟨fun s hs _ => ?_, hr.positive⟩
      obtain ⟨p, ps, rfl, _⟩ := hf s hs
      exact one_pos
  · exact (partitionPlain_level h).1

/-- A level that is not too deep is cut. -/
lemma partition_isSome (depth : g.depth < cfg.partF.length + maxFairKeyLen) :
    ∃ groups sumWeight, partition cfg g = some (groups, sumWeight) := by
  unfold partition
  split
  · rename_i hn
    have hd := getElem?_eq_none_iff.1 hn
    unfold partitionByKey
    rw [if_neg (by omega)]
    exact ⟨_, _, rfl⟩
  · rename_i hb
    obtain ⟨hz, _, f, hf, hx⟩ := partF_byBudget hb
    unfold partitionByBudget
    split
    · exact ⟨_, _, rfl⟩
    · simp only
      split
      · exact ⟨_, _, rfl⟩
      · rename_i q others _
        obtain ⟨groups, w, hp⟩ := partitionPlain_isSome cfg (g.unbudgeted (q :: others))
          fun heq => byBudget_not_mem_plainF cfg (heq ▸ hf)
        rw [hz, Nat.zero_add, hx]
        simp only [Option.bind_eq_bind, Option.bind_some, hp]
        exact ⟨_, _, rfl⟩
  · rename_i f ht _
    exact partitionPlain_isSome cfg g fun heq => ht heq

/-- The call for a row that is kept and stands for itself only. -/
def keptWhole (p : SamplingRow) : Call := .keep p.item p.bucketTs p.size 1

/-- What happened between two states: one call for each of the rows, in some order. -/
def Handles (h h' : State) (items : List SamplingMultiItemPair) : Prop :=
  ∃ calls, h'.calls = h.calls ++ calls ∧ (calls.map item).Perm (items.map (·.item))

lemma Handles.refl : Handles h h [] := ⟨[], (append_nil _).symm, nil⟩

lemma Handles.of_calls {h h' : State} (same : h'.calls = h.calls) : Handles h h' [] :=
  ⟨[], by rw [same, append_nil], nil⟩

lemma Handles.trans {h h' h'' : State} (first : Handles h h' items)
    (second : Handles h' h'' items') :
    Handles h h'' (items ++ items') := by
  obtain ⟨calls, hc, hp⟩ := first
  obtain ⟨calls', hcl', hpr'⟩ := second
  refine ⟨calls ++ calls', ?_, ?_⟩
  · rw [hcl', hc, append_assoc]
  · simpa only [map_append] using hp.append hpr'

lemma Handles.perm {h h' : State} (handles : Handles h h' items) (perm : items.Perm items') :
    Handles h h' items' := by
  obtain ⟨calls, hc, hp⟩ := handles
  exact ⟨calls, hc, hp.trans (perm.map _)⟩

variable (call : SamplingMultiItemPair → Call)

/-- A loop that makes one call for each row. -/
lemma foldl_calls (items : List SamplingMultiItemPair)
    (calls : ∀ h p, (f h p).calls = h.calls ++ [call p]) (h : State) :
    (items.foldl f h).calls = h.calls ++ items.map call := by
  induction items generalizing h with
  | nil => exact (append_nil _).symm
  | cons p items ih =>
    rw [foldl_cons, ih, calls, append_assoc]
    rfl

lemma handles_foldl (items : List SamplingMultiItemPair)
    (calls : ∀ h p, (f h p).calls = h.calls ++ [call p]) (hitems : ∀ p, (call p).item = p.item)
    (h : State) : Handles h (items.foldl f h) items :=
  ⟨items.map call, foldl_calls call items calls h, by simp [Function.comp_def, hitems]⟩

@[simp] lemma setCurrentGroup_calls (g : SamplerGroup) : (h.setCurrentGroup g).calls = h.calls := by
  unfold setCurrentGroup
  split_ifs <;> rfl

@[simp] lemma setCurrentMetric_calls (metricID : Int) :
    (h.setCurrentMetric metricID).calls = h.calls := by
  unfold setCurrentMetric
  split_ifs <;> rfl

@[simp] lemma enterGroup_calls (cfg : SamplerConfig) (h : State) (s : SamplerGroup) :
    (enterGroup cfg h s).calls = h.calls := by
  unfold enterGroup
  split_ifs <;> simp

lemma handles_keep_all (items : List SamplingMultiItemPair) (h : State) :
    Handles h (items.foldl (fun h p => p.keep sf h) h) items :=
  handles_foldl (fun p => .keep p.item p.bucketTs p.size sf) items (fun _ _ => rfl) (fun _ => rfl) h

lemma handles_discard_all (items : List SamplingMultiItemPair) (h : State) :
    Handles h (items.foldl (fun h p => p.discard sf h) h) items :=
  handles_foldl (fun p => .discard p.item p.bucketTs sf) items (fun _ _ => rfl) (fun _ => rfl) h

lemma selectLoop_perm (rng : Rng) (kept passed rest : List SamplingMultiItemPair) :
    ((selectLoop sf rng kept passed rest).1.1 ++ (selectLoop sf rng kept passed rest).1.2).Perm
      (kept ++ passed ++ rest) := by
  induction rest generalizing rng kept passed with
  | nil => simp [selectLoop]
  | cons p rest ih =>
    rw [selectLoop]
    simp only
    split_ifs
    · cases passed with
      | nil =>
        apply (ih _ (kept ++ [p]) []).trans
        simp
      | cons q others =>
        apply (ih _ (kept ++ [p]) (others ++ [q])).trans
        simp only [append_assoc]
        apply append_left kept
        have ho : (p :: (others ++ q :: rest)).Perm (p :: q :: (others ++ rest)) :=
          perm_middle.cons p
        exact (ho.trans (swap q p _)).trans (perm_middle.symm.cons q)
    · apply (ih _ kept (passed ++ [p])).trans
      simp

lemma handles_sampleRemaining (items : List SamplingMultiItemPair) (h : State) :
    Handles h (sampleRemaining sf items h) items := by
  unfold sampleRemaining
  have hd : Handles h { h with rng := (selectRandom items sf h.rng).2 } [] := Handles.of_calls rfl
  have hk := hd.trans (handles_keep_all sf (selectRandom items sf h.rng).1.1 _)
  have ha := hk.trans (handles_discard_all sf (selectRandom items sf h.rng).1.2 _)
  apply ha.perm
  unfold selectRandom
  split_ifs
  · simp
  · simpa using selectLoop_perm sf h.rng [] [] items

/-- A leaf falls into whales, selected rows and the others. -/
lemma handles_sampleWhales (sorter : Sorter) (pos : Int) (sf : ℚ)
    (items : List SamplingMultiItemPair) (h : State) :
    Handles h (sampleWhales sorter pos sf items h) items := by
  unfold sampleWhales
  split_ifs
  · apply Handles.perm ((handles_keep_all 1 _ h).trans (handles_sampleRemaining (sf * 2) _ _))
    rw [take_append_drop]
    exact sorter.perm _ items
  · exact handles_sampleRemaining sf items h

lemma handles_sample (cfg : SamplerConfig) (sorter : Sorter) (h : State) (g : SamplerGroup) :
    Handles h (sample cfg sorter h g) g.items := by
  unfold sample
  cases hit : g.items with
  | nil => exact Handles.refl h
  | cons first others =>
    simp only
    split_ifs with hs
    · have ho : others = [] := by
        simp only [Bool.and_eq_true, List.isEmpty_iff] at hs
        exact hs.1.2
      rw [ho]
      exact handles_keep_all 1 [first] h
    · exact (Handles.of_calls rfl).trans (handles_sampleWhales sorter _ _ _ _)

lemma handles_sampleQuota (g : SamplerGroup) : Handles h (sampleQuota h g) g.items := by
  refine handles_foldl (fun p =>
    let quota := toInt64 (((g.budget * p.size : Int) : ℚ) / ((g.budgetDenom * g.sumSize : Int) : ℚ))
    if quota < 1 then .discard p.item p.bucketTs maxFloat32
    else .keep p.item p.bucketTs quota 1) g.items ?_ ?_ h
  · intro h p
    simp only
    split_ifs <;> rfl
  · intro p
    simp only
    split_ifs <;> rfl

lemma handles_runSampleF (cfg : SamplerConfig) (sorter : Sorter) (h : State) (g : SamplerGroup) :
    Handles h (cfg.runSampleF sorter h g) g.items := by
  unfold runSampleF
  cases cfg.sampleF with
  | sampleRows => exact handles_sample cfg sorter h g
  | sampleQuota => exact handles_sampleQuota h g

/-- A share changes the budget only. -/
@[simp] lemma share_fields (s : SamplerGroup) (b w : Int) : (s.share b w).items = s.items ∧
    (s.share b w).depth = s.depth ∧ (s.share b w).sumSize = s.sumSize := by
  unfold share
  split_ifs <;> exact ⟨rfl, rfl, rfl⟩

lemma group_keep_calls (g : SamplerGroup) (h : State) :
    (g.keep h).calls = h.calls ++ g.items.map fun p => keptWhole p.toSamplingRow :=
  foldl_calls (fun p => keptWhole p.toSamplingRow) g.items (fun _ _ => rfl) h

/-- Where the first loop stops: behind the groups it keeps, before one larger than its share. -/
structure Stops (h : State) (budget sumWeight : Int) (groups kept : List SamplerGroup)
    (r : Remaining) : Prop where
  split : groups = kept ++ r.groups
  calls : r.state.calls = h.calls ++ (groupItems kept).map fun p => keptWhole p.toSamplingRow
  budget : r.budget + ((sharing kept).map (·.sumSize)).sum = budget
  weight : r.sumWeight + ((sharing kept).map (·.weight)).sum = sumWeight
  last : ∀ s ∈ kept.getLast?, s.fixedBudget = false → r.sumWeight * s.sumSize ≤ r.budget * s.weight
  next : ∀ s ∈ r.groups.head?, (s.share r.budget r.sumWeight).budget <
    (s.share r.budget r.sumWeight).budgetDenom * s.sumSize

lemma keepLoop_stops (budget sumWeight : Int) (groups : List SamplerGroup) :
    ∃ kept, Stops h budget sumWeight groups kept (keepLoop h budget sumWeight groups) := by
  induction groups generalizing h budget sumWeight with
  | nil =>
    rw [keepLoop]
    exact ⟨[], rfl, by simp [groupItems], by simp [sharing], by simp [sharing], by simp, by simp⟩
  | cons s groups ih =>
    rw [keepLoop]
    simp only [share_fields]
    split
    next ho =>
      refine ⟨[], rfl, by simp [groupItems], by simp [sharing], by simp [sharing], by simp, ?_⟩
      intro z hz
      obtain rfl : s = z := Option.some.inj hz
      exact ho
    next ht =>
      have hp : ((s.share budget sumWeight).keep (if (s.share budget sumWeight).metricID = 0 then
            h.setCurrentGroup (s.share budget sumWeight) else h)).calls =
          h.calls ++ s.items.map fun p => keptWhole p.toSamplingRow := by
        rw [group_keep_calls, (share_fields ..).1]
        split_ifs
        · rw [setCurrentGroup_calls]
        · rfl
      generalize (s.share budget sumWeight).keep _ = h' at hp
      obtain ⟨b, w, ha, hb, hw, hl⟩ : ∃ b w, (if (s.share budget sumWeight).fixedBudget then
            keepLoop h' budget sumWeight groups
          else keepLoop h' (budget - s.sumSize) (sumWeight - (s.share budget sumWeight).weight)
            groups) = keepLoop h' b w groups ∧
          b + ((sharing [s]).map (·.sumSize)).sum = budget ∧
          w + ((sharing [s]).map (·.weight)).sum = sumWeight ∧
          (s.fixedBudget = false → w * s.sumSize ≤ b * s.weight) := by
        unfold share at ht ⊢
        cases hf : s.fixedBudget with
        | true => exact ⟨budget, sumWeight, by simp [sharing, hf]⟩
        | false =>
          refine ⟨budget - s.sumSize, sumWeight - s.weight, rfl, by simp [sharing, hf],
            by simp [sharing, hf], fun _ => ?_⟩
          rw [sub_mul, sub_mul, mul_comm s.weight]
          exact sub_le_sub_right (not_lt.1 (by simpa [hf] using ht)) _
      rw [ha]
      obtain ⟨kept, hs⟩ := ih h' b w
      have hc : sharing (s :: kept) = sharing [s] ++ sharing kept := sharing_append [s] kept
      have hd := hs.budget
      have he := hs.weight
      refine ⟨s :: kept, congrArg (s :: ·) hs.split, ?_, ?_, ?_, ?_, hs.next⟩
      · rw [hs.calls, hp, append_assoc, ← map_append]
        rfl
      · rw [hc, map_append, sum_append]
        omega
      · rw [hc, map_append, sum_append]
        omega
      · intro z hz hf
        cases kept with
        | nil =>
          obtain rfl : s = z := Option.some.inj hz
          rw [(add_zero _).symm.trans hd, (add_zero _).symm.trans he]
          exact hl hf
        | cons k kept => exact hs.last z (by simpa using hz) hf

/-- A group is handled if the level below handles it. -/
lemma sampleGroup_handles {s : SamplerGroup} (nonempty : s.items ≠ [])
    (below : ∀ h t, t.items = s.items → t.depth = s.depth →
      (∃ first ∈ s.items, s.depth < cfg.partF.length + first.fairKeyLen) →
      ∃ h', descend h t = some h' ∧ Handles h h' t.items) :
    ∃ h', sampleGroup cfg sorter descend h s = some h' ∧ Handles h h' s.items := by
  unfold sampleGroup
  by_cases hexempt : cfg.exempt s = true
  · rw [if_pos hexempt]
    exact ⟨_, rfl, handles_keep_all 1 s.items h⟩
  rw [if_neg hexempt]
  split
  · rename_i hit
    exact absurd hit nonempty
  · rename_i first others hit
    by_cases hdpr : s.depth < cfg.partF.length + first.fairKeyLen
    · have hf : ∃ first ∈ s.items, s.depth < cfg.partF.length + first.fairKeyLen :=
        ⟨first, hit ▸ (.head _), hdpr⟩
      rw [if_pos hdpr]
      split
      · exact below h s rfl rfl hf
      · obtain ⟨h', hr, hh⟩ := below
          { h with rng := (roundSampleFactor (s.budget / s.budgetDenom) h.rng).2 }
          { s with
            budget := toInt64 (roundSampleFactor (s.budget / s.budgetDenom) h.rng).1
            budgetDenom := 1 } rfl rfl hf
        exact ⟨h', hr, (Handles.of_calls rfl).trans hh⟩
    · rw [if_neg hdpr]
      exact ⟨_, rfl, handles_runSampleF cfg sorter h s⟩

/-- The second loop handles all its groups if the levels below do. -/
lemma sampleLoop_handles (budget sumWeight : Int) (h : State)
    (nonempty : ∀ s ∈ groups, s.items ≠ [])
    (below : ∀ s ∈ groups, ∀ h t, t.items = s.items → t.depth = s.depth →
      (∃ first ∈ s.items, s.depth < cfg.partF.length + first.fairKeyLen) →
      ∃ h', descend h t = some h' ∧ Handles h h' t.items) :
    ∃ h', sampleLoop cfg sorter descend budget sumWeight h groups = some h' ∧
      Handles h h' (groupItems groups) := by
  induction groups generalizing h with
  | nil => exact ⟨h, rfl, Handles.refl h⟩
  | cons s groups ih =>
    have ho : ∃ h', sampleGroup cfg sorter descend (enterGroup cfg h (s.share budget sumWeight))
          (s.share budget sumWeight) = some h' ∧
        Handles (enterGroup cfg h (s.share budget sumWeight)) h'
          (s.share budget sumWeight).items := by
      apply sampleGroup_handles
      · rw [(share_fields ..).1]
        exact nonempty s (.head _)
      · simpa only [share_fields] using below s (.head _)
    obtain ⟨h', hg, hh⟩ := ho
    rw [(share_fields ..).1] at hh
    obtain ⟨h'', hr, hhn'⟩ := ih h' (fun s' hs' => nonempty s' (.tail s hs'))
      fun s' hs' => below s' (.tail s hs')
    refine ⟨h'', ?_, ?_⟩
    · simp [sampleLoop, hg, hr]
    · exact ((Handles.of_calls (enterGroup_calls cfg h _)).trans hh).trans hhn'

/-- What the first loop leaves is handled, if the levels below handle their rows. -/
lemma level_handles (parts : partition cfg g = some (groups, sumWeight))
    (keyLens : ∀ p ∈ g.items, p.fairKeyLen ≤ maxFairKeyLen)
    (below : ∀ h t, g.depth < t.depth → t.depth < cfg.partF.length + maxFairKeyLen →
      (∀ p ∈ t.items, p.fairKeyLen ≤ maxFairKeyLen) →
      ∃ h', run cfg sorter fuel h t = some h' ∧ Handles h h' t.items) :
    ∃ h', run cfg sorter (fuel + 1) h g = some h' ∧
      Handles (keepLoop h g.budget sumWeight (sorter.sortSlice groupLess groups)).state h'
        (groupItems
          (keepLoop h g.budget sumWeight (sorter.sortSlice groupLess groups)).groups) := by
  have hl := partition_level parts
  obtain ⟨kept, ht⟩ := keepLoop_stops h g.budget sumWeight (sorter.sortSlice groupLess groups)
  have hg := ht.split
  generalize ha : keepLoop h g.budget sumWeight (sorter.sortSlice groupLess groups) = r at hg
  have hm : ∀ s ∈ r.groups, s ∈ groups := by
    intro s hs
    exact (sorter.perm groupLess groups).mem_iff.1 (hg ▸ mem_append_right kept hs)
  have hc : ∃ h', sampleLoop cfg sorter (run cfg sorter fuel) r.budget r.sumWeight r.state
        r.groups = some h' ∧ Handles r.state h' (groupItems r.groups) := by
    refine sampleLoop_handles r.budget r.sumWeight r.state
      (fun s hs => (hl.sound s (hm s hs)).1) ?_
    rintro s hs h t hit hd ⟨first, hf, hlt⟩
    have hb : ∀ p ∈ s.items, p.fairKeyLen ≤ maxFairKeyLen := by
      intro p hp
      apply keyLens p
      rw [← hl.cover]
      exact mem_flatten.2 ⟨s.items, mem_map_of_mem (hm s hs), hp⟩
    have hk := hb first hf
    have he := hl.deeper s (hm s hs)
    exact below h t (by omega) (by omega) (hit ▸ hb)
  obtain ⟨h', hr, hh⟩ := hc
  refine ⟨h', ?_, hh⟩
  simp [run, parts, ha, hr]

/-- Every level makes one call for each of its rows; the levels below it are fewer. -/
theorem run_handles (sorter : Sorter) (h : State)
    (depth : g.depth < cfg.partF.length + maxFairKeyLen) (enough : cfg.levels ≤ fuel + g.depth)
    (keyLens : ∀ p ∈ g.items, p.fairKeyLen ≤ maxFairKeyLen) :
    ∃ h', run cfg sorter fuel h g = some h' ∧ Handles h h' g.items := by
  induction fuel generalizing h g with
  | zero =>
    unfold levels at enough
    omega
  | succ fuel ih =>
    obtain ⟨groups, sumWeight, hr⟩ := partition_isSome depth
    obtain ⟨h', hn, ha⟩ := level_handles h hr keyLens fun h t hdpr hb ht => ih h hb (by omega) ht
    refine ⟨h', hn, ?_⟩
    obtain ⟨kept, hs⟩ := keepLoop_stops h g.budget sumWeight (sorter.sortSlice groupLess groups)
    have hk : Handles h (keepLoop h g.budget sumWeight (sorter.sortSlice groupLess groups)).state
        (groupItems kept) := ⟨_, hs.calls, by simp [Function.comp_def, keptWhole, item]⟩
    apply (hk.trans ha).perm
    have hl : groupItems kept ++ groupItems
        (keepLoop h g.budget sumWeight (sorter.sortSlice groupLess groups)).groups =
          groupItems (sorter.sortSlice groupLess groups) := by
      nth_rewrite 2 [hs.split]
      simp [groupItems]
    rw [hl, ← (partition_level hr).cover]
    exact ((sorter.perm groupLess groups).map _).flatten

@[simp] lemma setFairKey_row (cfg : SamplerConfig) (p : SamplingMultiItemPair) :
    (setFairKey cfg p).toSamplingRow = p.toSamplingRow := by
  unfold setFairKey
  split_ifs <;> rfl

/-- The metadata query changes no field that the caller set. -/
lemma queryMetrics_rows (cfg : SamplerConfig) (previous : Option SamplingMultiItemPair)
    (items : List SamplingMultiItemPair) :
    (queryMetrics cfg previous items).map (·.toSamplingRow) = items.map (·.toSamplingRow) := by
  induction items generalizing previous with
  | nil => rfl
  | cons p items ih => simp [queryMetrics, ih]

lemma queryMetrics_fairKeyLen {previous : Option SamplingMultiItemPair}
    (hit : ∀ p ∈ items, p.fairKeyLen ≤ maxFairKeyLen) :
    ∀ p ∈ queryMetrics cfg previous items, p.fairKeyLen ≤ maxFairKeyLen := by
  induction items generalizing previous with
  | nil => exact forall_mem_nil _
  | cons q items ih =>
    simp only [queryMetrics, mem_cons]
    rintro p (rfl | hp)
    · unfold setFairKey
      split_ifs
      · exact Nat.min_le_right _ _
      · exact hit q (.head _)
    · exact ih (fun p hp => hit p (.tail q hp)) p hp

lemma prepare_rows (cfg : SamplerConfig) (sorter : Sorter) (items : List SamplingMultiItemPair) :
    ((prepare cfg sorter items).map (·.toSamplingRow)).Perm (items.map (·.toSamplingRow)) := by
  apply ((sorter.perm _ _).map _).trans
  rw [queryMetrics_rows]
  exact (sorter.perm _ _).map _

lemma prepare_fairKeyLen (hit : ∀ p ∈ items, p.fairKeyLen ≤ maxFairKeyLen) :
    ∀ p ∈ prepare cfg sorter items, p.fairKeyLen ≤ maxFairKeyLen := by
  intro p hp
  refine queryMetrics_fairKeyLen ?_ p ((sorter.perm _ _).mem_iff.1 hp)
  exact fun q hq => hit q ((sorter.perm _ _).mem_iff.1 hq)

lemma finish_calls : h.finish.calls = h.calls := by
  simp only [finish, setCurrentMetric_calls]
  split_ifs <;> rfl

/-- A run starts at a level with all rows. -/
lemma state_run_cases (cfg : SamplerConfig) (sorter : Sorter) (h : State) (budget : Int) :
    prepare cfg sorter h.items = [] ∧ h.run cfg sorter budget = some h ∨
      ∃ start : State, start.calls = h.calls ∧ h.run cfg sorter budget =
        (run cfg sorter cfg.levels start (rootGroup (prepare cfg sorter h.items) budget)).map
          finish := by
  unfold State.run
  cases prepare cfg sorter h.items with
  | nil => exact .inl ⟨rfl, rfl⟩
  | cons first others => exact .inr ⟨h.start first others budget, rfl, rfl⟩

lemma rootGroup_depth (cfg : SamplerConfig) (items : List SamplingMultiItemPair) (budget : Int) :
    (rootGroup items budget).depth < cfg.partF.length + maxFairKeyLen :=
  Nat.lt_of_lt_of_le (one_le_length_partF cfg) (Nat.le_add_right _ _)

theorem state_run_handles (cfg : SamplerConfig) (sorter : Sorter) {h : State} (budget : Int)
    (keyLens : ∀ p ∈ h.items, p.fairKeyLen ≤ maxFairKeyLen) :
    ∃ h', h.run cfg sorter budget = some h' ∧ Handles h h' (prepare cfg sorter h.items) := by
  rcases state_run_cases cfg sorter h budget with ⟨hn, hr⟩ | ⟨start, ht, hr⟩
  · exact ⟨h, hr, hn ▸ Handles.refl h⟩
  · obtain ⟨h', hl, calls, hc, hp⟩ := run_handles sorter start
      (rootGroup_depth cfg (prepare cfg sorter h.items) budget) (Nat.le_add_right cfg.levels _)
      (prepare_fairKeyLen keyLens)
    refine ⟨h'.finish, by rw [hr, hl, Option.map_some], calls, ?_, hp⟩
    rw [finish_calls, hc, ht]

/-- A row without a size is discarded at once, the others wait for the run. -/
lemma add_handles (p : SamplingRow) : (∀ q ∈ h.items, q.fairKeyLen ≤ maxFairKeyLen) →
    (∀ q ∈ (h.add p).items, q.fairKeyLen ≤ maxFairKeyLen) ∧
      ((h.add p).calls.map item ++ (h.add p).items.map (·.item)).Perm
        (h.calls.map item ++ h.items.map (·.item) ++ [p.item]) := by
  intro hk
  unfold add
  split_ifs
  · refine ⟨hk, ?_⟩
    simp only [map_append, map_cons, map_nil, append_assoc]
    exact perm_append_comm.append_left _
  · constructor
    · intro q hq
      obtain hq | hq := mem_append.1 hq
      · exact hk q hq
      · rw [mem_singleton.1 hq]
        exact Nat.zero_le _
    · simp [SamplingRow.pair]

lemma add_all_handles (added : List SamplingRow)
    (keyLens : ∀ q ∈ h.items, q.fairKeyLen ≤ maxFairKeyLen) :
    (∀ q ∈ (added.foldl add h).items, q.fairKeyLen ≤ maxFairKeyLen) ∧
      ((added.foldl add h).calls.map item ++ (added.foldl add h).items.map (·.item)).Perm
        (h.calls.map item ++ h.items.map (·.item) ++ added.map (·.item)) := by
  induction added generalizing h with
  | nil => exact ⟨keyLens, by simp⟩
  | cons p added ih =>
    obtain ⟨hks', hp⟩ := add_handles h p keyLens
    obtain ⟨hks'', hpr'⟩ := ih (h.add p) hks'
    refine ⟨hks'', hpr'.trans ?_⟩
    simpa using hp.append_right (added.map (·.item))

/-- Run returns for every configuration, rows, budget and random outcome, and every row was
passed to `KeepF` or `DiscardF` once. On each level the groups cover the rows one after the
other. -/
theorem sampling_conserves_rows (cfg : SamplerConfig) (sorter : Sorter) :
    (∀ (rng : Rng) (added : List SamplingRow) (budget : Int),
      ∃ h, addAndRun cfg sorter rng added budget = some h ∧
        (h.calls.map item).Perm (added.map (·.item))) ∧
    ∀ (g : SamplerGroup) (groups : List SamplerGroup) (sumWeight : Int),
      partition cfg g = some (groups, sumWeight) → Partitioned g groups := by
  refine ⟨?_, fun g groups sumWeight h => (partition_level h).toPartitioned⟩
  intro rng added budget
  obtain ⟨hk, had⟩ := add_all_handles { rng := rng } added (forall_mem_nil _)
  obtain ⟨h', hr, calls, hc, ha⟩ := state_run_handles cfg sorter budget hk
  refine ⟨h', hr, ?_⟩
  have hp := (prepare_rows cfg sorter (added.foldl add { rng := rng }).items).map SamplingRow.item
  simp only [map_map] at hp
  rw [hc, map_append]
  exact ((ha.trans hp).append_left _).trans had

theorem sampling_conserves_rows_two :
    Partitioned { items := [{ item := ⟨0, [], none, {} ⟩, size := 3, metricID := 1 },
        { item := ⟨1, [], none, {} ⟩, size := 4, metricID := 2 }] }
      (partitionByMetric { items := [{ item := ⟨0, [], none, {} ⟩, size := 3, metricID := 1 },
        { item := ⟨1, [], none, {} ⟩, size := 4, metricID := 2 }] }).1 :=
  (sampling_conserves_rows {} Sorter.insertion).2 _ _ _ rfl

end Sampler
