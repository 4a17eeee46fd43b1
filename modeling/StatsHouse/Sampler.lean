import StatsHouse.StringTop
import StatsHouse.Transfer

/-!
# The sampler

Rows that do not fit into a budget are thinned out. The rows are cut into groups by own budget,
namespace, group, metric and fair keys, level by level; at each level the groups that fit into
their share are kept and the others are cut further or sampled. Whoever uses the sampler sees
the calls it makes, one for each row.

Integers are unbounded where the source has `int64`, and floats are rationals. `sort.Slice` is a
parameter: any function that permutes, and that sorts when the comparison is a strict weak order.
-/

open Sampling List

namespace ItemValue

def addValueCounter (s : ItemValue) (value count : ℚ) : ItemValue :=
  { s with counter := s.counter + count }.addOnlyValue value count {}

def addValue (s : ItemValue) (value : ℚ) : ItemValue := s.addValueCounter value 1

end ItemValue

namespace MultiValue

def isSingleValueCounter (v : MultiValue) : Bool :=
  v.valueTDigest.isNone && v.hll.itemsCount == 0

def empty (v : MultiValue) : Bool := v.value.counter ≤ 0

end MultiValue

def MultiItem.isSingleValueCounter (s : MultiItem) : Bool :=
  match s.top.entries with
  | [] => s.tail.isSingleValueCounter
  | [e] => s.tail.empty && e.2.isSingleValueCounter
  | _ => false

namespace Sampler

def maxFairKeyLen : Nat := 3

def builtinGroupIDDefault : Int := -4

def builtinGroupIDBuiltin : Int := -2

def builtinGroupIDMissing : Int := -5

def builtinNamespaceIDDefault : Int := -5

def builtinNamespaceIDMissing : Int := -6

structure MetricMeta where
  metricID : Int := 0
  namespaceID : Int := 0
  groupID : Int := 0
  effectiveWeight : Int := 0
  noSampleAgent : Bool := false
  fairKeyIndex : List Int := []
deriving Repr, DecidableEq

def missingMetricMeta : MetricMeta :=
  { groupID := builtinGroupIDMissing
    namespaceID := builtinNamespaceIDMissing
    effectiveWeight := 1 }

/-- An item as the sampler sees it. The number stands for its address. -/
structure SampledItem where
  address : Nat
  tags : List Int := []
  metricMeta : Option MetricMeta := none
  content : MultiItem := {}

/-- The fields that a caller sets. -/
structure SamplingRow where
  item : SampledItem
  whaleWeight : ℚ := 0
  size : Int
  metricID : Int
  bucketTs : Nat := 0
  budget : Nat := 0

structure SamplingMultiItemPair extends SamplingRow where
  metric : MetricMeta := missingMetricMeta
  fairKey : List Int := replicate maxFairKeyLen 0
  fairKeyLen : Nat := 0

/-- A row as it is added. -/
def SamplingRow.pair (p : SamplingRow) : SamplingMultiItemPair := { p with }

/-- Either a namespace, a metric group, a metric or a fair key. -/
structure SamplerGroup where
  fixedBudget : Bool := false
  namespaceID : Int := 0
  groupID : Int := 0
  metricID : Int := 0
  sumSizeKeep : ItemValue := {}
  sumSizeDiscard : ItemValue := {}
  depth : Nat := 0
  budget : Int := 0
  budgetDenom : Int := 0
  noSampleAgent : Bool := false
  weight : Int := 0
  sumSize : Int := 0
  items : List SamplingMultiItemPair := []

/-- The answers of the metadata storage; groups and namespaces by their effective weight. -/
structure MetaStorage where
  getMetaMetric : Int → Option MetricMeta
  getGroup : Int → Option Int
  getNamespace : Int → Option Int

inductive SampleF where
  | sampleRows
  | sampleQuota
deriving Repr, DecidableEq

structure SamplerConfig where
  modeAgent : Bool := false
  sampleKeepSingle : Bool := false
  disableNoSampleAgent : Bool := false
  sampleBudgets : Bool := false
  sampleNamespaces : Bool := false
  sampleGroups : Bool := false
  sampleKeys : Bool := false
  metaStorage : Option MetaStorage := none
  /-- The table `format.BuiltinMetrics`. -/
  builtinMetrics : Int → Option MetricMeta := fun _ => none
  sampleF : SampleF := .sampleRows

/-- What `KeepF` or `DiscardF` is called with, and the factor left in the item. -/
inductive Call where
  | keep (item : SampledItem) (bucketTs : Nat) (quota : Int) (sf : ℚ)
  | discard (item : SampledItem) (bucketTs : Nat) (sf : ℚ)

def Call.item : Call → SampledItem
  | .keep item _ _ _ => item
  | .discard item _ _ => item

/-- `sort.Slice`. -/
structure Sorter where
  sortSlice : {α : Type} → (α → α → Bool) → List α → List α
  perm : ∀ {α : Type} (less : α → α → Bool) (xs : List α), (sortSlice less xs).Perm xs
  sorted : ∀ {α : Type} (less : α → α → Bool) (xs : List α),
    (∀ a ∈ xs, ∀ b ∈ xs, less a b → ¬ less b a) →
    (∀ a ∈ xs, ∀ b ∈ xs, ∀ c ∈ xs, ¬ less a b → ¬ less b c → ¬ less a c) →
    (sortSlice less xs).Pairwise fun a b => ¬ less b a

/-- Insertion sort is one such function. -/
def Sorter.insertion : Sorter where
  sortSlice less xs := xs.insertionSort fun a b => ¬ less b a
  perm less xs := perm_insertionSort _ xs
  sorted less xs asymm trans := by
    let r (a b : { x // x ∈ xs }) : Prop := ¬ less b.1 a.1 = true
    have : Std.Total r := ⟨fun a b => by
      by_cases h : less b.1 a.1 = true
      · exact Or.inr (asymm b.1 b.2 a.1 a.2 h)
      · exact Or.inl h⟩
    have : IsTrans _ r := ⟨fun a b c hab hb => trans c.1 c.2 b.1 b.2 a.1 a.2 hb hab⟩
    have hsorted := pairwise_insertionSort r xs.attach
    have hmap := map_insertionSort r (fun a b => ¬ less b a = true) Subtype.val xs.attach
      fun a _ b _ => Iff.rfl
    rw [attach_map_subtype_val] at hmap
    rw [← hmap]
    exact pairwise_map.mpr hsorted

/-- The state of the sampler; `calls` are those made so far. -/
structure State where
  rng : Rng
  calls : List Call := []
  items : List SamplingMultiItemPair := []
  sumSizeKeepBuiltin : ItemValue := {}
  sumSizeDiscard : ItemValue := {}
  currentGroup : SamplerGroup := {}
  currentMetricID : Int := 0
  currentMetricSFSum : ℚ := 0
  currentMetricSFCount : ℚ := 0
  metricCount : Nat := 0
  metricGroups : List SamplerGroup := []
  sampleFactors : List (Int × ℚ) := []

namespace SamplingMultiItemPair

def keep (p : SamplingMultiItemPair) (sf : ℚ) (h : State) : State :=
  { h with
    calls := h.calls ++ [.keep p.item p.bucketTs p.size sf]
    currentGroup :=
      { h.currentGroup with sumSizeKeep := h.currentGroup.sumSizeKeep.addValue p.size } }

def discard (p : SamplingMultiItemPair) (sf : ℚ) (h : State) : State :=
  { h with
    calls := h.calls ++ [.discard p.item p.bucketTs sf]
    currentGroup :=
      { h.currentGroup with sumSizeDiscard := h.currentGroup.sumSizeDiscard.addValue p.size } }

def getGroupWeight (p : SamplingMultiItemPair) (cfg : SamplerConfig) : Int :=
  let res :=
    match cfg.metaStorage with
    | none => 0
    | some m => if p.metric.groupID ≠ 0 then (m.getGroup p.metric.groupID).getD 0 else 0
  if res < 1 then 1 else res

def getNamespaceWeight (p : SamplingMultiItemPair) (cfg : SamplerConfig) : Int :=
  let res :=
    match cfg.metaStorage with
    | none => 0
    | some m =>
      if p.metric.namespaceID ≠ 0 then (m.getNamespace p.metric.namespaceID).getD 0 else 0
  if res < 1 then 1 else res

end SamplingMultiItemPair

def SamplerGroup.keep (g : SamplerGroup) (h : State) : State :=
  g.items.foldl (fun h p => p.keep 1 h) h

namespace State

def setCurrentGroup (h : State) (g : SamplerGroup) : State :=
  let h :=
    if h.currentGroup.depth ≠ 0 then
      { h with metricGroups := h.metricGroups ++ [h.currentGroup] }
    else h
  { h with currentGroup :=
      if g.groupID = 0 then { g with groupID := builtinGroupIDDefault } else g }

def setCurrentMetric (h : State) (metricID : Int) : State :=
  let h :=
    if h.currentMetricSFCount > 0 then
      { h with sampleFactors := h.sampleFactors ++
          [(h.currentMetricID, h.currentMetricSFSum / h.currentMetricSFCount)] }
    else h
  { h with
    currentMetricID := metricID
    currentMetricSFSum := 0
    currentMetricSFCount := 0 }

def add (h : State) (p : SamplingRow) : State :=
  if p.size < 1 then
    { h with
      calls := h.calls ++ [.discard p.item p.bucketTs maxFloat32]
      sumSizeDiscard := h.sumSizeDiscard.addValue 0 }
  else { h with items := h.items ++ [p.pair] }

end State

/-- The loop of the partition functions: the group that is being collected, with its first row
and its size so far, and the rows behind it. -/
def partitionLoop (differ : SamplingMultiItemPair → SamplingMultiItemPair → Bool)
    (newSamplerGroup : SamplingMultiItemPair → List SamplingMultiItemPair → Int → SamplerGroup)
    (first : SamplingMultiItemPair) :
    List SamplingMultiItemPair → Int → List SamplingMultiItemPair → List SamplerGroup × Int
  | items, sumSize, [] =>
    let v := newSamplerGroup first items sumSize
    ([v], v.weight)
  | items, sumSize, p :: rest =>
    if differ first p then
      let v := newSamplerGroup first items sumSize
      let r := partitionLoop differ newSamplerGroup p [p] (0 + p.size) rest
      (v :: r.1, v.weight + r.2)
    else partitionLoop differ newSamplerGroup first (items ++ [p]) (sumSize + p.size) rest
termination_by structural _ _ rest => rest

/-- Groups of neighbours that do not differ from the first one, and the sum of the weights. -/
def partitionBy (differ : SamplingMultiItemPair → SamplingMultiItemPair → Bool)
    (newSamplerGroup : SamplingMultiItemPair → List SamplingMultiItemPair → Int → SamplerGroup) :
    List SamplingMultiItemPair → List SamplerGroup × Int
  | [] => ([], 0)
  | p :: rest => partitionLoop differ newSamplerGroup p [p] p.size rest

def partitionByNamespace (cfg : SamplerConfig) (g : SamplerGroup) : List SamplerGroup × Int :=
  partitionBy (fun a b => a.metric.namespaceID ≠ b.metric.namespaceID)
    (fun first items sumSize =>
      { depth := g.depth + 1
        weight := first.getNamespaceWeight cfg
        items := items
        sumSize := sumSize
        namespaceID := first.metric.namespaceID }) g.items

def partitionByGroup (cfg : SamplerConfig) (g : SamplerGroup) : List SamplerGroup × Int :=
  partitionBy (fun a b => a.metric.groupID ≠ b.metric.groupID)
    (fun first items sumSize =>
      { depth := g.depth + 1
        weight := first.getGroupWeight cfg
        items := items
        sumSize := sumSize
        namespaceID := first.metric.namespaceID
        groupID := first.metric.groupID }) g.items

def partitionByMetric (g : SamplerGroup) : List SamplerGroup × Int :=
  partitionBy (fun a b => a.metricID ≠ b.metricID)
    (fun first items sumSize =>
      { depth := g.depth + 1
        weight := first.metric.effectiveWeight
        items := items
        sumSize := sumSize
        noSampleAgent := first.metric.noSampleAgent
        namespaceID := first.metric.namespaceID
        groupID := first.metric.groupID
        metricID := first.metricID }) g.items

/-- One value of a fair key. -/
def keyGroup (g : SamplerGroup) (first : SamplingMultiItemPair)
    (items : List SamplingMultiItemPair) (sumSize : Int) : SamplerGroup :=
  { depth := g.depth + 1
    weight := 1
    items := items
    sumSize := sumSize
    noSampleAgent := first.metric.noSampleAgent
    namespaceID := first.metric.namespaceID
    groupID := first.metric.groupID
    metricID := first.metricID }

/-- The fair keys are an array, so a level behind its end panics as soon as two rows are
compared. -/
def partitionByKey (partFs : Nat) (g : SamplerGroup) : Option (List SamplerGroup × Int) :=
  let depth := g.depth - partFs
  if maxFairKeyLen ≤ depth ∧ 2 ≤ g.items.length then none
  else
    some (partitionBy (fun a b => a.fairKey.getD depth 0 ≠ b.fairKey.getD depth 0)
      (keyGroup g) g.items)

/-- A metric with a budget of its own. -/
def fixedGroup (partFs : Nat) (first : SamplingMultiItemPair) (items : List SamplingMultiItemPair)
    (sumSize : Int) : SamplerGroup :=
  { namespaceID := first.metric.namespaceID
    groupID := first.metric.groupID
    metricID := first.metricID
    depth := partFs
    budget := first.budget
    fixedBudget := true
    budgetDenom := 1
    weight := 1
    noSampleAgent := first.metric.noSampleAgent
    sumSize := sumSize
    items := items }

/-- The loop of `partitionByBudget`: it breaks at the first metric without a budget, and then
the rows from there on are left. -/
def budgetLoop (partFs : Nat) (first : SamplingMultiItemPair) :
    List SamplingMultiItemPair → Int → List SamplingMultiItemPair →
      List SamplerGroup × List SamplingMultiItemPair
  | items, sumSize, [] =>
    if 0 < first.budget then ([fixedGroup partFs first items sumSize], []) else ([], items)
  | items, sumSize, p :: rest =>
    if first.metricID ≠ p.metricID then
      if 0 < first.budget then
        let r := budgetLoop partFs p [p] (0 + p.size) rest
        (fixedGroup partFs first items sumSize :: r.1, r.2)
      else ([], items ++ p :: rest)
    else budgetLoop partFs first (items ++ [p]) (sumSize + p.size) rest
termination_by structural _ _ rest => rest

inductive PartitionFunc where
  | byBudget
  | byNamespace
  | byGroup
  | byMetric
deriving Repr, DecidableEq

/-- The partition functions behind `partitionByBudget`. -/
def SamplerConfig.plainF (cfg : SamplerConfig) : List PartitionFunc :=
  (if cfg.sampleNamespaces then [.byNamespace] else []) ++
    (if cfg.sampleGroups then [.byGroup] else []) ++ [.byMetric]

def SamplerConfig.partF (cfg : SamplerConfig) : List PartitionFunc :=
  if cfg.sampleBudgets then .byBudget :: cfg.plainF else cfg.plainF

/-- A partition function that does not pass on to another one. -/
def partitionPlain (cfg : SamplerConfig) (g : SamplerGroup) :
    PartitionFunc → Option (List SamplerGroup × Int)
  | .byBudget => none
  | .byNamespace => some (partitionByNamespace cfg g)
  | .byGroup => some (partitionByGroup cfg g)
  | .byMetric => some (partitionByMetric g)

/-- The rows without a budget of their own, one level deeper. -/
def SamplerGroup.unbudgeted (g : SamplerGroup) (items : List SamplingMultiItemPair) :
    SamplerGroup :=
  { depth := g.depth + 1
    namespaceID := g.namespaceID
    groupID := g.groupID
    items := items
    budget := g.budget }

/-- The rows without a budget of their own go to the next partition function. -/
def partitionByBudget (cfg : SamplerConfig) (g : SamplerGroup) :
    Option (List SamplerGroup × Int) :=
  match g.items with
  | [] => some ([], 0)
  | p :: rest =>
    let r := budgetLoop cfg.partF.length p [p] p.size rest
    match r.2 with
    | [] => some (r.1, 1)
    | q :: others => do
      let f ← cfg.partF[g.depth + 1]?
      let r' ← partitionPlain cfg (g.unbudgeted (q :: others)) f
      some (r.1 ++ r'.1, r'.2)

def partition (cfg : SamplerConfig) (g : SamplerGroup) : Option (List SamplerGroup × Int) :=
  match cfg.partF[g.depth]? with
  | none => partitionByKey cfg.partF.length g
  | some .byBudget => partitionByBudget cfg g
  | some f => partitionPlain cfg g f

/-- The rows that are kept so far, those passed over, and those still to see. A kept row changes
places with the first one passed over. -/
def selectLoop (sf : ℚ) : Rng → List SamplingMultiItemPair → List SamplingMultiItemPair →
    List SamplingMultiItemPair →
      (List SamplingMultiItemPair × List SamplingMultiItemPair) × Rng
  | rng, kept, passed, [] => ((kept, passed), rng)
  | rng, kept, passed, p :: rest =>
    let (u, rng) := rng.float64
    if u * sf < 1 then
      match passed with
      | [] => selectLoop sf rng (kept ++ [p]) [] rest
      | q :: others => selectLoop sf rng (kept ++ [p]) (others ++ [q]) rest
    else selectLoop sf rng kept (passed ++ [p]) rest

/-- The selected rows and the others. -/
def selectRandom (s : List SamplingMultiItemPair) (sf : ℚ) (rng : Rng) :
    (List SamplingMultiItemPair × List SamplingMultiItemPair) × Rng :=
  if sf ≤ 1 then ((s, []), rng) else selectLoop sf rng [] [] s

def roundSampleFactor (sf : ℚ) (rng : Rng) : ℚ × Rng :=
  let floor : ℚ := (⌊sf⌋ : Int)
  let delta := sf - floor
  let (u, rng) := rng.float64
  if u < delta then (floor + 1, rng) else (floor, rng)

/-- The conversion of a float to an integer. -/
def toInt64 (x : ℚ) : Int := if 0 ≤ x then ⌊x⌋ else ⌈x⌉

/-- The rows that are not whales. -/
def sampleRemaining (sf : ℚ) (items : List SamplingMultiItemPair) (h : State) : State :=
  let (selected, rng) := selectRandom items sf h.rng
  let h := { h with rng := rng }
  let h := selected.1.foldl (fun h p => p.keep sf h) h
  selected.2.foldl (fun h p => p.discard sf h) h

/-- Half of the budget goes to the given number of rows with the largest counts, if any. -/
def sampleWhales (sorter : Sorter) (pos : Int) (sf : ℚ) (items : List SamplingMultiItemPair)
    (h : State) : State :=
  if 0 < pos then
    let items := sorter.sortSlice (fun a b => a.whaleWeight > b.whaleWeight) items
    let h := (items.take pos.toNat).foldl (fun h p => p.keep 1 h) h
    sampleRemaining (sf * 2) (items.drop pos.toNat) h
  else sampleRemaining sf items h

def State.countSampleFactor (h : State) (sf : ℚ) : State :=
  { h with
    currentMetricSFCount := h.currentMetricSFCount + 1
    currentMetricSFSum := h.currentMetricSFSum + sf }

def sample (cfg : SamplerConfig) (sorter : Sorter) (h : State) (g : SamplerGroup) : State :=
  match g.items with
  | [] => h
  | first :: others =>
    if cfg.sampleKeepSingle && others.isEmpty && first.item.content.isSingleValueCounter then
      first.keep 1 h
    else
      let sfNum := max 1 (g.budgetDenom * g.sumSize)
      let sfDenom := max 1 g.budget
      let sf : ℚ := (sfNum : ℚ) / sfDenom
      let pos := ((g.items.length * sfDenom).tdiv sfNum).tdiv 2
      sampleWhales sorter pos sf g.items (h.countSampleFactor sf)

def sampleQuota (h : State) (g : SamplerGroup) : State :=
  let sfDenom := g.budgetDenom * g.sumSize
  g.items.foldl (fun h p =>
    let sfNum := g.budget * p.size
    let quota := toInt64 ((sfNum : ℚ) / sfDenom)
    let p := { p with size := quota }
    if quota < 1 then p.discard maxFloat32 h else p.keep 1 h) h

def SamplerConfig.runSampleF (cfg : SamplerConfig) (sorter : Sorter) (h : State)
    (g : SamplerGroup) : State :=
  match cfg.sampleF with
  | .sampleRows => sample cfg sorter h g
  | .sampleQuota => sampleQuota h g

/-- The share of a group without a budget of its own. The product is one of `int64`: a statement
about the source needs that it fits. -/
def SamplerGroup.share (s : SamplerGroup) (budget sumWeight : Int) : SamplerGroup :=
  if s.fixedBudget then s
  else { s with budget := budget * s.weight, budgetDenom := sumWeight }

/-- Comparing rational numbers. -/
def groupLess (a b : SamplerGroup) : Bool := a.sumSize * b.weight < b.sumSize * a.weight

/-- What the first loop leaves to the second one. -/
structure Remaining where
  state : State
  budget : Int
  sumWeight : Int
  groups : List SamplerGroup

/-- Groups smaller than the budget are not sampled. The second loop computes the share of the
group at which this one stops again. -/
def keepLoop (h : State) (budget sumWeight : Int) : List SamplerGroup → Remaining
  | [] => ⟨h, budget, sumWeight, []⟩
  | s :: groups =>
    let shared := s.share budget sumWeight
    if shared.budget < shared.budgetDenom * shared.sumSize then
      ⟨h, budget, sumWeight, s :: groups⟩
    else
      let h := if shared.metricID = 0 then h.setCurrentGroup shared else h
      let h := shared.keep h
      if shared.fixedBudget then keepLoop h budget sumWeight groups
      else keepLoop h (budget - shared.sumSize) (sumWeight - shared.weight) groups

/-- The statistics before a group is sampled. -/
def enterGroup (cfg : SamplerConfig) (h : State) (s : SamplerGroup) : State :=
  if s.depth < cfg.partF.length then
    if s.groupID ≠ 0 ∧ s.metricID = 0 then h.setCurrentGroup s else h
  else if s.depth = cfg.partF.length ∧ s.metricID ≠ h.currentMetricID then
    h.setCurrentMetric s.metricID
  else h

def SamplerConfig.exempt (cfg : SamplerConfig) (s : SamplerGroup) : Bool :=
  s.noSampleAgent && cfg.modeAgent && !cfg.disableNoSampleAgent

/-- A group larger than the budget: `descend` cuts it further. -/
def sampleGroup (cfg : SamplerConfig) (sorter : Sorter)
    (descend : State → SamplerGroup → Option State) (h : State) (s : SamplerGroup) :
    Option State :=
  if cfg.exempt s then some (s.keep h)
  else
    match s.items with
    | [] => none
    | first :: _ =>
      if s.depth < cfg.partF.length + first.fairKeyLen then
        if s.fixedBudget then descend h s
        else
          let r := roundSampleFactor ((s.budget : ℚ) / s.budgetDenom) h.rng
          descend { h with rng := r.2 } { s with budget := toInt64 r.1, budgetDenom := 1 }
      else some (cfg.runSampleF sorter h s)

/-- The loop behind the group at which the first loop stopped. -/
def sampleLoop (cfg : SamplerConfig) (sorter : Sorter)
    (descend : State → SamplerGroup → Option State) (budget sumWeight : Int) :
    State → List SamplerGroup → Option State
  | h, [] => some h
  | h, s :: groups => do
    let s := s.share budget sumWeight
    let h ← sampleGroup cfg sorter descend (enterGroup cfg h s) s
    sampleLoop cfg sorter descend budget sumWeight h groups

/-- One level and those below it. The fuel bounds the number of levels; without it, and where
the code would panic, there is no result. -/
def run (cfg : SamplerConfig) (sorter : Sorter) : Nat → State → SamplerGroup → Option State
  | 0, _, _ => none
  | fuel + 1, h, g => do
    let (groups, sumWeight) ← partition cfg g
    let r := keepLoop h g.budget sumWeight (sorter.sortSlice groupLess groups)
    sampleLoop cfg sorter (run cfg sorter fuel) r.budget r.sumWeight r.state r.groups

def getMetricMeta (cfg : SamplerConfig) (metricID : Int) : MetricMeta :=
  match cfg.metaStorage with
  | none => missingMetricMeta
  | some m =>
    match m.getMetaMetric metricID with
    | some res => res
    | none => (cfg.builtinMetrics metricID).getD missingMetricMeta

def metricOf (cfg : SamplerConfig) (p : SamplingRow) : MetricMeta :=
  match p.item.metricMeta with
  | some m => if p.metricID = m.metricID then m else getMetricMeta cfg p.metricID
  | none => getMetricMeta cfg p.metricID

/-- The tags at the given indices in place of the first keys. -/
def setFairKeys (tags : List Int) : List Int → List Int → List Int
  | x :: index, key :: keys =>
    (if 0 ≤ x ∧ x < tags.length then tags.getD x.toNat 0 else key) :: setFairKeys tags index keys
  | _, keys => keys

def setFairKey (cfg : SamplerConfig) (p : SamplingMultiItemPair) : SamplingMultiItemPair :=
  if cfg.sampleKeys && !p.metric.fairKeyIndex.isEmpty then
    let n := min p.metric.fairKeyIndex.length maxFairKeyLen
    { p with
      fairKey := setFairKeys p.item.tags (p.metric.fairKeyIndex.take n) p.fairKey
      fairKeyLen := n }
  else p

/-- Rows of one metric share the metadata of the first of them. -/
def queriedMetric (cfg : SamplerConfig) (previous : Option SamplingMultiItemPair)
    (p : SamplingRow) : MetricMeta :=
  match previous with
  | some q => if p.metricID = q.metricID then q.metric else metricOf cfg p
  | none => metricOf cfg p

def queryMetrics (cfg : SamplerConfig) :
    Option SamplingMultiItemPair → List SamplingMultiItemPair → List SamplingMultiItemPair
  | _, [] => []
  | previous, p :: rest =>
    let p := setFairKey cfg { p with metric := queriedMetric cfg previous p.toSamplingRow }
    p :: queryMetrics cfg (some p) rest

/-- The first difference among the given number of keys decides. -/
def fairKeyLess : Nat → List Int → List Int → Bool
  | n + 1, a :: as, b :: bs => if a ≠ b then a < b else fairKeyLess n as bs
  | _, _, _ => false

def rowLess (lhs rhs : SamplingMultiItemPair) : Bool :=
  if (lhs.budget != 0) != (rhs.budget != 0) then lhs.budget != 0
  else if lhs.metric.namespaceID ≠ rhs.metric.namespaceID then
    lhs.metric.namespaceID < rhs.metric.namespaceID
  else if lhs.metric.groupID ≠ rhs.metric.groupID then lhs.metric.groupID < rhs.metric.groupID
  else if lhs.metricID ≠ rhs.metricID then lhs.metricID < rhs.metricID
  else fairKeyLess lhs.fairKeyLen lhs.fairKey rhs.fairKey

/-- The rows in the order in which they are cut into groups. -/
def prepare (cfg : SamplerConfig) (sorter : Sorter) (items : List SamplingMultiItemPair) :
    List SamplingMultiItemPair :=
  sorter.sortSlice rowLess
    (queryMetrics cfg none (sorter.sortSlice (fun a b => a.metricID < b.metricID) items))

def countMetrics : List SamplingMultiItemPair → Nat
  | a :: b :: rest => (if a.metricID ≠ b.metricID then 1 else 0) + countMetrics (b :: rest)
  | _ => 1

/-- The levels of a run: the partition functions and the fair keys. -/
def SamplerConfig.levels (cfg : SamplerConfig) : Nat := cfg.partF.length + maxFairKeyLen

def State.finish (h : State) : State :=
  let h := { h with metricGroups := h.metricGroups ++ [h.currentGroup] }
  let h :=
    if 0 < h.sumSizeKeepBuiltin.counter then
      { h with metricGroups := h.metricGroups ++
          [{ namespaceID := builtinNamespaceIDDefault
             groupID := builtinGroupIDBuiltin
             sumSizeKeep := h.sumSizeKeepBuiltin }] }
    else h
  let h :=
    if 0 < h.sumSizeDiscard.counter then
      { h with metricGroups := h.metricGroups ++ [{ sumSizeDiscard := h.sumSizeDiscard }] }
    else h
  h.setCurrentMetric 0

/-- The group of all rows. -/
def rootGroup (items : List SamplingMultiItemPair) (budget : Int) : SamplerGroup :=
  { namespaceID := builtinNamespaceIDDefault
    groupID := builtinGroupIDDefault
    items := items
    budget := budget }

def State.start (h : State) (first : SamplingMultiItemPair) (others : List SamplingMultiItemPair)
    (budget : Int) : State :=
  { h with
    items := first :: others
    metricCount := countMetrics (first :: others)
    metricGroups := []
    currentGroup := rootGroup (first :: others) budget
    currentMetricID := first.metricID }

def State.run (cfg : SamplerConfig) (sorter : Sorter) (h : State) (budget : Int) : Option State :=
  match prepare cfg sorter h.items with
  | [] => some h
  | first :: others =>
    (Sampler.run cfg sorter cfg.levels (h.start first others budget)
      (rootGroup (first :: others) budget)).map State.finish

/-- A new sampler, the rows added to it one after the other, and its run. -/
def addAndRun (cfg : SamplerConfig) (sorter : Sorter) (rng : Rng)
    (added : List SamplingRow) (budget : Int) : Option State :=
  (added.foldl State.add { rng := rng }).run cfg sorter budget

end Sampler
