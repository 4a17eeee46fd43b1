import Mathlib.Data.List.Nodup
import StatsHouse.UniqueTable

/-!
# The metrics known by id and by name

The journal delivers an entity once, at its last version, so a name may come with its new owner
before the old owner's rename comes. The rename then deletes the entry of the new owner. The
group of a metric is computed in one way when events are applied and in another one when a
metric is created.
-/

namespace MetricsStorage

structure MetricMetaValue where
  metricID : Int
  name : List UInt8
  version : Int
  groupID : Int := 0

structure MetricsGroup where
  id : Int
  name : List UInt8
  version : Int := 0
  disable : Bool := false
deriving DecidableEq

/-- The two maps of a kind of entity. -/
structure Maps {V : Type} (id : V → Int) (name : V → List UInt8) where
  byID : UniqueTable V (UniqueTable.SameKey id) := {}
  byName : UniqueTable V (UniqueTable.SameKey name) := {}

namespace Maps

variable {V : Type} {id : V → Int} {name : V → List UInt8} {s : Maps id name} {value v : V}

def set (s : Maps id name) (value : V) : Maps id name :=
  ⟨s.byID.replace value, s.byName.replace value⟩

/-- An event: after a rename the old name is deleted. -/
def put (s : Maps id name) (value : V) : Maps id name :=
  match s.byID.lookup (id value) with
  | none => s.set value
  | some valueOld =>
    if name valueOld ≠ name value then
      { s with byName := s.byName.delete fun v => name v = name valueOld }.set value
    else s.set value

/-- Every entity is found by its name, and nothing else is. -/
def Found (s : Maps id name) : Prop :=
  (∀ v ∈ s.byID.rows, s.byName.lookup (name v) = some v) ∧ ∀ v ∈ s.byName.rows, v ∈ s.byID.rows

lemma found_iff : s.Found ↔ ∀ v, v ∈ s.byID.rows ↔ v ∈ s.byName.rows := by
  simp only [Found, UniqueTable.lookup_eq_some]
  grind

@[simp] lemma byID_put (s : Maps id name) (value : V) :
    (s.put value).byID = s.byID.replace value := by
  simp only [put]
  split
  · rfl
  · split_ifs <;> rfl

/-- The name of the entity is free, or its own. -/
lemma Found.put (h : s.Found) (hf : ∀ v ∈ s.byID.rows, name v = name value → id v = id value) :
    (s.put value).Found := by
  rw [found_iff] at h ⊢
  intro v
  have ho hv {old : V} hold
      hm : v = old :=
    UniqueTable.eq_of_key ((h v).1 hv) ((h old).1 hold) hm
  simp only [Maps.put]
  split
  · next hn =>
    have hw : v ∈ s.byID.rows → id v ≠ id value := by
      simpa using List.find?_eq_none.1 hn v
    simp only [set, UniqueTable.mem_replace, UniqueTable.SameKey]
    grind
  · next old hs =>
    obtain ⟨hold, hi⟩ := UniqueTable.lookup_eq_some.1 hs
    have ha hv (heq : id v = id value) : v = old :=
      UniqueTable.eq_of_key hv hold (heq.trans hi.symm)
    split_ifs
    · simp only [set, UniqueTable.mem_replace, UniqueTable.SameKey, UniqueTable.delete,
        List.mem_filter, Bool.not_eq_true', decide_eq_false_iff_not]
      grind
    · simp only [set, UniqueTable.mem_replace, UniqueTable.SameKey]
      grind

lemma foldl_set (s : Maps id name) (l : List V) :
    l.foldl set s = ⟨l.foldl UniqueTable.replace s.byID, l.foldl UniqueTable.replace s.byName⟩ := by
  induction l generalizing s with
  | nil => rfl
  | cons v l ih => exact ih _

lemma found_foldl_set {l : List V} (ids : (l.map id).Nodup) (names : (l.map name).Nodup) :
    (l.foldl set ({} : Maps id name)).Found := by
  simp [found_iff, foldl_set, UniqueTable.mem_foldl_replace ids,
    UniqueTable.mem_foldl_replace names]

end Maps

inductive Event where
  | metric (value : MetricMetaValue)
  | group (value : MetricsGroup)
  /-- Of another type, or not parsed. -/
  | other

def builtinGroupIDDefault : Int := -4

/-- `__default`, `__builtin` and `__host`. -/
def builtInGroupDefault : List MetricsGroup :=
  [{ id := builtinGroupIDDefault, name := [95, 95, 100, 101, 102, 97, 117, 108, 116] },
    { id := -2, name := [95, 95, 98, 117, 105, 108, 116, 105, 110] },
    { id := -3, name := [95, 95, 104, 111, 115, 116] }]

/-- The order in which loops go through a map. -/
structure Walk where
  order {α : Type} : List α → List α
  perm {α : Type} (l : List α) : (order l).Perm l

end MetricsStorage

open MetricsStorage List UniqueTable Maps

structure MetricsStorage where
  metrics : Maps MetricsStorage.MetricMetaValue.metricID MetricsStorage.MetricMetaValue.name := {}
  groups : Maps MetricsGroup.id MetricsGroup.name := builtInGroupDefault.foldl set {}
  groupsOrdered : List MetricsGroup := []

namespace MetricsStorage

def calcGroupForMetricLocked (groupsOrdered : List MetricsGroup) (name : List UInt8) : Int :=
  ((groupsOrdered.find? fun g => g.name.isPrefixOf name).map (·.id)).getD builtinGroupIDDefault

/-- The group of a metric that comes with an event. -/
def groupOf (s : MetricsStorage) (value : MetricMetaValue) : Int :=
  match s.metrics.byID.lookup value.metricID with
  | none => calcGroupForMetricLocked s.groupsOrdered value.name
  | some valueOld =>
    if valueOld.name = value.name then valueOld.groupID
    else calcGroupForMetricLocked s.groupsOrdered value.name

def applyEntry (s : MetricsStorage) : Event → MetricsStorage
  | .metric value =>
    { s with metrics := s.metrics.put { value with groupID := s.groupOf value } }
  | .group value => { s with groups := s.groups.put value }
  | .other => s

def changesGroups (s : MetricsStorage) : Event → Bool
  | .group value =>
    match s.groups.byID.lookup value.id with
    | none => true
    | some valueOld => valueOld.name ≠ value.name ∨ valueOld.disable ≠ value.disable
  | _ => false

def applyEntries (s : MetricsStorage) (changedGroups : Bool) : List Event → MetricsStorage × Bool
  | [] => (s, changedGroups)
  | e :: entries => (s.applyEntry e).applyEntries (changedGroups || s.changesGroups e) entries

/-- Groups of one name stay in the order of the walk, which can be any. -/
def orderGroups (walk : Walk) (groups : List MetricsGroup) : List MetricsGroup :=
  ((walk.order groups).filter fun g => 0 < g.id && !g.disable).mergeSort fun a b => b.name ≤ a.name

/-- The metrics with their groups, in the order of the walk. -/
def regrouped (walk : Walk) (s : MetricsStorage) : List MetricMetaValue :=
  (walk.order s.metrics.byID.rows).map fun m =>
    { m with groupID := calcGroupForMetricLocked (orderGroups walk s.groups.byID.rows) m.name }

def regroup (walk : Walk) (s : MetricsStorage) : MetricsStorage := { s with
    groupsOrdered := orderGroups walk s.groups.byID.rows
    metrics := (s.regrouped walk).foldl set {} }

def applyEvent (walk : Walk) (s : MetricsStorage) (newEntries : List Event) : MetricsStorage :=
  let (s, changedGroups) := s.applyEntries false newEntries
  if changedGroups then s.regroup walk else s

/-- The storage after deliveries that suit it. -/
inductive Reachable (Suits : MetricsStorage → List Event → Prop) : MetricsStorage → Prop
  | start : Reachable Suits {}
  | deliver {s : MetricsStorage} {entries : List Event} (walk : Walk) (h : Reachable Suits s)
      (suits : Suits s entries) : Reachable Suits (s.applyEvent walk entries)

variable {s : MetricsStorage} {e : Event} {entries : List Event} {name : List UInt8}

/-- No other entity in the storage has the name of the event. -/
def NameFree (s : MetricsStorage) : Event → Prop
  | .metric value => ∀ m ∈ s.metrics.byID.rows, m.name = value.name → m.metricID = value.metricID
  | .group value => ∀ g ∈ s.groups.byID.rows, g.name = value.name → g.id = value.id
  | .other => True

def NamesFree (s : MetricsStorage) : List Event → Prop
  | [] => True
  | e :: entries => s.NameFree e ∧ (s.applyEntry e).NamesFree entries

def Found (s : MetricsStorage) : Prop := s.metrics.Found ∧ s.groups.Found

lemma Found.applyEntry (h : s.Found) (hf : s.NameFree e) : (s.applyEntry e).Found := by
  cases e with
  | metric value => exact ⟨h.1.put hf, h.2⟩
  | group value => exact ⟨h.1, h.2.put hf⟩
  | other => exact h

lemma Found.applyEntries (h : s.Found) (changedGroups : Bool) (hf : s.NamesFree entries) :
    (s.applyEntries changedGroups entries).1.Found := by
  induction entries generalizing s changedGroups with
  | nil => exact h
  | cons e entries ih => exact ih (h.applyEntry hf.1) _ hf.2

lemma nodup_regrouped (walk : Walk) (s : MetricsStorage) :
    ((s.regrouped walk).map (·.metricID)).Nodup := by
  rw [regrouped, map_map]
  exact ((walk.perm _).map _).nodup_iff.2 (pairwise_map.2 s.metrics.byID.unique)

lemma Found.regroup (h : s.Found) (walk : Walk) : (s.regroup walk).Found := by
  have his := nodup_regrouped walk s
  refine ⟨found_foldl_set his ?_, h.2⟩
  have hp := walk.perm s.metrics.byID.rows
  have hf := found_iff.1 h.1
  rw [regrouped, map_map] at his ⊢
  refine (List.Nodup.of_map _ his).map_on fun m hm m' hm' hn => ?_
  exact eq_of_key ((hf m).1 (hp.mem_iff.1 hm)) ((hf m').1 (hp.mem_iff.1 hm')) hn

theorem found_of_namesFree (h : Reachable NamesFree s) : s.metrics.Found ∧ s.groups.Found := by
  induction h with
  | start =>
    exact ⟨found_iff.2 fun _ => .rfl, found_foldl_set (by decide) (by decide)⟩
  | deliver walk _ suits ih =>
    have ha := Found.applyEntries ih false suits
    simp only [applyEvent]
    split
    · exact ha.regroup walk
    · exact ha

def someWalk : Walk where
  order l := l
  perm l := .refl l

/-- Metric 1 is renamed, and metric 2 takes its name. -/
theorem found_of_namesFree_rename : ∃ s : MetricsStorage, s.metrics.byID.rows.length = 2 ∧
    s.metrics.Found ∧ s.groups.Found :=
  ⟨applyEvent someWalk {} [.metric ⟨1, [97], 1, 0⟩, .metric ⟨1, [98], 2, 0⟩,
      .metric ⟨2, [97], 3, 0⟩], rfl,
    found_of_namesFree (.deliver someWalk .start (by
      refine ⟨fun m hm => (nomatch hm), ?_, ?_, trivial⟩ <;>
        simp only [NameFree] <;> decide +kernel))⟩

/-- The last versions of the metrics in a history. -/
def latest (history : List MetricMetaValue) : List MetricMetaValue :=
  history.filter fun m => history.all fun m' => m'.metricID ≠ m.metricID ∨ m'.version ≤ m.version

/-- What the journal delivers to a storage of a version. -/
def delivery (history : List MetricMetaValue) (version : Int) : List Event :=
  ((latest history).filter fun m => version < m.version).map .metric

/-- Metric 1 is renamed from `a` to `c`, metric 2 takes the name `a`, and metric 1 is edited. -/
def takenName : List MetricMetaValue :=
  [⟨1, [97], 1, 0⟩, ⟨2, [98], 2, 0⟩, ⟨1, [99], 3, 0⟩, ⟨2, [97], 4, 0⟩, ⟨1, [99], 5, 0⟩]

theorem rename_hides_metric :
    (∀ n ≤ takenName.length, ((latest (takenName.take n)).map (·.name)).Nodup) ∧
    let s := applyEvent someWalk (applyEvent someWalk {} (delivery (takenName.take 2) 0))
      (delivery takenName 2)
    (s.metrics.byID.lookup 2).map (·.name) = some [97] ∧ s.metrics.byName.lookup [97] = none := by
  decide +kernel

/-- The group takes metrics of this name. -/
def MetricsGroup.Owns (g : MetricsGroup) (name : List UInt8) : Prop :=
  0 < g.id ∧ g.disable = false ∧ g.name <+: name

def IsGroupOf (groups : List MetricsGroup) (name : List UInt8) (id : Int) : Prop :=
  (∃ g ∈ groups, g.id = id ∧ g.Owns name ∧
    ∀ g' ∈ groups, g'.Owns name → g'.name.length ≤ g.name.length) ∨
  id = builtinGroupIDDefault ∧ ∀ g ∈ groups, ¬g.Owns name

/-- The groups in the order of the walk through the map. -/
def getGroupByMetricName (groups : List MetricsGroup) (name : List UInt8) : Option MetricsGroup :=
  groups.find? fun g => !g.disable && g.name.isPrefixOf name

/-- The ordered groups have the enabled groups under their ids and names. -/
structure Current (ordered groups : List MetricsGroup) : Prop where
  sorted : ordered.Pairwise fun a b => b.name ≤ a.name
  mem (id : Int) (name : List UInt8) : (∃ g ∈ ordered, g.id = id ∧ g.name = name) ↔
    ∃ g ∈ groups, g.id = id ∧ g.name = name ∧ 0 < g.id ∧ g.disable = false

lemma current_orderGroups (walk : Walk) (groups : List MetricsGroup) :
    Current (orderGroups walk groups) groups := by
  refine ⟨?_, fun id name => ?_⟩
  · have hs := @List.pairwise_mergeSort _ (fun a b => b.name ≤ a.name)
      (fun a b c hab hb => by simp only [decide_eq_true_eq] at *; exact List.le_trans hb hab)
      (fun a b => by simpa using List.le_total b.name a.name)
      ((walk.order groups).filter fun g => 0 < g.id && !g.disable)
    exact hs.imp of_decide_eq_true
  · simp only [orderGroups, mem_mergeSort, mem_filter, (walk.perm groups).mem_iff]
    grind

/-- The first group that matches has the longest name. -/
lemma Current.isGroupOf {ordered groups : List MetricsGroup} (h : Current ordered groups)
    (name : List UInt8) : IsGroupOf groups name (calcGroupForMetricLocked ordered name) := by
  simp only [calcGroupForMetricLocked]
  cases ha : ordered.find? fun g => g.name.isPrefixOf name with
  | none =>
    refine .inr ⟨rfl, fun g hg ⟨hi, hd, how⟩ => ?_⟩
    obtain ⟨g', hg', -, hn⟩ := (h.mem g.id g.name).2 ⟨g, hg, rfl, rfl, hi, hd⟩
    exact find?_eq_none.1 ha g' hg' ( isPrefixOf_iff_prefix.2 (hn ▸ how))
  | some first =>
    obtain ⟨hf, before, after, rfl, hc⟩ := find?_eq_some_iff_append.1 ha
    have hf := isPrefixOf_iff_prefix.1 hf
    obtain ⟨g, hg, he, hb, hi, hd⟩ := (h.mem first.id first.name).1 ⟨first, by simp, rfl, rfl⟩
    refine .inl ⟨g, hg, he, ⟨hi, hd, hb ▸ hf⟩, fun g' hg' ⟨hid', hdi', how⟩ => ?_⟩
    obtain ⟨other, ho, -, hn⟩ := (h.mem g'.id g'.name).2 ⟨g', hg', rfl, rfl, hid', hdi'⟩
    rw [← hn] at how
    rw [hb, ← hn]
    by_contra hlt
    have hp := prefix_of_prefix_length_le hf how (by omega)
    have hle : other.name ≤ first.name := by
      rcases mem_append.1 ho with hm | hm
      · exact absurd (hc other hm) (by simp [ isPrefixOf_iff_prefix.2 how])
      · rcases mem_cons.1 hm with rfl | hm
        · exact List.le_refl _
        · exact (pairwise_cons.1 (pairwise_append.1 h.sorted).2.1).1 other hm
    rw [List.le_antisymm hp.le hle] at hlt
    exact hlt (Nat.le_refl _)

/-- Every metric has the group that the ordered groups give it. -/
def Grouped (s : MetricsStorage) : Prop :=
  ∀ m ∈ s.metrics.byID.rows, m.groupID = calcGroupForMetricLocked s.groupsOrdered m.name

lemma Grouped.applyEntry (h : s.Grouped) (e : Event) : (s.applyEntry e).Grouped := by
  cases e with
  | group value | other => exact h
  | metric value =>
    intro m hm
    simp only [MetricsStorage.applyEntry, Maps.byID_put, mem_replace] at hm
    rcases hm with rfl | ⟨hm, -⟩
    · simp only [groupOf]
      split
      · rfl
      · next valueOld hold =>
        split_ifs with hn
        · rw [h valueOld (lookup_eq_some.1 hold).1, hn]
          rfl
        · rfl
    · exact h m hm

/-- An event that does not count as a change leaves ids, names and flags of the groups. -/
lemma Current.applyEntry (h : Current s.groupsOrdered s.groups.byID.rows)
    (sameGroups : s.changesGroups e = false) :
    Current (s.applyEntry e).groupsOrdered (s.applyEntry e).groups.byID.rows := by
  cases e with
  | metric value | other => exact h
  | group value =>
    refine ⟨h.sorted, fun id name => (h.mem id name).trans ?_⟩
    simp only [changesGroups] at sameGroups
    split at sameGroups
    · cases sameGroups
    · next valueOld hold =>
      obtain ⟨hm, hi⟩ := lookup_eq_some.1 hold
      have ho g hg (hd : g.id = value.id) :
          g = valueOld := eq_of_key hg hm (hd.trans hi.symm)
      simp only [MetricsStorage.applyEntry, Maps.byID_put, mem_replace, UniqueTable.SameKey]
      grind

/-- Until the end of a delivery the groups are only known to be current if none changed. -/
lemma grouped_applyEntries (entries : List Event) {changedGroups : Bool} (h : s.Grouped)
    (current : changedGroups = false → Current s.groupsOrdered s.groups.byID.rows) :
    (s.applyEntries changedGroups entries).1.Grouped ∧
      ((s.applyEntries changedGroups entries).2 = false →
        Current (s.applyEntries changedGroups entries).1.groupsOrdered
          (s.applyEntries changedGroups entries).1.groups.byID.rows) := by
  induction entries generalizing s changedGroups with
  | nil => exact ⟨h, current⟩
  | cons e entries ih =>
    refine ih (h.applyEntry e) fun hs => ?_
    obtain ⟨hb, hs⟩ := Bool.or_eq_false_iff.1 hs
    exact (current hb).applyEntry hs

lemma grouped_of_reachable (h : Reachable (fun _ _ => True) s) :
    s.Grouped ∧ Current s.groupsOrdered s.groups.byID.rows := by
  induction h with
  | start =>
    have hb : ∀ g ∈ ({} : MetricsStorage).groups.byID.rows, ¬0 < g.id := by decide +kernel
    exact ⟨fun m hm => (nomatch hm), .nil, fun id name => by simp only [not_mem_nil]; grind⟩
  | @deliver s entries walk _ _ ih =>
    obtain ⟨hg, hc⟩ := grouped_applyEntries entries ih.1 fun _ => ih.2
    simp only [applyEvent]
    split
    · refine ⟨fun m hm => ?_, current_orderGroups walk _⟩
      simp only [regroup, foldl_set] at hm
      obtain hm | ⟨hm, -⟩ := (mem_foldl_replace (nodup_regrouped walk _)).1 hm
      · obtain ⟨m, -, rfl⟩ := mem_map.1 hm
        rfl
      · cases hm
    · next hs => exact ⟨hg, hc (by simpa using hs)⟩

lemma getGroupByMetricName_eq {groups : List MetricsGroup} {g : MetricsGroup}
    (h : getGroupByMetricName groups name = some g) :
    g ∈ groups ∧ g.disable = false ∧ g.name <+: name := by
  have hm := find?_some h
  simp only [Bool.and_eq_true, Bool.not_eq_true', isPrefixOf_iff_prefix] at hm
  exact ⟨mem_of_find?_eq_some h, hm⟩

/-- A walk can begin with any group that matches. -/
lemma getGroupByMetricName_walks {groups : List MetricsGroup} {g : MetricsGroup} :
    (∀ walk, List.Perm walk groups → getGroupByMetricName walk name = some g) ↔
      g ∈ groups ∧ g.disable = false ∧ g.name <+: name ∧
        ∀ g' ∈ groups, g'.disable = false → g'.name <+: name → g' = g := by
  constructor
  · intro h
    obtain ⟨hm, hd, how⟩ := getGroupByMetricName_eq (h groups (.refl _))
    refine ⟨hm, hd, how, fun g' hg' hds' how' => ?_⟩
    have hs := h (g' :: groups.erase g') (perm_cons_erase hg').symm
    simpa [getGroupByMetricName, hds', isPrefixOf_iff_prefix.2 how'] using hs
  · rintro ⟨hm, hd, how, ho⟩ walk hw
    cases hf : getGroupByMetricName walk name with
    | none =>
      have := find?_eq_none.1 hf g (hw.mem_iff.2 hm)
      simp [hd, how] at this
    | some g' =>
      obtain ⟨hme', hds', how'⟩ := getGroupByMetricName_eq hf
      rw [ho g' (hw.mem_iff.1 hme') hds' how']

/-- The lookup by name agrees when one enabled group matches, and that is not one of the other
built-in ones. -/
theorem groups_of_reachable (h : Reachable (fun _ _ => True) s) :
    (∀ m ∈ s.metrics.byID.rows, IsGroupOf s.groups.byID.rows m.name m.groupID) ∧
    ∀ name, (∃ g, IsGroupOf s.groups.byID.rows name g.id ∧
        ∀ walk, List.Perm walk s.groups.byID.rows → getGroupByMetricName walk name = some g) ↔
      ∃ g ∈ s.groups.byID.rows, (0 < g.id ∨ g.id = builtinGroupIDDefault) ∧
        g.disable = false ∧ g.name <+: name ∧
        ∀ g' ∈ s.groups.byID.rows, g'.disable = false → g'.name <+: name → g' = g := by
  obtain ⟨hg, hc⟩ := grouped_of_reachable h
  refine ⟨fun m hm => hg m hm ▸ hc.isGroupOf m.name, fun name => ?_⟩
  simp only [getGroupByMetricName_walks]
  constructor
  · rintro ⟨g, ha, he, hr⟩
    refine ⟨g, he, ?_, hr⟩
    rcases ha with ⟨g', -, hi, how, -⟩ | ⟨hi, -⟩
    · exact .inl (hi ▸ how.1)
    · exact .inr hi
  · rintro ⟨g, he, hi, hd, how, ho⟩
    refine ⟨g, ?_, he, hd, how, ho⟩
    have hw g' hg' (h : g'.Owns name) : g' = g :=
      ho g' hg' h.2.1 h.2.2
    rcases hi with hi | hi
    · exact .inl ⟨g, he, rfl, ⟨hi, hd, how⟩, fun g' hg' h =>
        Nat.le_of_eq (by rw [hw g' hg' h])⟩
    · refine .inr ⟨hi, fun g' hg' h => ?_⟩
      have hp := h.1
      rw [hw g' hg' h, hi] at hp
      exact absurd hp (by decide)

/-- Two groups, and a metric of both. -/
def nested : MetricsStorage :=
  applyEvent someWalk {} [.metric ⟨1, [97, 98, 99], 1, 0⟩, .group { id := 1, name := [97] },
    .group { id := 2, name := [97, 98] }]

theorem groups_of_reachable_nested : nested.metrics.byID.rows.length = 1 ∧
    ∀ m ∈ nested.metrics.byID.rows, IsGroupOf nested.groups.byID.rows m.name m.groupID :=
  ⟨by decide +kernel, (groups_of_reachable (.deliver someWalk .start trivial)).1⟩

/-- The shorter name can come first, and a metric without a group gets none. -/
theorem group_depends_on_walk :
    (getGroupByMetricName nested.groups.byID.rows [97, 98, 99]).map (·.id) = some 1 ∧
    (getGroupByMetricName nested.groups.byID.rows.reverse [97, 98, 99]).map (·.id) = some 2 ∧
    getGroupByMetricName nested.groups.byID.rows [120] = none := by
  decide +kernel

end MetricsStorage
