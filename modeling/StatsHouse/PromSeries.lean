import Mathlib.Data.List.Nodup
import Mathlib.Data.Nat.Find
import Mathlib.Tactic.Ring
import StatsHouse.HostStates

/-!
# Series of the query language

A series has a value or nothing at each time of the grid. `present_over_time` turns the test of
the last seen time around, so that it is wrong wherever a series has no value, and
`absent_over_time` takes the time of a point without a value as seen. Values and hosts are found
again in maps whose keys are compared as floats, so that NaN is never found. The hosts of a group
are collected into a list that is tested for being empty before it is filled, and a host that is
a string is counted in metadata that is not there.
-/

namespace PromSeries

open HostStates List

section Keys

variable {κ : Type} [DecidableEq κ] (nan : κ → Prop) [DecidablePred nan]

/-- A key of a map in Go: one with NaN is not found. -/
def insertKey (m : List κ) (k : κ) : List κ := if ¬nan k ∧ k ∈ m then m else k :: m

variable {nan} {ks m : List κ}

lemma mem_foldl_insertKey {k : κ} : k ∈ ks.foldl (insertKey nan) m ↔ k ∈ m ∨ k ∈ ks := by
  induction ks generalizing m with
  | nil => simp
  | cons k' ks ih =>
    rw [foldl_cons, ih, insertKey]
    grind

lemma nodup_insertKey {k : κ} (hm : m.Nodup) (hk : ¬nan k) : (insertKey nan m k).Nodup := by
  unfold insertKey
  split_ifs with hc
  · exact hm
  · exact nodup_cons.2 ⟨fun hin => hc ⟨hk, hin⟩, hm⟩

lemma nodup_foldl_insertKey (hm : m.Nodup) (numbers : ∀ k ∈ ks, ¬nan k) :
    (ks.foldl (insertKey nan) m).Nodup := by
  induction ks generalizing m with
  | nil => exact hm
  | cons k ks ih =>
    obtain ⟨hk, numbers⟩ := forall_mem_cons.1 numbers
    exact ih (nodup_insertKey hm hk) numbers

end Keys

variable {α : Type} (r : ℤ) (time : List ℤ)

/-- `none` is the initial time, which is before all others. -/
def Before (lastSeen : Option ℤ) (t : ℤ) : Prop := ∀ u ∈ lastSeen, u < t

instance (lastSeen : Option ℤ) (t : ℤ) : Decidable (Before lastSeen t) :=
  inferInstanceAs (Decidable (∀ u ∈ lastSeen, u < t))

def presentLoop (lastSeen : Option ℤ) : List (ℤ × Option α) → List (Option ℕ)
  | [] => []
  | (t, v) :: points =>
    if v ≠ none ∨ Before lastSeen (t - r) then
      some 1 :: presentLoop (if v ≠ none then some t else lastSeen) points
    else none :: presentLoop lastSeen points

/-- For one of the series. -/
def funcPresentOverTime (s : ℕ → Option α) : List (Option ℕ) :=
  presentLoop r none (time.mapIdx fun j t => (t, s j))

/-- Over the values of all series at each time. -/
def absentLoop (lastSeen : Option ℤ) : List (ℤ × List (Option α)) → List (Option ℕ)
  | [] => []
  | (t, vs) :: points =>
    if vs.countP (·.isSome) = 0 ∧ Before lastSeen (t - r) then
      some 1 :: absentLoop lastSeen points
    else none :: absentLoop (some t) points

def funcAbsentOverTime (data : List (ℕ → Option α)) : List (Option ℕ) :=
  if data.length ≠ 0 then absentLoop r none (time.mapIdx fun j t => (t, data.map (· j)))
  else time.map fun _ => some 1

/-- A value in the window that ends at `t`. -/
def InWindow (s : ℕ → Option α) (t : ℤ) : Prop :=
  ∃ (i : ℕ) (u : ℤ), time[i]? = some u ∧ t - r ≤ u ∧ u ≤ t ∧ s i ≠ none

open Classical in
/-- The two functions at all times mean presence in the window. -/
def MeanPresence (data : List (ℕ → Option α)) : Prop :=
  ∀ (j : ℕ) (t : ℤ), time[j]? = some t →
    (∀ s ∈ data, (funcPresentOverTime r time s)[j]? =
      some (if InWindow r time s t then some 1 else none)) ∧
    (funcAbsentOverTime r time data)[j]? =
      some (if ∃ s ∈ data, InWindow r time s t then none else some 1)

variable {r time} {s : ℕ → Option α} {j : ℕ} {t : ℤ}

/-- Up to the first point without a value the time before it is the last seen. -/
lemma presentLoop_getElem? (lastSeen : Option ℤ) (hj : time[j]? = some t)
    (hpre : ∀ i < j, s i ≠ none) :
    (presentLoop r lastSeen (time.mapIdx fun j t => (t, s j)))[j]? =
      some (if s j ≠ none ∨ Before (if j = 0 then lastSeen else time[j - 1]?) (t - r) then some 1
        else none) := by
  induction time generalizing j s lastSeen with
  | nil => cases hj
  | cons t' time ih =>
    rw [mapIdx_cons, presentLoop]
    cases j with
    | zero =>
      obtain rfl := Option.some.inj hj
      split_ifs <;> simp_all
    | succ j =>
      have h0 := hpre 0 j.succ_pos
      rw [if_pos (.inl h0), if_pos h0, getElem?_cons_succ]
      refine (ih (some t') hj fun i hi => hpre (i + 1) (Nat.succ_lt_succ hi)).trans ?_
      cases j <;> rfl

lemma absentLoop_eq (lastSeen : Option ℤ) {points : List (ℤ × List (Option α))}
    (h : ∀ p ∈ points, p.2.countP (·.isSome) ≠ 0) :
    absentLoop r lastSeen points = points.map fun _ => none := by
  induction points generalizing lastSeen with
  | nil => rfl
  | cons p points ih =>
    obtain ⟨hp, h⟩ := forall_mem_cons.1 h
    rw [absentLoop, if_neg fun hc => hp hc.1, ih _ h, map_cons]

lemma inWindow_self (hr : 0 < r) (hj : time[j]? = some t) (hs : s j ≠ none) :
    InWindow r time s t := ⟨j, t, hj, by omega, le_rfl, hs⟩

lemma index_le (ht : time.Pairwise (· < ·)) {i : ℕ} {u : ℤ} (hi : time[i]? = some u)
    (hj : time[j]? = some t) (hle : u ≤ t) : i ≤ j := by
  obtain ⟨hl, rfl⟩ := List.getElem?_eq_some_iff.1 hi
  obtain ⟨ha, rfl⟩ := List.getElem?_eq_some_iff.1 hj
  by_contra! hlt
  exact absurd (pairwise_iff_getElem.1 ht j i ha hl hlt) hle.not_gt

/-- At its first point without a value a series is in the window when the last seen time is. -/
lemma inWindow_iff (ht : time.Pairwise (· < ·)) (hj : time[j]? = some t) (hs : s j = none)
    (hpre : ∀ i < j, s i ≠ none) :
    InWindow r time s t ↔ ¬Before (if j = 0 then none else time[j - 1]?) (t - r) := by
  constructor
  · rintro ⟨i, u, hi, hlo, hhi, ha⟩ hb
    have hij := index_le ht hi hj hhi
    have hne : i ≠ j := fun h => ha (h ▸ hs)
    rw [if_neg (by omega)] at hb
    obtain ⟨hl, -⟩ := List.getElem?_eq_some_iff.1 hj
    obtain ⟨w, hw⟩ : ∃ w, time[j - 1]? = some w := ⟨_, getElem?_eq_getElem (by omega)⟩
    have hlt := hb w hw
    have hji := index_le ht hw hi (by omega)
    obtain rfl : i = j - 1 := by omega
    cases hw.symm.trans hi
    omega
  · intro hb
    unfold Before at hb
    push Not at hb
    obtain ⟨u, hu, hlo⟩ := hb
    split_ifs at hu with h0
    · cases hu
    refine ⟨j - 1, u, hu, hlo, ?_, hpre _ (by omega)⟩
    by_contra! hlt
    have := index_le ht hj hu hlt.le
    omega

/-- The functions mean presence exactly when no value is missing. -/
theorem meanPresence_iff (hr : 0 < r) (ht : time.Pairwise (· < ·)) (data : List (ℕ → Option α)) :
    MeanPresence r time data ↔ ∀ s ∈ data, ∀ j < time.length, s j ≠ none := by
  constructor
  · intro h s hs j hj hn
    obtain ⟨k, hk, hc, hpre⟩ : ∃ k, s k = none ∧ k ≤ j ∧ ∀ i < k, s i ≠ none := by
      classical
      have hex : ∃ k, s k = none := ⟨j, hn⟩
      exact ⟨_, Nat.find_spec hex, Nat.find_min' hex hn, fun i => Nat.find_min hex⟩
    have ha := getElem?_eq_getElem (hc.trans_lt hj)
    have hw := inWindow_iff (r := r) ht ha hk hpre
    have hp := (h _ _ ha).1 s hs
    rw [funcPresentOverTime, presentLoop_getElem? none ha hpre, hk] at hp
    by_cases hb : Before (if k = 0 then none else time[k - 1]?) (time[k] - r)
    · rw [if_pos (.inr hb), if_neg fun hin => hw.1 hin hb] at hp
      cases hp
    · rw [if_neg (by simpa), if_pos (hw.2 hb)] at hp
      cases hp
  · intro h j t hj
    obtain ⟨hl, -⟩ := List.getElem?_eq_some_iff.1 hj
    constructor
    · intro s hs
      rw [if_pos (inWindow_self hr hj (h s hs j hl)), funcPresentOverTime,
        presentLoop_getElem? none hj fun i hi => h s hs i (hi.trans hl),
        if_pos (.inl (h s hs j hl))]
    · rw [funcAbsentOverTime]
      cases data with
      | nil => simp [hl]
      | cons s data =>
        have hs := h s mem_cons_self
        rw [if_pos (by simp), if_pos ⟨s, mem_cons_self, inWindow_self hr hj (hs j hl)⟩,
          absentLoop_eq]
        · simp [hl]
        · intro p hp
          obtain ⟨i, hi, rfl⟩ := mem_mapIdx.1 hp
          simp [Option.isSome_iff_ne_none, hs i hi]

theorem meanPresence_full : MeanPresence 10 [0, 5] [fun _ => some 7] :=
  (meanPresence_iff (by decide) (by decide) _).2 (by simp)

/-- A value five seconds ago, in a window of ten. -/
theorem present_when_missing :
    ¬MeanPresence 10 [0, 5] [fun j => if j = 0 then some 7 else none] := by
  intro h
  have hp := (h 1 5 rfl).1 _ mem_cons_self
  rw [if_pos ⟨0, 0, rfl, by decide⟩] at hp
  exact absurd hp (by decide)

section Counts

lemma countP_zipIdx (row : List (Option α)) (i j : ℕ) :
    (row.zipIdx i).countP (·.2 = j) = if i ≤ j ∧ j < i + row.length then 1 else 0 := by
  induction row generalizing i with
  | nil => simp
  | cons v row ih =>
    rw [zipIdx_cons, countP_cons, ih, length_cons]
    grind

lemma countP_visits (rows : List (List (Option α))) (j : ℕ) :
    (rows.flatMap zipIdx).countP (·.2 = j) = rows.countP (j < ·.length) := by
  induction rows with
  | nil => rfl
  | cons row rows ih =>
    rw [flatMap_cons, countP_append, countP_zipIdx, ih, countP_cons, add_comm]
    simp

/-- A series of the result, by the value it stands for, with its counts. -/
abbrev Counts (α : Type) := Option α × (ℕ → ℕ)

variable [DecidableEq α]

/-- NaN is `none`, and is not found in a map. -/
def countValue (dm : List (Counts α)) (p : Option α × ℕ) : List (Counts α) :=
  if p.1 ≠ none ∧ p.1 ∈ dm.map Prod.fst then
    dm.map fun d => if d.1 = p.1 then (d.1, d.2 + Pi.single p.2 1) else d
  else (p.1, Pi.single p.2 1) :: dm

/-- For one group of series. -/
def funcCountValues (rows : List (List (Option α))) : List (Option α × (ℕ → Option ℕ)) :=
  ((rows.flatMap zipIdx).foldl countValue []).map fun d =>
    (d.1, fun j => if d.2 j = 0 then none else some (d.2 j))

/-- Every value that occurs has its series, and the counts of a point add up. -/
def CountsOnce (rows : List (List (Option α))) : Prop :=
  (∀ j, ((funcCountValues rows).map fun d => (d.2 j).getD 0).sum =
    rows.countP fun row => row[j]?.join ≠ none) ∧
  ((funcCountValues rows).map Prod.fst).Nodup ∧
  ∀ v, v ∈ (funcCountValues rows).map Prod.fst ↔ v ≠ none ∧ ∃ row ∈ rows, v ∈ row

lemma map_fst_countValue (dm : List (Counts α)) (p : Option α × ℕ) :
    (countValue dm p).map Prod.fst = insertKey (· = none) (dm.map Prod.fst) p.1 := by
  unfold countValue insertKey
  split_ifs
  · rw [map_map]
    refine map_congr_left fun d _ => ?_
    simp only [Function.comp_apply]
    split_ifs <;> rfl
  · rfl

lemma map_fst_foldl (dm : List (Counts α)) (ps : List (Option α × ℕ)) :
    (ps.foldl countValue dm).map Prod.fst =
      (ps.map Prod.fst).foldl (insertKey (· = none)) (dm.map Prod.fst) := by
  induction ps generalizing dm with
  | nil => rfl
  | cons p ps ih => rw [foldl_cons, ih, map_fst_countValue, map_cons, foldl_cons]

def total (dm : List (Counts α)) (j : ℕ) : ℕ := (dm.map fun d => d.2 j).sum

lemma total_map (dm : List (Counts α)) (v : Option α) (n : ℕ → ℕ) (j : ℕ) :
    total (dm.map fun d => if d.1 = v then (d.1, d.2 + n) else d) j =
      total dm j + (dm.map Prod.fst).count v * n j := by
  induction dm with
  | nil => simp [total]
  | cons d dm ih =>
    simp only [total, map_cons, sum_cons, count_cons] at ih ⊢
    rw [ih]
    by_cases hd : d.1 = v
    · simp only [if_pos hd, beq_iff_eq, Pi.add_apply]
      ring
    · simp only [if_neg hd, beq_iff_eq]
      ring

lemma total_countValue {dm : List (Counts α)} (nodup : (dm.map Prod.fst).Nodup) (p : Option α × ℕ)
    (j : ℕ) : total (countValue dm p) j = (Pi.single p.2 1 : ℕ → ℕ) j + total dm j := by
  unfold countValue
  split_ifs with hc
  · rw [total_map, count_eq_one_of_mem nodup hc.2, one_mul, add_comm]
  · rfl

lemma total_foldl {ps : List (Option α × ℕ)} (present : ∀ p ∈ ps, p.1 ≠ none) {m : List (Counts α)}
    (hm : (m.map Prod.fst).Nodup) (j : ℕ) :
    total (ps.foldl countValue m) j = ps.countP (·.2 = j) + total m j := by
  induction ps generalizing m with
  | nil => simp
  | cons p ps ih =>
    obtain ⟨hp, present⟩ := forall_mem_cons.1 present
    have hn : ((countValue m p).map Prod.fst).Nodup := by
      rw [map_fst_countValue]
      exact nodup_insertKey hm hp
    rw [foldl_cons, ih present hn, total_countValue hm, countP_cons, Pi.single_apply, add_assoc]
    simp [eq_comm]

variable {rows : List (List (Option α))}

lemma keys_funcCountValues : (funcCountValues rows).map Prod.fst =
    rows.flatten.foldl (insertKey (· = none)) [] := by
  rw [funcCountValues, map_map]
  refine (map_fst_foldl [] _).trans ?_
  simp [map_flatMap, flatMap_id']

lemma sum_funcCountValues (hv : ∀ v ∈ rows.flatten, v ≠ none) (j : ℕ) :
    ((funcCountValues rows).map fun d => (d.2 j).getD 0).sum =
      rows.countP fun row => row[j]?.join ≠ none := by
  have hs : ∀ p ∈ rows.flatMap zipIdx, p.1 ≠ none := by
    intro p hp
    obtain ⟨row, hr, hp⟩ := mem_flatMap.1 hp
    exact hv p.1 (mem_flatten_of_mem hr (fst_mem_of_mem_zipIdx hp))
  have hz (d : Counts α) : (if d.2 j = 0 then none else some (d.2 j)).getD 0 = d.2 j := by
    split_ifs with h0
    · exact h0.symm
    · rfl
  rw [funcCountValues, map_map]
  refine (congrArg sum (map_congr_left fun d _ => hz d)).trans ?_
  refine (total_foldl hs (m := []) nodup_nil j).trans ?_
  refine (countP_visits rows j).trans (countP_congr fun row hr => ?_)
  rw [decide_eq_true_iff, decide_eq_true_iff]
  rcases lt_or_ge j row.length with hj | hj
  · simpa [hj] using hv _ (mem_flatten_of_mem hr (getElem_mem hj))
  · simp [hj]

/-- Every value is counted once exactly when none is missing. -/
theorem countsOnce_iff (rows : List (List (Option α))) :
    CountsOnce rows ↔ ∀ row ∈ rows, none ∉ row := by
  unfold CountsOnce
  simp only [keys_funcCountValues, mem_foldl_insertKey, not_mem_nil, false_or, mem_flatten]
  constructor
  · rintro ⟨-, -, h⟩ row hr hn
    exact ((h none).1 ⟨row, hr, hn⟩).1 rfl
  · intro h
    have hv : ∀ v ∈ rows.flatten, v ≠ none := by
      rintro v hv rfl
      obtain ⟨row, hr, hn⟩ := mem_flatten.1 hv
      exact h row hr hn
    refine ⟨sum_funcCountValues hv, nodup_foldl_insertKey nodup_nil hv, fun v => ?_⟩
    exact ⟨fun hin => ⟨hv v (mem_flatten.2 hin), hin⟩, And.right⟩

/-- A series for what is missing. -/
theorem missing_counted : ¬CountsOnce [[some 7], [none]] := by
  rintro ⟨-, -, h⟩
  exact absurd rfl ((h none).1 (by decide)).1

end Counts

variable {β : Type} [LinearOrder β]

/-- `MinMaxHost` of a series. -/
abbrev Hosts (β : Type) := Fin 2 → List (Host β)

/-- `none` is an index out of range. -/
def groupMinMaxHost (times : ℕ) (x : Fin 2) : List (Hosts β) → Option (List (Host β))
  | [] => some []
  | [d] => some (d x)
  | ds =>
    let i := ds.findIdx fun d => (d x).length ≠ 0
    -- made with a capacity and without elements
    let res : List (Host β) := []
    if res.length = 0 then some res
    else (range times).foldlM (fun res j => do
      let v ← (← ds[i]?.map (· x))[j]?
      let rest ← (ds.drop (i + 1)).mapM fun d => (d x)[j]?
      return res ++ [rest.foldl (·.merge · x) v]) res

def hostsAt (x : Fin 2) (ds : List (Hosts β)) (j : ℕ) : List (Host β) :=
  ds.filterMap fun d => (d x)[j]?

/-- The best host at every point where there is one, and an empty list only without hosts. -/
def KeepsHosts (times : ℕ) (x : Fin 2) (ds : List (Hosts β)) : Prop :=
  ∃ res, groupMinMaxHost times x ds = some res ∧ (res = [] → ∀ d ∈ ds, d x = []) ∧
    ∀ j, hostsAt x ds j ≠ [] → ∃ h, res[j]? = some h ∧
      Best (if x = 0 then (· < ·) else (· > ·)) (hostsAt x ds j) h

/-- Of two or more series the hosts are lost. -/
theorem keepsHosts_iff (times : ℕ) (x : Fin 2) (ds : List (Hosts β)) :
    KeepsHosts times x ds ↔ ds.length ≤ 1 ∨ ∀ d ∈ ds, d x = [] := by
  match ds with
  | [] => simp [KeepsHosts, groupMinMaxHost, hostsAt]
  | [d] =>
    refine iff_of_true ⟨d x, rfl, by simp, ?_⟩ (.inl le_rfl)
    intro j hj
    cases hd : (d x)[j]? with
    | none => simp [hostsAt, hd] at hj
    | some h =>
      refine ⟨h, rfl, ?_⟩
      split <;> simp [hostsAt, hd, Best, rel_irrefl]
  | d :: e :: ds =>
    constructor
    · rintro ⟨_, ⟨⟩, h, -⟩
      exact .inr (h rfl)
    · intro h
      have hn := h.resolve_left (by simp)
      refine ⟨[], rfl, fun _ => hn, fun j hj => absurd ?_ hj⟩
      simp only [hostsAt, filterMap_eq_nil_iff]
      intro d hd
      rw [hn d hd]
      rfl

theorem hosts_lost : ¬KeepsHosts 1 0
    [fun _ => [⟨[], 1, some (5 : ℤ)⟩], fun _ => [⟨[], 2, some 3⟩]] := by
  rintro ⟨_, ⟨⟩, h, -⟩
  exact absurd (h rfl _ mem_cons_self) (by simp)

/-- A series of the result, with the value of the tag that was added to it. -/
structure Labelled (α : Type) where
  label : Option (ℤ × List UInt8)
  values : List (Option α)

def labelOf (h : Host β) : ℤ × List UInt8 := (h.asInt32.toInt, h.asString)

/-- `SeriesTags.add` with a nil `mt`, which counts the values that are strings. -/
def add (h : Host β) : Option (ℤ × List UInt8) :=
  if h.asString.length ≠ 0 then none else some (labelOf h)

/-- The hosts of the points with a value, in the map. -/
def hostKeys (points : List (Option α × Host β)) : List (Host β) :=
  (points.filterMap fun p => p.1.map fun _ => p.2).foldl (insertKey (·.val = none)) []

def pointsOf (points : List (Option α × Host β)) (h : Host β) : List (Option α) :=
  points.map fun p => if p.2 = h ∧ h.val ≠ none then p.1 else none

def labelMinMaxHost (points : List (Option α × Host β)) : Option (List (Labelled α)) :=
  if points.length = 0 then some [⟨none, points.map Prod.fst⟩]
  else (hostKeys points).mapM fun h => do
    let label ← add h
    return ⟨some label, pointsOf points h⟩

/-- Every point stands in the series of its host alone. -/
def Splits (points : List (Option α × Host β)) : Prop :=
  ∃ res, labelMinMaxHost points = some res ∧ (res.map Labelled.label).Nodup ∧
    ∀ (i : ℕ) v h, points[i]? = some (v, h) →
      (∀ s ∈ res, s.values[i]? = some (if s.label = some (labelOf h) then v else none)) ∧
      (v ≠ none → ∃ s ∈ res, s.label = some (labelOf h))

variable {points : List (Option α × Host β)} {h : Host β}

lemma mem_hostKeys : h ∈ hostKeys points ↔ ∃ p ∈ points, p.1 ≠ none ∧ p.2 = h := by
  simp [hostKeys, mem_foldl_insertKey, Option.map_eq_some_iff, Option.ne_none_iff_exists']

lemma labelMinMaxHost_eq (hne : points ≠ []) :
    labelMinMaxHost points = if ∀ h ∈ hostKeys points, h.asString = [] then
      some ((hostKeys points).map fun h => ⟨some (labelOf h), pointsOf points h⟩) else none := by
  rw [labelMinMaxHost, if_neg (by simpa)]
  induction hostKeys points with
  | nil => rfl
  | cons h m ih =>
    rw [mapM_cons, ih]
    by_cases hs : h.asString = []
    · have hadd : add h = some (labelOf h) := if_neg (by simp [hs])
      simp only [hadd, hs, forall_mem_cons, true_and]
      split_ifs <;> rfl
    · simp [add, hs]

/-- The hosts of the points with a value are numbers, and a number has one value, not NaN. -/
def Distinct (points : List (Option α × Host β)) : Prop :=
  ∀ p ∈ points, p.1 ≠ none → p.2.asString = [] ∧ p.2.val ≠ none ∧
    ∀ q ∈ points, q.1 ≠ none → p.2.asInt32 = q.2.asInt32 → p.2.val = q.2.val

lemma Distinct.labelOf_inj (hd : Distinct points) {h k : Host β} (hh : h ∈ hostKeys points)
    (hk : k ∈ hostKeys points) (heq : labelOf h = labelOf k) : h = k := by
  obtain ⟨⟨v, s, n, w⟩, hp, hv, rfl⟩ := mem_hostKeys.1 hh
  obtain ⟨⟨v', s', n', w'⟩, hq, hv', rfl⟩ := mem_hostKeys.1 hk
  obtain ⟨hn, rfl⟩ := Prod.mk.inj heq
  obtain rfl := BitVec.toInt_inj.1 hn
  obtain rfl : w = w' := (hd _ hp hv).2.2 _ hq hv' rfl
  rfl

lemma getElem?_pointsOf {i : ℕ} {v : Option α} (hi : points[i]? = some (v, h)) (k : Host β) :
    (pointsOf points k)[i]? = some (if h = k ∧ k.val ≠ none then v else none) := by
  simp [pointsOf, hi]

lemma Splits.distinct (hne : points ≠ []) (h : Splits points) : Distinct points := by
  obtain ⟨res, hres, hn, ht⟩ := h
  rw [labelMinMaxHost_eq hne] at hres
  split_ifs at hres with hs
  obtain rfl := Option.some.inj hres
  rw [map_map] at hn
  intro p hp hv
  have hin := mem_hostKeys.2 ⟨p, hp, hv, rfl⟩
  refine ⟨hs _ hin, ?_, ?_⟩
  · obtain ⟨i, hi⟩ := getElem?_of_mem hp
    obtain ⟨hrow, hex⟩ := ht i p.1 p.2 hi
    obtain ⟨s, ha, hl⟩ := hex hv
    obtain ⟨k, -, rfl⟩ := mem_map.1 ha
    have hr := hrow _ ha
    rw [if_pos hl, getElem?_pointsOf hi] at hr
    split_ifs at hr with hm
    · exact hm.1 ▸ hm.2
    · exact absurd (Option.some.inj hr).symm hv
  · intro q hq hv' heq
    have hin' := mem_hostKeys.2 ⟨q, hq, hv', rfl⟩
    rw [inj_on_of_nodup_map hn hin hin' (by simp [labelOf, heq, hs _ hin, hs _ hin'])]

lemma Distinct.splits (hne : points ≠ []) (hd : Distinct points) : Splits points := by
  have hs : ∀ h ∈ hostKeys points, h.asString = [] ∧ h.val ≠ none := by
    intro h hh
    obtain ⟨p, hp, hv, rfl⟩ := mem_hostKeys.1 hh
    exact ⟨(hd p hp hv).1, (hd p hp hv).2.1⟩
  have hn : (hostKeys points).Nodup := nodup_foldl_insertKey nodup_nil
    fun k hk => (hs k (mem_foldl_insertKey.2 (.inr hk))).2
  refine ⟨_, (labelMinMaxHost_eq hne).trans (if_pos fun h hh => (hs h hh).1), ?_, ?_⟩
  · rw [map_map]
    refine hn.map_on fun h hh k hk heq => ?_
    exact hd.labelOf_inj hh hk (Option.some.inj heq)
  · intro i v h hi
    have hin hv := mem_hostKeys.2 ⟨(v, h), mem_of_getElem? hi, hv, rfl⟩
    constructor
    · intro s hr
      obtain ⟨k, hk, rfl⟩ := mem_map.1 hr
      rw [getElem?_pointsOf hi]
      by_cases hv : v = none
      · simp [hv]
      have hm : h = k ∧ k.val ≠ none ↔ some (labelOf k) = some (labelOf h) := by
        constructor
        · rintro ⟨rfl, -⟩
          rfl
        · intro heq
          obtain rfl := hd.labelOf_inj hk (hin hv) (Option.some.inj heq)
          exact ⟨rfl, (hs _ hk).2⟩
      simp only [hm]
    · intro hv
      exact ⟨_, mem_map.2 ⟨h, hin hv, rfl⟩, rfl⟩

theorem splits_iff (points : List (Option α × Host β)) : Splits points ↔ Distinct points := by
  rcases eq_or_ne points [] with rfl | hne
  · simp [Splits, Distinct, labelMinMaxHost]
  · exact ⟨Splits.distinct hne, Distinct.splits hne⟩

/-- A host that is a string. -/
theorem string_not_split : ¬Splits [(some 1, (⟨[104], 0, some 5⟩ : Host ℤ))] := by
  rintro ⟨_, ⟨⟩, -⟩

end PromSeries
