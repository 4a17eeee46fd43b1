import Mathlib.Data.Rat.Defs
import Mathlib.Data.List.Basic

/-!
# Skip flags of inserted rows

The rows of an insert are sorted by metric, with ingestion statuses in between, so
`metricIndexCache` keeps the flags of one metric, and those of the ingestion status apart.
-/

namespace InsertFlags

structure Skips where
  maxHost : Bool := false
  minHost : Bool := false
  sumSquare : Bool := false
deriving DecidableEq

def ingestionStatusID : Int32 := -11

/-- The built-in metrics and the journal, which does not change during an insert. -/
structure Storage where
  builtinMetrics : Int32 → Option Skips
  ingestionStatus : Skips
  journal : Int32 → Option Skips
  registered : builtinMetrics ingestionStatusID = some ingestionStatus

structure MetricIndexCache where
  ingestionStatusData : Skips
  lastMetricID : Int32
  lastMetric : Skips

structure Row (H : Type*) where
  metric : Int32
  valueSet : Bool
  minHost : Option H
  maxHost : Option H
  sumSquare : ℚ

variable {H : Type*} (s : Storage) (p : MetricIndexCache) (id : Int32)

def makeMetricCache : MetricIndexCache := ⟨s.ingestionStatus, 0, {}⟩

def MetricIndexCache.metric : Bool × MetricIndexCache :=
  if id = p.lastMetricID then (true, p)
  else match s.builtinMetrics id with
    | some bm => (true, { p with lastMetricID := id, lastMetric := bm })
    | none => match s.journal id with
      | some metaMetric => (true, { p with lastMetricID := id, lastMetric := metaMetric })
      -- the id of an unknown metric is remembered beside the flags of another one
      | none => (false, { p with lastMetricID := id })

def MetricIndexCache.skips : Skips × MetricIndexCache :=
  if id = ingestionStatusID then (p.ingestionStatusData, p)
  else if (p.metric s id).1 then ((p.metric s id).2.lastMetric, (p.metric s id).2)
  else ({}, (p.metric s id).2)

/-- The row with the columns `appendHosts` and `appendAggregates` write under the flags. -/
def Row.columns (r : Row H) (skips : Skips) : Row H := { r with
    minHost := if r.valueSet && !skips.minHost then r.minHost else none
    maxHost := if r.valueSet && !skips.maxHost then r.maxHost else none
    sumSquare := if r.valueSet && !skips.sumSquare then r.sumSquare else 0 }

def insert : MetricIndexCache → List (Row H) → List (Row H)
  | _, [] => []
  | p, r :: rows => r.columns (p.skips s r.metric).1 :: insert (p.skips s r.metric).2 rows

def Storage.known : Option Skips := s.builtinMetrics id <|> s.journal id

def Storage.flags : Skips := (s.known id).getD {}

/-- No row repeats an unknown metric, or metric 0 of the empty cache, right after a row with the
same id; ingestion statuses do not count. -/
def RepeatsKnown : Int32 → List (Row H) → Prop
  | _, [] => True
  | last, r :: rows =>
    if r.metric = ingestionStatusID then RepeatsKnown last rows
    else (r.metric = last → last ≠ 0 ∧ (s.known last).isSome) ∧ RepeatsKnown r.metric rows

/-- The flags of a known last metric are the remembered ones. -/
structure Holds : Prop where
  status : p.ingestionStatusData = s.ingestionStatus
  metric : p.lastMetricID ≠ 0 → ∀ f, s.known p.lastMetricID = some f → p.lastMetric = f

variable {s p id}

lemma skips_of_ne (other : id ≠ ingestionStatusID) (hne : id ≠ p.lastMetricID) :
    p.skips s id = (s.flags id,
      { p with lastMetricID := id, lastMetric := (s.known id).getD p.lastMetric }) := by
  cases hb : s.builtinMetrics id <;> cases hj : s.journal id <;>
    simp [MetricIndexCache.skips, MetricIndexCache.metric, Storage.flags, Storage.known, other, hne,
      hb, hj]

lemma skips_of_eq (other : id ≠ ingestionStatusID) (he : id = p.lastMetricID) :
    p.skips s id = (p.lastMetric, p) := by
  simp [MetricIndexCache.skips, MetricIndexCache.metric, other, ← he]

lemma insert_eq (h : Holds s p) (rows : List (Row H)) (hr : RepeatsKnown s p.lastMetricID rows) :
    insert s p rows = rows.map fun r => r.columns (s.flags r.metric) := by
  induction rows generalizing p with
  | nil => rfl
  | cons r rows ih =>
    rw [RepeatsKnown] at hr
    rw [insert, List.map_cons]
    split at hr
    case isTrue hi =>
      have ha : p.skips s r.metric = (s.flags r.metric, p) := by
        simp [MetricIndexCache.skips, Storage.flags, Storage.known, hi, s.registered, h.status]
      rw [ha, ih h hr]
    case isFalse hi =>
      obtain ⟨hk, hr⟩ := hr
      by_cases he : r.metric = p.lastMetricID
      · obtain ⟨h0, hs⟩ := hk he
        obtain ⟨f, hf⟩ := Option.isSome_iff_exists.1 hs
        rw [skips_of_eq hi he, ih h (he ▸ hr), h.metric h0 f hf, he, Storage.flags, hf]
        rfl
      · rw [skips_of_ne hi he]
        refine congrArg _ (ih ⟨h.status, fun _ f hf => ?_⟩ hr)
        simp [show s.known r.metric = some f from hf]

/-- When no unknown metric is repeated, the columns of a row are those of its own metric. -/
theorem insert_history_free (s : Storage) (rows : List (Row H)) (hr : RepeatsKnown s 0 rows) :
    insert s (makeMetricCache s) rows = rows.map fun r => r.columns (s.flags r.metric) :=
  insert_eq ⟨rfl, fun h => (h rfl).elim⟩ rows hr

/-- Metric 1 skips the maximum host, metric 2 is unknown. -/
def oneMetric : Storage where
  builtinMetrics id := if id = ingestionStatusID then some {} else none
  ingestionStatus := {}
  journal id := if id = 1 then some { maxHost := true } else none
  registered := rfl

def hostRow (metric : Int32) : Row Unit := ⟨metric, true, some (), some (), 1⟩

theorem insert_history_free_repeated : RepeatsKnown oneMetric 0 (List.map hostRow [1, 1, 2]) ∧
    insert oneMetric (makeMetricCache oneMetric) (List.map hostRow [1, 1, 2]) =
      (List.map hostRow [1, 1, 2]).map fun r => r.columns (oneMetric.flags r.metric) := by
  have hr : RepeatsKnown oneMetric 0 (List.map hostRow [1, 1, 2]) := by
    simp only [List.map, RepeatsKnown]
    decide
  exact ⟨hr, insert_history_free _ _ hr⟩

/-- Of two rows of an unknown metric the second loses the host column the first has. -/
theorem second_unknown_row_skips :
    (insert oneMetric (makeMetricCache oneMetric) (List.map hostRow [1, 2, 2])).map Row.maxHost =
      [none, some (), none] ∧ oneMetric.known 2 = none := by
  decide

end InsertFlags
