import Mathlib.Algebra.Order.Ring.Int
import Mathlib.Algebra.BigOperators.Group.List.Basic

/-!
# The time grid of a query

A query is answered on a grid of times that is put together from levels of detail. Far in the
past only large steps are kept, so the grid goes from large steps to small ones. The grid is
built in two passes: first the levels and their lengths, then the times.

Seconds are integers without bounds; `Moderate` says for which arguments no `int64` of the code
wraps. Steps of a calendar month need a calendar, which is a parameter.
-/

namespace Timescale

def maxPoints : Nat := 7680

def sec1M : Int := 31 * 24 * 3600

/-- The calendar of a time zone. -/
structure Location where
  startOfMonth : Int → Int
  addMonth : Int → Int
  lt_addMonth (t : Int) : t < addMonth t

structure TimescaleLOD where
  step : Int := 0
  /-- How many elements of the grid it occupies. -/
  len : Nat := 0
deriving Repr, DecidableEq

inductive QueryMode where
  | rangeQuery
  | instantQuery
  | pointQuery
  | tagsQuery
deriving Repr, DecidableEq

structure MetricOffset where
  offset : Int
  resolution : Int
deriving Repr, DecidableEq

structure GetTimescaleArgs where
  metricOffset : List MetricOffset := []
  /-- Inclusive. -/
  start : Int
  /-- Exclusive. -/
  stop : Int
  step : Int
  timeNow : Int
  screenWidth : Int := 0
  mode : QueryMode := .rangeQuery
  extend : Bool := false
  utcOffset : Int := 0

/-- No sum of times, offsets and steps leaves `int64`. -/
def GetTimescaleArgs.Moderate (args : GetTimescaleArgs) : Prop :=
  ∀ t ∈ args.start :: args.stop :: args.timeNow :: args.utcOffset ::
    args.metricOffset.map MetricOffset.offset, t.natAbs ≤ 2 ^ 60

structure Grid where
  time : List Int := []
  lods : List TimescaleLOD := []
  startX : Nat := 0
  viewStartX : Nat := 0
  viewEndX : Nat := 0
deriving Repr, DecidableEq

inductive TimescaleError where
  | queryOutOfRange
  | lodOutOfRange (step : Int) (len : Nat)
  | offsetNotMultiple (offset step : Int)
deriving Repr, DecidableEq

/-- Levels of detail that are kept from some time before now on. -/
structure LodSwitch where
  relSwitch : Int
  levels : List Int

def hourLevels : List Int := [7 * 24 * 3600, 24 * 3600, 4 * 3600, 3600]

def minuteLevels : List Int := hourLevels ++ [15 * 60, 5 * 60, 60]

def secondLevels : List Int := minuteLevels ++ [15, 5, 1]

def lodLevels : List LodSwitch := [{ relSwitch := 33 * 24 * 3600 - 2 * 60, levels := hourLevels },
    { relSwitch := 52 * 3600 - 2, levels := minuteLevels },
    { relSwitch := 0, levels := secondLevels }]

def lodLevelsV3Monthly : List LodSwitch := [{ relSwitch := 0, levels := [sec1M] }]

/-- Rounded towards minus infinity, whatever the sign. -/
def roundTime (t step utcOffset : Int) : Int := (t + utcOffset) / step * step - utcOffset

section

variable (loc : Location)

def stepForward (start step : Int) : Int :=
  if step = sec1M then loc.addMonth start else start + step

def startOfLOD (start step utcOffset : Int) : Int :=
  if step = sec1M then loc.startOfMonth start else roundTime start step utcOffset

/-- The loop of `endOfLOD`; each turn moves at least a second ahead. -/
def endLoop (step stop : Int) (le : Bool) : Nat → Int → Int × Nat
  | 0, start => (start, 0)
  | fuel + 1, start =>
    if start < stop then
      let t := stepForward loc start step
      if le ∧ stop < t then (start, 0)
      else
        let (reached, n) := endLoop step stop le fuel t
        (reached, n + 1)
    else (start, 0)

/-- Where the steps from `start` reach `stop`, and how many they are. Steps are positive; the
code panics on others. An `int64` start that wraps before it reaches `stop` never does. -/
def endOfLOD (start step stop : Int) (le : Bool) : Int × Nat :=
  endLoop loc step stop le (stop - start).toNat start

/-- What the search for the next level reads. -/
structure Span where
  start : Int
  stop : Int
  /-- Up to here the levels of the switch are kept. -/
  edge : Int
  /-- No level has been chosen so far. -/
  first : Bool
  resLen : Nat

variable (args : GetTimescaleArgs) (minStep : Int)

def isPointQuery : Bool := args.mode = .pointQuery

def Span.lodStart (span : Span) (step : Int) : Int :=
  if span.first then startOfLOD loc span.start step args.utcOffset else span.start

/-- How many points there would be with this step to the end. -/
def Span.count (span : Span) (step lodEnd : Int) (lodLen : Nat) : Nat :=
  if isPointQuery args then 0
  else span.resLen + lodLen + (endOfLOD loc lodEnd step span.stop false).2

/-- The loop over the steps of a switch, largest first. It carries the level chosen so far and
where it ends. -/
def pickStep (span : Span) :
    List Int → TimescaleLOD × Int → Except TimescaleError (TimescaleLOD × Int)
  | [], chosen => .ok chosen
  | step :: steps, (lod, lodEnd) =>
    -- the step can not grow
    if 0 < lod.step ∧ lod.step < step then pickStep span steps (lod, lodEnd)
    else
      let (stepEnd, lodLen) := endOfLOD loc (span.lodStart loc args step) step span.edge false
      let n := span.count loc args step stepEnd lodLen
      if maxPoints < n then
        if lod.step = 0 then .error .queryOutOfRange
        else
          -- the previous, larger step is used to the end
          let (lodEnd, len) :=
            endOfLOD loc (span.lodStart loc args lod.step) lod.step span.stop false
          .ok ({ lod with len }, lodEnd)
      else if step ≤ minStep ∨ (args.screenWidth ≠ 0 ∧ args.screenWidth < n) then
        let (lodEnd, more) := endOfLOD loc stepEnd step span.stop false
        .ok ({ step, len := lodLen + more }, lodEnd)
      else pickStep span steps ({ step, len := lodLen }, stepEnd)

def appendLOD (lods : List TimescaleLOD) (lod : TimescaleLOD) : List TimescaleLOD :=
  match lods.getLast? with
  | some last =>
    if last.step = lod.step then lods.dropLast ++ [{ last with len := last.len + lod.len }]
    else lods ++ [lod]
  | none => [lod]

/-- What the loop over the switches carries. -/
structure Building where
  start : Int
  /-- The last level. -/
  lod : TimescaleLOD := {}
  lods : List TimescaleLOD := []
  resLen : Nat := 0

def lodOutOfRange (lod : TimescaleLOD) : Bool :=
  decide (lod.step ≤ 0) || decide (lod.step > sec1M) || lod.len == 0 ||
    !(isPointQuery args || decide (lod.len ≤ maxPoints))

def Building.span (b : Building) (stop edge : Int) : Span where
  start := b.start
  stop := stop
  edge := if stop < edge ∨ isPointQuery args then stop else edge
  first := b.lods = []
  resLen := b.resLen

/-- The loop over the switches. -/
def buildLODs (stop : Int) : List LodSwitch → Building → Except TimescaleError Building
  | [], b => .ok b
  | switch :: switches, b =>
    if stop ≤ b.start then .ok b
    else
      let edge := args.timeNow - switch.relSwitch
      if edge < b.start then buildLODs stop switches b
      else
        match pickStep loc args minStep (b.span args stop edge) switch.levels
          ({ b.lod with len := 0 }, 0) with
        | .error e => .error e
        | .ok (lod, lodEnd) =>
          if lodOutOfRange args lod then .error (.lodOutOfRange lod.step lod.len)
          else
            buildLODs stop switches {
              start := lodEnd
              lod
              lods := appendLOD b.lods lod
              resLen := b.resLen + lod.len }

/-- `len` points from `t` on, and the one after them. -/
def lodTimes (step : Int) : Nat → Int → List Int × Int
  | 0, t => ([], t)
  | len + 1, t =>
    let (times, next) := lodTimes step len (stepForward loc t step)
    (t :: times, next)

def gridTimes : List TimescaleLOD → Int → List Int × Int
  | [], t => ([], t)
  | lod :: lods, t =>
    let (times, next) := lodTimes loc lod.step lod.len t
    let (more, last) := gridTimes lods next
    (times ++ more, last)

/-- The levels with one more point at the end. -/
def extendLast : List TimescaleLOD → List TimescaleLOD
  | [] => []
  | [lod] => [{ lod with len := lod.len + 1 }]
  | lod :: lods => lod :: extendLast lods

/-- The points of a query that is not a point query. Up to two of them are put in front. -/
def rangeGrid (first : TimescaleLOD) (rest : List TimescaleLOD) : Grid :=
  let t := startOfLOD loc args.start first.step args.utcOffset
  let before (t : Int) : Int := startOfLOD loc (t - 1) first.step args.utcOffset
  let (t, len, startX, viewStartX) :=
    if t < args.start then (t, first.len, if args.extend then 0 else 1, 1)
    else if args.extend then (before t, first.len + 1, 0, 1)
    else (t, first.len, 0, 0)
  let (t, len, startX, viewStartX) :=
    if startX = 0 then (before t, len + 1, startX + 1, viewStartX + 1)
    else (t, len, startX, viewStartX)
  let lods := { first with len } :: rest
  let (time, next) := gridTimes loc lods t
  let viewEndX := if viewStartX < time.length then time.length else viewStartX
  if args.extend then
    { time := time ++ [next], lods := extendLast lods, startX, viewStartX, viewEndX }
  else { time, lods, startX, viewStartX, viewEndX }

/-- A point query has one interval. -/
def pointGrid (first : TimescaleLOD) (rest : List TimescaleLOD) : Grid :=
  let t := startOfLOD loc args.start first.step args.utcOffset
  let t := if t < args.start ∧ !args.extend then stepForward loc t first.step else t
  let last := (endOfLOD loc t first.step args.stop (!args.extend)).1
  if t = last then {} else { time := [t, last], lods := first :: rest, viewEndX := 1 }

def maxOffset : Int := (args.metricOffset.map MetricOffset.offset).foldl max 0

def maxMetricRes : Int := (args.metricOffset.map MetricOffset.resolution).foldl max 1

end

def getTimescale (loc : Location) (args : GetTimescaleArgs) : Except TimescaleError Grid :=
  if args.stop ≤ args.start ∨ args.step < 0 then .ok {}
  else
    let levels := if args.step = sec1M then lodLevelsV3Monthly else lodLevels
    let minStep :=
      if isPointQuery args ∨ args.step < maxMetricRes args then maxMetricRes args else args.step
    match buildLODs loc args minStep (args.stop - maxOffset args) levels
      { start := args.start - maxOffset args } with
    | .error e => .error e
    | .ok b =>
      match b.lods with
      | [] => .ok {}
      | first :: rest =>
        match args.metricOffset.find? fun o => o.offset % first.step ≠ 0 with
        | some o => .error (.offsetNotMultiple o.offset first.step)
        | none =>
          .ok (if isPointQuery args then pointGrid loc args first rest
            else rangeGrid loc args first rest)

end Timescale
