import Mathlib.Data.List.AList
import StatsHouse.HandlerWhat
import StatsHouse.TsValues

/-!
# Series of a query

A query goes through the groups of its functions, for each group through the levels of detail
and for each level through the slots of time. The rows of a slot are collected in a map with an
entry for each tag set, which is kept from slot to slot and tells by a time index whether its
values are of the current slot. Behind the rows of a slot the entries with this index are
copied to their series.

What is modelled is which values a series takes its numbers from, not the numbers.
-/

namespace SeriesQuery

open HandlerWhat

def maxSeriesRows : Nat := 10000000

/-- Range and instant queries are alike here. -/
inductive Mode where
  | point
  | range
deriving Repr, DecidableEq

/-- An entry of the map. -/
structure TagValue (V : Type) where
  tsValues : V
  /-- The first of its series. -/
  x : Nat
  /-- The time index of the values. -/
  tx : Nat

/-- A series, with the values from which its number at a time index is computed. -/
structure SeriesData (Tags V : Type) where
  what : SelectorWhat
  tags : Option Tags := none
  values : Nat → Option V := fun _ => none

def SeriesData.put {Tags V : Type} (s : SeriesData Tags V) (y : Nat) (row : V) :
    SeriesData Tags V :=
  { s with values := fun i => if i = y then some row else s.values i }

/-- The order in which the loop goes through the map. -/
structure MapRange (α : Type) where
  order : Nat → List α → List α
  perm (turn : Nat) (l : List α) : (order turn l).Perm l

section Model

variable {Tags V : Type} [DecidableEq Tags]

abbrev Entry (Tags V : Type) := Sigma fun _ : Tags => TagValue V

structure State (Tags V : Type) where
  data : List (SeriesData Tags V)
  tagX : AList fun _ : Tags => TagValue V

/-- The rows of each slot of a level. -/
abbrev Slots (Tags V : Type) := List (List (Tags × V))

def newSeries (sel : List SelectorWhat) : List (SeriesData Tags V) :=
  sel.map fun fn => { what := fn }

/-- The number is computed with `qry[i].Argument`, out of range at an eighth function, where the
source panics. The access is left out here, as the number is. -/
def copyRowValuesAt (sel : List SelectorWhat) (data : List (SeriesData Tags V)) (x y : Nat)
    (row : V) : List (SeriesData Tags V) :=
  (List.range sel.length).foldl (fun data i => data.modify (x + i) (·.put y row)) data

/-- A row of a range query; `none` is the error on too many rows, and nothing else. -/
def addRow (merge : V → V → V) (sel : List SelectorWhat) (k : Nat) (st : State Tags V)
    (row : Tags × V) : Option (State Tags V) :=
  match st.tagX.lookup row.1 with
  | none =>
    if maxSeriesRows < st.data.length then none
    else some
      { data := st.data ++ newSeries sel
        tagX := st.tagX.insert row.1 { tsValues := row.2, x := st.data.length, tx := k } }
  | some tagV =>
    let tagV :=
      if k = 0 ∨ tagV.tx ≠ k then { tagV with tx := k, tsValues := row.2 }
      else { tagV with tsValues := merge tagV.tsValues row.2 }
    some { st with tagX := st.tagX.insert row.1 tagV }

/-- The entries of the current slot are copied. -/
def copySlot (sel : List SelectorWhat) (k : Nat) (entries : List (Entry Tags V))
    (data : List (SeriesData Tags V)) : List (SeriesData Tags V) :=
  entries.foldl (fun data e =>
    if e.2.tx = k then copyRowValuesAt sel data e.2.x k e.2.tsValues else data) data

def addSlot (merge : V → V → V) (range : MapRange (Entry Tags V)) (sel : List SelectorWhat)
    (k : Nat) (st : State Tags V) (rows : List (Tags × V)) : Option (State Tags V) :=
  if rows = [] then some st
  else (rows.foldlM (addRow merge sel k) st).map fun st =>
    { st with data := copySlot sel k (range.order k st.tagX.entries) st.data }

/-- A row of a point query. Its entry holds no values. -/
def addPoint [Inhabited V] (sel : List SelectorWhat) (tx : Nat) (st : State Tags V)
    (row : Tags × V) : State Tags V :=
  let st' : State Tags V × Nat :=
    match st.tagX.lookup row.1 with
    | some tag => (st, tag.x)
    | none =>
      ({ data := st.data ++ newSeries sel
         tagX := st.tagX.insert row.1 { tsValues := default, x := st.data.length, tx := 0 } },
        st.data.length)
  { st'.1 with data := copyRowValuesAt sel st'.1.data st'.2 tx row.2 }

def addSlotOf [Inhabited V] (mode : Mode) (merge : V → V → V) (range : MapRange (Entry Tags V))
    (sel : List SelectorWhat) (tx : Nat) (st : State Tags V) (rows : List (Tags × V)) :
    Option (State Tags V) :=
  match mode with
  | .range => addSlot merge range sel tx st rows
  | .point => some (rows.foldl (addPoint sel tx) st)

/-- The slots of a level, one after the other; the level of a point query is one slot. -/
def addSlots [Inhabited V] (mode : Mode) (merge : V → V → V) (range : MapRange (Entry Tags V))
    (sel : List SelectorWhat) (tx : Nat) (st : State Tags V) :
    Slots Tags V → Option (State Tags V)
  | [] => some st
  | rows :: slots =>
    (addSlotOf mode merge range sel tx st rows).bind
      fun st => addSlots mode merge range sel (tx + 1) st slots

/-- The loop over the levels, with the time index at which each of them starts. -/
def addLods [Inhabited V] (mode : Mode) (merge : V → V → V) (range : MapRange (Entry Tags V))
    (sel : List SelectorWhat) (tx : Nat) (st : State Tags V) :
    List (Slots Tags V) → Option (State Tags V)
  | [] => some st
  | slots :: lods =>
    (addSlots mode merge range sel tx st slots).bind
      fun st => addLods mode merge range sel (tx + slots.length) st lods

/-- `AddTagAt` for all tags of the entry. -/
def nameSeries (range : MapRange (Entry Tags V)) (sel : List SelectorWhat)
    (tagX : AList fun _ : Tags => TagValue V) (data : List (SeriesData Tags V)) :
    List (SeriesData Tags V) :=
  (List.range sel.length).foldl (fun data i =>
    (range.order i tagX.entries).foldl (fun data e =>
      data.modify (i + e.2.x) fun s => { s with tags := some e.1 }) data) data

/-- The functions of a group, and what the cache returned for it level by level. -/
structure GroupData (Tags V : Type) where
  what : Group
  lods : List (Slots Tags V)

variable [Inhabited V] (mode : Mode) (merge : V → V → V) (rows names : MapRange (Entry Tags V))

def addGroup (data : List (SeriesData Tags V)) (g : GroupData Tags V) :
    Option (List (SeriesData Tags V)) :=
  (addLods mode merge rows g.what.sel 0 { data, tagX := ∅ } g.lods).map fun st =>
    nameSeries names g.what.sel st.tagX st.data

def querySeries (groups : List (GroupData Tags V)) : Option (List (SeriesData Tags V)) :=
  groups.foldlM (addGroup mode merge rows names) []

end Model

end SeriesQuery
