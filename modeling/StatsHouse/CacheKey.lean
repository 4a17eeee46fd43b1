import StatsHouse.Delimited
import StatsHouse.HandlerWhat
import StatsHouse.MetricMeta

/-!
# Keys of cached queries

A query finds its rows in the cache under a text that is put together from its parts. What
users type into a filter goes into that text as it is, without an escape, and a tag value is
written by `String`, which does not tell a number from its decimal digits. Two queries whose
filters have no quotes share a key when every filter reads the same; with quotes the text of
one filter can look like the texts of several.
-/

namespace CacheKey

open MetricMeta (ascii maxTags stringTopTagIndexV3 tagID)
open HandlerWhat (DigestKind DigestSelector tsValueCount)

abbrev Text := List UInt8

def quote : UInt8 := 34

def formatInt (n : Int) : Text := if n < 0 then 45 :: tagID n.natAbs else tagID n.natAbs

def formatBool (b : Bool) : Text := if b then ascii "true" else ascii "false"

/-- `sort.Strings`: strings that compare equal are equal, so there is one sorted order. -/
def sortStrings (s : List Text) : List Text := s.insertionSort (· ≤ ·)

def sortInts (s : List Int) : List Int := s.insertionSort (· ≤ ·)

structure ListItemSeparator where
  value : Text
  listStarted : Bool := false

namespace ListItemSeparator

def newListComma : ListItemSeparator := { value := ascii "," }

def maybeWrite (c : ListItemSeparator) (sb : Text) : ListItemSeparator × Text :=
  if c.listStarted then (c, sb ++ c.value) else ({ c with listStarted := true }, sb)

/-- The next item of a list, in quotes. -/
def writeQuoted (st : ListItemSeparator × Text) (item : Text) : ListItemSeparator × Text :=
  let (c, sb) := st.1.maybeWrite st.2
  (c, sb ++ ascii "\"" ++ item ++ ascii "\"")

end ListItemSeparator

open ListItemSeparator

/-- A value in a filter. The two flags are all that `flags` holds. -/
structure TagValue where
  hasValue : Bool := false
  isMapped : Bool := false
  value : Text := []
  mapped : BitVec 64 := 0
deriving Repr, DecidableEq

namespace TagValue

def newTagValueS (s : Text) : TagValue := { hasValue := true, value := s }

def newTagValueM (n : BitVec 64) : TagValue := { isMapped := true, mapped := n }

/-- `String` -/
def string (v : TagValue) : Text :=
  if v.hasValue then v.value
  else if v.isMapped then formatInt v.mapped.toInt
  else []

end TagValue

structure TagFilter where
  values : List TagValue := []
  re2 : Text := []
deriving Repr, DecidableEq

def TagFilter.empty (f : TagFilter) : Bool := f.values.isEmpty && f.re2.isEmpty

/-- A metric description with its number. -/
structure Metric extends MetricMeta.MetricMetaValue where
  metricID : BitVec 32 := 0

structure TagFilters where
  metrics : List Metric := []
  tags : Fin maxTags → TagFilter := fun _ => {}

def stringTop : Fin maxTags := ⟨stringTopTagIndexV3, by decide⟩

inductive QuerySort where
  | none | ascending | descending
deriving Repr, DecidableEq

/-- The parts of a query that its key is built from. -/
structure Query where
  metric : Option Metric := none
  what : Fin tsValueCount → DigestSelector := fun _ => {}
  /-- `by` -/
  byTags : List Int := []
  filterIn : TagFilters := {}
  filterNotIn : TagFilters := {}
  sort : QuerySort := .none
  /-- "min" first, "max" second -/
  minMaxHost : Bool × Bool := (false, false)

/-- `DigestWhat.String` -/
def digestString : DigestKind → Text
  | .avg => ascii "avg"
  | .count => ascii "count"
  | .max => ascii "max"
  | .min => ascii "min"
  | .sum => ascii "sum"
  | .percentile => ascii "percentile"
  | .cardinality => ascii "cardinality"
  | .unique => ascii "unique"
  | .unspecified | .stdDev => []

/-- `format.TagIndex` -/
def tagIndex (id : Text) : Int :=
  match (List.range maxTags).find? (tagID · = id) with
  | some i => i
  | none => -1

def version6 : Text := ascii "6"

section Filters

/-- The strings of a filter: `s[0]` first, then a loop over the others. -/
def writeStrings (sb : Text) : List Text → Text
  -- not reached, a filter without values writes nothing
  | [] => sb
  | first :: rest =>
    rest.foldl (fun sb t => sb ++ ascii "\",\"" ++ t) (sb ++ ascii "[\"" ++ first) ++ ascii "\"]"

def writeTagFilter (f : TagFilters) (st : ListItemSeparator × Text) (i : Fin maxTags) :
    ListItemSeparator × Text :=
  let filter := f.tags i
  if filter.empty then st
  else
    let (c, sb) := st.1.maybeWrite st.2
    let sb := sb ++ ascii "\"" ++ formatInt i ++ ascii "\":"
    if filter.re2 ≠ [] then (c, sb ++ ascii "\"" ++ filter.re2 ++ ascii "\"")
    else if filter.values ≠ [] then
      (c, writeStrings sb (sortStrings (filter.values.map TagValue.string)))
    else (c, sb)

/-- The string top has a part of its own behind the others, of which the loop over the values
keeps the last: each turn cuts `s` back to nothing. -/
def writeStringTop (st : ListItemSeparator × Text) (filter : TagFilter) (s : List Text) :
    Text × List Text :=
  if filter.re2 ≠ [] then
    let (_, sb) := st.1.maybeWrite st.2
    (sb ++ ascii "\"_s\":\"" ++ filter.re2 ++ ascii "\"", s)
  else if filter.values ≠ [] then
    let s := sortStrings (filter.values.foldl (fun s v => s.take 0 ++ [v.value]) s)
    let (_, sb) := st.1.maybeWrite st.2
    ((s.foldl writeQuoted (newListComma, sb ++ ascii "\"_s\":[")).2 ++ ascii "]", s)
  else (st.2, s)

/-- Returns `s`, which the caller hands to the next call as scratch. -/
def writeTagFiltersCacheKey (sb : Text) (f : TagFilters) (s : List Text) : Text × List Text :=
  let st := (List.finRange maxTags).foldl (writeTagFilter f) (newListComma, sb ++ ascii "\x7b")
  let (sb, s) := writeStringTop st (f.tags stringTop) s
  (sb ++ ascii "\x7d", s)

end Filters

namespace QuerySort

def number : QuerySort → Int
  | none => 0
  | ascending => 1
  | descending => 2

end QuerySort

namespace Query

def singleMetric (b : Query) : Option Metric :=
  match b.metric with
  | some m => some m
  | none =>
    match b.filterIn.metrics with
    | [m] => some m
    | _ => none

def metricID (b : Query) : Int :=
  match b.singleMetric with
  | some m => m.metricID.toInt
  | none => 0

def preKeyTagX (b : Query) : Int :=
  match b.singleMetric with
  | some m => tagIndex m.preKeyTagID
  | none => -1

def isStringTop (b : Query) : Bool :=
  match b.singleMetric with
  | some m => !m.stringTopDescription.isEmpty
  | none => false

/-- The entries of `what` up to the first that is not specified. -/
def specified (b : Query) : List DigestSelector :=
  (List.ofFn b.what).takeWhile (·.what ≠ .unspecified)

def writeWhat (st : DigestKind × ListItemSeparator × Text) (w : DigestSelector) :
    DigestKind × ListItemSeparator × Text :=
  if st.1 = w.what then st else (w.what, writeQuoted st.2 (digestString w.what))

/-- What `getOrBuildCacheKey` builds when it has no key yet. -/
def buildCacheKey (b : Query) : Text :=
  let sb := ascii "\x7b\"v\":" ++ version6 ++ ascii ",\"m\":" ++ formatInt b.metricID ++
    ascii ",\"pk\":\"" ++ formatInt b.preKeyTagX ++ ascii "\",\"st\":" ++
    formatBool b.isStringTop ++ ascii ",\"what\":["
  let (_, st) := b.specified.foldl writeWhat (.unspecified, newListComma, sb)
  let st := if b.minMaxHost.1 then writeQuoted st (ascii "minhost") else st
  let st := if b.minMaxHost.2 then writeQuoted st (ascii "maxhost") else st
  let sb := st.2 ++ ascii "],\"by\":["
  let sb := (((sortInts b.byTags).map formatInt).foldl writeQuoted (newListComma, sb)).2
  let sb := sb ++ ascii "],\"inc\":"
  let (sb, s) := writeTagFiltersCacheKey sb b.filterIn []
  let sb := sb ++ ascii ",\"exl\":"
  let (sb, _) := writeTagFiltersCacheKey sb b.filterNotIn s
  sb ++ ascii ",\"sort\":" ++ formatInt b.sort.number ++ ascii "\x7d"

end Query

end CacheKey
