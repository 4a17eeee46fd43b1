import Mathlib.Data.List.AList
import StatsHouse.Timescale

/-!
# The cache of point queries

Rows are cached by the text of their query and by the range of seconds they are for. When
seconds get new data, the time of this is noted for the second, the minute and the hour, and
rows are handed out only if nothing in their range was noted after they were loaded. Ranges are
looked through hour by hour, with minutes at both ends and seconds at the ends of these. Notes
older than two days are dropped, at most a hundred of each kind at a time, those that the
iteration over the map happens to meet first.

Times of the clock are nanoseconds. A load takes its time before it asks the database and is
stored when it is done, so loads end in any order.
-/

namespace PointsCache

open Timescale

def maxEvictionSampleSize : Nat := 100

def nanos : Int := 1000000000

def invalidateFrom : Int := -48 * 3600 * nanos

/-- The tables of the database may lag behind. -/
def invalidateLinger : Int := 15 * nanos

def steps : List Int := [3600, 60, 1]

/-- The last time at which something in a step was invalidated, by the start of the step. -/
abbrev Noted := AList fun _ : Int => Int

/-- The three maps with their steps. -/
abbrev Levels := List (Int × Noted)

def newSecondsCache : Levels := steps.map fun step => (step, ∅)

def Noted.update (m : Noted) (invalidatedAtNano rounded : Int) : Noted :=
  match m.lookup rounded with
  | none => m.insert rounded invalidatedAtNano
  | some last => if last < invalidatedAtNano then m.insert rounded invalidatedAtNano else m

def updateTime (utcOffset invalidatedAtNano sec : Int) (levels : Levels) : Levels :=
  levels.map fun l => (l.1, l.2.update invalidatedAtNano (roundTime sec l.1 utcOffset))

/-- The order tells which entries of a map are met first. -/
def dropOld (order : Nat → List Int → List Int) (fromSec : Int) (levels : Levels) : Levels :=
  levels.mapIdx fun i l =>
    (l.1, ((order i l.2.keys).take maxEvictionSampleSize).foldl
      (fun m sec => if sec < fromSec then m.erase sec else m) l.2)

/-- The loop from `i` up to `stop` by steps. -/
def scan (ok : Int → Bool) (step stop : Int) : Nat → Int → Bool
  | 0, _ => true
  | fuel + 1, i => if i < stop then ok i && scan ok step stop fuel (i + step) else true

def scanFrom (ok : Int → Bool) (step i stop : Int) : Bool :=
  scan ok step stop (stop - i).toNat i

/-- Nothing was noted here after the load. -/
def Noted.clear (m : Noted) (loadAt i : Int) : Bool :=
  match m.lookup i with
  | none => true
  | some invalidatedAtNano => !decide (loadAt ≤ invalidatedAtNano + invalidateLinger)

def checkInvalidationMap (utcOffset loadAt : Int) : Levels → Int → Int → Bool
  | [], _, _ => true
  | [(step, m)], fromSec, toSec => scanFrom (m.clear loadAt) step fromSec (toSec + 1)
  | (step, m) :: next :: levels, fromSec, toSec =>
    let fromR := roundTime fromSec step utcOffset
    let toR := roundTime toSec step utcOffset
    let fromNext := if toSec < fromR + step then toSec else fromR + step
    let toPrev := if fromSec > toR then fromSec else toR
    let res := checkInvalidationMap utcOffset loadAt (next :: levels) fromSec fromNext &&
      checkInvalidationMap utcOffset loadAt (next :: levels) toPrev toSec
    if res then scanFrom (m.clear loadAt) step (fromR + step) toR else false

/-- The second from which on something can still change. -/
def immutableSec (now : Int) : Int := (now + invalidateFrom) / nanos

def checkInvalidation (utcOffset : Int) (levels : Levels) (now loadAt fromSec toSec : Int) :
    Bool :=
  let cacheImmutable := now + invalidateFrom
  let fromSec := if fromSec * nanos < cacheImmutable then immutableSec now else fromSec
  if toSec * nanos < cacheImmutable then true
  else checkInvalidationMap utcOffset loadAt levels fromSec toSec

variable {Key Row : Type}

structure CachedRows (Row : Type) where
  rows : List Row
  loadedAtNano : Int

structure CacheEntry (Row : Type) where
  lru : Int
  rows : AList fun _ : Int × Int => CachedRows Row := ∅
  rowsSize : Nat := 0

/-- A call that waits for the database. -/
structure Load (Key : Type) where
  key : Key
  fromSec : Int
  toSec : Int
  loadedAtNano : Int
  avoidCache : Bool

structure Cache (Key Row : Type) where
  size : Int := 0
  cache : AList fun _ : Key => CacheEntry Row := ∅
  invalidatedAtNano : Levels := newSecondsCache
  loads : List (Load Key) := []
  /-- The latest time that was read. -/
  clock : Int
  /-- What the database answered to whom, so far. -/
  loaded : List (Load Key × List Row) := []
  /-- The times and seconds of all calls of `invalidate`, so far. -/
  invalidations : List (Int × Int) := []

namespace Cache

variable [DecidableEq Key] (c : Cache Key Row)

/-- The clock is read for the entry and again for the check. -/
def loadCached (utcOffset : Int) (key : Key) (fromSec toSec lruNow now : Int) :
    Cache Key Row × Option (List Row) :=
  match c.cache.lookup key with
  | none => (c, none)
  | some entry =>
    match entry.rows.lookup (fromSec, toSec) with
    | none => (c, none)
    | some cr =>
      ({ c with cache := c.cache.insert key { entry with lru := lruNow }, clock := now },
        if checkInvalidation utcOffset c.invalidatedAtNano now cr.loadedAtNano fromSec toSec then
          some cr.rows
        else none)

def startLoad (key : Key) (fromSec toSec : Int) (avoidCache : Bool) (now : Int) : Cache Key Row :=
  { c with
    loads := c.loads ++ [{ key, fromSec, toSec, loadedAtNano := now, avoidCache }]
    clock := now }

/-- The least recently used of the entries that are met first. The source takes the key `""` for
none; the text of a query is not empty. -/
def leastRecent (sample : List Key) : Option (Key × Int) :=
  sample.foldl (fun best key =>
    match c.cache.lookup key, best with
    | none, _ => best
    | some entry, none => some (key, entry.lru)
    | some entry, some (k, t) => if entry.lru < t then some (key, entry.lru) else some (k, t)) none

def evictLocked (order : List Key → List Key) : Cache Key Row :=
  match c.leastRecent ((order c.cache.keys).take maxEvictionSampleSize) with
  | none => c
  | some (key, _) =>
    match c.cache.lookup key with
    | none => c
    | some e =>
      { c with
        cache := c.cache.erase key
        size := c.size - (e.rowsSize + e.rows.entries.length) }

/-- The loop before rows are stored; it needs an order of the map for each turn. -/
def makeRoom (approxMaxSize : Int) : List (List Key → List Key) → Cache Key Row →
    Option (Cache Key Row)
  | orders, c =>
    if c.size + c.cache.entries.length ≥ approxMaxSize then
      match orders with
      | [] => none
      | order :: orders => makeRoom approxMaxSize orders (c.evictLocked order)
    else some c

def store (load : Load Key) (rows : List Row) (now : Int) : Cache Key Row :=
  let e := (c.cache.lookup load.key).getD { lru := now }
  let tr := (load.fromSec, load.toSec)
  { c with
    size := c.size + if (e.rows.lookup tr).isSome then rows.length else 1 + rows.length
    cache := c.cache.insert load.key
      { lru := now
        rows := e.rows.insert tr { rows, loadedAtNano := load.loadedAtNano }
        rowsSize := e.rowsSize + rows.length }
    clock := now }

/-- A load ends with rows or with an error. -/
def finishLoad (approxMaxSize : Int) (i : Nat) (load : Load Key) (result : Option (List Row))
    (orders : List (List Key → List Key)) (now : Int) : Option (Cache Key Row) :=
  let c := { c with loads := c.loads.eraseIdx i }
  match result with
  | none => some c
  | some rows =>
    let c := { c with loaded := c.loaded ++ [(load, rows)] }
    if load.avoidCache then some c
    else (c.makeRoom approxMaxSize orders).map fun c => c.store load rows now

/-- The clock is read for the notes and again for what is old. -/
def invalidate (utcOffset : Int) (times : List Int) (atNano now : Int)
    (order : Nat → List Int → List Int) : Cache Key Row :=
  let levels := times.foldl (fun levels sec => updateTime utcOffset atNano sec levels)
    c.invalidatedAtNano
  { c with
    invalidatedAtNano := dropOld order (immutableSec now) levels
    clock := now
    invalidations := c.invalidations ++ times.map fun sec => (atNano, sec) }

end Cache

/-- Everything that calls with a clock that does not run backwards can lead to. -/
inductive Reachable [DecidableEq Key] (utcOffset approxMaxSize : Int) : Cache Key Row → Prop
  | newPointsCache (clock : Int) : Reachable utcOffset approxMaxSize { clock }
  | loadCached {c : Cache Key Row} (h : Reachable utcOffset approxMaxSize c) (key : Key)
      (fromSec toSec : Int) {lruNow now : Int} (hlru : c.clock ≤ lruNow) (hnow : lruNow ≤ now) :
      Reachable utcOffset approxMaxSize (c.loadCached utcOffset key fromSec toSec lruNow now).1
  | startLoad {c : Cache Key Row} (h : Reachable utcOffset approxMaxSize c) (key : Key)
      (fromSec toSec : Int) (avoidCache : Bool) {now : Int} (hnow : c.clock ≤ now) :
      Reachable utcOffset approxMaxSize (c.startLoad key fromSec toSec avoidCache now)
  | finishLoad {c c' : Cache Key Row} (h : Reachable utcOffset approxMaxSize c) {i : Nat}
      {load : Load Key} (hload : c.loads[i]? = some load) (result : Option (List Row))
      (orders : List (List Key → List Key)) {now : Int} (hnow : c.clock ≤ now)
      (hout : c.finishLoad approxMaxSize i load result orders now = some c') :
      Reachable utcOffset approxMaxSize c'
  | invalidate {c : Cache Key Row} (h : Reachable utcOffset approxMaxSize c) (times : List Int)
      {atNano now : Int} (hat : c.clock ≤ atNano) (hnow : atNano ≤ now)
      (order : Nat → List Int → List Int) :
      Reachable utcOffset approxMaxSize (c.invalidate utcOffset times atNano now order)

end PointsCache
