import StatsHouse.PointsCache

/-!
# The cache of series

The rows of a query are cached in chunks, each a stretch of slots of time. A request walks over
the chunks of its range: what it has to load and nobody loads yet it loads itself, as one
stretch with all chunks between the first and the last of them; for other chunks it waits for
the loader at work or takes the rows that are there. A loader puts its rows first into its own
array, then into its chunks, one after another, and from there into the arrays of those that
wait.

The model is of the chunks of one query and one step. A request keeps the lock of the query
while it walks, and the lock of a chunk from its visit until it has decided what to do with it,
so between two visits only loaders move, and only on chunks without a lock. Times of chunks are
nanoseconds, those of rows seconds.
-/

namespace SeriesCache

open Option Or
def second : Int := 1000000000

def minute : Int := 60 * second

def hour : Int := 60 * minute

def timeDay : Int := 24 * hour

def timeMonth : Int := 31 * timeDay

/-- `cache2ChunkSizeDuration` -/
def chunkSizeDuration (chunkSize step : Int) : Nat × Int :=
  if 0 < chunkSize ∧ step ≤ hour then (chunkSize.toNat, chunkSize * step)
  else if step < minute then ((minute.tdiv step).toNat, minute)
  else if step < hour then ((hour.tdiv step).toNat, hour)
  else if step ≤ timeDay then ((timeDay.tdiv step).toNat, timeDay)
  else (1, step)

structure Shard where
  stepSec : Int
  chunkSize : Nat
  chunkDuration : Int
  /-- Of the cache, in nanoseconds. -/
  utcOffset : Int
  /-- Of the cache. -/
  location : Timescale.Location

/-- A shard of `newCache2`, for an offset in seconds. -/
def newShard (location : Timescale.Location) (utcOffset chunkSize stepSec : Int) : Shard :=
  let (size, duration) := chunkSizeDuration chunkSize (stepSec * second)
  { stepSec
    chunkSize := size
    chunkDuration := duration
    utcOffset := utcOffset * second
    location }

namespace Shard

variable (shard : Shard)

def step : Int := shard.stepSec * second

/-- Division rounds towards zero. -/
def chunkStart (t : Int) : Int :=
  let d := shard.chunkDuration
  if shard.step ≤ hour then t.tdiv d * d
  else if shard.step < timeMonth then (t + shard.utcOffset).tdiv d * d - shard.utcOffset
  else shard.location.startOfMonth (t / second) * second

def chunkEnd (t : Int) : Int :=
  if shard.step = timeMonth then
    (fun t => shard.location.addMonth (t / second) * second)^[shard.chunkSize] t
  else t + shard.chunkDuration

/-- The loops of `newLoader` over chunks and of `IndexOf` over months; each turn moves ahead. -/
def countTo (next : Int → Int) (stop : Int) : Nat → Int → Nat → Int × Nat
  | 0, t, n => (t, n)
  | fuel + 1, t, n => if t < stop then countTo next stop fuel (next t) (n + 1) else (t, n)

/-- `IndexOf` -/
def indexOf (fromSec timestamp : Int) : Option Int :=
  let d := timestamp - fromSec
  if shard.step = timeMonth then
    let (t, n) := countTo shard.location.addMonth timestamp d.toNat fromSec 0
    if t = timestamp then some (n : Int) else none
  else if d.tmod shard.stepSec = 0 then some (d.tdiv shard.stepSec)
  else none

end Shard

section Types

variable (V T : Type)

/-- A row. `tags` are its tags, mapped and as strings: strings that get a number while a row is
in the cache are replaced by it. -/
structure Row where
  time : Int
  values : V
  tags : T

abbrev Slot := List (Row V T)

structure ChunkData where
  slots : Nat → Slot V T
  /-- Not in the code: the loader whose rows these are. -/
  producer : Nat

/-- The loader to hand the rows to is named by its number. -/
structure Awaiter where
  loader : Nat
  loadStart : Nat
  loadEnd : Nat
  chunkOffset : Nat
deriving Repr, DecidableEq

structure Chunk where
  start : Int := 0
  /-- `end` -/
  stop : Int := 0
  data : Option (ChunkData V T) := none
  awaiters : List Awaiter := []
  invalidatedAt : Int := 0
  loadStartedAt : Int := 0
  loading : Nat := 0
  detached : Bool := false
  /-- Not in the code: who started to load it, the last first. -/
  starters : List Nat := []
  /-- Not in the code: the times of all invalidations. -/
  invalidations : List Int := []

structure LoaderChunk where
  chunk : Nat
  chunkStart : Nat
  chunkEnd : Nat
  loadStart : Nat
  loadEnd : Nat
  load : Bool
  wait : Bool
deriving Repr, DecidableEq

/-- Where a loader is. -/
inductive Stage where
  | init
  /-- Behind `init`, with a call of the database to come back if there is something to load. -/
  | run
  /-- In `loadChunks`, behind the call: chunks still to be updated, where their rows begin, and
  awaiters of the last chunk, with the place where its rows begin. -/
  | post (todo : List LoaderChunk) (start : Nat) (giving : List Awaiter) (base : Nat)

/-- How the call of the database came back. -/
inductive LoadResult where
  | rows (f : Int → Slot V T)
  | error

/-- What a loader knows from the start. -/
structure Request where
  timeNow : Int := 0
  timeStart : Int := 0
  timeEnd : Int := 0
  staleAcceptPeriod : Int := 0
  forceLoad : Bool := false
  /-- Of the LOD. -/
  fromSec : Int := 0
  loadStart : Nat := 0
  loadEnd : Nat := 0
deriving Repr, DecidableEq

structure Loader extends Request where
  data : Nat → Slot V T := fun _ => []
  chunks : List LoaderChunk := []
  /-- The stretches of `data` that others will fill, one for each of the `waitN` messages that
  are still to come from them. -/
  waits : List (Nat × Nat) := []
  /-- An error among the messages that came. -/
  failed : Bool := false
  stage : Stage := .init
  result : Option (LoadResult V T) := none

/-- The walk of `init` over the chunks. -/
structure Visit where
  loader : Nat
  t : Int
  pos : Nat
  /-- Chunks of the bucket before place `i` and from there on. -/
  before : List Nat
  after : List Nat
  /-- Chunks that are locked and not decided about yet. -/
  pending : List LoaderChunk

structure State where
  clock : Int := 1
  chunks : Nat → Chunk V T := fun _ => {}
  chunkCount : Nat := 0
  loaders : Nat → Loader V T := fun _ => {}
  loaderCount : Nat := 0
  /-- The chunks of the bucket in the order of time. -/
  bucket : List Nat := []
  visiting : Option Visit := none
  /-- Not in the code: each copy of cached rows, with the loader and the chunk as it was. -/
  copies : List (Nat × Chunk V T) := []

/-- What can happen. Clock readings and what the database returns are given. -/
inductive Action where
  | get (now fromSec toSec : Int) (forceLoad : Bool) (staleAcceptPeriod : Int)
  | visit (mapTags : T → T)
  | initEnd (mapTags : T → T)
  | loaded (loader : Nat) (rows : Int → Slot V T) (mapTags : T → T)
  | loadFailed (loader : Nat) (left : Nat → Slot V T)
  | store (loader : Nat)
  | give (loader : Nat)
  | invalidate (now : Int) (chunk : Nat)
  | trim (chunk : Nat)

end Types

/-- The request of a new loader. None where the code returns without a loader (an error of
`IndexOf`, no slots) or panics on a slice out of range. Nanoseconds do not overflow here. -/
def Shard.request (shard : Shard) (timeNow fromSec toSec : Int) (forceLoad : Bool)
    (staleAcceptPeriod : Int) : Option Request := (shard.indexOf fromSec toSec).bind fun lodSize =>
  let lodStart := fromSec * second
  let lodEnd := toSec * second
  let firstChunkStart := shard.chunkStart lodStart
  let (lastChunkEnd, chunkCount) :=
    Shard.countTo shard.chunkEnd lodEnd (lodEnd - firstChunkStart).toNat firstChunkStart 0
  let loadStart := (lodStart - firstChunkStart).tdiv shard.step
  if lodSize ≤ 0 ∨ loadStart < 0 ∨
      (chunkCount * shard.chunkSize : Nat) < loadStart + lodSize then
    none
  else
    some
      { timeNow
        timeStart := firstChunkStart
        timeEnd := lastChunkEnd
        staleAcceptPeriod
        forceLoad
        fromSec
        loadStart := loadStart.toNat
        loadEnd := (loadStart + lodSize).toNat }

section Steps

variable {V T : Type}

def Row.mapTags (f : T → T) (r : Row V T) : Row V T := { r with tags := f r.tags }

namespace State

def setChunk (s : State V T) (id : Nat) (c : Chunk V T) : State V T :=
  { s with chunks := Function.update s.chunks id c }

def setLoader (s : State V T) (lid : Nat) (l : Loader V T) : State V T :=
  { s with loaders := Function.update s.loaders lid l }

end State

/-- Whether a chunk has to be loaded, and whether its rows are too old to be taken. -/
def Request.decision (l : Request) (c : Chunk V T) : Bool × Bool :=
  if c.data.isNone ∨ c.loadStartedAt < c.stop ∨ l.forceLoad then (true, true)
  else if c.invalidatedAt ≠ 0 then
    (true, decide (l.staleAcceptPeriod ≤ l.timeNow - c.invalidatedAt))
  else if c.loadStartedAt < c.stop + PointsCache.invalidateLinger then (true, false)
  else (false, false)

namespace State

variable (s : State V T) (lid : Nat)

def await (v : LoaderChunk) : State V T :=
  let c := s.chunks v.chunk
  let l := s.loaders lid
  let awaiter :=
    { loader := lid
      loadStart := v.loadStart
      loadEnd := v.loadEnd
      chunkOffset := v.loadStart - v.chunkStart }
  (s.setChunk v.chunk { c with awaiters := c.awaiters ++ [awaiter] }).setLoader lid
    { l with waits := l.waits ++ [(v.loadStart, v.loadEnd)] }

/-- Takes the rows `d` of a chunk. String tags are mapped in the chunk first. -/
def copied (mapTags : T → T) (v : LoaderChunk) (d : ChunkData V T) : State V T :=
  let c := s.chunks v.chunk
  let l := s.loaders lid
  let slots := fun j =>
    if v.loadStart - v.chunkStart ≤ j ∧ j < v.loadEnd - v.chunkStart then
      (d.slots j).map (Row.mapTags mapTags)
    else d.slots j
  let data := fun p =>
    if v.loadStart ≤ p ∧ p < v.loadEnd then slots (p - v.chunkStart) else l.data p
  { (s.setChunk v.chunk { c with data := some { d with slots } }).setLoader lid
      { l with data } with copies := (lid, c) :: s.copies }

/-- One waits for a chunk without rows, so it always has some. -/
def copy (mapTags : T → T) (v : LoaderChunk) : Option (State V T) :=
  (s.chunks v.chunk).data.map (s.copied lid mapTags v)

def awaitCopyChunk (mapTags : T → T) (v : LoaderChunk) : Option (State V T) :=
  if v.wait then some (s.await lid v) else s.copy lid mapTags v

def awaitCopyChunks (mapTags : T → T) (pending : List LoaderChunk) : Option (State V T) :=
  pending.foldlM (fun s v => s.awaitCopyChunk lid mapTags v) s

/-- Adds a chunk to those the loader is going to load. -/
def startLoad (v : LoaderChunk) : State V T :=
  let c := s.chunks v.chunk
  let l := s.loaders lid
  (s.setChunk v.chunk
    { c with
      loading := c.loading + 1
      loadStartedAt := l.timeNow
      starters := lid :: c.starters }).setLoader lid { l with chunks := l.chunks ++ [v] }

def startLoads (pending : List LoaderChunk) : State V T :=
  pending.foldl (fun s v => s.startLoad lid v) s

end State

variable (shard : Shard)

namespace State

variable (s : State V T)

def newChunk (t : Int) : State V T :=
  { s.setChunk s.chunkCount { start := t, stop := shard.chunkEnd t } with
    chunkCount := s.chunkCount + 1 }

/-- The chunk to visit, which is made if the bucket has none for the time, and the chunks of
the bucket behind it. -/
def chunkAt (v : Visit) : State V T × Nat × List Nat :=
  match v.after with
  | id :: after =>
    if (s.chunks id).start = v.t then (s, id, after)
    else (s.newChunk shard v.t, s.chunkCount, v.after)
  | [] => (s.newChunk shard v.t, s.chunkCount, [])

/-- The chunk as the loader sees it. -/
def loaderChunk (v : Visit) (id : Nat) : LoaderChunk :=
  let l := s.loaders v.loader
  let (load, wait) := l.decision (s.chunks id)
  { chunk := id
    chunkStart := v.pos
    chunkEnd := v.pos + shard.chunkSize
    loadStart := max v.pos l.loadStart
    loadEnd := min l.loadEnd (v.pos + shard.chunkSize)
    load
    wait }

/-- The walk behind a chunk. -/
def visited (v : Visit) (id : Nat) (after : List Nat) (pending : List LoaderChunk) : State V T :=
  { s with
    visiting := some
      { v with
        t := (s.chunks id).stop
        pos := v.pos + shard.chunkSize
        before := v.before ++ [id]
        after
        pending } }

/-- `maybeAddChunk`. A chunk to load that nobody loads decides about the pending ones: once the
loader has something to load, chunks between its own are loaded as well. -/
def maybeAddChunk (mapTags : T → T) (v : Visit) (id : Nat) (after : List Nat) :
    Option (State V T) :=
  let lc := s.loaderChunk shard v id
  if lc.load ∧ (s.chunks id).loading = 0 then
    let decided :=
      if (s.loaders v.loader).chunks = [] then s.awaitCopyChunks v.loader mapTags v.pending
      else some (s.startLoads v.loader v.pending)
    decided.map fun s => (s.startLoad v.loader lc).visited shard v id after []
  else some (s.visited shard v id after (v.pending ++ [lc]))

def visit (mapTags : T → T) : Option (State V T) :=
  match s.visiting with
  | none => none
  | some v =>
    if v.t < (s.loaders v.loader).timeEnd then
      let (s, id, after) := s.chunkAt shard v
      s.maybeAddChunk shard mapTags v id after
    else none

/-- The end of `init`; `run` starts `loadChunks` if there is something to load. -/
def initEnd (mapTags : T → T) : Option (State V T) :=
  match s.visiting with
  | none => none
  | some v =>
    if v.t < (s.loaders v.loader).timeEnd then none
    else
      (s.awaitCopyChunks v.loader mapTags v.pending).map fun s =>
        { s.setLoader v.loader { s.loaders v.loader with stage := .run } with
          bucket := v.before ++ v.after
          visiting := none }

/-- A loader at the first chunk of its range. -/
def newLoader (r : Request) : State V T :=
  { s.setLoader s.loaderCount { toRequest := r } with
    clock := r.timeNow
    loaderCount := s.loaderCount + 1
    visiting := some
      { loader := s.loaderCount
        t := r.timeStart
        pos := 0
        before := s.bucket.takeWhile fun id => (s.chunks id).start < r.timeStart
        after := s.bucket.dropWhile fun id => (s.chunks id).start < r.timeStart
        pending := [] } }

/-- `Get` up to the walk. -/
def get (now fromSec toSec : Int) (forceLoad : Bool) (staleAcceptPeriod : Int) :
    Option (State V T) :=
  if s.visiting.isSome ∨ now < s.clock then none
  else (shard.request now fromSec toSec forceLoad staleAcceptPeriod).map s.newLoader

end State

def LoadResult.ok : LoadResult V T → Bool
  | .rows _ => true
  | .error => false

/-- The array behind the call of the database, which wrote `f i` into slot `i` of the slice
from the first chunk to the last. -/
def Loader.filled (l : Loader V T) (f : Nat → Slot V T) : Nat → Slot V T :=
  match l.chunks.head?, l.chunks.getLast? with
  | some first, some last => fun p =>
    if first.chunkStart ≤ p ∧ p < last.chunkEnd then f (p - first.chunkStart) else l.data p
  | _, _ => l.data

/-- The chunk behind a load, with the slots that the load has for it. -/
def Chunk.stored (c : Chunk V T) (ok : Bool) (d : ChunkData V T) : Chunk V T :=
  let c := { c with awaiters := [] }
  if c.detached then c
  else
    let c := { c with loading := c.loading - 1 }
    if ok then
      { c with
        data := some d
        -- it may have been invalidated while loading
        invalidatedAt := if c.loadStartedAt < c.invalidatedAt then c.invalidatedAt else 0 }
    else c

/-- A loader behind a message from one that loaded for it: rows, from the slots of the chunk, or
an error. -/
def Loader.given (m : Loader V T) (ok : Bool) (slots : Nat → Slot V T) (a : Awaiter) : Loader V T :=
  let m := { m with waits := m.waits.erase (a.loadStart, a.loadEnd) }
  if ok then
    { m with data := fun p =>
        if a.loadStart ≤ p ∧ p < a.loadEnd then slots (a.chunkOffset + (p - a.loadStart))
        else m.data p }
  else { m with failed := true }

def Loader.ok (l : Loader V T) : Bool := l.result.any LoadResult.ok

namespace State

variable (s : State V T) (lid : Nat)

/-- The call of the database comes back, in `loadChunks`. -/
def callReturns (result : LoadResult V T) (f : Nat → Slot V T) : Option (State V T) :=
  let l := s.loaders lid
  match l.stage, l.chunks with
  | .run, first :: _ =>
    some (s.setLoader lid
      { l with
        data := l.filled f
        result := some result
        failed := l.failed || !result.ok
        stage := .post l.chunks first.chunkStart [] 0 })
  | _, _ => none

/-- The database was asked for the rows from the start of the first chunk on. -/
def loaded (rows : Int → Slot V T) (mapTags : T → T) : Option (State V T) :=
  match (s.loaders lid).chunks with
  | [] => none
  | first :: _ =>
    let fromSec := (s.chunks first.chunk).start.tdiv second
    s.callReturns lid (.rows rows) fun i =>
      (rows (fromSec + i * shard.stepSec)).map (Row.mapTags mapTags)

def locked (id : Nat) : Bool :=
  match s.visiting with
  | none => false
  | some v => v.pending.any (·.chunk = id)

/-- The next chunk gets the rows. -/
def store : Option (State V T) :=
  let l := s.loaders lid
  match l.stage with
  | .post (v :: todo) start [] _ =>
    let c := s.chunks v.chunk
    if s.locked v.chunk then none
    else
      some ((s.setChunk v.chunk
          (c.stored l.ok { slots := fun j => l.data (start + j), producer := lid })).setLoader lid
        { l with stage := .post todo (start + shard.chunkSize) c.awaiters start })
  | _ => none

/-- The next awaiter of the chunk gets the rows or the error. -/
def give : Option (State V T) :=
  let l := s.loaders lid
  match l.stage with
  | .post todo start (a :: giving) base =>
    let s := s.setLoader lid { l with stage := .post todo start giving base }
    some (s.setLoader a.loader ((s.loaders a.loader).given l.ok (fun j => l.data (base + j)) a))
  | _ => none

/-- `cache2Chunk.invalidate` -/
def invalidate (now : Int) (id : Nat) : Option (State V T) :=
  if s.visiting.isSome ∨ now < s.clock ∨ id ∉ s.bucket then none
  else
    let c := s.chunks id
    some { s.setChunk id
        { c with invalidatedAt := now, invalidations := now :: c.invalidations } with
      clock := now }

/-- Chunks that were not used for long are removed. Loaders may still hold them. -/
def trim (id : Nat) : Option (State V T) :=
  if s.visiting.isSome ∨ id ∉ s.bucket then none
  else
    let c := s.chunks id
    some { s.setChunk id { c with data := none, detached := true } with
      bucket := s.bucket.filter (· ≠ id) }

def step : Action V T → Option (State V T)
  | .get now fromSec toSec forceLoad staleAcceptPeriod =>
    s.get shard now fromSec toSec forceLoad staleAcceptPeriod
  | .visit mapTags => s.visit shard mapTags
  | .initEnd mapTags => s.initEnd mapTags
  | .loaded lid rows mapTags =>
    if lid < s.loaderCount then s.loaded shard lid rows mapTags else none
  | .loadFailed lid left => if lid < s.loaderCount then s.callReturns lid .error left else none
  | .store lid => if lid < s.loaderCount then s.store shard lid else none
  | .give lid => if lid < s.loaderCount then s.give lid else none
  | .invalidate now id => s.invalidate now id
  | .trim id => s.trim id

def run (s : State V T) (actions : List (Action V T)) : Option (State V T) :=
  actions.foldlM (State.step shard) s

/-- `Get` has returned without an error: all messages came, and none of them was an error. -/
def Returned : Prop :=
  (s.loaders lid).stage ≠ .init ∧ (s.loaders lid).waits = [] ∧
    ((s.loaders lid).chunks = [] ∨ (s.loaders lid).result.isSome) ∧ (s.loaders lid).failed = false

/-- Slot `i` of what `Get` returned. -/
def resultAt (i : Nat) : Slot V T := (s.loaders lid).data ((s.loaders lid).loadStart + i)

end State

end Steps

section Cases

variable {V T : Type} {shard : Shard} {s s' : State V T} {lid : Nat} {f : T → T}

namespace State

lemma get_cases {now fromSec toSec stale : Int} {force : Bool}
    (h : s.get shard now fromSec toSec force stale = some s') :
    ∃ r, s.visiting = none ∧ s.clock ≤ now ∧
      shard.request now fromSec toSec force stale = some r ∧ s' = s.newLoader r := by
  rw [get] at h
  split_ifs at h with hg
  push Not at hg
  obtain ⟨r, hr, rfl⟩ := map_eq_some_iff.1 h
  exact ⟨r, by simpa using hg.1, hg.2, hr, rfl⟩

lemma chunkAt_cases (shard : Shard) (s : State V T) (v : Visit) :
    (∃ id rest, v.after = id :: rest ∧ (s.chunks id).start = v.t ∧
      s.chunkAt shard v = (s, id, rest)) ∨
    s.chunkAt shard v = (s.newChunk shard v.t, s.chunkCount, v.after) := by
  rw [chunkAt]
  split
  next id rest ha =>
    split_ifs with hs
    · exact inl ⟨id, rest, ha, hs, rfl⟩
    · exact inr rfl
  next ha => exact inr (by rw [ha])

lemma maybeAddChunk_cases {v : Visit} {id : Nat} {after : List Nat}
    (h : s.maybeAddChunk shard f v id after = some s') :
    (∃ decided, ((s.loaders v.loader).chunks = [] ∧
          s.awaitCopyChunks v.loader f v.pending = some decided ∨
        (s.loaders v.loader).chunks ≠ [] ∧ s.startLoads v.loader v.pending = decided) ∧
      s' = (decided.startLoad v.loader (s.loaderChunk shard v id)).visited shard v id after []) ∨
    s' = s.visited shard v id after (v.pending ++ [s.loaderChunk shard v id]) := by
  rw [maybeAddChunk] at h
  split_ifs at h with hlo hc
  · obtain ⟨decided, hd, rfl⟩ := map_eq_some_iff.1 h
    exact inl ⟨decided, inl ⟨hc, hd⟩, rfl⟩
  · obtain ⟨decided, hd, rfl⟩ := map_eq_some_iff.1 h
    exact inl ⟨decided, inr ⟨hc, some.inj hd⟩, rfl⟩
  · exact inr (some.inj h).symm

lemma visit_cases (h : s.visit shard f = some s') :
    ∃ v, s.visiting = some v ∧ v.t < (s.loaders v.loader).timeEnd ∧
      (s.chunkAt shard v).1.maybeAddChunk shard f v (s.chunkAt shard v).2.1
        (s.chunkAt shard v).2.2 = some s' := by
  rw [visit] at h
  split at h
  · cases h
  next v hv =>
    split_ifs at h with ht
    exact ⟨v, hv, ht, h⟩

lemma initEnd_cases (h : s.initEnd f = some s') :
    ∃ v decided, s.visiting = some v ∧ ¬v.t < (s.loaders v.loader).timeEnd ∧
      s.awaitCopyChunks v.loader f v.pending = some decided ∧
      s' = { decided.setLoader v.loader { decided.loaders v.loader with stage := .run } with
        bucket := v.before ++ v.after
        visiting := none } := by
  rw [initEnd] at h
  split at h
  · cases h
  next v hv =>
    split_ifs at h with ht
    obtain ⟨decided, hd, rfl⟩ := map_eq_some_iff.1 h
    exact ⟨v, decided, hv, ht, hd, rfl⟩

lemma callReturns_cases {result : LoadResult V T} {f : Nat → Slot V T}
    (h : s.callReturns lid result f = some s') :
    ∃ first rest, (s.loaders lid).stage = .run ∧ (s.loaders lid).chunks = first :: rest ∧
      s' = s.setLoader lid
        { s.loaders lid with
          data := (s.loaders lid).filled f
          result := some result
          failed := (s.loaders lid).failed || !result.ok
          stage := .post (s.loaders lid).chunks first.chunkStart [] 0 } := by
  simp only [callReturns] at h
  split at h
  next first rest hs hc =>
    exact ⟨first, rest, hs, hc, (some.inj h).symm⟩
  · cases h

lemma loaded_cases {rows : Int → Slot V T} (h : s.loaded shard lid rows f = some s') :
    ∃ first rest, (s.loaders lid).chunks = first :: rest ∧ s.callReturns lid (.rows rows) (fun i =>
        (rows ((s.chunks first.chunk).start.tdiv second + i * shard.stepSec)).map
          (Row.mapTags f)) = some s' := by
  rw [loaded] at h
  split at h
  · cases h
  next first rest hc => exact ⟨first, rest, hc, h⟩

lemma store_cases (h : s.store shard lid = some s') :
    ∃ v todo start base, (s.loaders lid).stage = .post (v :: todo) start [] base ∧
      s.locked v.chunk = false ∧
      s' = (s.setChunk v.chunk ((s.chunks v.chunk).stored (s.loaders lid).ok
          { slots := fun j => (s.loaders lid).data (start + j), producer := lid })).setLoader lid
        { s.loaders lid with
          stage := .post todo (start + shard.chunkSize) (s.chunks v.chunk).awaiters start } := by
  simp only [store] at h
  split at h
  next v todo start base hs =>
    split_ifs at h with hl
    exact ⟨v, todo, start, base, hs, Bool.eq_false_iff.2 hl, (some.inj h).symm⟩
  · cases h

lemma give_cases (h : s.give lid = some s') :
    ∃ todo start a giving base, (s.loaders lid).stage = .post todo start (a :: giving) base ∧
      s' = (s.setLoader lid { s.loaders lid with stage := .post todo start giving base }).setLoader
        a.loader (((s.setLoader lid { s.loaders lid with
            stage := .post todo start giving base }).loaders a.loader).given (s.loaders lid).ok
          (fun j => (s.loaders lid).data (base + j)) a) := by
  simp only [give] at h
  split at h
  next todo start a giving base hs =>
    exact ⟨todo, start, a, giving, base, hs, (some.inj h).symm⟩
  · cases h

lemma invalidate_cases {now : Int} {id : Nat} (h : s.invalidate now id = some s') :
    s.visiting = none ∧ s.clock ≤ now ∧ s' = { s.setChunk id
        { s.chunks id with
          invalidatedAt := now
          invalidations := now :: (s.chunks id).invalidations } with clock := now } := by
  rw [invalidate] at h
  split_ifs at h with hg
  push Not at hg
  exact ⟨by simpa using hg.1, hg.2.1, (some.inj h).symm⟩

lemma trim_cases {id : Nat} (h : s.trim id = some s') : s.visiting = none ∧
      s' = { s.setChunk id { s.chunks id with data := none, detached := true } with
        bucket := s.bucket.filter (· ≠ id) } := by
  rw [trim] at h
  split_ifs at h with hg
  push Not at hg
  exact ⟨by simpa using hg.1, (some.inj h).symm⟩

end State

end Cases

end SeriesCache
