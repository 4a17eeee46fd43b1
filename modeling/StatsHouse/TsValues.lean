import StatsHouse.ChUnique

/-!
# Values of a series

A row of the series cache has numbers, a set of unique values, a percentile digest and hosts.
The rows of one series at one time are merged into an accumulator. The numbers and hosts are
merged by value. The table of the unique set and the digest are behind references, and the
accumulator starts as a copy of a row in the cache, so the first merge copies what they refer
to and the following ones work in place.

`TsValues` is the row over any kind of set and digest: `merge` merges rows that hold them,
`Memory.merge` those that refer to them, as the code does.
-/

namespace TsValues

/-- The host of a smallest or largest value, as a number. -/
structure ArgInt32 where
  arg : BitVec 32 := 0
  val : ℚ := 0
deriving Repr, DecidableEq

namespace ArgInt32

def mergeMin (arg rhs : ArgInt32) : ArgInt32 := if rhs.val < arg.val then rhs else arg

def mergeMax (arg rhs : ArgInt32) : ArgInt32 := if arg.val < rhs.val then rhs else arg

end ArgInt32

/-- The host of a smallest or largest value, as a string or a number. -/
structure ArgString where
  asString : List UInt8 := []
  asInt32 : BitVec 32 := 0
  val : ℚ := 0
deriving Repr, DecidableEq

namespace ArgString

def empty (arg : ArgString) : Bool := arg.asInt32 == 0 && arg.asString == []

def mergeMin (arg rhs : ArgString) : ArgString :=
  if arg.empty then rhs else if rhs.val < arg.val then rhs else arg

def mergeMax (arg rhs : ArgString) : ArgString :=
  if arg.empty then rhs else if arg.val < rhs.val then rhs else arg

end ArgString

structure Values (Unique Digest : Type) where
  min : ℚ := 0
  max : ℚ := 0
  sum : ℚ := 0
  count : ℚ := 0
  sumsquare : ℚ := 0
  unique : Unique
  percentile : Option Digest := none
  mergeCount : Nat := 0
  cardinality : ℚ := 0
  minHost : ArgInt32 := {}
  maxHost : ArgInt32 := {}
  minHostStr : ArgString := {}
  maxHostStr : ArgString := {}
deriving DecidableEq

/-- All of `merge` that needs no references. -/
def Values.mergeNumbers {Unique Digest Unique' Digest' : Type} (v : Values Unique Digest)
    (rhs : Values Unique Digest) (unique : Unique') (percentile : Option Digest') :
    Values Unique' Digest' where
  min := if rhs.min < v.min then rhs.min else v.min
  max := if v.max < rhs.max then rhs.max else v.max
  sum := v.sum + rhs.sum
  count := v.count + rhs.count
  sumsquare := v.sumsquare + rhs.sumsquare
  unique
  percentile
  mergeCount := v.mergeCount + 1
  cardinality := v.cardinality + rhs.cardinality
  minHost := v.minHost.mergeMin rhs.minHost
  maxHost := v.maxHost.mergeMax rhs.maxHost
  minHostStr := v.minHostStr.mergeMin rhs.minHostStr
  maxHostStr := v.maxHostStr.mergeMax rhs.maxHostStr

/-- How sets and digests are merged. -/
structure Mergers (Unique Digest : Type) where
  emptyUnique : Unique
  mergeUnique : Unique → Unique → Unique
  newDigest : Digest
  mergeDigest : Digest → Digest → Digest

namespace Mergers

variable {Unique Digest : Type} (m : Mergers Unique Digest)

/-- What a digest becomes by a merge with one that may be missing. -/
def mergeDigest? (p : Digest) : Option Digest → Digest
  | none => p
  | some rhs => m.mergeDigest p rhs

/-- The set after a merge: the first one starts from the empty set. -/
def uniqueOf (v rhs : Values Unique Digest) : Unique :=
  if v.mergeCount = 0 then m.mergeUnique (m.mergeUnique m.emptyUnique v.unique) rhs.unique
  else m.mergeUnique v.unique rhs.unique

/-- The digest after a merge: the first one starts from a new digest. -/
def percentileOf (v rhs : Values Unique Digest) : Option Digest :=
  if v.mergeCount = 0 then
    if v.percentile.isSome || rhs.percentile.isSome then
      some (m.mergeDigest? (m.mergeDigest? m.newDigest v.percentile) rhs.percentile)
    else none
  else
    match v.percentile with
    | none => rhs.percentile
    | some p => some (m.mergeDigest? p rhs.percentile)

def merge (v rhs : Values Unique Digest) : Values Unique Digest :=
  v.mergeNumbers rhs (m.uniqueOf v rhs) (m.percentileOf v rhs)

end Mergers

/-- A unique set, with the table it refers to. -/
structure UniqueRef where
  buf : Option Nat := none
  itemsCount : Int := 0
  sizeDegree : Nat := 0
  skipDegree : Nat := 0
  hasZeroItem : Bool := false
deriving Repr, DecidableEq

/-- A row as it is copied from the cache. -/
abbrev RowRef := Values UniqueRef Nat

/-- The digest library. `merge` gives the receiver and the argument after the call. -/
structure TDigest (Digest : Type) where
  new : Digest
  merge : Digest → Digest → Digest × Digest

structure Memory (Digest : Type) where
  digests : List Digest := []
  tables : List (List Hash) := []
  /-- The digests that were the receiver of a merge. -/
  written : List Nat := []

namespace Memory

variable {Digest : Type} (lib : TDigest Digest)

def digest (mem : Memory Digest) (p : Nat) : Digest := mem.digests.getD p lib.new

def mergeDigest (mem : Memory Digest) (p : Nat) : Option Nat → Memory Digest
  | none => mem
  | some q =>
    let merged := lib.merge (mem.digest lib p) (mem.digest lib q)
    { mem with
      digests := (mem.digests.set q merged.2).set p merged.1
      written := mem.written ++ [p] }

def newDigest (mem : Memory Digest) : Memory Digest × Nat :=
  ({ mem with digests := mem.digests ++ [lib.new] }, mem.digests.length)

/-- The set that is referred to. -/
def unique (mem : Memory Digest) (u : UniqueRef) : ChUnique where
  buf := u.buf.elim [] fun a => mem.tables.getD a []
  itemsCount := u.itemsCount
  sizeDegree := u.sizeDegree
  skipDegree := u.skipDegree
  hasZeroItem := u.hasZeroItem

def uniqueRef (ch : ChUnique) (buf : Nat) : UniqueRef where
  buf := some buf
  itemsCount := ch.itemsCount
  sizeDegree := ch.sizeDegree
  skipDegree := ch.skipDegree
  hasZeroItem := ch.hasZeroItem

/-- `ChUnique.Merge`. A table that has to grow moves to a new buffer; the old buffer was written
to before, `scrap` is what it holds then. -/
def mergeUnique (scrap : ChUnique → ChUnique → List Hash) (mem : Memory Digest)
    (u rhs : UniqueRef) : Option (Memory Digest × UniqueRef) :=
  match rhs.buf with
  | none => some (mem, u)
  | some _ =>
    ((mem.unique u).merge (mem.unique rhs)).map fun merged =>
      match u.buf with
      | none =>
        ({ mem with tables := mem.tables ++ [merged.buf] }, uniqueRef merged mem.tables.length)
      | some a =>
        if merged.sizeDegree ≤ u.sizeDegree then
          ({ mem with tables := mem.tables.set a merged.buf }, uniqueRef merged a)
        else
          let old := mem.tables.set a (scrap (mem.unique u) (mem.unique rhs))
          ({ mem with tables := old ++ [merged.buf] }, uniqueRef merged mem.tables.length)

/-- The percentile part of the first merge. -/
def copyDigests (mem : Memory Digest) (p q : Option Nat) : Memory Digest × Option Nat :=
  if p.isSome || q.isSome then
    let fresh := mem.newDigest lib
    (((fresh.1.mergeDigest lib fresh.2 p).mergeDigest lib fresh.2 q), some fresh.2)
  else (mem, none)

/-- The percentile part of the other merges. -/
def mergeDigests (mem : Memory Digest) (p q : Option Nat) : Memory Digest × Option Nat :=
  match p with
  | none => (mem, q)
  | some p => (mem.mergeDigest lib p q, some p)

/-- `tsValues.merge`; `none` as in `ChUnique.merge`. -/
def merge (scrap : ChUnique → ChUnique → List Hash) (mem : Memory Digest) (v rhs : RowRef) :
    Option (Memory Digest × RowRef) :=
  if v.mergeCount = 0 then
    (mem.mergeUnique scrap {} v.unique).bind fun (mem, u) =>
      (mem.mergeUnique scrap u rhs.unique).map fun (mem, u) =>
        let copied := mem.copyDigests lib v.percentile rhs.percentile
        (copied.1, v.mergeNumbers rhs u copied.2)
  else
    (mem.mergeUnique scrap v.unique rhs.unique).map fun (mem, u) =>
      let merged := mem.mergeDigests lib v.percentile rhs.percentile
      (merged.1, v.mergeNumbers rhs u merged.2)

/-- The rows are merged one after the other. -/
def mergeAll (scrap : ChUnique → ChUnique → List Hash) (mem : Memory Digest) (v : RowRef)
    (rows : List RowRef) : Option (Memory Digest × RowRef) :=
  rows.foldlM (fun state row => state.1.merge lib scrap state.2 row) (mem, v)

end Memory

end TsValues
