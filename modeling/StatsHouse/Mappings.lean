import StatsHouse.ChunkedItems

/-!
# The storage of string mappings

`MappingsStorage` keeps the numbers that the metadata service gave to strings. Strings are
spread over shards by their hash, and each shard has a map, the pairs that are not saved yet
and a chunked file. `Save` appends the pairs of each shard to its file; `load` reads the files
back. The version from which on mappings are requested is not in the files: it is the smallest
over the shards of the largest number that a chunk ends with.

A shard is locked for a whole batch and for the whole of taking its pairs, and the file of a
shard is written by one `Save` at a time, so a batch is one step and so is the save of a shard.
-/

namespace Mappings

open ByteCodec TLCodec ChunkedStorage

def chunkedMagicAllMappings : BitVec 32 := 0x83a28d30

structure Mapping where
  str : List UInt8
  value : BitVec 32
deriving Repr, DecidableEq

/-- The value as the `int32` it is. -/
def Mapping.id (m : Mapping) : Int := m.value.toInt

def mediumStringMarker : ℕ := 254

def hugeStringMarker : ℕ := 255

def tl2WriteSize (l : ℕ) : List UInt8 :=
  if l < mediumStringMarker then [UInt8.ofNat l]
  else if l < mediumStringMarker + 2 ^ 16 then
    UInt8.ofNat mediumStringMarker :: leBytes 2 (l - mediumStringMarker)
  else UInt8.ofNat hugeStringMarker :: leBytes 8 l

inductive ParseError where
  | unexpectedEOF
  | invalidLength
  /-- A slice out of range. -/
  | panic
deriving Repr, DecidableEq

def tl2ParseSize : List UInt8 → Except ParseError (ℕ × List UInt8)
  | [] => .error .unexpectedEOF
  | b0 :: r =>
    if b0.toNat < mediumStringMarker then .ok (b0.toNat, r)
    else if b0.toNat = mediumStringMarker then
      if r.length < 2 then .error .unexpectedEOF
      else .ok (mediumStringMarker + leNat (r.take 2), r.drop 2)
    else if r.length < 8 then .error .unexpectedEOF
    else if leNat (r.take 8) > 2 ^ 63 - 1 then .error .invalidLength
    else .ok (leNat (r.take 8), r.drop 8)

/-- `StringWriteTL2` and `IntWrite`. -/
def Mapping.write (m : Mapping) : List UInt8 :=
  tl2WriteSize m.str.length ++ m.str ++ putUint32 m.value

/-- One turn of the loop of `parseMappingChunkInplace`. -/
def readMapping (chunk : List UInt8) : Except ParseError (Mapping × List UInt8) :=
  match tl2ParseSize chunk with
  | .error e => .error e
  | .ok (l, r) =>
    if r.length < l + 4 then .error .panic
    else .ok (⟨r.take l, uint32 (r.drop l)⟩, (r.drop l).drop 4)

/-- The pairs that were handed out before the end or an error. A turn takes at least five
bytes, so the length of the chunk is enough fuel. -/
def parseLoop : ℕ → List UInt8 → List Mapping × Option ParseError
  | 0, _ => ([], none)
  | fuel + 1, chunk =>
    if chunk = [] then ([], none)
    else
      match readMapping chunk with
      | .error e => ([], some e)
      | .ok (m, rest) => (m :: (parseLoop fuel rest).1, (parseLoop fuel rest).2)

def parseMappingChunkInplace (chunk : List UInt8) : List Mapping × Option ParseError :=
  parseLoop chunk.length chunk

/-- A Go map from strings to numbers. -/
abbrev Table := List UInt8 → Option (BitVec 32)

def Table.set (t : Table) (m : Mapping) : Table := Function.update t m.str (some m.value)

def Table.setAll (t : Table) (ms : List Mapping) : Table := ms.foldl Table.set t

structure Config where
  shardCount : ℕ
  shardCount_pos : 0 < shardCount
  /-- xxh3 of a string. -/
  hashString : List UInt8 → BitVec 64
  /-- xxh3 of a chunk. -/
  hash128 : List UInt8 → Uint128

def Config.shardOf (c : Config) (str : List UInt8) : ℕ := (c.hashString str).toNat % c.shardCount

structure Shard where
  mappings : Table
  pendingPairs : List Mapping
  client : Client

/-- One turn of the loop of `goAddShardValues`: a string that has a value already is not
appended to the pairs to save, whatever its new value. -/
def Shard.addValue (s : Shard) (p : Mapping) : Shard := { s with
    pendingPairs := if s.mappings p.str = none then s.pendingPairs ++ [p] else s.pendingPairs
    mappings := s.mappings.set p }

section Disk

variable (c : Config)

/-- The part of `Save` for one shard. The pairs are gone whether or not they get to the file. -/
def Shard.save (faults : SaveFaults) (s : Shard) : Shard × Option WriteError :=
  let s' := { s with pendingPairs := [] }
  if s.pendingPairs = [] then (s', none)
  else
    let r := saveItems c.hash128 chunkedMagicAllMappings faults 0
      (s.pendingPairs.map Mapping.write) s.client
    ({ s' with client := r.1 }, r.2)

structure Loaded where
  storage : ChunkedStorage2
  mappings : Table
  version : Int
  err : Bool

/-- `var val int32`, set by every pair of the chunk. -/
def lastValue (pairs : List Mapping) : Int := (pairs.getLast?.map Mapping.id).getD 0

/-- The loop of `load` for one shard. A chunk takes more than one byte of the file, so the
length of the file is enough fuel. -/
def loadChunks (file : List UInt8) : ℕ → Loaded → Loaded
  | 0, l => l
  | fuel + 1, l =>
    match readNext c.hash128 chunkedMagicAllMappings .none file l.storage with
    | (.error _, storage) => { l with storage, err := true }
    | (.ok [], storage) => { l with storage }
    | (.ok (b :: bs), storage) =>
      let parsed := parseMappingChunkInplace (b :: bs)
      let mappings := l.mappings.setAll parsed.1
      match parsed.2 with
      | some _ => { l with storage, mappings, err := true }
      | none =>
        loadChunks file fuel
          { l with storage, mappings, version := max l.version (lastValue parsed.1) }

def loadShard (file : List UInt8) : Loaded := loadChunks c file (file.length + 1)
    { storage := newChunkedStorage2File file, mappings := fun _ => none, version := -1,
      err := false }

end Disk

structure MappingsStorage where
  shards : ℕ → Shard
  currentVersion : Int
  lastKnownVersion : Int

namespace MappingsStorage

variable (c : Config) (s : MappingsStorage)

def getValue (str : List UInt8) : Option (BitVec 32) := (s.shards (c.shardOf str)).mappings str

/-- `updateMappings`, after the loader returned without an error. -/
def updateMappings (mappings : List Mapping) (newCurV newLastV : Int) : MappingsStorage :=
  if mappings = [] then s
  else
    { shards := fun i =>
        (mappings.filter (fun m => c.shardOf m.str = i)).foldl Shard.addValue (s.shards i)
      currentVersion := newCurV
      lastKnownVersion := newLastV }

def setShard (i : ℕ) (shard : Shard) : MappingsStorage :=
  { s with shards := Function.update s.shards i shard }

/-- `Save` of one shard. -/
def saveShard (i : ℕ) (faults : SaveFaults) : MappingsStorage :=
  s.setShard i ((s.shards i).save c faults).1

/-- `Save`; the shards are independent of each other. -/
def save (faults : ℕ → SaveFaults) : MappingsStorage × Bool :=
  ({ s with shards := fun i => ((s.shards i).save c (faults i)).1 },
    (List.range c.shardCount).all (fun i => ((s.shards i).save c (faults i)).2.isNone))

/-- `LoadMappingsFiles`: the version is the smallest one of the shards. -/
def load (files : ℕ → List UInt8) : MappingsStorage :=
  let version := (List.range c.shardCount).foldl
    (fun v i => min v (loadShard c (files i)).version) (2 ^ 31 - 1)
  { shards := fun i =>
      { mappings := (loadShard c (files i)).mappings, pendingPairs := [],
        client := ⟨(loadShard c (files i)).storage, files i, none⟩ }
    currentVersion := version
    lastKnownVersion := version }

def file (i : ℕ) : List UInt8 := (s.shards i).client.file

end MappingsStorage

inductive Action where
  | deliver (mappings : List Mapping) (newCurV newLastV : Int)
  | save (faults : ℕ → SaveFaults)
  /-- What an interrupted `Save` does before it stops is a row of these. -/
  | saveShard (i : ℕ) (faults : SaveFaults)
  /-- The file of each shard keeps its first bytes. -/
  | restart (cut : ℕ → ℕ)

namespace MappingsStorage

variable (c : Config)

def step (s : MappingsStorage) : Action → MappingsStorage
  | .deliver mappings newCurV newLastV => s.updateMappings c mappings newCurV newLastV
  | .save faults => (s.save c faults).1
  | .saveShard i faults => s.saveShard c i faults
  | .restart cut => load c fun i => (s.file i).take (cut i)

def run (s : MappingsStorage) (actions : List Action) : MappingsStorage := actions.foldl (step c) s

/-- Empty files. -/
def start : MappingsStorage := load c fun _ => []

/-- Every action of the run is taken in a state that allows it. -/
def AllSteps (allowed : MappingsStorage → Action → Prop) : MappingsStorage → List Action → Prop
  | _, [] => True
  | s, a :: actions => allowed s a ∧ AllSteps allowed (s.step c a) actions

variable {c}

lemma AllSteps.induction {allowed : MappingsStorage → Action → Prop}
    {P : MappingsStorage → Prop} (step : ∀ s a, P s → allowed s a → P (s.step c a))
    {s : MappingsStorage} {actions : List Action} (all : AllSteps c allowed s actions)
    (h : P s) : P (s.run c actions) := by
  induction actions generalizing s with
  | nil => exact h
  | cons a actions ih => exact ih all.2 (step s a h all.1)

end MappingsStorage

end Mappings
