import StatsHouse.Shard

/-!
# Routing of events to shards

The agent sends every event to the shard of its metric, and to a second one if the metadata name
it. Both get the same pointer to the key. The first shard takes the string top tag out of it and
writes its own timestamp into it, so the second one gets a key that the first one left.

The cache of mappings and the hash of a key are parameters.
-/

open Shard Function
open Key (maxTags)

/-- What the agent keeps besides its shards. -/
structure Agent where
  shards : List Shard
  shardByMetricCount : BitVec 32 := 1
  aggregatorHost : BitVec 32 := 0
  aggregatorShardKey : BitVec 32 := 0
  aggregatorReplicaKey : BitVec 32 := 0

structure AgentEnvRouteArch where
  agentEnv : BitVec 32 := 0
  route : BitVec 32 := 0
  buildArch : BitVec 32 := 0

structure MappedMetricHeader where
  metricMeta : Option MetricMetaValue
  key : Key
  hostTag : TagUnion := ⟨[], 0⟩
  /-- The hash of the tag values as the client sent them. -/
  originalHash : BitVec 64 := 0
  ingestionStatus : BitVec 32 := 0
  invalidString : List UInt8 := []
  ingestionTagKey : BitVec 32 := 0
  notFoundTagName : Option (List UInt8) := none
  foundDraftTagName : Option (List UInt8) := none
  tagSetTwiceKey : BitVec 32 := 0
  legacyCanonicalTagKey : BitVec 32 := 0
  invalidRawValue : List UInt8 := []
  invalidRawTagKey : BitVec 32 := 0

structure MetricBytes where
  counter : ℚ := 0
  value : List ℚ := []
  unique : List (BitVec 64) := []
  histogram : List (ℚ × ℚ) := []

/-- What the runtime decides in the calls to one shard: how often a string top is resampled at
most, and how far key buffers grow in each call. -/
structure Outcomes where
  passes : Nat
  growth : Nat → Growth := fun _ => {}

/-- The answers of code outside: `xxh3.Hash` and the cache of mappings. -/
structure External where
  hash : List UInt8 → BitVec 64
  getValueBytes : BitVec 32 → List UInt8 → Option (BitVec 32)

namespace Agent

def shardByMappedTags (keyHash : BitVec 64) (numShards : BitVec 32) : BitVec 32 :=
  (((keyHash >>> 32) * numShards.setWidth 64) >>> 32).setWidth 32

/-- `sharding.Shard`. The hash skips the timestamp. -/
def shardOf (external : External) (key : Key) (info : MetricMetaValue)
    (shardByMetricCount : BitVec 32) : Option (BitVec 32 × Bool) :=
  if info.shardFixedKey > 0 then some (info.shardFixedKey - 1, true)
  else
    match info.shardStrategy with
    | .shardFixed => some (info.shardNum, true)
    | .shardByMetricID =>
      if shardByMetricCount = 0 then none else some (key.metric % shardByMetricCount, true)
    | .shardByTagsHash =>
      some (shardByMappedTags (external.hash (key.marshal.drop 4)) shardByMetricCount, true)
    | .shardBuiltinDist => some (0, false)

/-- The numbers of the two shards, and whether the first one is the right one. -/
def shard (external : External) (a : Agent) (key : Key) (metricInfo : MetricMetaValue) :
    Option (Nat × Bool × Option Nat) :=
  (shardOf external key metricInfo a.shardByMetricCount).map fun r =>
    let wrong := !r.2 || r.1.toNat ≥ a.shards.length
    let shardNum := if wrong then 0 else r.1.toNat
    let shardNum2 := (metricInfo.shardFixedKey2 - 1).toNat
    (shardNum, !wrong,
      if metricInfo.shardFixedKey2 > 0 ∧ shardNum2 < a.shards.length ∧ shardNum2 ≠ shardNum then
        some shardNum2
      else none)

def setShard (a : Agent) (n : Nat) (s : Shard) : Agent := { a with shards := a.shards.set n s }

/-- A status of the event, with a string or without. -/
structure Status where
  metricInfo : MetricMetaValue := builtinMetricMetaIngestionStatus
  tags : List (BitVec 32)
  str : Option (List UInt8) := none

def addStatus (external : External) (outcomes : Outcomes) (call : Nat) (s : Shard)
    (status : Status) (dropIfBeforeTimestamp : BitVec 32) : Option Shard :=
  match status.str with
  | none =>
    s.addCounterHostSrcIngestionStatus outcomes.passes (outcomes.growth call).event 0
      status.metricInfo status.tags 1 dropIfBeforeTimestamp
  | some str =>
    s.addCounterHostStringBytesSrcIngestionStatus outcomes.passes (outcomes.growth call).event
      external.getValueBytes 0 status.metricInfo status.tags str 1 dropIfBeforeTimestamp

def builtinMetricMetaIngestionStatusNoShard : MetricMetaValue := { metricID := -148 }

def tagValueIDSrcIngestionStatusOKCached : BitVec 32 := 10

def tagValueIDSrcIngestionStatusWarnMapTagNameNotFound : BitVec 32 := 33

def tagValueIDSrcIngestionStatusWarnMapTagSetTwice : BitVec 32 := 46

def tagValueIDSrcIngestionStatusWarnDeprecatedKeyName : BitVec 32 := 47

def tagValueIDSrcIngestionStatusWarnMapInvalidRawTagValue : BitVec 32 := 52

def tagValueIDSrcIngestionStatusWarnMapTagNameFoundDraft : BitVec 32 := 53

def tagValueIDSrcIngestionStatusErrShardingFailed : BitVec 32 := 54

/-- The statuses of an event that is applied: that it is, and the warnings. -/
def statuses (h : MappedMetricHeader) : List Status :=
  let tags (status tagKey : BitVec 32) : List (BitVec 32) :=
    [h.key.tag 0, h.key.metric, status, tagKey, tagValueIDComponentAgent]
  [{ tags := tags tagValueIDSrcIngestionStatusOKCached h.ingestionTagKey }] ++
    (h.notFoundTagName.map fun name =>
      { tags := tags tagValueIDSrcIngestionStatusWarnMapTagNameNotFound 0
        str := some name }).toList ++
    (h.foundDraftTagName.map fun name =>
      { tags := tags tagValueIDSrcIngestionStatusWarnMapTagNameFoundDraft 0
        str := some name }).toList ++
    (if h.tagSetTwiceKey ≠ 0 then
      [{ tags := tags tagValueIDSrcIngestionStatusWarnMapTagSetTwice h.tagSetTwiceKey }]
    else []) ++
    (if h.invalidRawTagKey ≠ 0 then
      [{ tags := tags tagValueIDSrcIngestionStatusWarnMapInvalidRawTagValue h.invalidRawTagKey
         str := some h.invalidRawValue }]
    else []) ++
    (if h.legacyCanonicalTagKey ≠ 0 then
      [{ tags := tags tagValueIDSrcIngestionStatusWarnDeprecatedKeyName h.legacyCanonicalTagKey }]
    else [])

/-- Each status goes to the first shard and then to the second one. -/
def addStatuses (external : External) (outcomes outcomes2 : Outcomes)
    (dropIfBeforeTimestamp : BitVec 32) :
    Nat → List Status → Shard × Option Shard → Option (Shard × Option Shard)
  | _, [], shards => some shards
  | call, status :: rest, (s, s2) => do
    let s ← addStatus external outcomes call s status 0
    match s2 with
    | none =>
      addStatuses external outcomes outcomes2 dropIfBeforeTimestamp (call + 1) rest (s, none)
    | some s2 => do
      let s2 ← addStatus external outcomes2 call s2 status dropIfBeforeTimestamp
      addStatuses external outcomes outcomes2 dropIfBeforeTimestamp (call + 1) rest (s, some s2)

/-- What goes to the shards of a metric. -/
structure Payload where
  metricInfo : MetricMetaValue
  key : Key
  statuses : List Status := []
  resolutionHash : BitVec 64 := 0
  hostTag : TagUnion := ⟨[], 0⟩
  data : Option Data

/-- The first shard gets the key, the second one what the first one left of it. -/
def addDataTo (outcomes outcomes2 : Outcomes) (call : Nat) (p : Payload) (data : Data)
    (shards : Shard × Option Shard) : Option (Shard × Option Shard) := do
  let r ← shards.1.addData outcomes.passes (outcomes.growth call) p.key p.resolutionHash p.hostTag
    (some p.metricInfo) 0 data
  match shards.2 with
  | none => some (r.1, none)
  | some s2 => do
    let r2 ← s2.addData outcomes2.passes (outcomes2.growth call) r.2 p.resolutionHash p.hostTag
      (some p.metricInfo) p.metricInfo.shardFixedKey2Timestamp data
    some (r.1, some r2.1)

def applyTo (external : External) (outcomes outcomes2 : Outcomes) (p : Payload)
    (shards : Shard × Option Shard) : Option (Shard × Option Shard) := do
  let shards ← addStatuses external outcomes outcomes2 p.metricInfo.shardFixedKey2Timestamp 0
    p.statuses shards
  match p.data with
  | none => some shards
  | some data => addDataTo outcomes outcomes2 p.statuses.length p data shards

/-- The shards with the given numbers, changed. -/
def route (external : External) (outcomes outcomes2 : Outcomes) (a : Agent) (p : Payload)
    (n : Nat) (n2 : Option Nat) : Option Agent := do
  let s ← a.shards[n]?
  match n2 with
  | none =>
    let r ← applyTo external outcomes outcomes2 p (s, none)
    some (a.setShard n r.1)
  | some n2 =>
    let s2 ← a.shards[n2]?
    let r ← applyTo external outcomes outcomes2 p (s, some s2)
    some ((a.setShard n r.1).setShard n2 (r.2.getD s2))

/-- Unique values, values or a counter. -/
def dataOf (m : MetricBytes) : Data :=
  if m.unique.length ≠ 0 then .applyUnique m.unique m.counter
  else if m.histogram.length + m.value.length ≠ 0 then .applyValues m.histogram m.value m.counter
  else .applyCounter m.counter

/-- What is sent for an event whose metric is known and has a shard. -/
def payloadOf (m : MetricBytes) (h : MappedMetricHeader) (metricInfo : MetricMetaValue) : Payload :=
  if h.ingestionStatus ≠ 0 then
    { metricInfo := metricInfo
      key := h.key
      statuses := [{ tags := [h.key.tag 0, h.key.metric, h.ingestionStatus, h.ingestionTagKey,
        tagValueIDComponentAgent], str := some h.invalidString }]
      data := none }
  else
    { metricInfo := metricInfo
      key := h.key
      statuses := statuses h
      resolutionHash := if metricInfo.effectiveResolution ≠ 1 then h.originalHash else 0
      hostTag := h.hostTag
      data := some (dataOf m) }

def applyMetric (external : External) (outcomes outcomes2 : Outcomes) (a : Agent)
    (m : MetricBytes) (h : MappedMetricHeader) : Option Agent :=
  match h.metricMeta with
  | none => do
    let s ← a.shards[0]?
    let s ← addStatus external outcomes 0 s
      { metricInfo := builtinMetricMetaIngestionStatusNoShard
        tags := [h.key.tag 0, h.key.metric, h.ingestionStatus, h.ingestionTagKey]
        str := some h.invalidString } 0
    some (a.setShard 0 s)
  | some metricInfo => do
    let (n, shard1ok, n2) ← a.shard external h.key metricInfo
    if !shard1ok then
      let s ← a.shards[n]?
      let s ← addStatus external outcomes 0 s
        { metricInfo := builtinMetricMetaIngestionStatusNoShard
          tags := [h.key.tag 0, h.key.metric, tagValueIDSrcIngestionStatusErrShardingFailed, 0] } 0
      some (a.setShard n s)
    else a.route external outcomes outcomes2 (payloadOf m h metricInfo) n n2

/-- A string tag that is mapped becomes an integer. -/
def fillStag (external : External) (t : BitVec 32) (stags : Fin maxTags → List UInt8) (key : Key)
    (i : Fin maxTags) : Key :=
  if (stags i).length = 0 then key
  else
    match external.getValueBytes t (stags i) with
    | some tag => { key with tags := update key.tags i tag }
    | none => { key with stags := update key.stags i (stags i) }

def setTags (key : Key) (tags : List (Fin maxTags × BitVec 32)) : Key :=
  tags.foldl (fun key tag => { key with tags := update key.tags tag.1 tag.2 }) key

/-- A string tag that is not given is empty. -/
def fillKey (external : External) (a : Agent) (t : BitVec 32) (metricInfo : MetricMetaValue)
    (tags : List (BitVec 32)) (stags : Fin maxTags → List UInt8) (aera : AgentEnvRouteArch) :
    Key :=
  let key := (List.finRange maxTags).foldl (fillStag external t stags)
    (Key.ofTags t metricInfo.metricID tags)
  let key :=
    if metricInfo.withAggregatorID then
      setTags key [(⟨11, by decide⟩, a.aggregatorHost), (⟨12, by decide⟩, a.aggregatorShardKey),
        (⟨13, by decide⟩, a.aggregatorReplicaKey)]
    else key
  if metricInfo.withAgentEnvRouteArch then
    setTags key [(⟨15, by decide⟩, aera.agentEnv), (⟨14, by decide⟩, aera.route),
      (⟨10, by decide⟩, aera.buildArch)]
  else key

/-- What all functions for built-in metrics do with a positive count. -/
def addBuiltin (external : External) (outcomes outcomes2 : Outcomes) (a : Agent) (count : ℚ)
    (p : Payload) : Option Agent :=
  if count ≤ 0 then some a
  else do
    let (n, _, n2) ← a.shard external p.key p.metricInfo
    a.route external outcomes outcomes2 p n n2

def addCounterHostAERAS (external : External) (outcomes outcomes2 : Outcomes) (a : Agent)
    (t : BitVec 32) (metricInfo : MetricMetaValue) (tags : List (BitVec 32))
    (stags : Fin maxTags → List UInt8) (count : ℚ) (hostTag : TagUnion)
    (aera : AgentEnvRouteArch) : Option Agent :=
  a.addBuiltin external outcomes outcomes2 count
    { metricInfo := metricInfo
      key := a.fillKey external t metricInfo tags stags aera
      hostTag := hostTag
      data := some (.addCounterHost count) }

def addValueCounterHostAERAS (external : External) (outcomes outcomes2 : Outcomes) (a : Agent)
    (t : BitVec 32) (metricInfo : MetricMetaValue) (tags : List (BitVec 32))
    (stags : Fin maxTags → List UInt8) (value counter : ℚ) (hostTag : TagUnion)
    (aera : AgentEnvRouteArch) : Option Agent :=
  a.addBuiltin external outcomes outcomes2 counter
    { metricInfo := metricInfo
      key := a.fillKey external t metricInfo tags stags aera
      hostTag := hostTag
      data := some (.addValueCounterHost value counter) }

def mergeItemValue (external : External) (outcomes outcomes2 : Outcomes) (a : Agent)
    (t : BitVec 32) (metricInfo : MetricMetaValue) (tags : List (BitVec 32)) (item : ItemValue) :
    Option Agent :=
  a.addBuiltin external outcomes outcomes2 item.counter
    { metricInfo := metricInfo
      key := a.fillKey external t metricInfo tags (fun _ => []) {}
      data := some (.mergeItemValue item) }

/-- The functions of the agent that send to shards. -/
inductive Request where
  | applyMetric (m : MetricBytes) (h : MappedMetricHeader)
  | addCounterHostAERAS (t : BitVec 32) (metricInfo : MetricMetaValue) (tags : List (BitVec 32))
      (stags : Fin maxTags → List UInt8) (count : ℚ) (hostTag : TagUnion) (aera : AgentEnvRouteArch)
  | addValueCounterHostAERAS (t : BitVec 32) (metricInfo : MetricMetaValue)
      (tags : List (BitVec 32)) (stags : Fin maxTags → List UInt8) (value counter : ℚ)
      (hostTag : TagUnion) (aera : AgentEnvRouteArch)
  | mergeItemValue (t : BitVec 32) (metricInfo : MetricMetaValue) (tags : List (BitVec 32))
      (item : ItemValue)

def handle (external : External) (outcomes outcomes2 : Outcomes) (a : Agent) :
    Request → Option Agent
  | .applyMetric m h => a.applyMetric external outcomes outcomes2 m h
  | .addCounterHostAERAS t metricInfo tags stags count hostTag aera =>
    a.addCounterHostAERAS external outcomes outcomes2 t metricInfo tags stags count hostTag aera
  | .addValueCounterHostAERAS t metricInfo tags stags value counter hostTag aera =>
    a.addValueCounterHostAERAS external outcomes outcomes2 t metricInfo tags stags value counter
      hostTag aera
  | .mergeItemValue t metricInfo tags item =>
    a.mergeItemValue external outcomes outcomes2 t metricInfo tags item

end Agent
