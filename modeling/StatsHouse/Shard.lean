import StatsHouse.MultiItemMap
import StatsHouse.StringTop

/-!
# A shard of the agent

Events go into a ring of buckets, one for each second from `SendTime` on. A key without a
timestamp gets the current time, one from the future is clamped, and a metric with a lower
resolution is rounded and spread over the next seconds. The flusher takes the buckets out in the
order of time, follows the clock, and jumps ahead after a long pause.

Where the code would panic or not return there is no result. How far a key buffer grows and how
often a string top is resampled are arguments, and so is the cache of mappings.
-/

open Sampling Function

inductive ShardStrategy where
  | shardFixed
  | shardByMetricID
  | shardByTagsHash
  | shardBuiltinDist
deriving Repr, DecidableEq

/-- The fields of the metadata that the agent reads when it adds an event. -/
structure MetricMetaValue where
  metricID : BitVec 32
  effectiveResolution : Int := 1
  isHardwareSlowMetric : Bool := false
  hasPercentiles : Bool := false
  withAggregatorID : Bool := false
  withAgentEnvRouteArch : Bool := false
  shardFixedKey : BitVec 32 := 0
  shardFixedKey2 : BitVec 32 := 0
  shardFixedKey2Timestamp : BitVec 32 := 0
  shardStrategy : ShardStrategy := .shardBuiltinDist
  shardNum : BitVec 32 := 0
deriving Repr, DecidableEq

/-- The fields of an item besides its key are in `contents`, in the order of creation. -/
structure MetricsBucket extends MultiItemMap where
  time : BitVec 32
  contents : List (MultiItem × Option MetricMetaValue)

namespace MetricsBucket

def zeroValue : MetricsBucket := { MultiItemMap.zeroValue with time := 0, contents := [] }

def empty (b : MetricsBucket) : Bool := b.entries.isEmpty

/-- `GetOrCreateMultiItem`, and what the caller then does with the item. -/
def change (b : MetricsBucket) (key : Key) (metricInfo : Option MetricMetaValue) (extra : Nat)
    (rng : Rng) (place : MultiItem × Rng → Option (MultiItem × Rng)) :
    Option (MetricsBucket × Rng) :=
  let r := b.toMultiItemMap.getOrCreateMultiItem key [] extra
  let contents := if r.2.2 then b.contents ++ [(({} : MultiItem), metricInfo)] else b.contents
  contents[r.2.1]?.bind fun content =>
    (place (content.1, rng)).map fun st =>
      ({ r.1 with time := b.time, contents := contents.set r.2.1 (st.1, content.2) }, st.2)

end MetricsBucket

namespace Key

def stringTopTagIndexV3 : Fin maxTags := ⟨47, by decide⟩

def removeStringTopTag (k : Key) : Key × TagUnion := ({ k with
    tags := update k.tags stringTopTagIndexV3 0
    stags := update k.stags stringTopTagIndexV3 [] },
    ⟨k.stags stringTopTagIndexV3, k.tags stringTopTagIndexV3⟩)

/-- A key with the given first tags. -/
def ofTags (t metric : BitVec 32) (tags : List (BitVec 32)) : Key :=
  ⟨t, metric, fun i => tags.getD i 0, fun _ => []⟩

end Key

def superQueueLen : Nat := 128

def superQueueFutureSlots : Nat := 3

structure Shard where
  currentTime : BitVec 32
  sendTime : BitVec 32
  superQueue : Fin superQueueLen → MetricsBucket
  stopReceivingIncomingData : Bool := false
  bucketsToPreprocess : List MetricsBucket := []
  /-- The channel is closed. -/
  preprocessorStopped : Bool := false
  rng : Rng
  stringTopCapacity : Int := 0
  legacyApplyValues : Bool := false
  hardwareMetricResolutionResolved : BitVec 32 := 1
  hardwareSlowMetricResolutionResolved : BitVec 32 := 1

namespace Shard

def gapInReceivingQueueLocked (s : Shard) : Int :=
  s.currentTime.toNat - (s.sendTime.toNat + (superQueueLen - superQueueFutureSlots) - 120)

def shouldDiscardIncomingData (s : Shard) : Bool :=
  s.stopReceivingIncomingData || s.gapInReceivingQueueLocked > 0

def hardwareMetric (metricID : BitVec 32) : Bool := metricID.toInt ≤ -1000

def resolution (s : Shard) : Option MetricMetaValue → BitVec 32
  | none => 1
  | some metricInfo =>
    if !hardwareMetric metricInfo.metricID then BitVec.ofInt 32 metricInfo.effectiveResolution
    else if metricInfo.isHardwareSlowMetric then s.hardwareSlowMetricResolutionResolved
    else s.hardwareMetricResolutionResolved

/-- The timestamp of a key, and whether it was clamped. -/
def clampTimestamp (currentTime t : BitVec 32) : BitVec 32 × Bool :=
  let t := if t = 0 then currentTime else t
  if t > currentTime + BitVec.ofNat 32 superQueueFutureSlots then
    (currentTime + BitVec.ofNat 32 superQueueFutureSlots, true)
  else (t, false)

/-- A part of the resolution in fixed point. -/
def resolutionShardNum (resolutionHash : BitVec 64) (resolution : BitVec 32) : BitVec 32 :=
  (((resolutionHash &&& 0xFFFFFFFF#64) * resolution.setWidth 64) >>> 32).setWidth 32

/-- The rounded timestamp and the slot. A late event goes to the next slot that fits. -/
def place (sendTime t resolution : BitVec 32) (resolutionHash : BitVec 64) :
    BitVec 32 × BitVec 32 :=
  if resolution = 1 then (t, if t < sendTime then sendTime else t)
  else
    let t := t / resolution * resolution
    let slot := t + resolution + resolutionShardNum resolutionHash resolution
    if slot < sendTime then
      (t, slot + (sendTime - slot + resolution - 1) / resolution * resolution)
    else (t, slot)

def index (slot : BitVec 32) : Fin superQueueLen :=
  ⟨slot.toNat % superQueueLen, Nat.mod_lt _ (by decide)⟩

/-- The key with its timestamp, the slot, and whether the timestamp was clamped. A resolution of
zero is divided by. -/
def resolutionShardFromHashLocked (s : Shard) (key : Key) (resolutionHash : BitVec 64)
    (metricInfo : Option MetricMetaValue) : Option (Key × BitVec 32 × Bool) :=
  let resolution := s.resolution metricInfo
  let clamped := clampTimestamp s.currentTime key.timestamp
  if resolution = 0 then none
  else
    let placed := place s.sendTime clamped.1 resolution resolutionHash
    some ({ key with timestamp := placed.1 }, placed.2, clamped.2)

/-- What all functions do that add to a shard: the shard, the key as it is left to the caller,
and whether the caller is to be told that it was clamped. -/
def add (s : Shard) (key : Key) (resolutionHash : BitVec 64) (metricInfo : Option MetricMetaValue)
    (dropIfBeforeTimestamp : BitVec 32) (extra : Nat)
    (change : TagUnion → MultiItem × Rng → Option (MultiItem × Rng)) :
    Option (Shard × Key × Bool) :=
  if s.shouldDiscardIncomingData then some (s, key, false)
  else
    let removed := key.removeStringTopTag
    (s.resolutionShardFromHashLocked removed.1 resolutionHash metricInfo).bind fun placed =>
      if placed.1.timestamp < dropIfBeforeTimestamp then some (s, placed.1, false)
      else
        ((s.superQueue (index placed.2.1)).change placed.1 metricInfo extra s.rng
          (change removed.2)).map fun r =>
            ({ s with
              superQueue := update s.superQueue (index placed.2.1) r.1
              rng := r.2 }, placed.1, placed.2.2)

end Shard

/-- A change of the value that was returned. -/
def MultiItem.modify (st : MultiItem × Rng) (f : Rng → MultiValue → Option (MultiValue × Rng)) :
    MultiItem.Slot → Option (MultiItem × Rng)
  | .tail => (f st.2 st.1.tail).map fun r => ({ st.1 with tail := r.1 }, r.2)
  | .top tag =>
    (st.1.top.lookup tag).bind fun v =>
      (f st.2 v).map fun r => ({ st.1 with top := st.1.top.insert tag r.1 }, r.2)

namespace Shard

/-- `MapStringTop` and a change of the value it returns. -/
def changeValue (s : Shard) (passes : Nat) (count : ℚ)
    (f : Rng → MultiValue → Option (MultiValue × Rng)) (topValue : TagUnion)
    (st : MultiItem × Rng) : Option (MultiItem × Rng) :=
  (MultiItem.mapStringTop passes st s.stringTopCapacity topValue count).bind fun r =>
    MultiItem.modify r.2 f r.1

def changeValueBytes (s : Shard) (passes : Nat) (count : ℚ)
    (f : Rng → MultiValue → Option (MultiValue × Rng)) (topValue : TagUnionBytes)
    (st : MultiItem × Rng) : Option (MultiItem × Rng) :=
  (MultiItem.mapStringTopBytes passes st s.stringTopCapacity topValue count).bind fun r =>
    MultiItem.modify r.2 f r.1

def addCounterHost (passes extra : Nat) (s : Shard) (key : Key) (resolutionHash : BitVec 64)
    (count : ℚ) (hostTag : TagUnion) (metricInfo : Option MetricMetaValue)
    (dropIfBeforeTimestamp : BitVec 32) : Option (Shard × Key) :=
  (s.add key resolutionHash metricInfo dropIfBeforeTimestamp extra
    (s.changeValue passes count fun rng v => some (v.addCounterHost rng count hostTag))).map
      fun r => (r.1, r.2.1)

def addCounterHostSrcIngestionStatus (passes extra : Nat) (s : Shard) (t : BitVec 32)
    (metricInfo : MetricMetaValue) (tags : List (BitVec 32)) (count : ℚ)
    (dropIfBeforeTimestamp : BitVec 32) : Option Shard :=
  if count ≤ 0 then some s
  else
    (s.addCounterHost passes extra (Key.ofTags t metricInfo.metricID tags) 0 count ⟨[], 0⟩
      (some metricInfo) dropIfBeforeTimestamp).map (·.1)

/-- The string is replaced by its mapping if there is one. -/
def addCounterHostStringBytesSrcIngestionStatus (passes extra : Nat)
    (getValueBytes : BitVec 32 → List UInt8 → Option (BitVec 32)) (s : Shard) (t : BitVec 32)
    (metricInfo : MetricMetaValue) (tags : List (BitVec 32)) (str : List UInt8) (count : ℚ)
    (dropIfBeforeTimestamp : BitVec 32) : Option Shard :=
  if count ≤ 0 then some s
  else
    let topValue : TagUnionBytes :=
      if str.length ≠ 0 then
        match getValueBytes t str with
        | some tag => ⟨[], tag⟩
        | none => ⟨str, 0⟩
      else ⟨[], 0⟩
    (s.add (Key.ofTags t metricInfo.metricID tags) 0 (some metricInfo) dropIfBeforeTimestamp extra
      fun _ => s.changeValueBytes passes count
        (fun rng v => some (v.addCounterHost rng count ⟨[], 0⟩)) topValue).map (·.1)

def builtinMetricMetaIngestionStatus : MetricMetaValue := { metricID := -11 }

def tagValueIDSrcIngestionStatusWarnTimestampClampedFuture : BitVec 32 := 59

def tagValueIDComponentAgent : BitVec 32 := 1

/-- The end of the functions for metrics of clients: an event from the future is reported, under
the timestamp it was given. -/
def reportClamped (passes extra : Nat) (dropIfBeforeTimestamp : BitVec 32)
    (r : Shard × Key × Bool) : Option (Shard × Key) :=
  if r.2.2 then
    (r.1.addCounterHostSrcIngestionStatus passes extra r.2.1.timestamp
      builtinMetricMetaIngestionStatus
      [r.2.1.tag 0, r.2.1.metric, tagValueIDSrcIngestionStatusWarnTimestampClampedFuture, 0,
        tagValueIDComponentAgent] 1 dropIfBeforeTimestamp).map fun s => (s, r.2.1)
  else some (r.1, r.2.1)

/-- How far the key buffers grow, for the event and for its report. -/
structure Growth where
  event : Nat := 0
  report : Nat := 0

def applyUnique (passes : Nat) (growth : Growth) (s : Shard) (key : Key)
    (resolutionHash : BitVec 64) (hashes : List (BitVec 64)) (count : ℚ) (hostTag : TagUnion)
    (metricInfo : Option MetricMetaValue) (dropIfBeforeTimestamp : BitVec 32) :
    Option (Shard × Key) :=
  let count := if count = 0 then (hashes.length : ℚ) else count
  if count ≤ 0 then some (s, key)
  else
    (s.add key resolutionHash metricInfo dropIfBeforeTimestamp growth.event
      (s.changeValue passes count fun rng v => v.applyUnique rng hashes count hostTag)).bind
        (reportClamped passes growth.report dropIfBeforeTimestamp)

def applyValues (passes : Nat) (growth : Growth) (s : Shard) (key : Key)
    (resolutionHash : BitVec 64) (histogram : List (ℚ × ℚ)) (values : List ℚ) (count : ℚ)
    (hostTag : TagUnion) (metricInfo : Option MetricMetaValue)
    (dropIfBeforeTimestamp : BitVec 32) : Option (Shard × Key) :=
  let totalCount := histogram.foldl (fun total kv => total + kv.2) (values.length : ℚ)
  let count := if count = 0 then totalCount else count
  let hasPercentiles := metricInfo.any (·.hasPercentiles)
  if count ≤ 0 then some (s, key)
  else
    (s.add key resolutionHash metricInfo dropIfBeforeTimestamp growth.event
      (s.changeValue passes count fun rng v => some (if s.legacyApplyValues then
          v.applyValuesLegacy rng histogram values count totalCount hostTag hasPercentiles
        else v.applyValues rng histogram values count totalCount hostTag hasPercentiles))).bind
        (reportClamped passes growth.report dropIfBeforeTimestamp)

def applyCounter (passes : Nat) (growth : Growth) (s : Shard) (key : Key)
    (resolutionHash : BitVec 64) (count : ℚ) (hostTag : TagUnion)
    (metricInfo : Option MetricMetaValue) (dropIfBeforeTimestamp : BitVec 32) :
    Option (Shard × Key) :=
  if count ≤ 0 then some (s, key)
  else
    (s.add key resolutionHash metricInfo dropIfBeforeTimestamp growth.event
      (s.changeValue passes count fun rng v => some (v.addCounterHost rng count hostTag))).bind
        (reportClamped passes growth.report dropIfBeforeTimestamp)

def addValueCounterHost (passes extra : Nat) (s : Shard) (key : Key) (resolutionHash : BitVec 64)
    (value count : ℚ) (hostTag : TagUnion) (metricInfo : Option MetricMetaValue)
    (dropIfBeforeTimestamp : BitVec 32) : Option (Shard × Key) :=
  (s.add key resolutionHash metricInfo dropIfBeforeTimestamp extra
    (s.changeValue passes count fun rng v => some (if metricInfo.any (·.hasPercentiles) then
        v.addValueCounterHostPercentile rng value count hostTag
      else v.addValueCounterHost rng value count hostTag))).map fun r => (r.1, r.2.1)

def mergeItemValue (passes extra : Nat) (s : Shard) (key : Key) (resolutionHash : BitVec 64)
    (itemValue : ItemValue) (metricInfo : Option MetricMetaValue)
    (dropIfBeforeTimestamp : BitVec 32) : Option (Shard × Key) :=
  (s.add key resolutionHash metricInfo dropIfBeforeTimestamp extra
    (s.changeValue passes itemValue.counter fun rng v =>
      let r := v.value.merge rng itemValue
      some ({ v with value := r.1 }, r.2))).map fun r => (r.1, r.2.1)

/-- The functions that add to a shard under a key of the caller. -/
inductive Data where
  | applyUnique (hashes : List (BitVec 64)) (count : ℚ)
  | applyValues (histogram : List (ℚ × ℚ)) (values : List ℚ) (count : ℚ)
  | applyCounter (count : ℚ)
  | addCounterHost (count : ℚ)
  | addValueCounterHost (value count : ℚ)
  | mergeItemValue (itemValue : ItemValue)

def addData (passes : Nat) (growth : Growth) (s : Shard) (key : Key) (resolutionHash : BitVec 64)
    (hostTag : TagUnion) (metricInfo : Option MetricMetaValue)
    (dropIfBeforeTimestamp : BitVec 32) : Data → Option (Shard × Key)
  | .applyUnique hashes count =>
    s.applyUnique passes growth key resolutionHash hashes count hostTag metricInfo
      dropIfBeforeTimestamp
  | .applyValues histogram values count =>
    s.applyValues passes growth key resolutionHash histogram values count hostTag metricInfo
      dropIfBeforeTimestamp
  | .applyCounter count =>
    s.applyCounter passes growth key resolutionHash count hostTag metricInfo dropIfBeforeTimestamp
  | .addCounterHost count =>
    s.addCounterHost passes growth.event key resolutionHash count hostTag metricInfo
      dropIfBeforeTimestamp
  | .addValueCounterHost value count =>
    s.addValueCounterHost passes growth.event key resolutionHash value count hostTag metricInfo
      dropIfBeforeTimestamp
  | .mergeItemValue itemValue =>
    s.mergeItemValue passes growth.event key resolutionHash itemValue metricInfo
      dropIfBeforeTimestamp

end Shard
